import TypeAtlas.Proofs.Run.Effects
import Mathlib.Data.List.Flatten

namespace TypeAtlas

open PackageOrder (Call)

variable {t : Target} {p o : Object} {id : ObjectId} {ps : List Object} {b : Built}
  {shared shared' : Resolution} {built : List Built} {calls : List Call}

namespace Graph

theorem nodup_packages (g : Graph) : (g.packages.map Object.id).Nodup :=
  g.distinct.sublist (List.filter_sublist.map Object.id)

theorem isClass_of_owns {g : Graph} {package : ObjectId} (h : g.Owns package o) :
    o.isClass = !o.isStruct := by
  have hagg := (declarable?_eq_some.mp h.declarable).2.1
  unfold Object.aggregate? at hagg
  unfold Object.isClass Object.isStruct
  cases hk : o.kind <;> simp_all [ObjectKind.tag]

end Graph

def declaredIds (built : List Built) : List ObjectId :=
  built.flatMap fun b => b.decls.structs.map (·.id) ++ b.decls.classes.map (·.id)

namespace Processed

theorem id_eq (h : Processed t shared p b) : b.decls.id = p.id := by
  obtain ⟨declared, _, hdeclares⟩ := h.declares
  exact hdeclares.id_eq

theorem perm_structs (h : Processed t shared p b) : (b.decls.structs.map (·.id)).Perm
    (((t.graph.typesLeft shared.progress p.id).filter Object.isStruct).map Object.id) := by
  obtain ⟨declared, hperm, hdeclares⟩ := h.declares
  rw [hdeclares.map_structs]
  exact (hperm.filter _).map _

theorem perm_classes (h : Processed t shared p b) : (b.decls.classes.map (·.id)).Perm
    (((t.graph.typesLeft shared.progress p.id).filter Object.isClass).map Object.id) := by
  obtain ⟨declared, hperm, hdeclares⟩ := h.declares
  rw [hdeclares.map_classes]
  exact (hperm.filter _).map _

theorem perm_types (h : Processed t shared p b) :
    (b.decls.structs.map (·.id) ++ b.decls.classes.map (·.id)).Perm
      ((t.graph.typesLeft shared.progress p.id).map Object.id) := by
  have hclass : (t.graph.typesLeft shared.progress p.id).filter Object.isClass =
      (t.graph.typesLeft shared.progress p.id).filter fun o => !o.isStruct := by
    apply List.filter_congr
    intro o ho
    exact Graph.isClass_of_owns (Graph.mem_typesLeft.mp ho).1
  have hboth := h.perm_structs.append h.perm_classes
  rw [hclass, ← List.map_append] at hboth
  exact hboth.trans ((List.filter_append_perm _ _).map _)

end Processed

theorem perm_flatMap_of_forall₂ {α β γ : Type} {R : α → β → Prop} {f : α → List γ}
    {g : β → List γ} {as : List α} {bs : List β} (h : List.Forall₂ R as bs)
    (hperm : ∀ a b, R a b → (g b).Perm (f a)) : (bs.flatMap g).Perm (as.flatMap f) := by
  induction h with
  | nil => exact .refl _
  | cons hab _ ih => exact (hperm _ _ hab).append ih

theorem perm_declaredIds (h : List.Forall₂ (Processed t shared) ps built) :
    (declaredIds built).Perm
      (ps.flatMap fun p => (t.graph.typesLeft shared.progress p.id).map Object.id) :=
  perm_flatMap_of_forall₂ h fun _ _ => Processed.perm_types

theorem nodup_declaredIds (h : List.Forall₂ (Processed t shared) ps built)
    (hnodup : (ps.map Object.id).Nodup) : (declaredIds built).Nodup := by
  rw [(perm_declaredIds h).nodup_iff, List.nodup_flatMap]
  constructor
  · intro p _
    exact t.graph.distinct.sublist ((List.filter_sublist.trans List.filter_sublist).map Object.id)
  · apply (List.pairwise_map.mp hnodup).imp
    intro p q hne id hp hq
    obtain ⟨o, ho, rfl⟩ := List.mem_map.mp hp
    obtain ⟨o', ho', heq⟩ := List.mem_map.mp hq
    exact hne ((Graph.mem_typesLeft.mp ho).1.unique (Graph.mem_typesLeft.mp ho').1 heq.symm)

theorem mem_declaredIds (h : List.Forall₂ (Processed t .start) ps built) :
    id ∈ declaredIds built ↔ ∃ p ∈ ps, ∃ o, t.graph.Owns p.id o ∧ o.id = id := by
  rw [(perm_declaredIds h).mem_iff]
  simp [Resolution.start, Graph.mem_typesOf]

theorem Processed.types_eq_nil (h : Processed t shared p b)
    (hleft : t.graph.typesLeft shared.progress p.id = []) :
    b.decls.structs = [] ∧ b.decls.classes = [] := by
  have hnone := h.perm_types
  rw [hleft, List.map_nil, List.perm_nil, List.append_eq_nil_iff, List.map_eq_nil_iff,
    List.map_eq_nil_iff] at hnone
  exact hnone

namespace Run

theorem processed_of_generate {r : Run} (h : generate t shared = .ok r) (hidle : shared.IsIdle) :
    List.Forall₂ (Processed t shared) t.graph.packages r.built := by
  obtain ⟨calls, hruns⟩ := exists_runs h
  exact hruns.processed hidle t.graph.nodup_packages

theorem map_id_of_generate {r : Run} (h : generate t shared = .ok r) (hidle : shared.IsIdle) :
    r.built.map (·.decls.id) = t.graph.packages.map Object.id :=
  map_eq_of_forall₂ (processed_of_generate h hidle) fun _ _ => Processed.id_eq

/-- A first run declares the structs and classes of every package in what is built for it, once
each; they are done then, and no others are.  A run that goes on from there comes to its end and
declares none of them again. -/
theorem types_declared_once (r : Run) (h : generate t .start = .ok r) :
    r.built.map (·.decls.id) = t.graph.packages.map Object.id
    ∧ (∀ b ∈ r.built,
      (b.decls.structs.map (·.id)).Perm
        (((t.graph.typesOf b.decls.id).filter Object.isStruct).map Object.id)
      ∧ (b.decls.classes.map (·.id)).Perm
        (((t.graph.typesOf b.decls.id).filter Object.isClass).map Object.id))
    ∧ (declaredIds r.built).Nodup
    ∧ (∀ id ∈ declaredIds r.built, r.shared.progress.status? id = some .done)
    ∧ (∀ id ∉ declaredIds r.built, r.shared.progress.status? id = none
      ∨ r.shared.progress.status? id = some .notStarted)
    ∧ ∀ policy memory, ∃ again, generate ⟨t.graph, policy, memory⟩ r.shared = .ok again
      ∧ ∀ b ∈ again.built, b.decls.structs = [] ∧ b.decls.classes = [] := by
  obtain ⟨calls, hruns⟩ := exists_runs h
  have hidle : r.shared.IsIdle := hruns.isIdle Resolution.isIdle_start
  have hprocessed := processed_of_generate h Resolution.isIdle_start
  have hdone (id : ObjectId) : r.shared.progress.isDone id ↔ id ∈ declaredIds r.built := by
    rw [hruns.isDone_iff Resolution.isIdle_start, mem_declaredIds hprocessed]
    simp [Resolution.start, Progress.isDone, Progress.status?, Progress.empty]
  refine ⟨map_id_of_generate h Resolution.isIdle_start, ?records,
    nodup_declaredIds hprocessed t.graph.nodup_packages, ?done, ?others, ?again⟩
  case records =>
    intro b hb
    obtain ⟨p, _, hp⟩ := exists_of_forall₂ hprocessed hb
    have hstructs := hp.perm_structs
    have hclasses := hp.perm_classes
    rw [← hp.id_eq] at hstructs hclasses
    simp only [Resolution.start, Graph.typesLeft_empty] at hstructs hclasses
    exact ⟨hstructs, hclasses⟩
  case done =>
    intro id hid
    exact of_decide_eq_true ((hdone id).mpr hid)
  case others =>
    intro id hid
    cases hstatus : r.shared.progress.status? id with
    | none => exact .inl rfl
    | some status =>
      cases status with
      | notStarted => exact .inr rfl
      | inProgress => exact absurd hstatus (hidle id)
      | done => exact absurd ((hdone id).mp (decide_eq_true hstatus)) hid
  case again =>
    intro policy memory
    -- All types are done by now, so that the second run has none left and nothing to overflow.
    have hdeclared (p : Object) (hp : p ∈ t.graph.packages) (o : Object)
        (howns : t.graph.Owns p.id o) : r.shared.progress.isDone o.id :=
      (hdone o.id).mpr ((mem_declaredIds hprocessed).mpr ⟨p, hp, o, howns, rfl⟩)
    obtain ⟨again, hagain⟩ : ∃ again, generate ⟨t.graph, policy, memory⟩ r.shared = .ok again :=
      exists_generate_ok fun p hp o howns => .inr (of_decide_eq_true (hdeclared p hp o howns))
    refine ⟨again, hagain, fun b hb => ?_⟩
    obtain ⟨p, hp, hb⟩ := exists_of_forall₂ (processed_of_generate hagain hidle) hb
    apply hb.types_eq_nil
    rw [Graph.typesLeft, List.filter_eq_nil_iff]
    intro o ho
    simp [hdeclared p hp o (Graph.mem_typesOf.mp ho)]

def twins : Target where
  graph := {
    objects := [
      ⟨1, 0, "Game", none, "Package Game", none, none, 0, .package⟩,
      ⟨2, 1, "Left", none, "ScriptStruct Game.Left", some 1, some 1, 0,
        .scriptStruct ⟨some 3, 8, []⟩⟩,
      ⟨3, 2, "Right", none, "ScriptStruct Game.Right", some 1, some 1, 0,
        .scriptStruct ⟨some 2, 8, []⟩⟩]
    distinct := by decide }
  policy := .standard
  memory := none

theorem types_declared_once_twins : ∃ r, generate twins .start = .ok r
    ∧ declaredIds r.built = [3, 2]
    ∧ r.shared.progress.status? 2 = some .done ∧ r.shared.progress.status? 3 = some .done
    ∧ ∃ again, generate twins r.shared = .ok again ∧ declaredIds again.built = [] := by
  have hrun : (generate twins .start).map (fun r => declaredIds r.built) = .ok [3, 2] := by
    decide +kernel
  obtain ⟨r, hr, hids⟩ := exists_ok_of_map hrun
  obtain ⟨_, _, _, hdone, _, hagain⟩ := types_declared_once r hr
  rw [hids] at hdone
  obtain ⟨again, hok, hnone⟩ := hagain twins.policy twins.memory
  refine ⟨r, hr, hids, hdone 2 (by simp), hdone 3 (by simp), again, hok, ?_⟩
  apply List.flatMap_eq_nil_iff.mpr
  intro b hb
  rw [(hnone b hb).1, (hnone b hb).2]
  rfl

end Run

end TypeAtlas
