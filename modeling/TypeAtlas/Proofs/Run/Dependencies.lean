import TypeAtlas.Proofs.Resolution.InTurn
import TypeAtlas.Proofs.Run.Closed
import TypeAtlas.Proofs.Run.Ordered
import Mathlib

namespace TypeAtlas

open Relation (TransGen)

variable {t : Target} {p o : Object} {package id other : ObjectId} {ids : List ObjectId}
  {os ps declared : List Object} {s s' : Session} {shared : Resolution}

theorem Session.leadsTo_of_isIdle {g : Graph} (h : s.shared.IsIdle) : s.LeadsTo g package ids :=
  fun id hid => absurd hid (h id)

theorem InTurn.isIdle (h : InTurn t s declared s') (hidle : s.shared.IsIdle) : s'.shared.IsIdle :=
  fun id hid => hidle id (h.inProgress hid)

namespace Build

theorem exists_inTurn_of_add (hidle : s.shared.IsIdle)
    (h : outcome (add t package o) s = (.ok (), s')) : ∃ declared, InTurn t s declared s' := by
  cases add_ok h with
  | inl hseen => exact hseen.exists_inTurn (Session.leadsTo_of_isIdle hidle)
  | inr hplain =>
    obtain ⟨_, hshared, hdecls⟩ := hplain
    exact ⟨[], .of_none_declared hdecls fun id _ _ => Session.status?_congr (by rw [hshared]) id⟩

theorem exists_inTurn_of_forM (hidle : s.shared.IsIdle)
    (h : outcome (os.forM (add t package)) s = (.ok (), s')) :
    ∃ declared, InTurn t s declared s' := by
  induction os generalizing s with
  | nil =>
    cases h
    exact ⟨[], .refl t _⟩
  | cons o os ih =>
    obtain ⟨s₁, hhead, htail⟩ := outcome_forM_cons.mp h
    obtain ⟨declared, hfirst⟩ := exists_inTurn_of_add hidle hhead
    obtain ⟨declared', hrest⟩ := ih (hfirst.isIdle hidle) htail
    exact ⟨declared ++ declared', hfirst.trans hrest⟩

end Build

namespace Run

theorem exists_inTurn_of_mem_built {groups : List (ObjectId × List ObjectId)} {r : Run} {b : Built}
    (hidle : shared.IsIdle) (h : buildAll t groups shared ps = .ok r) (hb : b ∈ r.built) :
    ∃ shared p s declared, InTurn t (.start shared p) declared s ∧ b.decls = s.decls := by
  induction ps generalizing shared r with
  | nil =>
    cases h
    cases hb
  | cons p ps ih =>
    obtain ⟨b₁, shared₁, entries, rest, hbuild, hrest, rfl⟩ := buildAll_cons_eq_ok_iff.mp h
    obtain ⟨s, hs, heq⟩ := build_eq_ok_iff.mp hbuild
    cases heq
    have hstart : (Session.start shared p).shared.IsIdle := hidle
    obtain ⟨declared, hturn⟩ := Build.exists_inTurn_of_forM hstart hs
    cases List.mem_cons.mp hb with
    | inl heq => exact ⟨shared, p, s, declared, hturn, by rw [heq]⟩
    | inr hb => exact ih (hturn.isIdle hstart) hrest hb

theorem sublist_of_awaits (hturn : ids.Pairwise fun id other => ¬ t.graph.Awaits id other)
    (h : t.graph.Awaits id other) (hid : id ∈ ids) (hother : other ∈ ids) :
    [other, id].Sublist ids := by
  apply (sublist_or_sublist hother hid h.ne).resolve_right
  intro hsub
  exact hturn.forall_sublist hsub h

theorem pairwise_not_awaits {b : Built} (h : InTurn t (.start shared p) declared s)
    (hb : b.decls = s.decls) :
    (b.decls.structs.map (·.id)).Pairwise (fun id other => ¬ t.graph.Awaits id other)
    ∧ (b.decls.classes.map (·.id)).Pairwise (fun id other => ¬ t.graph.Awaits id other) := by
  rw [hb, h.declares.map_structs, h.declares.map_classes]
  exact ⟨h.ordered.sublist (List.filter_sublist.map _),
    h.ordered.sublist (List.filter_sublist.map _)⟩

theorem mem_typeIds_of_dependsOn {r : Run} {b : Built} (h : generate t .start = .ok r)
    (hb : b ∈ r.built) (hid : id ∈ b.decls.typeIds) (hdepends : t.graph.DependsOn id other) :
    other ∈ b.decls.typeIds := by
  obtain ⟨p, _, hp⟩ := exists_of_forall₂ (processed_of_generate h Resolution.isIdle_start) hb
  cases hdepends with
  | @names package o o' howns howns' =>
    obtain ⟨o₁, ho₁, heq⟩ := List.mem_map.mp (hp.perm_types.mem_iff.mp hid)
    have hsame : p.id = package := (Graph.mem_typesLeft.mp ho₁).1.unique howns heq
    apply hp.perm_types.mem_iff.mpr
    apply List.mem_map_of_mem
    simpa [Resolution.start, Graph.mem_typesOf, hsame] using howns'

/-- A first run declares with every struct and class those of the same package that it depends on:
its super-type, and the structs that its properties or their elements hold.  They come first,
structs before structs and classes before classes, unless they depend on it in turn. -/
theorem dependencies_first (r : Run) (h : generate t .start = .ok r) : ∀ b ∈ r.built,
    b.decls.typeIds.Nodup
    ∧ ∀ id ∈ b.decls.typeIds, ∀ other, t.graph.DependsOn id other → other ∈ b.decls.typeIds
      ∧ (¬ TransGen t.graph.DependsOn other id →
        (id ∈ b.decls.structs.map (·.id) → other ∈ b.decls.structs.map (·.id) →
          [other, id].Sublist (b.decls.structs.map (·.id)))
        ∧ (id ∈ b.decls.classes.map (·.id) → other ∈ b.decls.classes.map (·.id) →
          [other, id].Sublist (b.decls.classes.map (·.id)))) := by
  intro b hb
  obtain ⟨_, _, _, _, hturn, hdecls⟩ := exists_inTurn_of_mem_built Resolution.isIdle_start h hb
  obtain ⟨hstructs, hclasses⟩ := pairwise_not_awaits hturn hdecls
  have hnodup : (declaredIds r.built).Nodup :=
    nodup_declaredIds (processed_of_generate h Resolution.isIdle_start) t.graph.nodup_packages
  refine ⟨(List.nodup_flatMap.mp hnodup).1 b hb, fun id hid other hdepends => ?_⟩
  refine ⟨mem_typeIds_of_dependsOn h hb hid hdepends, fun hback => ⟨?_, ?_⟩⟩
  · exact sublist_of_awaits hstructs ⟨hdepends, hback⟩
  · exact sublist_of_awaits hclasses ⟨hdepends, hback⟩

def whole : Object :=
  ⟨2, 1, "Whole", none, "ScriptStruct Game.Whole", some 1, some 1, 0,
    .scriptStruct ⟨some 4, 24, [5]⟩⟩

def core : Object :=
  ⟨4, 3, "Core", none, "ScriptStruct Game.Core", some 1, some 1, 0, .scriptStruct ⟨none, 8, []⟩⟩

def assembly : Target where
  graph := {
    objects := [
      ⟨1, 0, "Game", none, "Package Game", none, none, 0, .package⟩, whole,
      ⟨3, 2, "Part", none, "ScriptStruct Game.Part", some 1, some 1, 0,
        .scriptStruct ⟨some 2, 24, []⟩⟩, core,
      ⟨5, 4, "Parts", none, "Property Game.Whole.Parts", some 2, some 1, 0,
        .property ⟨8, 16, 1, 0, .array 6⟩⟩,
      ⟨6, 5, "Parts", none, "Property Game.Whole.Parts.Parts", some 5, some 1, 0,
        .property ⟨0, 24, 1, 0, .struct 3⟩⟩]
    distinct := by decide }
  policy := .standard
  memory := none

theorem dependencies_first_assembly : ∃ r, generate assembly .start = .ok r
    ∧ assembly.graph.DependsOn 2 4 ∧ ¬ TransGen assembly.graph.DependsOn 4 2
    ∧ ∃ b ∈ r.built, [4, 2].Sublist (b.decls.structs.map (·.id)) := by
  have hrun : (generate assembly .start).map (fun r => r.built.map fun b =>
      b.decls.structs.map (·.id)) = .ok [[4, 3, 2]] := by cbv
  obtain ⟨r, hr, hids⟩ := exists_ok_of_map hrun
  obtain ⟨b, hb, hstructs⟩ := List.mem_map.mp (hids ▸ List.mem_singleton_self [4, 3, 2])
  have howns : assembly.graph.Owns 1 core := ⟨by decide +kernel, rfl⟩
  have hdepends : assembly.graph.DependsOn whole.id core.id :=
    .names ⟨by decide +kernel, rfl⟩ howns (.super rfl (by decide)) (by decide)
  have hback : ¬ TransGen assembly.graph.DependsOn 4 2 := by
    intro hback
    obtain ⟨id, hid, _⟩ := TransGen.head'_iff.mp hback
    generalize hcore : 4 = first at hid
    cases hid with
    | @names package o o' howns' _ hnames =>
      obtain rfl : o = core := by
        have hget := howns'.declarable
        rw [← hcore, show assembly.graph.declarable? 4 = some core from howns.declarable] at hget
        exact (Option.some.inj hget).symm
      cases hnames with
      | super hsuper => cases hsuper
      | direct child q p hchild => cases hchild
      | element child q p inner q' p' hchild => cases hchild
  have hmem (id : ObjectId) (hid : id ∈ [4, 3, 2]) : id ∈ b.decls.structs.map (·.id) :=
    hstructs ▸ hid
  obtain ⟨_, hfirst⟩ := dependencies_first r hr b hb
  obtain ⟨_, hturn⟩ := hfirst 2 (List.mem_append_left _ (hmem 2 (by simp))) 4 hdepends
  exact ⟨r, hr, hdepends, hback, b, hb,
    (hturn hback).1 (hmem 2 (by simp)) (hmem 4 (by simp))⟩

end Run

end TypeAtlas
