import TypeAtlas.Proofs.Resolution.Adds
import TypeAtlas.Proofs.Resolution.Ends
import TypeAtlas.Proofs.Run.Ordered

namespace TypeAtlas

open PackageOrder (Call Needs Mentions)
open Relation (TransGen)

variable {t : Target} {q : ObjectId} {o : Object} {ps : List Object} {b : Built} {r : Run}
  {shared : Resolution}

namespace Graph

def objectsOf (g : Graph) (package : ObjectId) : List Object :=
  g.objects.filter fun o => g.packageOf? o.id = some package

theorem filterMap_group (g : Graph) (p : ObjectId) :
    ((g.grouped.lookup p).getD []).filterMap g.get? = g.objectsOf p := by
  rw [lookup_grouped, List.filter_map, List.filterMap_map]
  have hself : ∀ o ∈ g.objectsOf p, (g.get? ∘ Object.id) o = some o := fun o ho =>
    get?_eq_some.mpr ⟨(List.mem_filter.mp ho).1, rfl⟩
  exact (List.filterMap_congr hself).trans List.filterMap_some

end Graph

structure Extras (g : Graph) (p : Object) (b : Built) : Prop where
  enums : b.decls.enums = (g.objectsOf p.id).filterMap g.enum?
  constants : b.decls.constants = ((g.objectsOf p.id).filterMap Object.constant?).foldl
    (fun constants c => Table.insert c.1 c.2 constants) []

namespace Run

theorem extras_of_buildAll (h : buildAll t t.graph.grouped shared ps = .ok r) :
    List.Forall₂ (Extras t.graph) ps r.built
    ∧ Asked (fun c => ∃ p ∈ ps, Due t.graph p.id c) shared.order r.shared.order
    ∧ ∀ p ∈ ps, ∀ o, t.graph.Owns p.id o → p.id ∈ r.shared.order.order := by
  induction ps generalizing shared r with
  | nil =>
    cases h
    exact ⟨.nil, .refl _ _, by simp⟩
  | cons p ps ih =>
    obtain ⟨b, shared₁, entries, rest, hb, hrest, rfl⟩ := buildAll_cons_eq_ok_iff.mp h
    obtain ⟨s, hs, heq⟩ := build_eq_ok_iff.mp hb
    cases heq
    have hadds : Adds t p.id (t.graph.objectsOf p.id) (.start shared p) s := by
      apply Build.adds_of_forM
      · exact fun o ho => of_decide_eq_true (List.mem_filter.mp ho).2
      · rw [← t.graph.filterMap_group]
        exact hs
    obtain ⟨hextras, hasked, hplaced⟩ := ih hrest
    refine ⟨.cons ⟨hadds.enums, hadds.constants⟩ hextras, ?_, ?_⟩
    · apply Asked.trans (hadds.asked.mono _) (hasked.mono _)
      · exact fun c hc => ⟨p, List.mem_cons_self, hc⟩
      · exact fun c ⟨p', hp', hc⟩ => ⟨p', List.mem_cons_of_mem _ hp', hc⟩
    · intro p' hp' o howns
      cases List.mem_cons.mp hp' with
      | inl heq =>
        subst heq
        have hget := Graph.get?_eq_some.mp (Graph.declarable?_eq_some.mp howns.declarable).1
        have ho : o ∈ t.graph.objectsOf p'.id :=
          List.mem_filter.mpr ⟨hget.1, decide_eq_true howns.package_eq⟩
        exact hasked.subset (hadds.mem_order o ho howns)
      | inr hp' => exact hplaced p' hp' o howns

end Run

/-- What is built for a package goes by its objects alone, whatever came before it. -/
structure Recorded (t : Target) (p : Object) (b : Built) : Prop extends Extras t.graph p b where
  id_eq : b.decls.id = p.id
  name_eq : b.decls.name = p.name
  structs : (b.decls.structs.map Except.ok).Perm
    (((t.graph.typesOf p.id).filter Object.isStruct).map (StructDecl.ofObject t))
  classes : (b.decls.classes.map Except.ok).Perm
    (((t.graph.typesOf p.id).filter Object.isClass).map
      fun o => (ClassDecl.ofObject t o).map Prod.fst)
  isSaved_eq : b.isSaved = (t.policy.emptyFiles || b.decls.hasContent)

namespace Processed

variable {p : Object}

theorem recorded (h : Processed t .start p b) (hextras : Extras t.graph p b) : Recorded t p b := by
  obtain ⟨declared, hperm, hdeclares⟩ := h.declares
  rw [Resolution.start, Graph.typesLeft_empty] at hperm
  obtain ⟨structs, hstructs, hall⟩ := hdeclares.structs
  obtain ⟨classes, hclasses, hall'⟩ := hdeclares.classes
  constructor
  case toExtras => exact hextras
  case id_eq => exact hdeclares.id_eq
  case name_eq => exact hdeclares.name_eq
  case structs =>
    rw [hstructs, PackageDecls.empty, List.nil_append,
      map_eq_of_forall₂ hall fun _ _ heq => heq.symm]
    exact (hperm.filter _).map _
  case classes =>
    have hmap : classes.map Except.ok = (declared.filter Object.isClass).map
        fun o => (ClassDecl.ofObject t o).map Prod.fst := by
      apply map_eq_of_forall₂ hall'
      intro o c hc
      obtain ⟨entries, heq⟩ := hc
      rw [heq]
      rfl
    rw [hclasses, PackageDecls.empty, List.nil_append, hmap]
    exact (hperm.filter _).map _
  case isSaved_eq => exact h.isSaved_eq

theorem ends (h : Processed t .start p b) (howns : t.graph.Owns p.id o) :
    Build.Ends (Build.declare t o) := by
  obtain ⟨declared, hperm, hdeclares⟩ := h.declares
  rw [Resolution.start, Graph.typesLeft_empty] at hperm
  have hdeclared : o ∈ declared := hperm.mem_iff.mpr (Graph.mem_typesOf.mpr howns)
  obtain ⟨_, _, hall⟩ := hdeclares.structs
  obtain ⟨_, _, hall'⟩ := hdeclares.classes
  by_cases hk : o.isStruct = true
  · obtain ⟨d, _, hd⟩ := exists_of_forall₂ hall.flip (List.mem_filter.mpr ⟨hdeclared, hk⟩)
    exact .declare_struct hk hd
  · have hk' : o.isClass = true := by simp [Graph.isClass_of_owns howns, hk]
    obtain ⟨d, _, entries, hd⟩ := exists_of_forall₂ hall'.flip (List.mem_filter.mpr ⟨hdeclared, hk'⟩)
    exact .declare_class hk' hd

end Processed

namespace Run

theorem recorded_of_generate (h : generate t .start = .ok r) :
    List.Forall₂ (Recorded t) t.graph.packages r.built :=
  .mp (fun _ _ hp hextras => hp.recorded hextras)
    (processed_of_generate h Resolution.isIdle_start) (extras_of_buildAll h).1

theorem mem_order_iff (h : generate t .start = .ok r) : q ∈ r.shared.order.order ↔
    (∃ p ∈ t.graph.packages, p.id = q ∧ ∃ o, t.graph.Owns q o)
      ∨ ∃ p, t.graph.References p q := by
  obtain ⟨_, ⟨asked, horder, hdue⟩, hplaced⟩ := extras_of_buildAll h
  obtain ⟨calls, hruns⟩ := exists_runs h
  constructor
  · intro hq
    rw [horder] at hq
    cases (PackageOrder.consistent_after asked).mem_iff q |>.mp hq with
    | inl hc =>
      obtain ⟨p, hp, hc⟩ := hdue _ hc
      cases hc with
      | ensure o howns => exact .inl ⟨p, hp, rfl, o, howns⟩
    | inr hn =>
      obtain ⟨q', ⟨_, hc⟩ | ⟨_, hc⟩⟩ := hn
      · obtain ⟨p, hp, hc⟩ := hdue _ hc
        cases hc with
        | require _ hrefers =>
          obtain ⟨o, _, howns, _⟩ := hrefers.2
          exact .inl ⟨p, hp, rfl, o, howns⟩
      · obtain ⟨p, hp, hc⟩ := hdue _ hc
        cases hc with
        | require _ hrefers => exact .inr ⟨p.id, List.mem_map_of_mem hp, hrefers⟩
  · rintro (⟨p, hp, rfl, o, howns⟩ | ⟨p, hrefers⟩)
    · exact hplaced p hp o howns
    · rw [hruns.order_eq]
      apply ((PackageOrder.consistent_after calls).mem_iff q).mpr
      exact .inr ⟨p, .inr ((hruns.needs_iff p q).mpr hrefers)⟩

theorem nodup_order (h : generate t .start = .ok r) : r.shared.order.order.Nodup := by
  obtain ⟨calls, hruns⟩ := exists_runs h
  rw [hruns.order_eq]
  exact (PackageOrder.consistent_after calls).nodup

theorem cycles_eq_nil_iff (h : generate t .start = .ok r) :
    r.cycles = [] ↔ ∀ p, ¬ TransGen t.graph.References p p := by
  obtain ⟨calls, hruns⟩ := exists_runs h
  have hneeds : Needs calls = t.graph.References := by
    funext p q
    exact propext (hruns.needs_iff p q)
  have horder : r.shared.order = PackageOrder.empty.after calls := hruns.order_eq
  rw [cycles, horder, (PackageOrder.consistent_after calls).onRecord.cycles_eq_nil_iff, hneeds]

theorem exists_build_of_ends {ids : List ObjectId} {package : Object}
    (h : ∀ o, t.graph.Owns package.id o → Build.Ends (Build.declare t o)) :
    ∃ result, build t shared package ids = .ok result := by
  obtain ⟨⟨⟩, s, hs⟩ := Build.Ends.addAll h ids (.start shared package)
  exact ⟨_, build_eq_ok_iff.mpr ⟨s, hs, rfl⟩⟩

theorem exists_buildAll_of_ends {groups : List (ObjectId × List ObjectId)}
    (h : ∀ p ∈ ps, ∀ o, t.graph.Owns p.id o → Build.Ends (Build.declare t o)) :
    ∃ r, buildAll t groups shared ps = .ok r := by
  induction ps generalizing shared with
  | nil => exact ⟨_, rfl⟩
  | cons p ps ih =>
    obtain ⟨⟨b, shared₁, entries⟩, hb⟩ := exists_build_of_ends (h p (by simp))
    obtain ⟨rest, hrest⟩ := ih fun p hp => h p (List.mem_cons_of_mem _ hp)
    exact ⟨_, buildAll_cons_eq_ok_iff.mpr ⟨b, shared₁, entries, rest, hb, hrest, rfl⟩⟩

end Run

end TypeAtlas
