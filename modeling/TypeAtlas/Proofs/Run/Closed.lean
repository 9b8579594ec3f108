import TypeAtlas.Proofs.Run.Once

namespace TypeAtlas

variable {t : Target} {o o' : Object} {id : ObjectId} {b : Built} {r : Run} {d : PackageDecls}

inductive Graph.BuildsOn (g : Graph) (o : Object) (id : ObjectId) : Prop
  | super : g.superOf? o.id = some id → BuildsOn g o id
  | property (child : ObjectId) (q : Object) (p : Property) : child ∈ o.children →
      g.property? child = some (q, p) → p.kind = .struct id → BuildsOn g o id

namespace PackageDecls

def typeIds (d : PackageDecls) : List ObjectId := d.structs.map (·.id) ++ d.classes.map (·.id)

structure IsBare (d : PackageDecls) : Prop where
  classes : d.classes = []
  enums : ∀ e ∈ d.enums, e.values = []
  structs : ∀ s ∈ d.structs, s.members = [] ∧ s.extraMethods = []

end PackageDecls

def Run.IsClosed (t : Target) (r : Run) : Prop :=
  ∀ d ∈ r.saved, ∀ o, o.id ∈ d.typeIds → ∀ o' q, t.graph.BuildsOn o o'.id → o'.id ≠ o.id →
    q ∈ t.graph.packages.map Object.id → t.graph.Owns q o' → ∃ d' ∈ r.saved, o'.id ∈ d'.typeIds

theorem Processed.isBare {shared : Resolution} {p : Object} (h : Processed t shared p b)
    (hnone : b.decls.hasContent = false) : b.decls.IsBare := by
  simp only [PackageDecls.hasContent, Bool.or_eq_false_iff, List.any_eq_false] at hnone
  obtain ⟨⟨henums, hstructs⟩, hclasses⟩ := hnone
  constructor
  case classes =>
    obtain ⟨declared, _, hdeclares⟩ := h.declares
    obtain ⟨new, hnew, hall⟩ := hdeclares.classes
    apply List.eq_nil_iff_forall_not_mem.mpr
    intro c hc
    have hmem : c ∈ new := by
      rw [hnew] at hc
      simpa [PackageDecls.empty] using hc
    obtain ⟨o, _, entries, hofObject⟩ := exists_of_forall₂ hall hmem
    exact hclasses c hc (ClassDecl.hasContent_of_ofObject hofObject)
  case enums =>
    intro e he
    simpa using henums e he
  case structs =>
    intro s hs
    simpa [StructDecl.hasContent] using hstructs s hs

namespace Run

theorem mem_saved : d ∈ r.saved ↔ ⟨d, true⟩ ∈ r.built := by
  simp only [saved, List.mem_map, List.mem_filter]
  constructor
  · rintro ⟨⟨d, isSaved⟩, ⟨hb, hsaved⟩, rfl⟩
    exact (show isSaved = true from hsaved) ▸ hb
  · intro hb
    exact ⟨⟨d, true⟩, ⟨hb, rfl⟩, rfl⟩

theorem exists_built {q : ObjectId} (h : generate t .start = .ok r)
    (hq : q ∈ t.graph.packages.map Object.id) (howns : t.graph.Owns q o) :
    ∃ b ∈ r.built, b.decls.id = q ∧ o.id ∈ b.decls.typeIds
      ∧ b.isSaved = (t.policy.emptyFiles || b.decls.hasContent)
      ∧ (b.decls.hasContent = false → b.decls.IsBare) := by
  have hprocessed := processed_of_generate h Resolution.isIdle_start
  obtain ⟨p, hp, rfl⟩ := List.mem_map.mp hq
  have hdeclared : o.id ∈ declaredIds r.built :=
    (mem_declaredIds hprocessed).mpr ⟨p, hp, o, howns, rfl⟩
  obtain ⟨b, hb, hmem⟩ := List.mem_flatMap.mp hdeclared
  obtain ⟨p', _, hb'⟩ := exists_of_forall₂ hprocessed hb
  obtain ⟨o', ho', heq⟩ := List.mem_map.mp (hb'.perm_types.mem_iff.mp hmem)
  have hsame : p'.id = p.id := (Graph.mem_typesLeft.mp ho').1.unique howns heq
  exact ⟨b, hb, hb'.id_eq.trans hsame, hmem, hb'.isSaved_eq, hb'.isBare⟩

/-- What the saved packages build on is saved with them, unless its own package is bare, and bare
packages are not asked for. -/
theorem closed_or_bare (r : Run) (h : generate t .start = .ok r) :
    ∀ d ∈ r.saved, ∀ o, o.id ∈ d.typeIds → ∀ o' q, t.graph.BuildsOn o o'.id → o'.id ≠ o.id →
      q ∈ t.graph.packages.map Object.id → t.graph.Owns q o' →
      (∃ d' ∈ r.saved, d'.id = q ∧ o'.id ∈ d'.typeIds)
      ∨ ∃ d', ⟨d', false⟩ ∈ r.built ∧ d'.id = q ∧ o'.id ∈ d'.typeIds
        ∧ t.policy.emptyFiles = false ∧ d'.IsBare := by
  intro _ _ _ _ o' q _ _ hq howns
  obtain ⟨⟨d', isSaved⟩, hb, hid, hmem, hsaved, hbare⟩ := exists_built h hq howns
  cases isSaved with
  | true => exact .inl ⟨d', mem_saved.mpr hb, hid, hmem⟩
  | false =>
    have hnone := Bool.or_eq_false_iff.mp hsaved.symm
    exact .inr ⟨d', hb, hid, hmem, hnone.1, hbare hnone.2⟩

def hollow : Object :=
  ⟨4, 3, "Hollow", none, "ScriptStruct Core.Hollow", some 2, some 2, 0, .scriptStruct ⟨none, 0, []⟩⟩

def solid : Object :=
  ⟨3, 2, "Solid", none, "ScriptStruct Engine.Solid", some 1, some 1, 0,
    .scriptStruct ⟨some 4, 8, []⟩⟩

def hollowCore : Target where
  graph := {
    objects := [
      ⟨1, 0, "Engine", none, "Package Engine", none, none, 0, .package⟩,
      ⟨2, 1, "Core", none, "Package Core", none, none, 0, .package⟩, solid, hollow]
    distinct := by decide }
  policy := .standard
  memory := none

theorem owns_hollow : hollowCore.graph.Owns 2 hollow := ⟨by decide +kernel, rfl⟩

theorem generate_hollowCore : ∃ r, generate hollowCore .start = .ok r
    ∧ (∃ d ∈ r.saved, solid.id ∈ d.typeIds) ∧ ∀ d ∈ r.saved, hollow.id ∉ d.typeIds := by
  have hrun : (generate hollowCore .start).map (fun r => r.saved.map (·.typeIds)) =
      .ok [[solid.id]] := by decide +kernel
  obtain ⟨r, hr, hids⟩ := exists_ok_of_map hrun
  refine ⟨r, hr, ?_, ?_⟩
  · obtain ⟨d, hd, hsolid⟩ := List.mem_map.mp (hids ▸ List.mem_singleton_self [solid.id])
    exact ⟨d, hd, hsolid ▸ List.mem_singleton_self _⟩
  · intro d hd
    have hmem : d.typeIds ∈ r.saved.map (·.typeIds) := List.mem_map_of_mem hd
    rw [hids, List.mem_singleton] at hmem
    rw [hmem]
    decide

theorem closed_or_bare_hollowCore : ∃ r, generate hollowCore .start = .ok r
    ∧ ∃ d, ⟨d, false⟩ ∈ r.built ∧ d.id = 2 ∧ hollow.id ∈ d.typeIds ∧ d.IsBare := by
  obtain ⟨r, hr, ⟨d, hd, hsolid⟩, hhollow⟩ := generate_hollowCore
  refine ⟨r, hr, ?_⟩
  cases closed_or_bare r hr d hd solid hsolid hollow 2 (.super rfl) (by decide) (by decide)
    owns_hollow with
  | inl hsaved =>
    obtain ⟨d', hd', _, hmem⟩ := hsaved
    exact absurd hmem (hhollow d' hd')
  | inr hbare =>
    obtain ⟨d', hb, hid, hmem, _, hbare⟩ := hbare
    exact ⟨d', hb, hid, hmem, hbare⟩

theorem not_isClosed : ∃ r, generate hollowCore .start = .ok r ∧ ¬ r.IsClosed hollowCore := by
  obtain ⟨r, hr, ⟨d, hd, hsolid⟩, hhollow⟩ := generate_hollowCore
  refine ⟨r, hr, fun hclosed => ?_⟩
  obtain ⟨d', hd', hmem⟩ :=
    hclosed d hd solid hsolid hollow 2 (.super rfl) (by decide) (by decide) owns_hollow
  exact hhollow d' hd' hmem

end Run

end TypeAtlas
