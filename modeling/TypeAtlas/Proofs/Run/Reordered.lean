import TypeAtlas.Proofs.Graph.Reordered
import TypeAtlas.Proofs.Run.Recorded

namespace TypeAtlas

variable {g : Graph} {t : Target} {b b' : Built} {r : Run}

def Graph.ConstantsApart (g : Graph) : Prop :=
  ∀ p ∈ g.packages, (((g.objectsOf p.id).filterMap Object.constant?).map Prod.fst).Nodup

structure Built.Alike (b b' : Built) : Prop where
  name_eq : b.decls.name = b'.decls.name
  enums : b.decls.enums.Perm b'.decls.enums
  constants : b.decls.constants.Perm b'.decls.constants
  structs : b.decls.structs.Perm b'.decls.structs
  classes : b.decls.classes.Perm b'.decls.classes
  isSaved_eq : b.isSaved = b'.isSaved

structure Run.Alike (r r' : Run) : Prop where
  packages : (r.built.map (·.decls.id)).Perm (r'.built.map (·.decls.id))
  built : ∀ b ∈ r.built, ∀ b' ∈ r'.built, b.decls.id = b'.decls.id → b.Alike b'
  order : r.shared.order.order.Perm r'.shared.order.order
  cycles : r.cycles = [] ↔ r'.cycles = []

theorem ok_injective {ε α : Type} : Function.Injective (Except.ok : α → Except ε α) :=
  fun _ _ heq => Except.ok.inj heq

theorem PackageDecls.hasContent_of_perm {d d' : PackageDecls} (henums : d.enums.Perm d'.enums)
    (hstructs : d.structs.Perm d'.structs) (hclasses : d.classes.Perm d'.classes) :
    d.hasContent = d'.hasContent := by
  rw [hasContent, hasContent, henums.any_eq, hstructs.any_eq, hclasses.any_eq]

namespace Graph.Reorders

variable (h : t.graph.Reorders g)

include h

theorem perm_packages : t.graph.packages.Perm g.packages := List.Perm.filter _ h

theorem references_eq : t.graph.References = g.References := by
  funext p q
  rw [References, References, h.refersTo_eq, eq_iff_iff, (h.perm_packages.map _).mem_iff]

theorem perm_objectsOf (p : ObjectId) : (t.graph.objectsOf p).Perm (g.objectsOf p) := by
  rw [objectsOf, objectsOf, h.packageOf?_eq]
  exact List.Perm.filter _ h

theorem enum?_eq : t.graph.enum? = g.enum? := by
  funext o
  rw [enum?, enum?, h.enumDecl_eq]

theorem declare_eq : Build.declare t = Build.declare (t.of g) := by
  funext o
  rw [Build.declare, Build.declare, h.structDecl_eq, h.classDecl_eq]

theorem alike {p : Object} (hp : p ∈ t.graph.packages) (hapart : t.graph.ConstantsApart)
    (hb : Recorded t p b) (hb' : Recorded (t.of g) p b') : b.Alike b' := by
  have henums : b.decls.enums.Perm b'.decls.enums := by
    rw [hb.enums, hb'.enums, h.enum?_eq]
    exact (h.perm_objectsOf p.id).filterMap _
  have hstructs : b.decls.structs.Perm b'.decls.structs := by
    have hsame := hb'.structs
    rw [← h.structDecl_eq] at hsame
    apply (List.map_perm_map_iff ok_injective).mp
    exact hb.structs.trans ((((h.perm_typesOf p.id).filter _).map _).trans hsame.symm)
  have hclasses : b.decls.classes.Perm b'.decls.classes := by
    have hsame := hb'.classes
    rw [← h.classDecl_eq] at hsame
    apply (List.map_perm_map_iff ok_injective).mp
    exact hb.classes.trans ((((h.perm_typesOf p.id).filter _).map _).trans hsame.symm)
  constructor
  case name_eq => rw [hb.name_eq, hb'.name_eq]
  case enums => exact henums
  case constants =>
    have hperm := (h.perm_objectsOf p.id).filterMap Object.constant?
    have hnames := hapart p hp
    have hnames' := (hperm.map Prod.fst).nodup_iff.mp hnames
    rw [hb.constants, hb'.constants, Table.foldl_insert_of_nodup hnames,
      Table.foldl_insert_of_nodup hnames']
    exact hperm
  case structs => exact hstructs
  case classes => exact hclasses
  case isSaved_eq =>
    rw [hb.isSaved_eq, hb'.isSaved_eq, PackageDecls.hasContent_of_perm henums hstructs hclasses]
    rfl

end Graph.Reorders

namespace Run

/-- The same objects in another order of capture make the same declarations, package by package, and
place the same packages.  They close cycles or they do not. -/
theorem same_in_any_order (g : Graph) (h : t.graph.Reorders g) (hapart : t.graph.ConstantsApart)
    (r : Run) (hr : generate t .start = .ok r) :
    ∃ r', generate (t.of g) .start = .ok r' ∧ r.Alike r' := by
  -- What the first run has declared can be declared, and the second declares nothing else.
  obtain ⟨r', hr'⟩ : ∃ r', generate (t.of g) .start = .ok r' := by
    apply exists_buildAll_of_ends
    intro p hp o howns
    have hp' : p ∈ t.graph.packages := h.perm_packages.mem_iff.mpr hp
    have hprocessed := processed_of_generate hr Resolution.isIdle_start
    obtain ⟨b, _, hb⟩ := exists_of_forall₂ hprocessed.flip hp'
    rw [← h.declare_eq]
    exact hb.ends (h.owns_eq ▸ howns)
  refine ⟨r', hr', ?packages, ?built, ?order, ?cycles⟩
  case packages =>
    rw [map_id_of_generate hr Resolution.isIdle_start,
      map_id_of_generate hr' Resolution.isIdle_start]
    exact h.perm_packages.map _
  case built =>
    intro b hb b' hb' heq
    obtain ⟨p, hp, hb⟩ := exists_of_forall₂ (recorded_of_generate hr) hb
    obtain ⟨p', hp', hb'⟩ := exists_of_forall₂ (recorded_of_generate hr') hb'
    have hmem : p' ∈ t.graph.packages := h.perm_packages.mem_iff.mpr hp'
    have hid : p.id = p'.id := by rw [← hb.id_eq, ← hb'.id_eq, heq]
    obtain rfl := List.inj_on_of_nodup_map t.graph.nodup_packages hp hmem hid
    exact h.alike hp hapart hb hb'
  case order =>
    apply (List.perm_ext_iff_of_nodup (nodup_order hr) (nodup_order hr')).mpr
    intro q
    rw [mem_order_iff hr, mem_order_iff hr', h.references_eq, h.owns_eq]
    simp only [h.perm_packages.mem_iff]
    rfl
  case cycles =>
    rw [cycles_eq_nil_iff hr, cycles_eq_nil_iff hr', h.references_eq]
    rfl

def crossed : Target where
  graph := {
    objects := [
      ⟨1, 0, "Core", none, "Package Core", none, none, 0, .package⟩,
      ⟨2, 1, "Engine", none, "Package Engine", none, none, 0, .package⟩,
      ⟨3, 2, "Box", none, "ScriptStruct Core.Box", some 1, some 1, 0,
        .scriptStruct ⟨some 4, 16, []⟩⟩,
      ⟨4, 3, "Box", none, "ScriptStruct Engine.Box", some 2, some 2, 0,
        .scriptStruct ⟨none, 8, []⟩⟩,
      ⟨5, 4, "Crate", none, "ScriptStruct Engine.Crate", some 2, some 2, 0,
        .scriptStruct ⟨some 3, 24, []⟩⟩,
      ⟨6, 5, "Shape", none, "Enum Engine.Shape", some 2, some 2, 0, .enumeration ["Flat"]⟩,
      ⟨7, 6, "LIMIT", none, "Const Engine.LIMIT", some 2, some 2, 0, .constant "4"⟩]
    distinct := by decide }
  policy := .standard
  memory := none

def crossedBackwards : Graph := ⟨crossed.graph.objects.reverse, by decide⟩

theorem same_in_any_order_crossed : crossed.graph.ConstantsApart ∧ ∃ r r',
    generate crossed .start = .ok r ∧ generate (crossed.of crossedBackwards) .start = .ok r'
    ∧ r.cycles = [⟨2, 1⟩] ∧ r'.cycles = [⟨1, 2⟩] ∧ r.Alike r' := by
  have hapart : crossed.graph.ConstantsApart := by
    unfold Graph.ConstantsApart
    decide +kernel
  have hrun : (generate crossed .start).map cycles = .ok [⟨2, 1⟩] := by decide +kernel
  have hrun' : (generate (crossed.of crossedBackwards) .start).map cycles = .ok [⟨1, 2⟩] := by
    decide +kernel
  obtain ⟨r, hr, hcycles⟩ := exists_ok_of_map hrun
  obtain ⟨r', hr', halike⟩ :=
    same_in_any_order crossedBackwards (List.reverse_perm _).symm hapart r hr
  rw [hr'] at hrun'
  exact ⟨hapart, r, r', hr, hr', hcycles, Except.ok.inj hrun', halike⟩

end Run

end TypeAtlas
