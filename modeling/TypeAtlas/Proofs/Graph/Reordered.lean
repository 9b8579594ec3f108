import TypeAtlas.Proofs.Resolution.References

namespace TypeAtlas

variable {g g' : Graph} {t : Target}

def Graph.Reorders (g g' : Graph) : Prop := g.objects.Perm g'.objects

namespace Graph.Reorders

variable (h : g.Reorders g')

include h

theorem get?_eq : g.get? = g'.get? := by
  funext id
  ext o
  rw [get?_eq_some, get?_eq_some, List.Perm.mem_iff h]

theorem length_eq : g.objects.length = g'.objects.length := List.Perm.length_eq h

theorem aggregate?_eq : g.aggregate? = g'.aggregate? := by
  funext id
  rw [aggregate?, aggregate?, h.get?_eq]

theorem property?_eq : g.property? = g'.property? := by
  funext id
  rw [property?, property?, h.get?_eq]

theorem packageOf?_eq : g.packageOf? = g'.packageOf? := by
  funext id
  rw [packageOf?, packageOf?, h.get?_eq]

theorem superOf?_eq : g.superOf? = g'.superOf? := by
  funext id
  rw [superOf?, superOf?, h.aggregate?_eq]

theorem sizeOf_eq : g.sizeOf = g'.sizeOf := by
  funext id
  rw [Graph.sizeOf, Graph.sizeOf, h.aggregate?_eq]

theorem lineage_eq : g.lineage = g'.lineage := by
  funext steps
  induction steps with
  | zero => rfl
  | succ steps ih =>
    funext id
    simp only [lineage, h.superOf?_eq, ih]

theorem derivesFrom_eq : g.derivesFrom = g'.derivesFrom := by
  have hnamed : g.isNamed = g'.isNamed := by
    funext name id
    rw [isNamed, isNamed, h.get?_eq]
  funext id name
  rw [derivesFrom, derivesFrom, h.lineage_eq, h.length_eq, hnamed]

theorem nativeName_eq : g.nativeName = g'.nativeName := by
  funext o
  rw [nativeName, nativeName, h.derivesFrom_eq]

theorem uniqueName_eq : g.uniqueName = g'.uniqueName := by
  have hambiguous : g.isAmbiguous = g'.isAmbiguous := by
    funext o
    rw [isAmbiguous, isAmbiguous, List.Perm.length_eq (List.Perm.filter _ h)]
  funext o
  rw [uniqueName, uniqueName, h.nativeName_eq, hambiguous, h.get?_eq]

theorem infoWithin_eq : g.infoWithin = g'.infoWithin := by
  funext depth
  induction depth with
  | zero =>
    funext p
    simp only [infoWithin, infoWithin.element, h.get?_eq, h.uniqueName_eq, h.nativeName_eq]
  | succ depth ih =>
    have helement : infoWithin.element g (depth + 1) = infoWithin.element g' (depth + 1) := by
      funext id
      unfold infoWithin.element
      rw [h.property?_eq]
      cases g'.property? id with
      | none => rfl
      | some e => exact congrFun ih e.2
    funext p
    simp only [infoWithin, helement, h.get?_eq, h.uniqueName_eq, h.nativeName_eq]

theorem info_eq : g.info = g'.info := by
  funext p
  rw [info, info, h.infoWithin_eq, h.length_eq]

theorem prerequisites_eq : g.prerequisites = g'.prerequisites := by
  have hheld : g.heldStructs = g'.heldStructs := by
    funext p
    simp only [heldStructs, h.property?_eq]
  funext o
  rw [prerequisites, prerequisites, h.superOf?_eq, h.property?_eq, hheld]

theorem declarable?_eq : g.declarable? = g'.declarable? := by
  funext id
  rw [declarable?, declarable?, h.get?_eq]

theorem names_eq : g.Names = g'.Names := by
  funext o id
  rw [← eq_iff_iff.mpr mem_prerequisites, ← eq_iff_iff.mpr mem_prerequisites, h.prerequisites_eq]

theorem owns_eq : g.Owns = g'.Owns := by
  have hiff (f : Graph) (package : ObjectId) (o : Object) : f.Owns package o ↔
      f.declarable? o.id = some o ∧ f.packageOf? o.id = some package :=
    ⟨fun h => ⟨h.declarable, h.package_eq⟩, fun h => ⟨h.1, h.2⟩⟩
  funext package o
  rw [eq_iff_iff, hiff, hiff, h.declarable?_eq, h.packageOf?_eq]

theorem refersTo_eq : g.RefersTo = g'.RefersTo := by
  funext p q
  rw [RefersTo, RefersTo, h.owns_eq, h.names_eq]

theorem perm_typesOf (package : ObjectId) : (g.typesOf package).Perm (g'.typesOf package) := by
  rw [typesOf, typesOf, h.packageOf?_eq]
  exact List.Perm.filter _ h

theorem baseOf?_eq : g.baseOf? = g'.baseOf? := by
  funext o
  rw [baseOf?, baseOf?, h.superOf?_eq, h.get?_eq]

theorem inheritedSize_eq : g.inheritedSize = g'.inheritedSize := by
  funext o
  rw [inheritedSize, inheritedSize, h.baseOf?_eq, h.sizeOf_eq]

theorem enumDecl_eq : EnumDecl.ofObject? g = EnumDecl.ofObject? g' := by
  funext o names
  rw [EnumDecl.ofObject?, EnumDecl.ofObject?, h.uniqueName_eq]

theorem collect_eq : Layout.collect g = Layout.collect g' := by
  funext owner minOffset
  rw [Layout.collect, Layout.collect, h.get?_eq, h.property?_eq]

theorem reconstruct_eq : Layout.reconstruct g = Layout.reconstruct g' := by
  have hstep : Layout.State.step g = Layout.State.step g' := by
    funext s e
    rw [Layout.State.step, Layout.State.step, h.info_eq]
  have hsteps (es : List Layout.Entry) :
      (fun s => Layout.State.steps g s es) = fun s => Layout.State.steps g' s es := by
    induction es with
    | nil => rfl
    | cons e es ih =>
      funext s
      simp only [Layout.State.steps, hstep, fun s => congrFun ih s]
  funext alignment es start declared
  simp only [Layout.reconstruct, fun s => congrFun (hsteps es) s]

theorem methods_eq : Method.ofChildren g = Method.ofChildren g' := by
  have hpart : Method.part? g = Method.part? g' := by
    funext e
    rw [Method.part?, Method.part?, h.info_eq]
  have hparameters : Method.parametersOf g = Method.parametersOf g' := by
    funext policy children
    rw [Method.parametersOf, Method.parametersOf, h.property?_eq, hpart]
  have hfunction : Method.ofFunction? g = Method.ofFunction? g' := by
    funext policy o
    rw [Method.ofFunction?, Method.ofFunction?, hparameters]
  funext policy owner
  rw [Method.ofChildren, Method.ofChildren, h.get?_eq, hfunction]

end Graph.Reorders

def Target.of (t : Target) (g : Graph) : Target := { t with graph := g }

namespace Graph.Reorders

variable (h : t.graph.Reorders g)

include h

theorem layout_eq : StructDecl.layout t = StructDecl.layout (t.of g) := by
  funext o minOffset
  rw [StructDecl.layout, StructDecl.layout, h.reconstruct_eq, h.collect_eq, h.inheritedSize_eq,
    h.sizeOf_eq]
  rfl

theorem structDecl_eq : StructDecl.ofObject t = StructDecl.ofObject (t.of g) := by
  funext o
  rw [StructDecl.ofObject, StructDecl.ofObject, h.layout_eq, h.uniqueName_eq, h.baseOf?_eq,
    h.sizeOf_eq, h.inheritedSize_eq]
  rfl

theorem classDecl_eq : ClassDecl.ofObject t = ClassDecl.ofObject (t.of g) := by
  have hmembers : ClassDecl.membersOf t = ClassDecl.membersOf (t.of g) := by
    funext o
    rw [ClassDecl.membersOf, ClassDecl.membersOf, ClassDecl.ownMembers, ClassDecl.ownMembers,
      h.layout_eq, h.inheritedSize_eq]
    rfl
  have hname : ClassDecl.nameOf t.graph = ClassDecl.nameOf g := by
    funext o
    rw [ClassDecl.nameOf, ClassDecl.nameOf, h.nativeName_eq]
  funext o
  rw [ClassDecl.ofObject, ClassDecl.ofObject, hmembers, hname, h.methods_eq, h.baseOf?_eq,
    h.sizeOf_eq, h.inheritedSize_eq]
  rfl

end Graph.Reorders

end TypeAtlas
