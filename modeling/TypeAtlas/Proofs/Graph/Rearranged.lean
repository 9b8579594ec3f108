import TypeAtlas.Sdk.Layout
import Mathlib.Data.List.Forall2
import Mathlib.Data.List.Permutation

namespace TypeAtlas

structure Aggregate.Rearranged (a b : Aggregate) : Prop where
  super_eq : a.super = b.super
  size_eq : a.size = b.size
  children : a.children.Perm b.children

inductive ObjectKind.Rearranged : ObjectKind → ObjectKind → Prop
  | same (k : ObjectKind) : Rearranged k k
  | scriptStruct {a b : Aggregate} : a.Rearranged b → Rearranged (.scriptStruct a) (.scriptStruct b)
  | classType {a b : Aggregate} : a.Rearranged b → Rearranged (.classType a) (.classType b)

inductive Object.Rearranged (o : Object) : Object → Prop
  | withKind {k : ObjectKind} : o.kind.Rearranged k → Rearranged o { o with kind := k }

/-- The same objects, but for the order of the children of structs and classes. -/
def Graph.Rearranged (g g' : Graph) : Prop :=
  List.Forall₂ Object.Rearranged g.objects g'.objects

theorem Aggregate.Rearranged.refl (a : Aggregate) : a.Rearranged a := ⟨rfl, rfl, .refl _⟩

namespace Object.Rearranged

variable {o o' : Object} (h : o.Rearranged o')

include h

theorem id_eq : o'.id = o.id := by
  cases h
  rfl

theorem name_eq : o'.name = o.name := by
  cases h
  rfl

theorem tag_eq : o'.kind.tag = o.kind.tag := by
  obtain ⟨hkind⟩ := h
  generalize o.kind = k at hkind
  cases hkind <;> rfl

theorem property?_eq : o'.property? = o.property? := by
  obtain ⟨hkind⟩ := h
  unfold Object.property?
  generalize o.kind = k at hkind
  cases hkind <;> rfl

theorem eq_of_property {p : Property} (hp : o.property? = some p) : o' = o := by
  obtain ⟨hkind⟩ := h
  obtain ⟨id, index, name, nativeName, fullName, outer, package, address, kind⟩ := o
  cases hkind with
  | same => rfl
  | scriptStruct => cases hp
  | classType => cases hp

theorem aggregate? : (o.aggregate? = none ∧ o'.aggregate? = none)
    ∨ ∃ a b, o.aggregate? = some a ∧ o'.aggregate? = some b ∧ a.Rearranged b := by
  obtain ⟨hkind⟩ := h
  obtain ⟨id, index, name, nativeName, fullName, outer, package, address, kind⟩ := o
  cases hkind with
  | same =>
    cases kind with
    | scriptStruct a => exact .inr ⟨a, a, rfl, rfl, .refl a⟩
    | classType a => exact .inr ⟨a, a, rfl, rfl, .refl a⟩
    | _ => exact .inl ⟨rfl, rfl⟩
  | scriptStruct h => exact .inr ⟨_, _, rfl, rfl, h⟩
  | classType h => exact .inr ⟨_, _, rfl, rfl, h⟩

theorem children : o.children.Perm o'.children := by
  obtain ⟨hkind⟩ := h
  unfold Object.children
  generalize o.kind = k at hkind
  cases hkind with
  | same => exact .refl _
  | scriptStruct h => exact h.children
  | classType h => exact h.children

end Object.Rearranged

namespace Graph.Rearranged

variable {g g' : Graph} {o o' : Object} (h : g.Rearranged g')

include h

theorem length_eq : g'.objects.length = g.objects.length := (List.Forall₂.length_eq h).symm

theorem get? (id : ObjectId) : (g.get? id = none ∧ g'.get? id = none)
    ∨ ∃ o o', g.get? id = some o ∧ g'.get? id = some o' ∧ o.Rearranged o' := by
  have hfind {os os' : List Object} (h : List.Forall₂ Object.Rearranged os os') :
      (os.find? (·.id = id) = none ∧ os'.find? (·.id = id) = none)
      ∨ ∃ o o', os.find? (·.id = id) = some o ∧ os'.find? (·.id = id) = some o'
        ∧ o.Rearranged o' := by
    induction h with
    | nil => exact .inl ⟨rfl, rfl⟩
    | @cons o o' _ _ ho _ ih =>
      rw [List.find?_cons, List.find?_cons, ho.id_eq]
      split
      · exact .inr ⟨o, o', rfl, rfl, ho⟩
      · exact ih
  exact hfind h

theorem property?_eq : g'.property? = g.property? := by
  funext id
  obtain ⟨hnone, hnone'⟩ | ⟨o, o', hsome, hsome', ho⟩ := h.get? id
  · simp [property?, hnone, hnone']
  · cases hp : o.property? with
    | none => simp [property?, hsome, hsome', ho.property?_eq, hp]
    | some p => simp [property?, hsome, hsome', ho.eq_of_property hp]

theorem aggregate? (id : ObjectId) : (g.aggregate? id = none ∧ g'.aggregate? id = none)
    ∨ ∃ a b, g.aggregate? id = some a ∧ g'.aggregate? id = some b ∧ a.Rearranged b := by
  obtain ⟨hnone, hnone'⟩ | ⟨o, o', hsome, hsome', ho⟩ := h.get? id
  · simp [Graph.aggregate?, hnone, hnone']
  · simpa [Graph.aggregate?, hsome, hsome'] using ho.aggregate?

theorem superOf?_eq : g'.superOf? = g.superOf? := by
  have hvalid (super : ObjectId) : (g'.aggregate? super).bind (fun _ => some super)
      = (g.aggregate? super).bind fun _ => some super := by
    obtain ⟨hnone, hnone'⟩ | ⟨a, b, hsome, hsome', _⟩ := h.aggregate? super
    · rw [hnone, hnone']
    · rw [hsome, hsome', Option.bind_some, Option.bind_some]
  funext id
  obtain ⟨hnone, hnone'⟩ | ⟨a, b, hsome, hsome', ha⟩ := h.aggregate? id
  · simp [superOf?, hnone, hnone']
  · simpa [superOf?, hsome, hsome', ha.super_eq] using congrArg b.super.bind (funext hvalid)

theorem lineage_eq : g'.lineage = g.lineage := by
  funext steps
  induction steps with
  | zero => rfl
  | succ steps ih =>
    funext id
    simp only [lineage, h.superOf?_eq, ih]

theorem derivesFrom_eq : g'.derivesFrom = g.derivesFrom := by
  have hnamed : g'.isNamed = g.isNamed := by
    funext name id
    obtain ⟨hnone, hnone'⟩ | ⟨o, o', hsome, hsome', ho⟩ := h.get? id
    · simp [isNamed, hnone, hnone']
    · simp [isNamed, hsome, hsome', ho.name_eq]
  funext id name
  rw [derivesFrom, derivesFrom, h.lineage_eq, h.length_eq, hnamed]

theorem nativeName_eq (ho : o.Rearranged o') : g'.nativeName o' = g.nativeName o := by
  have hnative : o'.nativeName = o.nativeName := by
    cases ho
    rfl
  rw [nativeName, nativeName, hnative, ho.tag_eq, ho.name_eq, ho.id_eq, h.derivesFrom_eq]

theorem isAmbiguous_eq (ho : o.Rearranged o') : g'.isAmbiguous o' = g.isAmbiguous o := by
  have hcount {os os' : List Object} (h : List.Forall₂ Object.Rearranged os os')
      (p : Object → Bool) (hp : ∀ o o', o.Rearranged o' → p o' = p o) :
      (os'.filter p).length = (os.filter p).length := by
    rw [← List.countP_eq_length_filter, ← List.countP_eq_length_filter]
    induction h with
    | nil => rfl
    | cons ho _ ih => rw [List.countP_cons, List.countP_cons, hp _ _ ho, ih]
  rw [isAmbiguous, isAmbiguous, ho.tag_eq, ho.name_eq]
  rw [hcount h _ fun _ _ ho => by rw [ho.tag_eq, ho.name_eq]]

theorem uniqueName_eq (ho : o.Rearranged o') : g'.uniqueName o' = g.uniqueName o := by
  have houter : o'.outer = o.outer := by
    cases ho
    rfl
  rw [uniqueName, uniqueName, h.nativeName_eq ho, h.isAmbiguous_eq ho, houter]
  cases o.outer with
  | none => rfl
  | some outer =>
    obtain ⟨hnone, hnone'⟩ | ⟨p, p', hsome, hsome', hp⟩ := h.get? outer
    · simp [hnone, hnone']
    · simp [hsome, hsome', hp.name_eq]

theorem infoWithin_eq_of_element {depth : Nat}
    (helement : infoWithin.element g' depth = infoWithin.element g depth) :
    g'.infoWithin depth = g.infoWithin depth := by
  funext p
  unfold infoWithin
  rw [helement]
  cases p.kind with
  | byte enumeration =>
    cases enumeration with
    | none => rfl
    | some id =>
      obtain ⟨hnone, hnone'⟩ | ⟨o, o', hsome, hsome', ho⟩ := h.get? id
      · simp [hnone, hnone']
      · simp [hsome, hsome', h.uniqueName_eq ho]
  | reference how target =>
    cases target with
    | none => rfl
    | some id =>
      obtain ⟨hnone, hnone'⟩ | ⟨o, o', hsome, hsome', ho⟩ := h.get? id
      · simp [hnone, hnone']
      · simp [hsome, hsome', h.nativeName_eq ho]
  | struct id =>
    obtain ⟨hnone, hnone'⟩ | ⟨o, o', hsome, hsome', ho⟩ := h.get? id
    · simp [hnone, hnone']
    · obtain ⟨hnone, hnone'⟩ | ⟨a, b, ha, hb, hab⟩ := ho.aggregate?
      · simp [hsome, hsome', hnone, hnone']
      · simp [hsome, hsome', ha, hb, h.uniqueName_eq ho, hab.size_eq]
  | _ => rfl

theorem infoWithin_eq (depth : Nat) : g'.infoWithin depth = g.infoWithin depth := by
  induction depth with
  | zero =>
    apply h.infoWithin_eq_of_element
    funext id
    unfold infoWithin.element
    rfl
  | succ depth ih =>
    apply h.infoWithin_eq_of_element
    funext id
    unfold infoWithin.element
    rw [h.property?_eq]
    cases g.property? id with
    | none => rfl
    | some e => exact congrFun ih e.2

theorem info_eq : g'.info = g.info := by
  funext p
  rw [info, info, h.infoWithin_eq, h.length_eq]

end Graph.Rearranged

end TypeAtlas
