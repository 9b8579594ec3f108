import TypeAtlas.Sdk.Resolution
import Mathlib.Data.List.Nodup

namespace TypeAtlas.Graph

variable {g : Graph} {o o' : Object} {id package : ObjectId} {p : Property}

inductive Names (g : Graph) (o : Object) (id : ObjectId) : Prop
  | super : g.superOf? o.id = some id → id ≠ o.id → Names g o id
  | direct (child : ObjectId) (q : Object) (p : Property) : child ∈ o.children →
      g.property? child = some (q, p) → p.kind = .struct id → Names g o id
  | element (child : ObjectId) (q : Object) (p : Property) (inner : ObjectId) (q' : Object)
      (p' : Property) : child ∈ o.children → g.property? child = some (q, p) →
      inner ∈ p.kind.elements → g.property? inner = some (q', p') → p'.kind = .struct id →
      Names g o id

structure Owns (g : Graph) (package : ObjectId) (o : Object) : Prop where
  declarable : g.declarable? o.id = some o
  package_eq : g.packageOf? o.id = some package

theorem Owns.eq_of_packageOf? {q : ObjectId} (h : g.Owns q o) (heq : o.id = id)
    (hp : g.packageOf? id = some package) : q = package := by
  rw [← heq, h.package_eq, Option.some_inj] at hp
  exact hp

theorem Owns.unique {q : ObjectId} (h : g.Owns package o) (h' : g.Owns q o') (heq : o.id = o'.id) :
    package = q :=
  h.eq_of_packageOf? heq h'.package_eq

def RefersTo (g : Graph) (p q : ObjectId) : Prop :=
  p ≠ q ∧ ∃ o o', g.Owns p o ∧ g.Owns q o' ∧ g.Names o o'.id

theorem get?_eq_some : g.get? id = some o ↔ o ∈ g.objects ∧ o.id = id := by
  constructor
  · intro h
    exact ⟨List.mem_of_find?_eq_some h, by simpa using List.find?_some h⟩
  · rintro ⟨hmem, rfl⟩
    obtain ⟨o', ho'⟩ : ∃ o', g.get? o.id = some o' := by
      rw [← Option.isSome_iff_exists, get?, List.find?_isSome]
      exact ⟨o, hmem, by simp⟩
    have hid : o'.id = o.id := by simpa using List.find?_some ho'
    have hmem' : o' ∈ g.objects := List.mem_of_find?_eq_some ho'
    rw [ho', List.inj_on_of_nodup_map g.distinct hmem' hmem hid]

theorem declarable?_eq_some : g.declarable? id = some o ↔
    g.get? id = some o ∧ o.aggregate?.isSome ∧ o.isPlaceholder = false := by
  simp [declarable?, Option.filter_eq_some_iff]

theorem id_of_declarable? (h : g.declarable? id = some o) : o.id = id :=
  (get?_eq_some.mp (declarable?_eq_some.mp h).1).2

def typesOf (g : Graph) (package : ObjectId) : List Object :=
  g.objects.filter fun o =>
    o.aggregate?.isSome && !o.isPlaceholder && decide (g.packageOf? o.id = some package)

theorem mem_typesOf : o ∈ g.typesOf package ↔ g.Owns package o := by
  simp only [typesOf, List.mem_filter, Bool.and_eq_true, Bool.not_eq_true', decide_eq_true_eq]
  constructor
  · intro ⟨hmem, ⟨hagg, hplace⟩, hp⟩
    exact ⟨declarable?_eq_some.mpr ⟨get?_eq_some.mpr ⟨hmem, rfl⟩, hagg, hplace⟩, hp⟩
  · intro ⟨hd, hp⟩
    have ⟨hget, hagg, hplace⟩ := declarable?_eq_some.mp hd
    exact ⟨(get?_eq_some.mp hget).1, ⟨hagg, hplace⟩, hp⟩

theorem nodup_objects (g : Graph) : g.objects.Nodup := .of_map _ g.distinct

theorem countP_lt_countP {α : Type} {as : List α} {a : α} {p q : α → Bool}
    (hle : ∀ b, p b = true → q b = true) (ha : a ∈ as) (hp : p a = false) (hq : q a = true) :
    as.countP p < as.countP q := by
  obtain ⟨front, back, rfl⟩ := List.append_of_mem ha
  have hfront : front.countP p ≤ front.countP q := List.countP_mono_left fun b _ => hle b
  have hback : back.countP p ≤ back.countP q := List.countP_mono_left fun b _ => hle b
  simp only [List.countP_append, List.countP_cons, hp, hq, Bool.false_eq_true, if_false, if_true]
  omega

theorem structOf?_eq_some : structOf? p = some id ↔ p.kind = .struct id := by
  unfold structOf?
  split <;> simp_all

theorem mem_heldStructs : id ∈ g.heldStructs p ↔ p.kind = .struct id
    ∨ ∃ inner q' p', inner ∈ p.kind.elements ∧ g.property? inner = some (q', p')
      ∧ p'.kind = .struct id := by
  unfold heldStructs
  cases h : structOf? p with
  | some s =>
    rw [structOf?_eq_some] at h
    simp [h, PropertyKind.elements, eq_comm]
  | none =>
    have hne : p.kind ≠ .struct id := fun hk => by simp [structOf?_eq_some.mpr hk] at h
    simp only [List.mem_filterMap, Prod.exists, structOf?_eq_some, hne, false_or]
    constructor
    · rintro ⟨q', p', ⟨inner, hinner, hp⟩, hk⟩
      exact ⟨inner, q', p', hinner, hp, hk⟩
    · rintro ⟨inner, q', p', hinner, hp, hk⟩
      exact ⟨q', p', ⟨inner, hinner, hp⟩, hk⟩

theorem mem_prerequisites : id ∈ g.prerequisites o ↔ g.Names o id := by
  simp only [prerequisites, List.mem_append, Option.mem_toList, Option.filter_eq_some_iff,
    List.mem_flatMap, List.mem_filterMap, Prod.exists, mem_heldStructs]
  constructor
  · rintro (⟨hs, hne⟩ | ⟨q, p, ⟨child, hc, hp⟩, hk | ⟨inner, q', p', hinner, hp', hk⟩⟩)
    · exact .super hs (by simpa using hne)
    · exact .direct child q p hc hp hk
    · exact .element child q p inner q' p' hc hp hinner hp' hk
  · intro h
    cases h with
    | super hs hne => exact .inl ⟨hs, by simpa using hne⟩
    | direct child q p hc hp hk => exact .inr ⟨q, p, ⟨child, hc, hp⟩, .inl hk⟩
    | element child q p inner q' p' hc hp hinner hp' hk =>
      exact .inr ⟨q, p, ⟨child, hc, hp⟩, .inr ⟨inner, q', p', hinner, hp', hk⟩⟩

end TypeAtlas.Graph
