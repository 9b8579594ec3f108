import TypeAtlas.Proofs.Resolution.References
import TypeAtlas.Graph.TypeInfo
import Mathlib.Data.List.Perm.Subperm
import Mathlib.Logic.Relation

/-! Containers of containers.  Where none leads back to itself, looking as many elements deep as
there are objects is looking all the way down. -/

namespace TypeAtlas.Graph

variable {g : Graph} {p : Property} {depth depth' : Nat} {id : ObjectId} {ids : List ObjectId}

def HasElement (g : Graph) (id other : ObjectId) : Prop :=
  ∃ o p, g.property? id = some (o, p) ∧ other ∈ p.kind.elements

/-- No container's element leads back to the container. -/
def Nests (g : Graph) : Prop := ∀ id, ¬ Relation.TransGen g.HasElement id id

theorem property?_eq_some {o : Object} :
    g.property? id = some (o, p) ↔ g.get? id = some o ∧ o.property? = some p := by
  simp only [property?, Option.bind_eq_bind, Option.bind_eq_some_iff]
  constructor
  · rintro ⟨o', hget, p', hp, heq⟩
    cases heq
    exact ⟨hget, hp⟩
  · rintro ⟨hget, hp⟩
    exact ⟨o, hget, p, hp, rfl⟩

theorem nests_of_lt (h : ∀ o ∈ g.objects,
    ∀ e ∈ (o.property?.map (·.kind.elements)).getD [], o.id < e) : g.Nests := by
  have hstep {id other : ObjectId} (hel : g.HasElement id other) : id < other := by
    obtain ⟨o, p, hp, hmem⟩ := hel
    obtain ⟨hget, hproperty⟩ := property?_eq_some.mp hp
    obtain ⟨ho, rfl⟩ := get?_eq_some.mp hget
    apply h o ho other
    rw [hproperty]
    exact hmem
  intro id hloop
  have hlt {other : ObjectId} (hpath : Relation.TransGen g.HasElement id other) : id < other := by
    induction hpath with
    | single hel => exact hstep hel
    | tail _ hel ih => exact Nat.lt_trans ih (hstep hel)
  exact Nat.lt_irrefl id (hlt hloop)

theorem infoWithin_congr (h : ∀ id ∈ p.kind.elements,
    infoWithin.element g depth id = infoWithin.element g depth' id) :
    g.infoWithin depth p = g.infoWithin depth' p := by
  unfold infoWithin
  cases hk : p.kind <;> simp_all [PropertyKind.elements]

theorem mem_map_id_of_property? {o : Object} (h : g.property? id = some (o, p)) :
    id ∈ g.objects.map Object.id := by
  obtain ⟨hmem, rfl⟩ := get?_eq_some.mp (property?_eq_some.mp h).1
  exact List.mem_map_of_mem hmem

/-- A property is looked into as far as it goes, once no more objects are left than can be gone
deep: those that led to it are not met again. -/
theorem infoWithin_eq (h : g.Nests) (hnodup : ids.Nodup) (hids : ids ⊆ g.objects.map Object.id)
    (hlead : ∀ id ∈ ids, ∀ other ∈ p.kind.elements, Relation.TransGen g.HasElement id other)
    (hd : g.objects.length < ids.length + depth) (hd' : g.objects.length < ids.length + depth') :
    g.infoWithin depth p = g.infoWithin depth' p := by
  have hle {ids : List ObjectId} (hnodup : ids.Nodup) (hids : ids ⊆ g.objects.map Object.id) :
      ids.length ≤ g.objects.length := by
    rw [← List.length_map (f := Object.id)]
    exact (List.subperm_of_subset hnodup hids).length_le
  induction depth generalizing ids p depth' with
  | zero =>
    have := hle hnodup hids
    omega
  | succ depth ih =>
    cases depth' with
    | zero =>
      have := hle hnodup hids
      omega
    | succ depth' =>
      apply infoWithin_congr
      intro id hid
      unfold infoWithin.element
      cases hp : g.property? id with
      | none => rfl
      | some e =>
        obtain ⟨o, q⟩ := e
        have hnew : id ∉ ids := fun hmem => h id (hlead id hmem id hid)
        have hnodup' := List.nodup_cons.mpr ⟨hnew, hnodup⟩
        have hids' := List.cons_subset.mpr ⟨mem_map_id_of_property? hp, hids⟩
        apply ih hnodup' hids'
        · intro other hother inner hinner
          have hlast : g.HasElement id inner := ⟨o, q, hp, hinner⟩
          cases List.mem_cons.mp hother with
          | inl heq => exact heq ▸ .single hlast
          | inr hmem => exact (hlead other hmem id hid).tail hlast
        · rw [List.length_cons]
          omega
        · rw [List.length_cons]
          omega

theorem infoWithin_eq_info (h : g.Nests) (p : Property) (hd : g.objects.length < depth) :
    g.infoWithin depth p = g.info p :=
  infoWithin_eq h List.nodup_nil (List.nil_subset _) (by simp) (by simpa using hd) (by simp)

end TypeAtlas.Graph
