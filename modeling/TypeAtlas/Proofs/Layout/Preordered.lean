import TypeAtlas.Proofs.Layout.Compared
import TypeAtlas.Proofs.Layout.Laid

/-! Which properties the comparison puts in order.  It is transitive but for one case: two booleans
of an offset are told apart by their masks, and a third property of that offset is not told apart
from either of them.  Lists without that case have one sorted arrangement each, and of the others
some rearrangement has none. -/

namespace TypeAtlas

namespace Property

variable {p q r : Property}

theorem compare_eq_eq_iff : p.compare q = .eq ↔ p.compare q ≠ .gt ∧ q.compare p ≠ .gt := by
  rw [← compare_swap p q]
  cases p.compare q <;> decide

/-- Two booleans whose masks are in the wrong turn, and a property between them that is none, all at
one offset. -/
def Parted (p q r : Property) : Prop :=
  p.offset = q.offset ∧ q.offset = r.offset ∧ q.mask? = none ∧ ∃ m ∈ p.mask?, ∃ n ∈ r.mask?, n < m

instance : Decidable (p.Parted q r) := instDecidableAnd

theorem compare_trans_iff :
    (p.compare q ≠ .gt → q.compare r ≠ .gt → p.compare r ≠ .gt) ↔ ¬ p.Parted q r := by
  simp only [compare_ne_gt_iff, Parted]
  cases p.mask? <;> cases q.mask? <;> cases r.mask? <;> simp <;> omega

theorem Parted.compare (h : p.Parted q r) :
    p.compare q = .eq ∧ q.compare r = .eq ∧ r.compare p = .lt := by
  obtain ⟨hpq, hqr, hnone, m, hm, n, hn, hlt⟩ := h
  rw [Option.mem_def] at hm hn
  refine ⟨?_, ?_, ?_⟩
  · simp [Property.compare, hm, hnone, hpq]
  · simp [Property.compare, hnone, hqr]
  · simp [Property.compare, hm, hn, hpq, hqr, Nat.compare_eq_lt.mpr hlt]

theorem Parted.ne (h : p.Parted q r) : p ≠ q := by
  rintro rfl
  obtain ⟨-, -, hnone, m, hm, -⟩ := h
  simp [hnone] at hm

theorem compare_eq_trans_iff (hpq : p.compare q = .eq) (hqr : q.compare r = .eq) :
    p.compare r = .eq ↔ ¬ p.Parted q r ∧ ¬ r.Parted q p := by
  obtain ⟨hpq, hqp⟩ := compare_eq_eq_iff.mp hpq
  obtain ⟨hqr, hrq⟩ := compare_eq_eq_iff.mp hqr
  rw [compare_eq_eq_iff, ← compare_trans_iff, ← compare_trans_iff]
  simp [hpq, hqp, hqr, hrq]

end Property

namespace Layout

variable {es es' : List Entry} {a b c : Entry}

/-- At no offset are there booleans with different masks and a property that is no boolean. -/
def Unparted (es : List Entry) : Prop := ∀ a ∈ es, ∀ b ∈ es, ∀ c ∈ es, ¬ a.2.Parted b.2 c.2

instance : Decidable (Unparted es) := List.decidableBAll _ es

theorem preordered_iff : Preordered es ↔ Unparted es := by
  simp only [Preordered, Unparted, comesBefore_iff, Property.compare_trans_iff]

theorem Stands.asymm {a b : Entry × Nat} (h : Stands a b) : ¬ Stands b a := by
  simp only [Stands, ← Property.compare_swap a.1.2 b.1.2]
  rcases h with hlt | ⟨heq, hplace⟩
  · simp [hlt]
  · simp only [heq, Ordering.swap_eq, reduceCtorEq, false_or, true_and]
    omega

theorem eq_of_pairwise_stands {α : Type} (key : α → Entry) {ys zs : List (α × Nat)}
    (hperm : ys.Perm zs) (h : ys.Pairwise fun a b => Stands (key a.1, a.2) (key b.1, b.2))
    (h' : zs.Pairwise fun a b => Stands (key a.1, a.2) (key b.1, b.2)) : ys = zs :=
  hperm.eq_of_pairwise (fun _ _ _ _ hab hba => absurd hba hab.asymm) h h'

theorem Unparted.exists_arrangement {α : Type} (key : α → Entry) {xs : List α}
    (h : Unparted (xs.map key)) : ∃ ys : List (α × Nat),
      (∀ zs : List (α × Nat), (zs.Perm xs.zipIdx
        ∧ zs.Pairwise fun a b => Stands (key a.1, a.2) (key b.1, b.2)) ↔ zs = ys)
      ∧ ys.map Prod.fst = xs.mergeSort fun a b => comesBefore (key a) (key b) := by
  obtain ⟨ys, hperm, hsort, hsorted⟩ := exists_sorted key (preordered_iff.mpr h)
  have hpairwise : ys.Pairwise fun a b => Stands (key a.1, a.2) (key b.1, b.2) :=
    List.pairwise_map.mp hsorted.pairwise
  refine ⟨ys, fun zs => ⟨fun ⟨hperm', hpairwise'⟩ => ?_, fun heq => ?_⟩, hsort⟩
  · exact eq_of_pairwise_stands key (hperm'.trans hperm.symm) hpairwise' hpairwise
  · exact heq ▸ ⟨hperm, hpairwise⟩

theorem lt_of_stands {sorted : List (Entry × Nat)} (h : sorted.Pairwise Stands) {i j : Nat}
    (hi : i < sorted.length) (hj : j < sorted.length) (hstands : Stands sorted[i] sorted[j]) :
    i < j := by
  rcases Nat.lt_trichotomy i j with hlt | rfl | hgt
  · exact hlt
  · exact absurd hstands hstands.asymm
  · exact absurd (List.pairwise_iff_getElem.mp h j i hj hi hgt) hstands.asymm

theorem not_sorted_of_parted (h : a.2.Parted b.2 c.2) (rest : List Entry)
    (sorted : List (Entry × Nat)) : ¬ Sorted (a :: b :: c :: rest) sorted := by
  intro hsorted
  obtain ⟨hab, hbc, hca⟩ := h.compare
  have hplace (e : Entry × Nat) (he : e ∈ [(a, 0), (b, 1), (c, 2)]) : e ∈ sorted := by
    rw [hsorted.perm.mem_iff, show (a :: b :: c :: rest).zipIdx
      = [(a, 0), (b, 1), (c, 2)] ++ rest.zipIdx 3 from rfl]
    exact List.mem_append_left _ he
  obtain ⟨i, hi, hia⟩ := List.getElem_of_mem (hplace (a, 0) (by simp))
  obtain ⟨j, hj, hjb⟩ := List.getElem_of_mem (hplace (b, 1) (by simp))
  obtain ⟨k, hk, hkc⟩ := List.getElem_of_mem (hplace (c, 2) (by simp))
  have hij : i < j := lt_of_stands hsorted.pairwise hi hj (hia ▸ hjb ▸ .inr ⟨hab, by simp⟩)
  have hjk : j < k := lt_of_stands hsorted.pairwise hj hk (hjb ▸ hkc ▸ .inr ⟨hbc, by simp⟩)
  have hki : k < i := lt_of_stands hsorted.pairwise hk hi (hkc ▸ hia ▸ .inl hca)
  omega

theorem exists_perm_of_parted (ha : a ∈ es) (hb : b ∈ es) (hc : c ∈ es)
    (h : a.2.Parted b.2 c.2) : ∃ rest, es.Perm (a :: b :: c :: rest) := by
  obtain ⟨-, -, hnone, m, hm, n, hn, hlt⟩ := h
  have hne : [a, b, c].Nodup := by
    simp only [List.nodup_cons, List.mem_cons, List.not_mem_nil, or_false, not_or]
    refine ⟨⟨?_, ?_⟩, ?_, by simp⟩
    · rintro rfl
      simp [hnone] at hm
    · rintro rfl
      exact Nat.ne_of_lt hlt (Option.mem_unique hn hm)
    · rintro rfl
      simp [hnone] at hn
  have hsubset : [a, b, c] ⊆ es := by simp [ha, hb, hc]
  obtain ⟨first, hfirst, hsub⟩ := List.subperm_of_subset hne hsubset
  obtain ⟨rest, hrest⟩ := hsub.exists_perm_append
  exact ⟨rest, hrest.trans (hfirst.append_right rest)⟩

theorem exists_perm_not_sorted (h : ¬ Unparted es) :
    ∃ es', es.Perm es' ∧ ∀ sorted, ¬ Sorted es' sorted := by
  simp only [Unparted, not_forall, not_not] at h
  obtain ⟨a, ha, b, hb, c, hc, hparted⟩ := h
  obtain ⟨rest, hperm⟩ := exists_perm_of_parted ha hb hc hparted
  exact ⟨_, hperm, not_sorted_of_parted hparted rest⟩

theorem unparted_iff :
    Unparted es ↔ ∀ es', es.Perm es' → ∃ sorted, Sorted es' sorted := by
  constructor
  · intro h es' hperm
    have hmem {e : Entry} (he : e ∈ es') : e ∈ es := hperm.mem_iff.mpr he
    have h' : Unparted (es'.map id) := by
      rw [List.map_id]
      exact fun a ha b hb c hc => h a (hmem ha) b (hmem hb) c (hmem hc)
    obtain ⟨ys, _, _, hsorted⟩ := exists_sorted id (preordered_iff.mpr h')
    rw [List.map_id] at hsorted
    exact ⟨_, hsorted⟩
  · intro h
    by_contra hparted
    obtain ⟨es', hperm, hnone⟩ := exists_perm_not_sorted hparted
    obtain ⟨sorted, hsorted⟩ := h es' hperm
    exact hnone sorted hsorted

/-- Which lists the comparison of properties sorts.  Turned round it gives the reverse, and it is
transitive, its equality too, except on parted properties.  Whatever is sorted by entries without
such properties has one arrangement, in which each stands before those that it compares less to and
those that it compares equal to and stood before; the sort finds it.  Entries have an arrangement in
whatever order they are given exactly if no three of them are parted. -/
theorem sorting_well_defined (p q r : Property) (es : List Entry) {α : Type} (key : α → Entry)
    (xs : List α) :
    (p.compare q).swap = q.compare p
    ∧ ((p.compare q ≠ .gt → q.compare r ≠ .gt → p.compare r ≠ .gt) ↔ ¬ p.Parted q r)
    ∧ (p.compare q = .eq → q.compare r = .eq →
      (p.compare r = .eq ↔ ¬ p.Parted q r ∧ ¬ r.Parted q p))
    ∧ (Unparted (xs.map key) → ∃ ys : List (α × Nat),
      (∀ zs : List (α × Nat), (zs.Perm xs.zipIdx
        ∧ zs.Pairwise fun a b => Stands (key a.1, a.2) (key b.1, b.2)) ↔ zs = ys)
      ∧ ys.map Prod.fst = xs.mergeSort fun a b => comesBefore (key a) (key b))
    ∧ (Unparted es ↔ ∀ es', es.Perm es' → ∃ sorted, Sorted es' sorted) :=
  ⟨p.compare_swap q, Property.compare_trans_iff, Property.compare_eq_trans_iff,
    fun h => h.exists_arrangement key, unparted_iff⟩

def firstFlag : Entry := entry 2 "bFirst" ⟨0, 1, 1, 0, .bool 1⟩

def secondFlag : Entry := entry 3 "bSecond" ⟨0, 1, 1, 0, .bool 2⟩

def sharing : Entry := entry 4 "Count" ⟨0, 4, 1, 0, .plain .int32⟩

theorem sorting_well_defined_flags : secondFlag.2.compare sharing.2 = .eq
    ∧ sharing.2.compare firstFlag.2 = .eq ∧ secondFlag.2.compare firstFlag.2 ≠ .eq
    ∧ Unparted [secondFlag, firstFlag]
    ∧ (∃ ys : List (Entry × Nat), (∀ zs : List (Entry × Nat),
        (zs.Perm [secondFlag, firstFlag].zipIdx ∧ zs.Pairwise Stands) ↔ zs = ys)
      ∧ ys.map Prod.fst = [firstFlag, secondFlag])
    ∧ ¬ ∀ es', [firstFlag, sharing, secondFlag].Perm es' → ∃ sorted, Sorted es' sorted := by
  obtain ⟨-, -, hequal, harranged, hall⟩ := sorting_well_defined secondFlag.2 sharing.2 firstFlag.2
    [firstFlag, sharing, secondFlag] id [secondFlag, firstFlag]
  have hsecond : secondFlag.2.compare sharing.2 = .eq := by decide
  have hfirst : sharing.2.compare firstFlag.2 = .eq := by decide
  have hparted : secondFlag.2.Parted sharing.2 firstFlag.2 := by decide
  have hflags : Unparted [secondFlag, firstFlag] := by decide
  have hthree : ¬ Unparted [firstFlag, sharing, secondFlag] := by decide
  obtain ⟨ys, hys, hsort⟩ := harranged hflags
  refine ⟨hsecond, hfirst, fun heq => ?_, hflags, ⟨ys, hys, hsort.trans (by cbv)⟩,
    mt hall.mpr hthree⟩
  exact ((hequal hsecond hfirst).mp heq).1 hparted

/-- A number compares equal to two flags that do not compare equal, and where the three stand in the
wrong turn they have no arrangement. -/
theorem not_compare_trans : secondFlag.2.compare sharing.2 = .eq
    ∧ sharing.2.compare firstFlag.2 = .eq ∧ secondFlag.2.compare firstFlag.2 = .gt
    ∧ (∀ sorted, ¬ Sorted [secondFlag, sharing, firstFlag] sorted)
    ∧ ¬ ∀ p q r : Property, p.compare q ≠ .gt → q.compare r ≠ .gt → p.compare r ≠ .gt := by
  have hparted : secondFlag.2.Parted sharing.2 firstFlag.2 := by decide
  refine ⟨by decide, by decide, by decide, not_sorted_of_parted hparted [], fun htrans => ?_⟩
  exact Property.compare_trans_iff.mp (htrans _ _ _) hparted

end Layout

end TypeAtlas
