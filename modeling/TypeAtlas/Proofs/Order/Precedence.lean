import TypeAtlas.Sdk.Order
import Mathlib.Data.List.Nodup
import Mathlib.Data.List.InsertIdx

namespace TypeAtlas.PackageOrder

variable {order order' : List ObjectId} {p q r anchor a b : ObjectId}

def Precedes (order : List ObjectId) (p q : ObjectId) : Prop :=
  ∃ i j, order.idxOf? p = some i ∧ order.idxOf? q = some j ∧ i < j

theorem exists_idxOf? (h : p ∈ order) : ∃ i, order.idxOf? p = some i :=
  Option.isSome_iff_exists.mp (List.isSome_idxOf?.mpr h)

theorem mem_of_idxOf? {i : Nat} (h : order.idxOf? p = some i) : p ∈ order :=
  List.isSome_idxOf?.mp (by simp [h])

theorem Precedes.left_mem (h : Precedes order p q) : p ∈ order := by
  obtain ⟨i, _, hi, _⟩ := h
  exact mem_of_idxOf? hi

theorem Precedes.right_mem (h : Precedes order p q) : q ∈ order := by
  obtain ⟨_, j, _, hj, _⟩ := h
  exact mem_of_idxOf? hj

theorem Precedes.trans (h : Precedes order p q) (h' : Precedes order q r) :
    Precedes order p r := by
  obtain ⟨i, j, hi, hj, hij⟩ := h
  obtain ⟨j', k, hj', hk, hjk⟩ := h'
  have : j' = j := by simpa [hj] using hj'.symm
  exact ⟨i, k, hi, hk, by omega⟩

theorem Precedes.ne (h : Precedes order p q) : p ≠ q := by
  rintro rfl
  obtain ⟨i, j, hi, hj, hij⟩ := h
  have : i = j := by simpa [hi] using hj
  omega

theorem Precedes.asymm (h : Precedes order a b) : ¬ Precedes order b a :=
  fun h' => (h.trans h').ne rfl

theorem Precedes.sublist (h : Precedes order p q) : [p, q].Sublist order := by
  obtain ⟨i, j, hi, hj, hij⟩ := h
  obtain ⟨hil, hip, _⟩ := List.idxOf?_eq_some_iff.mp hi
  obtain ⟨hjl, hjq, _⟩ := List.idxOf?_eq_some_iff.mp hj
  have hp : p ∈ order.take j := List.mem_take_iff_getElem.mpr ⟨i, by omega, hip⟩
  have hq : q ∈ order.drop j :=
    List.mem_drop_iff_getElem.mpr ⟨0, by simpa using hjl, by simpa using hjq⟩
  rw [← List.take_append_drop j order]
  exact (List.singleton_sublist.mpr hp).append (List.singleton_sublist.mpr hq)

theorem idxOf?_getElem (hn : order.Nodup) {i : Nat} (hi : i < order.length) :
    order.idxOf? order[i] = some i := by
  refine List.idxOf?_eq_some_iff.mpr ⟨hi, rfl, fun j hj h => ?_⟩
  have : j = i := (hn.getElem_inj_iff).mp h
  omega

theorem precedes_iff_sublist (hn : order.Nodup) : Precedes order p q ↔ [p, q].Sublist order := by
  refine ⟨Precedes.sublist, fun h => ?_⟩
  have : order.Pairwise (Precedes order) := by
    refine List.pairwise_iff_getElem.mpr fun i j hi hj hij => ?_
    exact ⟨i, j, idxOf?_getElem hn hi, idxOf?_getElem hn hj, hij⟩
  exact this.forall_sublist h

theorem precedes_or_of_mem (hp : p ∈ order) (hq : q ∈ order) (hne : p ≠ q) :
    Precedes order p q ∨ Precedes order q p := by
  obtain ⟨i, hi⟩ := exists_idxOf? hp
  obtain ⟨j, hj⟩ := exists_idxOf? hq
  rcases Nat.lt_trichotomy i j with h | rfl | h
  · exact .inl ⟨i, j, hi, hj, h⟩
  · obtain ⟨_, hpi, _⟩ := List.idxOf?_eq_some_iff.mp hi
    obtain ⟨_, hqi, _⟩ := List.idxOf?_eq_some_iff.mp hj
    exact absurd (hpi.symm.trans hqi) hne
  · exact .inr ⟨j, i, hj, hi, h⟩

theorem Precedes.append (h : Precedes order p q) (rest : List ObjectId) :
    Precedes (order ++ rest) p q := by
  obtain ⟨i, j, hi, hj, hij⟩ := h
  have hfirst {r : ObjectId} {k : Nat} (hk : order.idxOf? r = some k) :
      (order ++ rest).idxOf? r = some k := by
    simp [List.idxOf?, List.findIdx?_append, show order.findIdx? (· == r) = some k from hk]
  exact ⟨i, j, hfirst hi, hfirst hj, hij⟩

/-- A package comes to stand before its anchor, as a new one or from behind it.  What is taken out
has a place, and what is put in leaves no gap. -/
inductive Moves (p anchor : ObjectId) (order : List ObjectId) : List ObjectId → Prop
  | new {i : Nat} : order.idxOf? anchor = some i → p ∉ order → i ≤ order.length →
      Moves p anchor order (order.insertIdx i p)
  | back {i j : Nat} : order.idxOf? anchor = some i → order.idxOf? p = some j → i ≤ j →
      j < order.length → i ≤ (order.eraseIdx j).length →
      Moves p anchor order ((order.eraseIdx j).insertIdx i p)

theorem moves_iff : Moves p anchor order order' ↔ moved? order p anchor = some order' := by
  constructor
  · rintro (⟨ha, hp, _⟩ | ⟨ha, hp, hij, _, _⟩)
    · simp [moved?, ha, List.idxOf?_eq_none_iff.mpr hp]
    · simp [moved?, ha, hp, hij]
  · intro h
    unfold moved? at h
    cases ha : order.idxOf? anchor with
    | none => simp [ha] at h
    | some i =>
      obtain ⟨hi, _⟩ := List.idxOf?_eq_some_iff.mp ha
      cases hp : order.idxOf? p with
      | none =>
        simp only [ha, hp, Option.some.injEq] at h
        exact h ▸ .new ha (List.idxOf?_eq_none_iff.mp hp) (Nat.le_of_lt hi)
      | some j =>
        obtain ⟨hj, _⟩ := List.idxOf?_eq_some_iff.mp hp
        by_cases hji : j < i
        · simp [ha, hp, hji] at h
        · simp only [ha, hp, hji, if_false, Option.some.injEq] at h
          refine h ▸ .back ha hp (Nat.not_lt.mp hji) hj ?_
          rw [List.length_eraseIdx_of_lt hj]
          omega

theorem moved?_eq_none_iff (ha : anchor ∈ order) :
    moved? order p anchor = none ↔ Precedes order p anchor := by
  obtain ⟨i, hi⟩ := exists_idxOf? ha
  simp only [moved?, hi, Precedes]
  cases hp : order.idxOf? p with
  | none => simp
  | some j => simp

theorem stays_iff : moved? order p anchor = none ↔ anchor ∉ order ∨ Precedes order p anchor := by
  by_cases ha : anchor ∈ order
  · simp [ha, moved?_eq_none_iff ha]
  · simp [ha, moved?, List.idxOf?_eq_none_iff.mpr ha]

theorem moved?_eq_some (h : moved? order p anchor = some order') :
    ∃ i, order' = (order.erase p).insertIdx i p ∧ i ≤ (order.erase p).length
      ∧ (p ≠ anchor → (order.erase p)[i]? = some anchor) := by
  rcases moves_iff.mpr h with ⟨ha, hp, hi⟩ | @⟨i, j, ha, hp, hij, hj, hi⟩
  · obtain ⟨hil, hia, _⟩ := List.idxOf?_eq_some_iff.mp ha
    rw [List.erase_of_not_mem hp]
    exact ⟨_, rfl, hi, fun _ => by simp [hil, hia]⟩
  · obtain ⟨hil, hia, _⟩ := List.idxOf?_eq_some_iff.mp ha
    obtain ⟨_, hjp, _⟩ := List.idxOf?_eq_some_iff.mp hp
    rw [List.erase_eq_eraseIdx, hp]
    refine ⟨i, rfl, hi, fun hne => ?_⟩
    have : i ≠ j := by
      rintro rfl
      exact hne (hjp.symm.trans hia)
    rw [List.getElem?_eraseIdx_of_lt (by omega)]
    simp [hil, hia]

theorem moved?_self (h : moved? order p p = some order') : order' = order := by
  rcases moves_iff.mpr h with ⟨ha, hp, _⟩ | @⟨i, j, ha, hp, _, hj, _⟩
  · exact absurd (mem_of_idxOf? ha) hp
  · obtain rfl : i = j := Option.some.inj (ha.symm.trans hp)
    obtain ⟨_, rfl, _⟩ := List.idxOf?_eq_some_iff.mp hp
    apply List.ext_getElem?
    intro k
    rcases Nat.lt_trichotomy k i with hk | rfl | hk
    · rw [List.getElem?_insertIdx_of_lt hk, List.getElem?_eraseIdx_of_lt hk]
    · rw [List.getElem?_insertIdx_self, List.length_eraseIdx_of_lt hj]
      simp [hj, show k ≤ order.length - 1 by omega]
    · rw [List.getElem?_insertIdx_of_gt hk, List.getElem?_eraseIdx_of_ge (by omega),
        Nat.sub_add_cancel (by omega)]

theorem anchor_mem_of_moved (h : moved? order p anchor = some order') : anchor ∈ order := by
  by_contra ha
  simp [moved?, List.idxOf?_eq_none_iff.mpr ha] at h

theorem mem_moved (h : moved? order p anchor = some order') : q ∈ order' ↔ q = p ∨ q ∈ order := by
  obtain ⟨i, rfl, hi, _⟩ := moved?_eq_some h
  rw [List.mem_insertIdx hi]
  by_cases hq : q = p
  · simp [hq]
  · simp [hq, List.mem_erase_of_ne hq]

theorem nodup_moved (hn : order.Nodup) (h : moved? order p anchor = some order') :
    order'.Nodup := by
  obtain ⟨i, rfl, hi, _⟩ := moved?_eq_some h
  rw [(List.perm_insertIdx p (order.erase p) hi).nodup_iff, List.nodup_cons]
  exact ⟨hn.not_mem_erase, hn.erase p⟩

theorem exists_idxOf?_moved (hn : order.Nodup) (hne : p ≠ anchor)
    (h : moved? order p anchor = some order') :
    ∃ i, order'.idxOf? p = some i ∧ order'.idxOf? anchor = some (i + 1) := by
  have hn' := nodup_moved hn h
  obtain ⟨i, rfl, hi, ha⟩ := moved?_eq_some h
  obtain ⟨hil, ha⟩ := List.getElem?_eq_some_iff.mp (ha hne)
  have hl : ((order.erase p).insertIdx i p).length = (order.erase p).length + 1 :=
    List.length_insertIdx_of_le_length hi p
  refine ⟨i, ?_, ?_⟩
  · have := idxOf?_getElem hn' (i := i) (by omega)
    rwa [List.getElem_insertIdx_self] at this
  · have := idxOf?_getElem hn' (i := i + 1) (by omega)
    rw [List.getElem_insertIdx_of_gt (by omega)] at this
    simpa [ha] using this

theorem precedes_moved (hn : order.Nodup) (hne : p ≠ anchor)
    (h : moved? order p anchor = some order') : Precedes order' p anchor := by
  obtain ⟨i, hp, ha⟩ := exists_idxOf?_moved hn hne h
  exact ⟨i, i + 1, hp, ha, Nat.lt_succ_self i⟩

theorem precedes_anchor_iff (hn : order.Nodup) (hne : p ≠ anchor)
    (h : moved? order p anchor = some order') :
    Precedes order' q anchor ↔ q = p ∨ Precedes order' q p := by
  obtain ⟨i, hp, ha⟩ := exists_idxOf?_moved hn hne h
  constructor
  · rintro ⟨k, j, hk, hj, hlt⟩
    obtain rfl : j = i + 1 := Option.some.inj (hj.symm.trans ha)
    rcases Nat.lt_or_eq_of_le (Nat.le_of_lt_succ hlt) with hki | rfl
    · exact .inr ⟨k, i, hk, hp, hki⟩
    · obtain ⟨_, hq, _⟩ := List.idxOf?_eq_some_iff.mp hk
      obtain ⟨_, hp, _⟩ := List.idxOf?_eq_some_iff.mp hp
      exact .inl (hq.symm.trans hp)
  · rintro (rfl | hq)
    · exact precedes_moved hn hne h
    · exact hq.trans (precedes_moved hn hne h)

theorem not_precedes_of_moved (h : moved? order p anchor = some order') :
    ¬ Precedes order p anchor := by
  rw [← moved?_eq_none_iff (anchor_mem_of_moved h), h]
  simp

theorem Precedes.moved_of_ne (hn : order.Nodup) (h : moved? order p anchor = some order')
    (ha : a ≠ p) (hb : b ≠ p) (hab : Precedes order a b) : Precedes order' a b := by
  rw [precedes_iff_sublist (nodup_moved hn h)]
  obtain ⟨i, rfl, _, _⟩ := moved?_eq_some h
  have hp : p ∉ [a, b] := by simp [ha.symm, hb.symm]
  have herase : [a, b].Sublist (order.erase p) := by
    simpa only [List.erase_of_not_mem hp] using hab.sublist.erase p
  exact herase.trans (List.sublist_insertIdx ..)

theorem Precedes.moved (hn : order.Nodup) (h : moved? order p anchor = some order')
    (hb : b ≠ p) (hab : Precedes order a b) : Precedes order' a b := by
  by_cases hne : p = anchor
  · subst hne
    rwa [moved?_self h]
  by_cases ha : a = p
  · subst ha
    have hback : Precedes order anchor a :=
      (precedes_or_of_mem hab.left_mem (anchor_mem_of_moved h) hne).resolve_left
        (not_precedes_of_moved h)
    have : Precedes order' anchor b := (hback.trans hab).moved_of_ne hn h (Ne.symm hne) hb
    exact (precedes_moved hn hne h).trans this
  · exact hab.moved_of_ne hn h ha hb

theorem precedes_moved_iff (hn : order.Nodup) (h : moved? order p anchor = some order') :
    Precedes order' q p ↔ Precedes order q anchor := by
  by_cases hne : p = anchor
  · subst hne
    rw [moved?_self h]
  constructor
  · intro hq
    have hmem : q ∈ order := ((mem_moved h).mp hq.left_mem).resolve_left hq.ne
    have hbefore : Precedes order' q anchor := hq.trans (precedes_moved hn hne h)
    apply (precedes_or_of_mem hmem (anchor_mem_of_moved h) hbefore.ne).resolve_right
    intro hback
    exact hbefore.asymm (hback.moved hn h hq.ne)
  · intro hq
    have hbefore : Precedes order' q anchor := hq.moved hn h (Ne.symm hne)
    apply ((precedes_anchor_iff hn hne h).mp hbefore).resolve_left
    rintro rfl
    exact not_precedes_of_moved h hq

end TypeAtlas.PackageOrder
