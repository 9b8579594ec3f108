import TypeAtlas.Proofs.Pattern.Text
import Mathlib.Data.Nat.Find
import Mathlib.Order.Bounds.Basic

/-! The search for a pattern.  Only offsets that show the anchor's byte are looked at, which leaves
out no match of a pattern with a byte that counts; a pattern of wildcards alone is found where its
first byte stands, though it matches everywhere. -/

namespace TypeAtlas

theorem isLeast_succ_iff {P : Nat → Prop} {k : Nat} (h : ¬ P 0) :
    IsLeast {k | P k} (k + 1) ↔ IsLeast {k | P (k + 1)} k := by
  constructor
  · exact fun hk => ⟨hk.1, fun j hj => Nat.le_of_succ_le_succ (hk.2 hj)⟩
  · refine fun hk => ⟨hk.1, fun j hj => ?_⟩
    cases j with
    | zero => exact absurd hj h
    | succ j => exact Nat.succ_le_succ (hk.2 hj)

theorem exists_isLeast {P : Nat → Prop} (h : ∃ k, P k) : ∃ k, IsLeast {k | P k} k := by
  classical
  exact ⟨Nat.find h, Nat.find_spec h, fun j hj => Nat.find_min' h hj⟩

namespace Pattern

structure OccursAt (p : Pattern) (data : Bytes) (i : Nat) : Prop where
  fits : i + p.length ≤ data.length
  accepts : p.matchesAt (data.drop i) = true

variable {p : Pattern} {cells : List Cell} {data bs as : Bytes} {anchor : UInt8} {i offset : Nat}

theorem acceptsAll_iff : acceptsAll cells data = true ↔
    ∀ (k : Nat) (c : Cell), cells[k]? = some c → ∃ b, data[k]? = some b ∧ c.accepts b = true := by
  induction cells generalizing data with
  | nil => simp
  | cons c cells ih =>
    cases data with
    | nil =>
      simp only [acceptsAll, Bool.false_eq_true, false_iff]
      intro h
      obtain ⟨b, hb, -⟩ := h 0 c rfl
      cases hb
    | cons b data =>
      rw [acceptsAll, Bool.and_eq_true, ih]
      constructor
      · rintro ⟨hb, hrest⟩ k c' hc'
        cases k with
        | zero => exact ⟨b, rfl, Option.some.inj hc' ▸ hb⟩
        | succ k => exact hrest k c' hc'
      · intro h
        obtain ⟨b', hb', haccepts⟩ := h 0 c rfl
        exact ⟨Option.some.inj hb' ▸ haccepts, fun k => h (k + 1)⟩

theorem length_le_of_acceptsAll (h : acceptsAll cells data = true) :
    cells.length ≤ data.length := by
  by_contra hlt
  obtain ⟨b, hb, -⟩ := acceptsAll_iff.mp h data.length _
    (List.getElem?_eq_getElem (Nat.lt_of_not_le hlt))
  simp at hb

theorem occursAt_iff_matchesAt : p.OccursAt data i ↔ p.matchesAt (data.drop i) = true := by
  constructor
  · exact fun h => h.accepts
  · intro h
    have hlength : p.length ≤ (data.drop i).length := length_le_of_acceptsAll h
    have hpos := p.length_pos
    rw [List.length_drop] at hlength
    exact ⟨by omega, h⟩

theorem occursAt_iff : p.OccursAt data i ↔ ∀ (k : Nat) (c : Cell), p.cells[k]? = some c →
    ∃ b, data[i + k]? = some b ∧ c.accepts b = true := by
  rw [occursAt_iff_matchesAt, matchesAt, acceptsAll_iff]
  simp only [List.getElem?_drop]

theorem not_matchesAt_nil (p : Pattern) : p.matchesAt [] = false := by
  rw [Bool.eq_false_iff]
  intro h
  exact absurd (length_le_of_acceptsAll h) (Nat.not_le.mpr p.length_pos)

theorem findFrom_eq_some_iff : p.findFrom anchor offset bs as = some i ↔ ∃ k, i = offset + k
    ∧ IsLeast {k | as[k]? = some anchor ∧ p.matchesAt (bs.drop k) = true} k := by
  induction bs generalizing as offset with
  | nil =>
    simp only [findFrom, List.drop_nil, not_matchesAt_nil, reduceCtorEq, false_iff]
    rintro ⟨k, -, ⟨-, h⟩, -⟩
    cases h
  | cons b bs ih =>
    cases as with
    | nil =>
      simp only [findFrom, reduceCtorEq, false_iff]
      rintro ⟨k, -, ⟨h, -⟩, -⟩
      cases h
    | cons a as =>
      rw [findFrom]
      split
      case isTrue hhere =>
        rw [Bool.and_eq_true, beq_iff_eq] at hhere
        obtain ⟨rfl, hmatch⟩ := hhere
        have hzero : IsLeast {k | (a :: as)[k]? = some a ∧
            p.matchesAt ((b :: bs).drop k) = true} 0 :=
          ⟨⟨rfl, hmatch⟩, fun _ _ => Nat.zero_le _⟩
        constructor
        · intro h
          exact ⟨0, (Option.some.inj h).symm, hzero⟩
        · rintro ⟨k, rfl, hk⟩
          rw [hk.unique hzero]
          rfl
      case isFalse hhere =>
        have hzero : ¬ ((a :: as)[0]? = some anchor ∧ p.matchesAt ((b :: bs).drop 0) = true) := by
          simpa using hhere
        rw [ih]
        constructor
        · rintro ⟨k, rfl, hk⟩
          exact ⟨k + 1, by omega, (isLeast_succ_iff hzero).mpr hk⟩
        · rintro ⟨k, rfl, hk⟩
          cases k with
          | zero => exact absurd hk.1 hzero
          | succ k => exact ⟨k, by omega, (isLeast_succ_iff hzero).mp hk⟩

theorem exists_anchor (p : Pattern) : ∃ c, p.cells[p.anchor]? = some c
    ∧ (p.cells.any Cell.counts = true → c.counts = true) := by
  unfold anchor
  cases h : p.cells.findIdx? Cell.counts with
  | none =>
    rw [List.findIdx?_eq_none_iff] at h
    refine ⟨_, List.getElem?_eq_getElem p.length_pos, fun hany => ?_⟩
    obtain ⟨c, hc, hcounts⟩ := List.any_eq_true.mp hany
    simp [h c hc] at hcounts
  | some k =>
    obtain ⟨hk, hcounts, -⟩ := List.findIdx?_eq_some_iff_getElem.mp h
    exact ⟨_, List.getElem?_eq_getElem hk, fun _ => hcounts⟩

theorem find?_eq_some_iff : p.find? data = some i ↔
    IsLeast {i | p.OccursAt data i ∧ data[i + p.anchor]? = p.anchorByte?} i := by
  obtain ⟨c, hc, -⟩ := p.exists_anchor
  have hbyte : p.anchorByte? = some c.byte := by rw [anchorByte?, hc, Option.map_some]
  have hset : {i | p.OccursAt data i ∧ data[i + p.anchor]? = p.anchorByte?} =
      {k | (data.drop p.anchor)[k]? = some c.byte ∧ p.matchesAt (data.drop k) = true} := by
    ext k
    rw [Set.mem_ofPred_eq, Set.mem_ofPred_eq, occursAt_iff_matchesAt, hbyte, List.getElem?_drop,
      Nat.add_comm k, and_comm]
  have hfind : p.find? data = p.findFrom c.byte 0 data (data.drop p.anchor) := by
    simp [find?, hbyte]
  rw [hset, hfind, findFrom_eq_some_iff]
  simp

theorem OccursAt.anchor_eq (hp : p.cells.any Cell.counts = true) (h : p.OccursAt data i) :
    data[i + p.anchor]? = p.anchorByte? := by
  obtain ⟨c, hc, hcounts⟩ := p.exists_anchor
  obtain ⟨b, hb, haccepts⟩ := occursAt_iff.mp h p.anchor c hc
  have heq : c.byte = b := by simpa [Cell.accepts, hcounts hp] using haccepts
  rw [hb, anchorByte?, hc, Option.map_some, heq]

theorem find?_eq_some_iff_of_counts (hp : p.cells.any Cell.counts = true) :
    p.find? data = some i ↔ IsLeast {i | p.OccursAt data i} i := by
  have hset : {i | p.OccursAt data i ∧ data[i + p.anchor]? = p.anchorByte?} =
      {i | p.OccursAt data i} :=
    Set.ext fun k => and_iff_left_of_imp fun h => h.anchor_eq hp
  rw [find?_eq_some_iff, hset]

theorem exists_find?_iff_of_counts (hp : p.cells.any Cell.counts = true) :
    (∃ i, p.find? data = some i) ↔ ∃ i, p.OccursAt data i := by
  simp only [find?_eq_some_iff_of_counts hp]
  exact ⟨fun ⟨i, hi⟩ => ⟨i, hi.1⟩, exists_isLeast⟩

/-- The search agrees with the plain scan: of the offsets at which a pattern has its place and
matches it finds the least, and it finds none only where there is none. -/
theorem find?_first (hp : p.cells.any Cell.counts = true) (data : Bytes) :
    (∀ i, p.find? data = some i ↔ IsLeast {i | p.OccursAt data i} i)
    ∧ (p.find? data = none ↔ ∀ i, ¬ p.OccursAt data i) := by
  refine ⟨fun i => find?_eq_some_iff_of_counts hp, ?_⟩
  rw [← not_exists, ← exists_find?_iff_of_counts hp, Option.eq_none_iff_forall_ne_some, not_exists]

def ragged : Pattern where
  cells := [⟨0x90, false⟩, ⟨0x8B, true⟩, ⟨7, false⟩, ⟨0x05, true⟩, Cell.wild]
  nonempty := by decide

def raggedData : Bytes := [0x8B, 0x8B, 0x8B, 0x90, 0x48, 0x8B, 0x10, 0x05, 0xC3]

theorem find?_first_ragged : ragged.cells.any Cell.counts = true
    ∧ IsLeast {i | ragged.OccursAt raggedData i} 4
    ∧ ∀ i, ¬ ragged.OccursAt (raggedData.take 8) i :=
  ⟨by decide, ((find?_first (by decide) raggedData).1 4).mp (by decide),
    (find?_first (by decide) (raggedData.take 8)).2.mp (by decide)⟩

def anyByte : Pattern := ⟨[Cell.wild], by decide⟩

/-- A wildcard alone matches any byte but is found in none that differs from its own, which does not
count. -/
theorem find?_anyByte : ofMask [0] [false] = .ok anyByte ∧ anyByte.find? [1] = none
    ∧ IsLeast {i | anyByte.OccursAt [1] i} 0 := by
  refine ⟨by decide, by decide, ?_, fun _ _ => Nat.zero_le _⟩
  exact ⟨by decide, by decide⟩

end Pattern

end TypeAtlas
