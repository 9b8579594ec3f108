import TypeAtlas.Proofs.Pattern.Search
import Mathlib.Data.List.Zip

namespace TypeAtlas

theorem Cell.accepts_shown (c : Cell) : c.shown.accepts = c.accepts := by
  funext b
  by_cases h : c.counts = true
  · rw [shown, if_pos h]
  · simp [accepts, h]

namespace Pattern

def bytes (p : Pattern) : Bytes := p.cells.map Cell.byte

def mask (p : Pattern) : List Bool := p.cells.map Cell.counts

def shown (p : Pattern) : Pattern := ⟨p.cells.map Cell.shown, by simpa using p.nonempty⟩

variable {p q : Pattern} {bs : Bytes} {bits : List Bool} {cells : List Cell} {i : Nat}

theorem any_counts_iff : p.cells.any Cell.counts = true ↔ true ∈ p.mask := by
  simp [mask]

theorem ofMask_eq_ok_iff : ofMask bs bits = .ok p ↔ p.bytes = bs ∧ p.mask = bits := by
  unfold ofMask
  constructor
  · intro h
    split at h
    case isTrue hlength =>
      rw [bytes, mask, ofCells_eq_ok_iff.mp h, ← List.map_uncurry_zip_eq_zipWith, List.map_map,
        List.map_map]
      exact ⟨List.map_fst_zip (Nat.le_of_eq hlength),
        List.map_snd_zip (Nat.le_of_eq hlength.symm)⟩
    case isFalse => cases h
  · rintro ⟨rfl, rfl⟩
    have hlength : p.bytes.length = p.mask.length := by simp [bytes, mask]
    have hcells : List.zipWith Cell.mk p.bytes p.mask = p.cells := by
      rw [bytes, mask, List.zipWith_map, List.zipWith_self, List.map_id']
    rw [if_pos hlength]
    exact ofCells_eq_ok_iff.mpr hcells.symm

theorem mask_shown (p : Pattern) : p.shown.mask = p.mask := by
  simp [mask, shown]

theorem getElem?_bytes_shown (h : p.mask[i]? = some true) :
    p.shown.bytes[i]? = p.bytes[i]? := by
  rw [mask, List.getElem?_map, Option.map_eq_some_iff] at h
  obtain ⟨c, hc, hcounts⟩ := h
  simp [bytes, shown, hc, Cell.shown, hcounts]

theorem acceptsAll_map_shown (cells : List Cell) :
    acceptsAll (cells.map Cell.shown) = acceptsAll cells := by
  induction cells with
  | nil => rfl
  | cons c cells ih =>
    funext data
    cases data with
    | nil => rfl
    | cons b data => rw [List.map_cons, acceptsAll, acceptsAll, c.accepts_shown, ih]

theorem matchesAt_shown (p : Pattern) : p.shown.matchesAt = p.matchesAt :=
  acceptsAll_map_shown p.cells

theorem find?_congr (hp : true ∈ p.mask) (hq : true ∈ q.mask) (h : p.matchesAt = q.matchesAt) :
    p.find? = q.find? := by
  funext data
  ext i
  rw [find?_eq_some_iff_of_counts (any_counts_iff.mpr hp),
    find?_eq_some_iff_of_counts (any_counts_iff.mpr hq)]
  simp only [occursAt_iff_matchesAt, h]

theorem find?_shown (h : true ∈ p.mask) : p.shown.find? = p.find? :=
  find?_congr (p.mask_shown ▸ h) h p.matchesAt_shown

theorem parse_text_of_mem (h : true ∈ p.mask) : parse p.text = .ok p.shown := by
  rw [parse_text, if_pos (any_counts_iff.mpr h)]
  rfl

theorem parse_text_eq_error_iff {e : Error} :
    parse p.text = .error e ↔ true ∉ p.mask ∧ e = .allWild p.text := by
  rw [parse_text, ← any_counts_iff, eq_comm (a := e)]
  split
  case isTrue h => simp [h]
  case isFalse h => simp [h]

/-- The text form of a pattern is refused exactly if no byte counts.  Otherwise it is read as a
pattern with the same mask and the same bytes where they count, which matches and is found wherever
the first one is.  A pattern that was read itself is read again as it is. -/
theorem kept_in_text :
    (∀ bs bits p, ofMask bs bits = .ok p →
      (∀ e, parse p.text = .error e ↔ true ∉ bits ∧ e = .allWild p.text)
      ∧ (true ∈ bits → ∃ q, parse p.text = .ok q ∧ q.mask = bits
        ∧ (∀ i : Nat, bits[i]? = some true → q.bytes[i]? = bs[i]?)
        ∧ ∀ data, q.matchesAt data = p.matchesAt data ∧ q.find? data = p.find? data))
    ∧ ∀ s q, parse s = .ok q → parse q.text = .ok q := by
  refine ⟨fun bs bits p h => ?_, fun s q => parse_text_of_parse⟩
  obtain ⟨rfl, rfl⟩ := ofMask_eq_ok_iff.mp h
  refine ⟨fun e => parse_text_eq_error_iff, fun hcounts => ?_⟩
  refine ⟨p.shown, parse_text_of_mem hcounts, p.mask_shown, fun i => getElem?_bytes_shown, ?_⟩
  intro data
  exact ⟨congrFun p.matchesAt_shown data, congrFun (find?_shown hcounts) data⟩

def terse : Pattern := ⟨[⟨0x8B, true⟩, Cell.wild, ⟨0x05, true⟩], by decide⟩

theorem kept_in_text_ragged :
    ofMask [0x90, 0x8B, 7, 0x05, 0] [false, true, false, true, false] = .ok ragged
    ∧ (∃ q, parse ragged.text = .ok q ∧ q ≠ ragged ∧ q.find? raggedData = some 4)
    ∧ ∃ q, parse " 8b\t? 05" = .ok q ∧ q.text = "8B ?? 05" ∧ parse "8B ?? 05" = .ok q := by
  have hmade : ofMask [0x90, 0x8B, 7, 0x05, 0] [false, true, false, true, false] = .ok ragged := by
    decide
  have hlost : (parse ragged.text).toOption ≠ some ragged := by decide +kernel
  obtain ⟨q, hq, -, -, hsame⟩ := (kept_in_text.1 _ _ _ hmade).2 (by decide)
  refine ⟨hmade, ⟨q, hq, ?_, (hsame raggedData).2.trans (by decide)⟩, ?_⟩
  · rintro rfl
    exact hlost (by rw [hq]; rfl)
  · have hread : parse " 8b\t? 05" = .ok terse := by decide +kernel
    have htext : terse.text = "8B ?? 05" := by decide +kernel
    exact ⟨terse, hread, htext, htext ▸ kept_in_text.2 _ _ hread⟩

end Pattern

end TypeAtlas
