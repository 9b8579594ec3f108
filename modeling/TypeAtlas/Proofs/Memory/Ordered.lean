import TypeAtlas.Memory.Space
import Mathlib.Data.List.TakeWhile

/-! Memory in address order: mappings stand by where they start, none is empty and no two overlap.
Adding one keeps this, and while it holds the last mapping that starts no later than an address is
the only one that may hold it. -/

namespace TypeAtlas

namespace Range

variable {r s : Range} {a : Address}

theorem stop_le_top (r : Range) : r.stop ≤ Word.top := Nat.min_le_right ..

theorem overlaps_comm (r s : Range) : r.overlaps s = s.overlaps r := by
  rw [Bool.eq_iff_iff, overlaps_iff, overlaps_iff, and_comm]

theorem overlaps_of_contains (hr : r.contains a = true) (hs : s.contains a = true) :
    r.overlaps s = true := by
  rw [contains_iff] at hr hs
  exact overlaps_iff.mpr ⟨Nat.lt_of_le_of_lt hr.1 hs.2, Nat.lt_of_le_of_lt hs.1 hr.2⟩

/-- Ranges end at the last word at the latest, and one that starts there holds nothing: it lies in
no other, however large it is. -/
theorem overlaps_of_contains_start (hsize : 0 < s.size) (h : r.contains s.start = true) :
    r.overlaps s = true := by
  rw [contains_iff] at h
  have hstop : s.start < s.stop :=
    Nat.lt_min.mpr ⟨Nat.lt_add_of_pos_right hsize, Nat.lt_of_lt_of_le h.2 r.stop_le_top⟩
  exact overlaps_iff.mpr ⟨Nat.lt_of_le_of_lt h.1 hstop, h.2⟩

end Range

namespace Space

open Memory (Error)

variable {s t : Space} {m n : Mapping} {ms : List Mapping} {a : Address} {e : Error}

structure Ordered (s : Space) : Prop where
  sorted : s.mappings.Pairwise fun m n => m.region.start ≤ n.region.start
  apart : s.mappings.Pairwise fun m n => m.region.range.overlaps n.region.range = false
  filled : ∀ m ∈ s.mappings, 0 < m.region.range.size

theorem ordered_empty : empty.Ordered := ⟨.nil, .nil, by simp [empty]⟩

theorem place_perm (m : Mapping) (ms : List Mapping) : (place m ms).Perm (m :: ms) := by
  induction ms with
  | nil => rfl
  | cons n ns ih =>
    unfold place
    split
    · exact (ih.cons n).trans (.swap m n ns)
    · rfl

theorem mem_place : n ∈ place m ms ↔ n = m ∨ n ∈ ms :=
  (place_perm m ms).mem_iff.trans List.mem_cons

theorem sorted_place (h : ms.Pairwise fun m n => m.region.start ≤ n.region.start) :
    (place m ms).Pairwise fun m n => m.region.start ≤ n.region.start := by
  induction ms with
  | nil => exact List.pairwise_singleton ..
  | cons n ns ih =>
    rw [List.pairwise_cons] at h
    unfold place
    split
    case isTrue hle =>
      refine List.pairwise_cons.mpr ⟨fun k hk => ?_, ih h.2⟩
      rcases mem_place.mp hk with rfl | hk
      · exact hle
      · exact h.1 k hk
    case isFalse hlt =>
      refine List.pairwise_cons.mpr ⟨fun k hk => ?_, List.pairwise_cons.mpr h⟩
      have hle : m.region.start ≤ n.region.start := Nat.le_of_lt (Nat.lt_of_not_le hlt)
      rcases List.mem_cons.mp hk with rfl | hk
      · exact hle
      · exact Nat.le_trans hle (h.1 k hk)

theorem any_overlaps_eq_false : s.mappings.any (·.region.range.overlaps m.region.range) = false ↔
    ∀ n ∈ s.mappings, n.region.range.overlaps m.region.range = false := by
  simp only [List.any_eq_false, Bool.not_eq_true]

theorem insert_eq_ok_iff : s.insert m = .ok t ↔ (m.region.range.size = 0 ∧ t = s)
    ∨ (0 < m.region.range.size ∧ (∀ n ∈ s.mappings, n.region.range.overlaps m.region.range = false)
      ∧ t = ⟨place m s.mappings⟩) := by
  rw [insert, ← any_overlaps_eq_false, Nat.pos_iff_ne_zero, eq_comm (a := t), eq_comm (a := t)]
  split
  case isTrue hsize => simp [hsize]
  case isFalse hsize =>
    split
    case isTrue h => simp [hsize, h]
    case isFalse h => simp [hsize, h]

theorem insert_eq_error_iff : s.insert m = .error e ↔ 0 < m.region.range.size
    ∧ (∃ n ∈ s.mappings, n.region.range.overlaps m.region.range = true)
    ∧ e = .overlapping m.region.start := by
  rw [insert, ← List.any_eq_true, Nat.pos_iff_ne_zero, eq_comm (a := e)]
  split
  case isTrue hsize => simp [hsize]
  case isFalse hsize =>
    split
    case isTrue h => simp [hsize, h]
    case isFalse h => simp [hsize, h]

theorem mem_insert (h : s.insert m = .ok t) (hn : n ∈ t.mappings) : n = m ∨ n ∈ s.mappings := by
  rcases insert_eq_ok_iff.mp h with ⟨_, rfl⟩ | ⟨_, _, rfl⟩
  · exact .inr hn
  · exact mem_place.mp hn

theorem Ordered.insert (hs : s.Ordered) (h : s.insert m = .ok t) : t.Ordered := by
  rcases insert_eq_ok_iff.mp h with ⟨_, rfl⟩ | ⟨hsize, hfree, rfl⟩
  · exact hs
  · refine ⟨sorted_place hs.sorted, ?_, fun n hn => ?_⟩
    · refine ((place_perm m s.mappings).pairwise_iff fun h => ?_).mpr
        (List.pairwise_cons.mpr ⟨fun n hn => ?_, hs.apart⟩)
      · rwa [Range.overlaps_comm]
      · rw [Range.overlaps_comm]
        exact hfree n hn
    · rcases mem_place.mp hn with rfl | hn
      · exact hsize
      · exact hs.filled n hn

theorem Ordered.pairwise_not_contains (hs : s.Ordered) : s.regions.Pairwise fun r t =>
    ∀ a, ¬ (r.contains a = true ∧ t.contains a = true) := by
  refine List.pairwise_map.mpr (hs.apart.imp fun hfree a h => ?_)
  exact absurd (Range.overlaps_of_contains h.1 h.2) (by simp [hfree])

theorem Ordered.exists_append (hs : s.Ordered) (a : Address) : ∃ front back,
    s.mappings = front ++ back ∧ (∀ m ∈ front, m.region.start ≤ a)
    ∧ (∀ m ∈ back, a < m.region.start)
    ∧ s.find? a = front.getLast?.filter (·.region.contains a) := by
  refine ⟨_, s.mappings.dropWhile (·.region.start ≤ a), List.takeWhile_append_dropWhile.symm,
    fun m hm => ?_, fun m hm => ?_, rfl⟩
  · have h := List.mem_takeWhile_imp hm
    simpa using h
  · have hsorted := hs.sorted.sublist (List.dropWhile_sublist (·.region.start ≤ a))
    cases hback : s.mappings.dropWhile (·.region.start ≤ a) with
    | nil => simp [hback] at hm
    | cons n ns =>
      have hn : a < n.region.start := by
        have h := List.head?_dropWhile_not (p := fun m : Mapping => m.region.start ≤ a) s.mappings
        simpa [hback] using h
      rw [hback] at hm hsorted
      rcases List.mem_cons.mp hm with rfl | hm
      · exact hn
      · exact Nat.lt_of_lt_of_le hn ((List.pairwise_cons.mp hsorted).1 m hm)

theorem Ordered.find?_eq_some_iff (hs : s.Ordered) :
    s.find? a = some m ↔ m ∈ s.mappings ∧ m.region.contains a = true := by
  obtain ⟨front, back, hsplit, hfront, hback, hfind⟩ := hs.exists_append a
  rw [hfind, Option.filter_eq_some_iff]
  constructor
  · rintro ⟨hlast, hm⟩
    exact ⟨hsplit ▸ List.mem_append_left back (List.mem_of_getLast? hlast), hm⟩
  · rintro ⟨hmem, hm⟩
    refine ⟨?_, hm⟩
    have hrange := Range.contains_iff.mp hm
    have hmem : m ∈ front := by
      rw [hsplit, List.mem_append] at hmem
      exact hmem.resolve_right fun h => absurd (hback m h) (Nat.not_lt.mpr hrange.1)
    cases hlast : front.getLast? with
    | none => simp [List.getLast?_eq_none_iff.mp hlast] at hmem
    | some n =>
      obtain ⟨init, rfl⟩ := List.getLast?_eq_some_iff.mp hlast
      rcases List.mem_append.mp hmem with hinit | hsame
      · -- a mapping before the last would reach over the start of the last
        have hsublist : [m, n].Sublist s.mappings := by
          rw [hsplit]
          exact ((List.singleton_sublist.mpr hinit).append (.refl [n])).trans
            (List.sublist_append_left ..)
        have hle : m.region.start ≤ n.region.start := by
          simpa using hs.sorted.sublist hsublist
        have hfree : m.region.range.overlaps n.region.range = false := by
          simpa using hs.apart.sublist hsublist
        have hover := Range.overlaps_of_contains_start
          (hs.filled n (hsublist.subset (by simp)))
          (Range.contains_iff.mpr ⟨hle, Nat.lt_of_le_of_lt (hfront n (by simp)) hrange.2⟩)
        simp [hfree] at hover
      · rw [List.mem_singleton.mp hsame]

end Space

end TypeAtlas
