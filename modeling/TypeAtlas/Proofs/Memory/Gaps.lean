import TypeAtlas.Proofs.Memory.Growth

/-! Mapping a region around what is there: its parts fill just what was left open of it, so that
nothing stands in their way, and nothing that was there goes away. -/

namespace TypeAtlas

theorem Range.exists_contains_of_overlaps {r s : Range} (hr : 0 < r.size) (hs : 0 < s.size)
    (h : r.overlaps s = true) : ∃ a : Nat, r.contains a = true ∧ s.contains a = true := by
  obtain ⟨hrs, hsr⟩ := overlaps_iff.mp h
  have hr : r.start < r.stop :=
    Nat.lt_min.mpr ⟨Nat.lt_add_of_pos_right hr, Nat.lt_of_lt_of_le hrs s.stop_le_top⟩
  have hs : s.start < s.stop :=
    Nat.lt_min.mpr ⟨Nat.lt_add_of_pos_right hs, Nat.lt_of_lt_of_le hsr r.stop_le_top⟩
  refine ⟨max r.start s.start, contains_iff.mpr ⟨Nat.le_max_left .., ?_⟩,
    contains_iff.mpr ⟨Nat.le_max_right .., ?_⟩⟩
  · exact Nat.max_lt.mpr ⟨hr, hsr⟩
  · exact Nat.max_lt.mpr ⟨hrs, hs⟩

namespace Space

variable {s t : Space} {m : Mapping} {ms : List Mapping} {region : Region} {contents : Bytes}
  {offset length cursor stop a : Nat} {gap : Nat × Nat} {gs : List (Nat × Nat)}

theorem gaps_cons (m : Mapping) (ms : List Mapping) (cursor stop : Nat) :
    gaps (m :: ms) cursor stop =
      if m.region.range.stop ≤ cursor ∨ stop ≤ m.region.start then gaps ms cursor stop
      else if cursor < m.region.start then
        (cursor, m.region.start) :: gaps ms (max cursor m.region.range.stop) stop
      else gaps ms (max cursor m.region.range.stop) stop := by
  simp only [gaps, Bool.or_eq_true, decide_eq_true_eq]

theorem exists_mem_gaps (h : ms.Pairwise fun m n => m.region.start ≤ n.region.start) :
    (∃ gap ∈ gaps ms cursor stop, gap.1 ≤ a ∧ a < gap.2) ↔
      cursor ≤ a ∧ a < stop ∧ ∀ m ∈ ms, ¬ m.region.contains a = true := by
  induction ms generalizing cursor with
  | nil =>
    unfold gaps
    split <;> simp
    omega
  | cons m ms ih =>
    obtain ⟨hfirst, hsorted⟩ := List.pairwise_cons.mp h
    have hm : m.region.contains a = true ↔ ¬ a < m.region.start ∧ a < m.region.range.stop := by
      rw [Nat.not_lt]
      exact Range.contains_iff
    -- an address before the first mapping is before all others
    have hbefore (hlt : a < m.region.start) : ∀ n ∈ ms, ¬ n.region.contains a = true := by
      intro n hn hcontains
      have hle : n.region.start ≤ a := (Range.contains_iff.mp hcontains).1
      exact Nat.not_lt.mpr ((hfirst n hn).trans hle) hlt
    rw [gaps_cons, List.forall_mem_cons]
    split
    case isTrue haside =>
      rw [ih hsorted, hm]
      constructor
      · rintro ⟨hcursor, hstop, hrest⟩
        exact ⟨hcursor, hstop, by omega, hrest⟩
      · rintro ⟨hcursor, hstop, _, hrest⟩
        exact ⟨hcursor, hstop, hrest⟩
    case isFalse hinside =>
      split
      case isTrue hopen =>
        simp only [List.mem_cons, or_and_right, exists_or, exists_eq_left]
        rw [ih hsorted, hm]
        constructor
        · rintro (⟨hcursor, hlt⟩ | ⟨hcursor, hstop, hrest⟩)
          · exact ⟨hcursor, by omega, by omega, hbefore hlt⟩
          · exact ⟨by omega, hstop, by omega, hrest⟩
        · rintro ⟨hcursor, hstop, hout, hrest⟩
          by_cases hlt : a < m.region.start
          · exact .inl ⟨hcursor, hlt⟩
          · exact .inr ⟨by omega, hstop, hrest⟩
      case isFalse hopen =>
        rw [ih hsorted, hm]
        constructor
        · rintro ⟨hcursor, hstop, hrest⟩
          exact ⟨by omega, hstop, by omega, hrest⟩
        · rintro ⟨hcursor, hstop, hout, hrest⟩
          exact ⟨by omega, hstop, hrest⟩

theorem pairwise_gaps (hstop : stop ≤ Word.top) :
    (gaps ms cursor stop).Pairwise fun gap next => gap.2 ≤ next.1 := by
  induction ms generalizing cursor with
  | nil =>
    unfold gaps
    split
    · exact List.pairwise_singleton ..
    · exact .nil
  | cons m ms ih =>
    rw [gaps_cons]
    split
    case isTrue => exact ih
    case isFalse hinside =>
      split
      case isTrue hopen =>
        refine List.pairwise_cons.mpr ⟨fun next hnext => ?_, ih⟩
        -- a mapping that starts before the last address ends no earlier than it starts
        have hle : m.region.start ≤ m.region.range.stop :=
          Nat.le_min.mpr ⟨Nat.le_add_right .., by omega⟩
        exact hle.trans ((Nat.le_max_right ..).trans (mem_gaps hnext).1)
      case isFalse => exact ih

theorem contains_piece_iff (hlt : gap.1 < gap.2) (htop : gap.2 ≤ Word.top) :
    (piece region contents offset length gap).region.contains a = true ↔
      gap.1 ≤ a ∧ a < gap.2 := by
  have hstop : (piece region contents offset length gap).region.range.stop = gap.2 := by
    change min (gap.1 + (gap.2 - gap.1)) Word.top = gap.2
    omega
  have h : (piece region contents offset length gap).region.contains a = true ↔ gap.1 ≤ a
      ∧ a < (piece region contents offset length gap).region.range.stop := Range.contains_iff
  rw [h, hstop]

theorem outcome_insertStep (h : s.insert m = .ok t) :
    Step.outcome (insertStep m) s = (.ok (), t) := by
  rw [insertStep, Step.outcome_bind, Step.outcome_get]
  simp only [h]
  rfl

theorem exists_outcome_forM (hs : s.Ordered) (hfilled : ∀ m ∈ ms, 0 < m.region.range.size)
    (hfree : ∀ m ∈ ms, ∀ n ∈ s.mappings, n.region.range.overlaps m.region.range = false)
    (hapart : ms.Pairwise fun m n => m.region.range.overlaps n.region.range = false) :
    ∃ t, Step.outcome (ms.forM insertStep) s = (.ok (), t) ∧ t.Ordered
      ∧ t.mappings.Perm (ms ++ s.mappings) := by
  -- a mapping that finds room leaves room for those that are apart from it
  induction ms generalizing s with
  | nil => exact ⟨s, rfl, hs, .refl _⟩
  | cons m ms ih =>
    obtain ⟨hm, hapart⟩ := List.pairwise_cons.mp hapart
    have hins : s.insert m = .ok ⟨place m s.mappings⟩ :=
      insert_eq_ok_iff.mpr (.inr ⟨hfilled m (by simp), hfree m (by simp), rfl⟩)
    have hfree' (k : Mapping) (hk : k ∈ ms) (n : Mapping) (hn : n ∈ place m s.mappings) :
        n.region.range.overlaps k.region.range = false := by
      cases mem_place.mp hn with
      | inl heq => exact heq ▸ hm k hk
      | inr hn => exact hfree k (List.mem_cons_of_mem _ hk) n hn
    obtain ⟨t, ht, hordered, hperm⟩ := ih (hs.insert hins)
      (fun k hk => hfilled k (List.mem_cons_of_mem _ hk)) hfree' hapart
    refine ⟨t, ?_, hordered, hperm.trans ?_⟩
    · change Step.outcome (insertStep m >>= fun _ => ms.forM insertStep) s = _
      rw [Step.outcome_bind, outcome_insertStep hins]
      exact ht
    · calc ms ++ place m s.mappings
        _ |>.Perm (ms ++ m :: s.mappings) := (place_perm m s.mappings).append_left ms
        _ |>.Perm (m :: ms ++ s.mappings) := List.perm_middle

theorem mapGap_eq (h : offset + (gap.1 - region.start) < Word.bound) :
    mapGap region contents offset length gap =
      insertStep (piece region contents offset length gap) := by
  have hadd := Word.add_eq_ok_iff.mpr ⟨h, rfl⟩
  simp only [mapGap, hadd, pure_bind]
  rfl

theorem forM_mapGap (h : ∀ gap ∈ gs, offset + (gap.1 - region.start) < Word.bound) :
    gs.forM (mapGap region contents offset length) =
      (gs.map (piece region contents offset length)).forM insertStep := by
  induction gs with
  | nil => rfl
  | cons gap gs ih =>
    change (do
      mapGap region contents offset length gap
      gs.forM (mapGap region contents offset length)) = _
    rw [mapGap_eq (h gap (by simp)), ih fun gap hgap => h gap (List.mem_cons_of_mem _ hgap)]
    rfl

def parts (s : Space) (region : Region) (contents : Bytes) (offset length : Nat) : List Mapping :=
  (gaps s.mappings region.start region.range.stop).map (piece region contents offset length)

theorem length_parts : (s.parts region contents offset length).length =
    (gaps s.mappings region.start region.range.stop).length := List.length_map ..

theorem filled_parts (hm : m ∈ s.parts region contents offset length) :
    0 < m.region.range.size := by
  obtain ⟨gap, hgap, rfl⟩ := List.mem_map.mp hm
  exact Nat.sub_pos_of_lt (mem_gaps hgap).2.1

theorem contains_part_iff (hgap : gap ∈ gaps s.mappings region.start region.range.stop) :
    (piece region contents offset length gap).region.contains a = true ↔
      gap.1 ≤ a ∧ a < gap.2 := by
  obtain ⟨_, hlt, hstop⟩ := mem_gaps hgap
  exact contains_piece_iff hlt (hstop.trans region.range.stop_le_top)

theorem Ordered.exists_mem_parts (hs : s.Ordered) :
    (∃ m ∈ s.parts region contents offset length, m.region.contains a = true) ↔
      region.contains a = true ∧ ∀ m ∈ s.mappings, ¬ m.region.contains a = true := by
  have hregion : region.contains a = true ↔ region.start ≤ a ∧ a < region.range.stop :=
    Range.contains_iff
  rw [hregion, and_assoc, ← exists_mem_gaps hs.sorted]
  constructor
  · intro ⟨m, hm, ha⟩
    obtain ⟨gap, hgap, rfl⟩ := List.mem_map.mp hm
    exact ⟨gap, hgap, (contains_part_iff hgap).mp ha⟩
  · intro ⟨gap, hgap, ha⟩
    exact ⟨_, List.mem_map_of_mem hgap, (contains_part_iff hgap).mpr ha⟩

theorem Ordered.parts_free (hs : s.Ordered) (hm : m ∈ s.parts region contents offset length)
    (n : Mapping) (hn : n ∈ s.mappings) : n.region.range.overlaps m.region.range = false := by
  by_contra hover
  obtain ⟨a, hna, hma⟩ := Range.exists_contains_of_overlaps (hs.filled n hn) (filled_parts hm)
    (eq_true_of_ne_false hover)
  exact (hs.exists_mem_parts.mp ⟨m, hm, hma⟩).2 n hn hna

theorem parts_apart : (s.parts region contents offset length).Pairwise fun m n =>
    m.region.range.overlaps n.region.range = false := by
  apply List.pairwise_map.mpr
  apply (pairwise_gaps region.range.stop_le_top).imp_of_mem
  intro gap next hgap hnext hle
  by_contra hover
  obtain ⟨a, ha, hb⟩ := Range.exists_contains_of_overlaps
    (filled_parts (List.mem_map_of_mem hgap)) (filled_parts (List.mem_map_of_mem hnext))
    (eq_true_of_ne_false hover)
  have hlt : a < gap.2 := ((contains_part_iff hgap).mp ha).2
  have hge : next.1 ≤ a := ((contains_part_iff hnext).mp hb).1
  omega

theorem Ordered.exists_outcome_mapRegion_of_places (hs : s.Ordered) (region : Region)
    (contents : Bytes) (length : Nat)
    (hplaces : ∀ gap ∈ gaps s.mappings region.start region.range.stop,
      offset + (gap.1 - region.start) < Word.bound) :
    ∃ t, Step.outcome (mapRegion region contents offset length) s =
        (.ok (s.parts region contents offset length).length, t)
      ∧ t.Ordered ∧ t.mappings.Perm (s.parts region contents offset length ++ s.mappings) := by
  obtain ⟨t, ht, hordered, hperm⟩ := exists_outcome_forM hs (fun m hm => filled_parts hm)
    (fun m hm => hs.parts_free hm) parts_apart
  have hparts : (gaps s.mappings region.start region.range.stop).forM
      (mapGap region contents offset length) =
        (s.parts region contents offset length).forM insertStep := forM_mapGap hplaces
  refine ⟨t, ?_, hordered, hperm⟩
  rw [mapRegion, Step.outcome_bind, Step.outcome_get]
  dsimp only
  rw [Step.outcome_bind, hparts, ht, length_parts]
  rfl

theorem sub_lt_size (hgap : gap ∈ gaps ms region.start region.range.stop) :
    gap.1 - region.start < region.range.size := by
  obtain ⟨hstart, hlt, hstop⟩ := mem_gaps hgap
  have hstop : gap.2 ≤ region.start + region.range.size := hstop.trans (Nat.min_le_left ..)
  omega

theorem Ordered.exists_outcome_mapRegion (hs : s.Ordered) (region : Region) (contents : Bytes)
    (length : Nat) (hroom : offset + region.range.size < Word.bound) :
    ∃ t, Step.outcome (mapRegion region contents offset length) s =
        (.ok (s.parts region contents offset length).length, t)
      ∧ t.Ordered ∧ t.mappings.Perm (s.parts region contents offset length ++ s.mappings) := by
  apply hs.exists_outcome_mapRegion_of_places
  intro gap hgap
  have hlt := sub_lt_size hgap
  omega

end Space

end TypeAtlas
