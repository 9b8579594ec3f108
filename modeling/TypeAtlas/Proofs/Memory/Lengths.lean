import TypeAtlas.Proofs.Memory.Reads

namespace TypeAtlas

def Backing.Fits : Backing → Prop
  | .owned _ => True
  | .file _ offset length => offset + length < Word.bound

theorem Backing.Fits.exists_bytes {backing : Backing} (h : backing.Fits) :
    ∃ bytes, backing.bytes = .ok bytes := by
  cases backing with
  | owned bytes => exact ⟨bytes, rfl⟩
  | file contents offset length =>
    exact ⟨_, Overflow.bind_eq_ok.mpr ⟨_, Word.add_eq_ok_iff.mpr ⟨h, rfl⟩, rfl⟩⟩

namespace Space

variable {s : Space} {m : Mapping} {a : Address}

theorem Readable.remaining_pos (hm : s.Readable a m) : 0 < m.region.range.remaining a := by
  have hcontains : m.region.range.contains a = true := hm.contains
  rw [Range.remaining, if_pos hcontains]
  exact Nat.sub_pos_of_lt (Range.contains_iff.mp hcontains).2

theorem readableLength_eq (hs : s.Ordered) (hm : s.Readable a m) :
    s.readableLength a = m.region.range.remaining a := by
  rw [readableLength, hm.find?_eq hs, Option.filter_some, if_pos hm.canRead]

theorem readableLength_eq_zero (hs : s.Ordered) (h : ¬ ∃ m, s.Readable a m) :
    s.readableLength a = 0 := by
  have hfind : (s.find? a).filter (·.region.protection.canRead) = none := by
    rw [Option.filter_eq_none_iff]
    intro m hm hread
    obtain ⟨hmem, hcontains⟩ := hs.find?_eq_some_iff.mp hm
    exact h ⟨m, hmem, hcontains, hread⟩
  rw [readableLength, hfind]

theorem exists_readable_of_find? {r : Region}
    (h : s.regions.find? (fun r => r.contains a && r.protection.canRead) = some r) :
    ∃ m, s.Readable a m ∧ m.region = r := by
  obtain ⟨m, hmem, rfl⟩ := List.mem_map.mp (List.mem_of_find?_eq_some h)
  have hreadable := List.find?_some h
  rw [Bool.and_eq_true] at hreadable
  exact ⟨m, ⟨hmem, hreadable.1, hreadable.2⟩, rfl⟩

theorem readableAmong_eq (hs : s.Ordered) (hm : s.Readable a m) :
    Memory.readableAmong s.regions a = m.region.range.remaining a := by
  unfold Memory.readableAmong
  split
  case h_1 r hfind =>
    obtain ⟨n, hn, rfl⟩ := exists_readable_of_find? hfind
    rw [hm.unique hs hn]
  case h_2 hfind =>
    have hclosed := List.find?_eq_none.mp hfind m.region (List.mem_map_of_mem hm.mem)
    exact absurd (Bool.and_eq_true_iff.mpr ⟨hm.contains, hm.canRead⟩) hclosed

theorem readableAmong_eq_zero (h : ¬ ∃ m, s.Readable a m) :
    Memory.readableAmong s.regions a = 0 := by
  unfold Memory.readableAmong
  split
  case h_1 r hfind =>
    obtain ⟨m, hm, -⟩ := exists_readable_of_find? hfind
    exact absurd ⟨m, hm⟩ h
  case h_2 => rfl

theorem readableLength_eq_readableAmong (hs : s.Ordered) (a : Address) :
    s.readableLength a = Memory.readableAmong s.regions a := by
  by_cases hread : ∃ m, s.Readable a m
  · obtain ⟨m, hm⟩ := hread
    rw [readableLength_eq hs hm, readableAmong_eq hs hm]
  · rw [readableLength_eq_zero hs hread, readableAmong_eq_zero hread]

theorem exists_readable_of_readableLength_pos (hs : s.Ordered) (h : 0 < s.readableLength a) :
    ∃ m, s.Readable a m := by
  by_contra hread
  exact Nat.ne_of_gt h (readableLength_eq_zero hs hread)

/-- Whatever calls have made a memory, both ways of asking for the readable bytes from an address on
agree.  Where there are any and no region's part of a file ends past the last word, reads of up to
so many bytes give as many as are asked for, and all longer ones fail for their length.  Room for
the bytes of a read is taken for granted, as in `read` itself. -/
theorem readable_after_calls (calls : List Call) (a : Address) :
    let s := empty.after calls
    s.readableLength a = Memory.readableAmong s.regions a
    ∧ ((∀ m ∈ s.mappings, m.backing.Fits) → 0 < s.readableLength a → ∀ length,
      (length ≤ s.readableLength a →
        ∃ bytes, s.read a length = .ok bytes ∧ bytes.length = length)
      ∧ (s.readableLength a < length →
        s.read a length = .error (.refused (.readFailed a length)))) := by
  intro s
  have hs : s.Ordered := ordered_after calls
  refine ⟨readableLength_eq_readableAmong hs a, fun hfits hpos length => ?_⟩
  have hb : s.Backed := fun m hm => (hfits m hm).exists_bytes
  obtain ⟨m, hm⟩ := exists_readable_of_readableLength_pos hs hpos
  rw [readableLength_eq hs hm]
  constructor
  · intro hlength
    exact ⟨_, (read_eq_ok_iff hs hb).mpr ⟨m, hm, hlength, rfl⟩, by simp⟩
  · intro hlength
    exact (read_eq_error_iff hs hb).mpr (.inr ⟨⟨m, hm, hlength⟩, rfl⟩)

theorem readable_after_calls_crowded :
    (∀ m ∈ (empty.after crowdedCalls).mappings, m.backing.Fits)
    ∧ (empty.after crowdedCalls).readableLength 0x1004 = 4
    ∧ Memory.readableAmong (empty.after crowdedCalls).regions 0x1004 = 4
    ∧ (∃ bytes, (empty.after crowdedCalls).read 0x1004 3 = .ok bytes ∧ bytes.length = 3)
    ∧ (empty.after crowdedCalls).read 0x1004 5 = .error (.refused (.readFailed 0x1004 5)) := by
  have hfits : ∀ m ∈ (empty.after crowdedCalls).mappings, m.backing.Fits := by
    simp [mappings_crowded, crowdedHeap, crowdedTop, Block.mapping, Image.piece, piece,
      crowdedImage, crowdedText, Segment.region, Region.start, Backing.Fits, Word.bound]
  have hlength : (empty.after crowdedCalls).readableLength 0x1004 = 4 := by decide +kernel
  obtain ⟨hagrees, hreads⟩ := readable_after_calls crowdedCalls 0x1004
  have hpos : 0 < (empty.after crowdedCalls).readableLength 0x1004 := by simp [hlength]
  exact ⟨hfits, hlength, hagrees ▸ hlength, (hreads hfits hpos 3).1 (by simp [hlength]),
    (hreads hfits hpos 5).2 (by simp [hlength])⟩

end Space

end TypeAtlas
