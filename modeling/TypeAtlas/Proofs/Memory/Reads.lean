import TypeAtlas.Proofs.Memory.Calls
import Mathlib.Data.List.GetD

namespace TypeAtlas

open Memory (Error)

def Backing.byteAt : Backing → Nat → UInt8
  | .owned bytes, i => bytes.getD i 0
  | .file contents offset length, i => if i < length then contents.getD (offset + i) 0 else 0

def Mapping.byteAt (m : Mapping) (a : Address) : UInt8 := m.backing.byteAt (a - m.region.start)

def Image.byteAt (image : Image) (g : Segment) (i : Nat) : UInt8 :=
  if i < min g.fileSize g.memorySize then image.contents.getD (g.fileOffset + i) 0 else 0

inductive Space.Call.Stores : Call → Address → Protection → UInt8 → Prop
  | block {b : Block} {a : Address} {byte : UInt8} : b.start ≤ a →
      b.bytes[a - b.start]? = some byte → Stores (.addBlock b) a b.protection byte
  | segment {image : Image} {base : Option Address} {g : Segment} {start a : Nat} :
      g ∈ image.segments → Word.add? (base.getD image.preferredBase) g.offset = some start →
      start ≤ a → a - start < g.memorySize →
      Stores (.mapInto image base) a g.protection (image.byteAt g (a - start))

namespace Space

variable {s : Space} {m n : Mapping} {c : Call} {calls : List Call} {image : Image} {g : Segment}
  {backing : Backing} {bytes : Bytes} {a start length i : Nat} {gap : Nat × Nat}
  {f : Failure Error}

theorem getD_bytes (h : backing.bytes = .ok bytes) (i : Nat) :
    bytes.getD i 0 = backing.byteAt i := by
  cases backing with
  | owned bs =>
    obtain rfl := Except.ok.inj h
    rfl
  | file contents offset length =>
    obtain ⟨stop, hstop, hbytes⟩ := Overflow.bind_eq_ok.mp h
    obtain ⟨_, rfl⟩ := Word.add_eq_ok_iff.mp hstop
    obtain rfl := Overflow.pure_eq_ok.mp hbytes
    simp only [Backing.byteAt, List.getD_eq_getElem?_getD, List.getElem?_drop, List.getElem?_take,
      Nat.add_lt_add_iff_left]
    split <;> rfl

theorem window_eq (bytes : Bytes) (start length : Nat) :
    window bytes start length = (List.range length).map fun i => bytes.getD (start + i) 0 := by
  refine List.ext_getElem ?_ fun i hi hlength => ?_
  · simp only [window, List.length_append, List.length_take, List.length_drop,
      List.length_replicate, List.length_map, List.length_range]
    omega
  · simp only [window, List.getElem_append, List.getElem_take, List.getElem_drop,
      List.getElem_replicate, List.getElem_map, List.getElem_range, List.length_take,
      List.length_drop]
    simp only [List.length_map, List.length_range] at hlength
    split
    case isTrue h => rw [List.getD_eq_getElem _ _ (by omega)]
    case isFalse h => rw [List.getD_eq_default _ _ (by omega)]

theorem contains_piece {lo hi : Nat} (h : (image.piece g start (lo, hi)).region.contains a = true) :
    lo ≤ a ∧ a - lo < hi - lo := by
  obtain ⟨hlo, hhi⟩ := Range.contains_iff.mp h
  have hhi : a < lo + (hi - lo) := Nat.lt_of_lt_of_le hhi (Nat.min_le_left ..)
  have hlo : lo ≤ a := hlo
  exact ⟨hlo, by omega⟩

/-- What precedes a part in its segment moves the bytes on and leaves the file fewer of them, so
that the part shows what the segment would. -/
theorem byteAt_piece {lo hi : Nat} (hstart : start ≤ lo) (hstop : hi ≤ start + g.memorySize)
    (hlo : lo ≤ a) (hhi : a < hi) :
    (image.piece g start (lo, hi)).byteAt a = image.byteAt g (a - start) := by
  have hfile : a - lo < min (min g.fileSize g.memorySize - (lo - start)) (hi - lo)
      ↔ a - start < min g.fileSize g.memorySize := by omega
  have hplace : g.fileOffset + (lo - start) + (a - lo) = g.fileOffset + (a - start) := by omega
  change (if a - lo < min (min g.fileSize g.memorySize - (lo - start)) (hi - lo) then
    image.contents.getD (g.fileOffset + (lo - start) + (a - lo)) 0 else 0) = _
  simp only [hfile, hplace, Image.byteAt]

theorem Call.Makes.stores (h : c.Makes m) (ha : m.region.contains a = true) :
    c.Stores a m.region.protection (m.byteAt a) := by
  cases h with
  | block b =>
    obtain ⟨hstart, hstop⟩ := Range.contains_iff.mp ha
    have hlt : a - b.start < b.bytes.length :=
      Nat.sub_lt_left_of_lt_add hstart (Nat.lt_of_lt_of_le hstop (Nat.min_le_left ..))
    refine .block hstart ?_
    change _ = some (b.bytes.getD (a - b.start) 0)
    rw [List.getD_eq_getElem _ _ hlt, List.getElem?_eq_getElem hlt]
  | @piece image base g start gap hg hstart hlo hlt hhi =>
    obtain ⟨lo, hi⟩ := gap
    obtain ⟨ha₁, ha₂⟩ := contains_piece ha
    dsimp only at hlo hlt hhi
    have hhi : hi ≤ start + g.memorySize := Nat.le_trans hhi (Nat.min_le_left ..)
    rw [byteAt_piece hlo hhi ha₁ (by omega)]
    exact .segment hg hstart (by omega) (by omega)

theorem exists_bytes_piece (image : Image) (hroom : g.fileOffset + g.memorySize < Word.bound)
    (hstart : start ≤ gap.1) (hlt : gap.1 < gap.2) (hstop : gap.2 ≤ start + g.memorySize) :
    ∃ bytes, (image.piece g start gap).backing.bytes = .ok bytes := by
  have hsum : Word.add (g.fileOffset + (gap.1 - start))
      (min (min g.fileSize g.memorySize - (gap.1 - start)) (gap.2 - gap.1)) = .ok _ :=
    Word.add_eq_ok_iff.mpr ⟨by omega, rfl⟩
  exact ⟨_, Overflow.bind_eq_ok.mpr ⟨_, hsum, rfl⟩⟩

theorem Call.Makes.exists_bytes (hfits : c.Fits) (h : c.Makes m) :
    ∃ bytes, m.backing.bytes = .ok bytes := by
  cases h with
  | block b => exact ⟨b.bytes, rfl⟩
  | @piece image base g start gap hg hstart hlo hlt hhi =>
    exact exists_bytes_piece image (hfits g hg) hlo hlt (Nat.le_trans hhi (Nat.min_le_left ..))

def Backed (s : Space) : Prop := ∀ m ∈ s.mappings, ∃ bytes, m.backing.bytes = .ok bytes

theorem backed_after (hfits : ∀ c ∈ calls, c.Fits) : (empty.after calls).Backed := by
  intro m hm
  obtain ⟨c, hc, hmakes⟩ := exists_makes hm
  exact hmakes.exists_bytes (hfits c hc)

theorem exists_stores (hm : m ∈ (empty.after calls).mappings) : ∃ c ∈ calls,
    ∀ a, m.region.contains a = true → c.Stores a m.region.protection (m.byteAt a) := by
  obtain ⟨c, hc, hmakes⟩ := exists_makes hm
  exact ⟨c, hc, fun a ha => hmakes.stores ha⟩

structure Readable (s : Space) (a : Address) (m : Mapping) : Prop where
  mem : m ∈ s.mappings
  contains : m.region.contains a = true
  canRead : m.region.protection.canRead = true

theorem Readable.find?_eq (hs : s.Ordered) (hm : s.Readable a m) : s.find? a = some m :=
  hs.find?_eq_some_iff.mpr ⟨hm.mem, hm.contains⟩

theorem Readable.unique (hs : s.Ordered) (hm : s.Readable a m) (hn : s.Readable a n) : m = n := by
  have hfind := hm.find?_eq hs
  rw [hn.find?_eq hs] at hfind
  exact (Option.some.inj hfind).symm

theorem read_eq_of_not_readable (hs : s.Ordered) (h : ¬ ∃ m, s.Readable a m) (length : Nat) :
    s.read a length = .error (.refused (.accessViolation a)) := by
  unfold read
  cases hfind : s.find? a with
  | none => rfl
  | some m =>
    obtain ⟨hmem, hm⟩ := hs.find?_eq_some_iff.mp hfind
    have hclosed : ¬ m.region.protection.canRead = true := fun hread => h ⟨m, hmem, hm, hread⟩
    simp [hclosed]

theorem Readable.read_eq_backing (hs : s.Ordered) (hm : s.Readable a m) (length : Nat) :
    s.read a length =
      if m.region.range.remaining a < length then .error (.refused (.readFailed a length))
      else do
        let backing ← Outcome.ofWord m.backing.bytes
        return window backing (a - m.region.start) length := by
  rw [read, hm.find?_eq hs]
  simp only [hm.canRead, Bool.not_true, Bool.false_eq_true, if_false, gt_iff_lt]

theorem Readable.read_eq (hs : s.Ordered) (hm : s.Readable a m)
    (hbytes : m.backing.bytes = .ok bytes) (length : Nat) : s.read a length =
      if m.region.range.remaining a < length then .error (.refused (.readFailed a length))
      else .ok ((List.range length).map fun i => m.byteAt (a + i)) := by
  have hstart : m.region.start ≤ a := (Range.contains_iff.mp hm.contains).1
  have hwindow : window bytes (a - m.region.start) length
      = (List.range length).map fun i => m.byteAt (a + i) := by
    rw [window_eq]
    refine List.map_congr_left fun i _ => ?_
    rw [getD_bytes hbytes, Mapping.byteAt, Nat.sub_add_comm hstart]
  rw [hm.read_eq_backing hs, hbytes, ← hwindow]
  rfl

theorem read_eq_ok_iff (hs : s.Ordered) (hb : s.Backed) : s.read a length = .ok bytes ↔
    ∃ m, s.Readable a m ∧ length ≤ m.region.range.remaining a
      ∧ bytes = (List.range length).map fun i => m.byteAt (a + i) := by
  by_cases hread : ∃ m, s.Readable a m
  · obtain ⟨m, hm⟩ := hread
    obtain ⟨_, hbytes⟩ := hb m hm.mem
    rw [hm.read_eq hs hbytes]
    constructor
    · intro h
      split at h
      case isTrue => cases h
      case isFalse hroom => exact ⟨m, hm, Nat.not_lt.mp hroom, (Except.ok.inj h).symm⟩
    · rintro ⟨n, hn, hroom, rfl⟩
      obtain rfl := hm.unique hs hn
      rw [if_neg (Nat.not_lt.mpr hroom)]
  · rw [read_eq_of_not_readable hs hread]
    constructor
    · intro h
      cases h
    · rintro ⟨m, hm, -⟩
      exact absurd ⟨m, hm⟩ hread

theorem read_eq_error_iff (hs : s.Ordered) (hb : s.Backed) : s.read a length = .error f ↔
    ((¬ ∃ m, s.Readable a m) ∧ f = .refused (.accessViolation a))
    ∨ (∃ m, s.Readable a m ∧ m.region.range.remaining a < length)
      ∧ f = .refused (.readFailed a length) := by
  by_cases hread : ∃ m, s.Readable a m
  · obtain ⟨m, hm⟩ := hread
    obtain ⟨_, hbytes⟩ := hb m hm.mem
    rw [hm.read_eq hs hbytes]
    constructor
    · intro h
      split at h
      case isTrue hshort => exact .inr ⟨⟨m, hm, hshort⟩, (Except.error.inj h).symm⟩
      case isFalse => cases h
    · rintro (⟨hnone, -⟩ | ⟨⟨n, hn, hshort⟩, rfl⟩)
      · exact absurd ⟨m, hm⟩ hnone
      · obtain rfl := hm.unique hs hn
        rw [if_pos hshort]
  · rw [read_eq_of_not_readable hs hread]
    constructor
    · intro h
      exact .inl ⟨hread, (Except.error.inj h).symm⟩
    · rintro (⟨-, rfl⟩ | ⟨⟨m, hm, -⟩, -⟩)
      · rfl
      · exact absurd ⟨m, hm⟩ hread

/-- Whatever calls have made a memory, no two of its regions hold one address and the lookup finds
the one that does.  A read gives what some call has put at each address, or says why it does not;
a block that is refused leaves no trace.  Room for the bytes of a read is taken for granted, as in
`read` itself. -/
theorem reads_after_calls (hfits : ∀ c ∈ calls, c.Fits) :
    let s := empty.after calls
    s.regions.Pairwise (fun r t => r.start ≤ t.start)
    ∧ s.regions.Pairwise (fun r t => ∀ a, ¬ (r.contains a = true ∧ t.contains a = true))
    ∧ (∀ a m, s.find? a = some m ↔ m ∈ s.mappings ∧ m.region.contains a = true)
    ∧ (∀ m ∈ s.mappings, ∃ c ∈ calls,
        ∀ a, m.region.contains a = true → c.Stores a m.region.protection (m.byteAt a))
    ∧ (∀ a length bytes, s.read a length = .ok bytes ↔ ∃ m, s.Readable a m
        ∧ length ≤ m.region.range.remaining a
        ∧ bytes = (List.range length).map fun i => m.byteAt (a + i))
    ∧ (∀ a length f, s.read a length = .error f ↔
        ((¬ ∃ m, s.Readable a m) ∧ f = .refused (.accessViolation a))
        ∨ (∃ m, s.Readable a m ∧ m.region.range.remaining a < length)
          ∧ f = .refused (.readFailed a length))
    ∧ (∀ b f t, s.perform (.addBlock b) = (.error f, t) ↔ b.bytes ≠ []
        ∧ (∃ m ∈ s.mappings, m.region.range.overlaps ⟨b.start, b.bytes.length⟩ = true)
        ∧ f = .refused (.overlapping b.start) ∧ t = s) := by
  intro s
  have hs : s.Ordered := ordered_after calls
  have hb : s.Backed := backed_after hfits
  exact ⟨List.pairwise_map.mpr hs.sorted, hs.pairwise_not_contains,
    fun a m => hs.find?_eq_some_iff, fun m hm => exists_stores hm,
    fun a length bytes => read_eq_ok_iff hs hb, fun a length f => read_eq_error_iff hs hb,
    fun b f t => perform_addBlock_eq_error_iff⟩

def crowdedText : Segment := ⟨"text", 8, 16, 2, 14, .readExecute⟩

def crowdedImage : Image where
  contents := [0xA0, 0xA1, 0xA2, 0xA3, 0xA4, 0xA5, 0xA6, 0xA7, 0xA8, 0xA9, 0xAA, 0xAB, 0xAC, 0xAD,
    0xAE]
  preferredBase := 0xFF0
  segments := [crowdedText, ⟨"far", Word.top, 1, 0, 1, .read⟩]

def crowdedHeap : Block := ⟨0x1000, .readWrite, "heap", [1, 2, 3, 4]⟩

def crowdedTop : Block := ⟨Word.top, .read, "top", [7]⟩

def crowdedCalls : List Call :=
  [.addBlock crowdedHeap, .addBlock ⟨0x1002, .read, "late", [9, 9, 9]⟩, .mapInto crowdedImage none,
    .addBlock crowdedTop]

theorem mappings_crowded : (empty.after crowdedCalls).mappings =
    [crowdedImage.piece crowdedText 0xFF8 (0xFF8, 0x1000), crowdedHeap.mapping,
      crowdedImage.piece crowdedText 0xFF8 (0x1004, 0x1008), crowdedTop.mapping] := by
  decide +kernel

theorem crowded_reads : (∀ c ∈ crowdedCalls, c.Fits)
    ∧ (empty.after crowdedCalls).find? 0x1003 = some crowdedHeap.mapping
    ∧ (empty.after crowdedCalls).read 0x1004 4 = .ok [0xAE, 0, 0, 0]
    ∧ (empty.after crowdedCalls).read 0x1002 4 = .error (.refused (.readFailed 0x1002 4))
    ∧ (empty.after crowdedCalls).read Word.top 1
      = .error (.refused (.accessViolation Word.top)) := by
  have hfits : ∀ c ∈ crowdedCalls, c.Fits := by
    simp [crowdedCalls, Call.Fits, crowdedImage, crowdedText, Word.bound]
  have hheap : (empty.after crowdedCalls).Readable 0x1002 crowdedHeap.mapping :=
    ⟨by simp [mappings_crowded], by decide +kernel, by decide⟩
  have htext : (empty.after crowdedCalls).Readable 0x1004
      (crowdedImage.piece crowdedText 0xFF8 (0x1004, 0x1008)) :=
    ⟨by simp [mappings_crowded], by decide +kernel, by decide⟩
  have htop : ¬ ∃ m, (empty.after crowdedCalls).Readable Word.top m := by
    rintro ⟨m, hm⟩
    exact Nat.not_lt.mpr (Range.stop_le_top _) (Range.contains_iff.mp hm.contains).2
  obtain ⟨-, -, hfind, -, hread, hfail, -⟩ := reads_after_calls hfits
  exact ⟨hfits, (hfind _ _).mpr ⟨hheap.mem, by decide +kernel⟩,
    (hread _ _ _).mpr ⟨_, htext, by decide +kernel, by decide +kernel⟩,
    (hfail _ _ _).mpr (.inr ⟨⟨_, hheap, by decide +kernel⟩, rfl⟩),
    (hfail _ _ _).mpr (.inl ⟨htop, rfl⟩)⟩

end Space

end TypeAtlas
