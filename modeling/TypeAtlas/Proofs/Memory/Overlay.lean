import TypeAtlas.Proofs.Memory.Gaps
import TypeAtlas.Proofs.Memory.Reads

namespace TypeAtlas

def Segment.spans (g : Segment) (base a : Address) : Bool :=
  base + g.offset ≤ a && a < base + g.offset + g.memorySize

def Segment.Fits (g : Segment) (base : Address) : Prop :=
  base + g.offset + g.memorySize < Word.bound ∧ g.fileOffset + g.memorySize < Word.bound

namespace Space

variable {s t u : Space} {m : Mapping} {image : Image} {base a : Nat} {g : Segment}
  {gs : List Segment} {p : Protection} {byte : UInt8} {n k : Nat} {gap : Nat × Nat}

structure Holds (s : Space) (a : Address) (p : Protection) (byte : UInt8) : Prop where
  protection : s.protectionAt? a = some p
  stored : ∃ m bytes, s.find? a = some m ∧ m.backing.bytes = .ok bytes
    ∧ bytes.getD (a - m.region.start) 0 = byte
  read : p.canRead = true → s.read a 1 = .ok [byte]

theorem read_congr (h : t.find? a = s.find? a) (length : Nat) :
    t.read a length = s.read a length := by
  unfold read
  rw [h]

theorem Holds.congr (h : s.Holds a p byte) (hfind : t.find? a = s.find? a) : t.Holds a p byte where
  protection := by
    rw [protectionAt?, hfind]
    exact h.protection
  stored := hfind ▸ h.stored
  read hread := (read_congr hfind 1).trans (h.read hread)

theorem Ordered.find?_eq_none_iff (hs : s.Ordered) :
    s.find? a = none ↔ ∀ m ∈ s.mappings, ¬ m.region.contains a = true := by
  rw [Option.eq_none_iff_forall_ne_some]
  constructor
  · intro h m hm ha
    exact h m (hs.find?_eq_some_iff.mpr ⟨hm, ha⟩)
  · intro h m hfind
    obtain ⟨hm, ha⟩ := hs.find?_eq_some_iff.mp hfind
    exact h m hm ha

theorem Ordered.holds_of_mem (hs : s.Ordered) (hm : m ∈ s.mappings)
    (ha : m.region.contains a = true) {bytes : Bytes} (hbytes : m.backing.bytes = .ok bytes) :
    s.Holds a m.region.protection (m.byteAt a) := by
  have hfind := hs.find?_eq_some_iff.mpr ⟨hm, ha⟩
  constructor
  case protection => rw [protectionAt?, hfind, Option.map_some]
  case stored => exact ⟨m, bytes, hfind, hbytes, getD_bytes hbytes _⟩
  case read =>
    intro hread
    have hremaining : ¬ m.region.range.remaining a < 1 := by
      have hrange : m.region.range.contains a = true := ha
      have hlt : a < m.region.range.stop := (Range.contains_iff.mp hrange).2
      rw [Range.remaining, if_pos hrange]
      omega
    rw [Readable.read_eq hs ⟨hm, ha, hread⟩ hbytes, if_neg hremaining]
    rfl

/-- Some segments of an image have been laid over one memory, which gave another: in front of what
was there, none of them shows, and where nothing was, the first that spans the address does. -/
structure Overlaid (image : Image) (base : Address) (gs : List Segment) (s t : Space) (n : Nat) :
    Prop where
  ordered : t.Ordered
  length_eq : t.mappings.length = s.mappings.length + n
  kept : ∀ a m, s.find? a = some m → t.find? a = some m
  first : ∀ a g, s.find? a = none → gs.find? (·.spans base a) = some g →
    t.Holds a g.protection (image.byteAt g (a - (base + g.offset)))
  outside : ∀ a, s.find? a = none → gs.find? (·.spans base a) = none → t.find? a = none

namespace Overlaid

theorem nil (hs : s.Ordered) : Overlaid image base [] s s 0 where
  ordered := hs
  length_eq := rfl
  kept _ _ h := h
  first _ _ _ h := nomatch h
  outside _ h _ := h

theorem cons (h : Overlaid image base [g] s u n) (h' : Overlaid image base gs u t k) :
    Overlaid image base (g :: gs) s t (n + k) := by
  constructor
  case ordered => exact h'.ordered
  case length_eq => rw [h'.length_eq, h.length_eq, Nat.add_assoc]
  case kept => exact fun a m hfind => h'.kept a m (h.kept a m hfind)
  case first =>
    intro a g' hnone hfirst
    -- what the first segment shows is there before the others come
    cases hspans : g.spans base a with
    | true =>
      obtain rfl : g = g' := by simpa [hspans] using hfirst
      have hholds := h.first a g hnone (by simp [hspans])
      obtain ⟨m, _, hfind, _⟩ := hholds.stored
      exact hholds.congr ((h'.kept a m hfind).trans hfind.symm)
    | false =>
      have hopen : u.find? a = none := h.outside a hnone (by simp [hspans])
      exact h'.first a g' hopen (by simpa [hspans] using hfirst)
  case outside =>
    intro a hnone hnever
    rw [List.find?_cons] at hnever
    cases hspans : g.spans base a with
    | true => simp [hspans] at hnever
    | false =>
      have hopen : u.find? a = none := h.outside a hnone (by simp [hspans])
      exact h'.outside a hopen (by simpa [hspans] using hnever)

end Overlaid

theorem contains_region_iff (hfits : g.Fits base) :
    (g.region (base + g.offset)).contains a = true ↔ g.spans base a = true := by
  have hstop : (g.region (base + g.offset)).range.stop = base + g.offset + g.memorySize :=
    Nat.min_eq_left (Nat.le_sub_one_of_lt hfits.1)
  have h : (g.region (base + g.offset)).contains a = true ↔ base + g.offset ≤ a
      ∧ a < (g.region (base + g.offset)).range.stop := Range.contains_iff
  rw [h, hstop]
  simp [Segment.spans]

def segmentParts (s : Space) (image : Image) (base : Address) (g : Segment) : List Mapping :=
  s.parts (g.region (base + g.offset)) image.contents g.fileOffset (min g.fileSize g.memorySize)

theorem holds_of_mem_segmentParts (hfits : g.Fits base) (ht : t.Ordered)
    (hm : m ∈ s.segmentParts image base g) (hmem : m ∈ t.mappings)
    (ha : m.region.contains a = true) :
    t.Holds a g.protection (image.byteAt g (a - (base + g.offset))) := by
  obtain ⟨gap, hgap, rfl⟩ := List.mem_map.mp hm
  obtain ⟨hstart, hlt, hstop⟩ := mem_gaps hgap
  obtain ⟨hlo, hhi⟩ := (contains_part_iff hgap).mp ha
  have hstop : gap.2 ≤ base + g.offset + g.memorySize := hstop.trans (Nat.min_le_left ..)
  obtain ⟨bytes, hbytes⟩ := exists_bytes_piece image hfits.2 hstart hlt hstop
  have hbyte : (image.piece g (base + g.offset) gap).byteAt a =
      image.byteAt g (a - (base + g.offset)) := byteAt_piece hstart hstop hlo hhi
  rw [← hbyte]
  exact ht.holds_of_mem hmem ha hbytes

theorem Overlaid.of_segmentParts (hs : s.Ordered) (hfits : g.Fits base) (ht : t.Ordered)
    (hperm : t.mappings.Perm (s.segmentParts image base g ++ s.mappings)) :
    Overlaid image base [g] s t (s.segmentParts image base g).length := by
  have hmem (m : Mapping) := (hperm.mem_iff (a := m)).trans List.mem_append
  constructor
  case ordered => exact ht
  case length_eq => rw [hperm.length_eq, List.length_append, Nat.add_comm]
  case kept =>
    intro a m hfind
    obtain ⟨hm, ha⟩ := hs.find?_eq_some_iff.mp hfind
    exact ht.find?_eq_some_iff.mpr ⟨(hmem m).mpr (.inr hm), ha⟩
  case first =>
    intro a g' hnone hfirst
    obtain ⟨hspans, rfl⟩ : g.spans base a = true ∧ g = g' := by
      simpa [List.find?_singleton] using hfirst
    obtain ⟨m, hm, ha⟩ := hs.exists_mem_parts.mpr
      ⟨(contains_region_iff hfits).mpr hspans, hs.find?_eq_none_iff.mp hnone⟩
    exact holds_of_mem_segmentParts hfits ht hm ((hmem m).mpr (.inl hm)) ha
  case outside =>
    intro a hnone hnever
    have hspans : ¬ g.spans base a = true := by simpa [List.find?_singleton] using hnever
    refine ht.find?_eq_none_iff.mpr fun m hm ha => ?_
    cases (hmem m).mp hm with
    | inl hm =>
      have hregion := (hs.exists_mem_parts.mp ⟨m, hm, ha⟩).1
      exact hspans ((contains_region_iff hfits).mp hregion)
    | inr hm => exact hs.find?_eq_none_iff.mp hnone m hm ha

theorem exists_overlaid_mapSegment (image : Image) (hs : s.Ordered) (hfits : g.Fits base) :
    ∃ n t, Step.outcome (image.mapSegment base g) s = (.ok n, t)
      ∧ Overlaid image base [g] s t n := by
  unfold Image.mapSegment
  by_cases hsize : g.memorySize = 0
  · have hspans (a : Address) : g.spans base a = false := by simp [Segment.spans, hsize]
    rw [if_pos hsize]
    refine ⟨0, s, rfl, hs, rfl, fun _ _ h => h, fun a g' _ hfirst => ?_, fun _ h _ => h⟩
    simp [hspans] at hfirst
  · have hstart := Word.add?_eq_some_iff.mpr
      ⟨Nat.lt_of_le_of_lt (Nat.le_add_right _ g.memorySize) hfits.1, rfl⟩
    obtain ⟨t, ht, hordered, hperm⟩ := hs.exists_outcome_mapRegion
      (g.region (base + g.offset)) image.contents (min g.fileSize g.memorySize) hfits.2
    rw [if_neg hsize, hstart]
    exact ⟨_, t, ht, .of_segmentParts hs hfits hordered hperm⟩

theorem exists_overlaid_foldlM (image : Image) (hs : s.Ordered) (hfits : ∀ g ∈ gs, g.Fits base)
    (n : Nat) : ∃ k t, Step.outcome
        (gs.foldlM (fun n g => do return n + (← image.mapSegment base g)) n) s = (.ok (n + k), t)
      ∧ Overlaid image base gs s t k := by
  induction gs generalizing s n with
  | nil => exact ⟨0, s, rfl, .nil hs⟩
  | cons g gs ih =>
    obtain ⟨k, u, hu, hlaid⟩ := exists_overlaid_mapSegment image hs (hfits g (by simp))
    obtain ⟨l, t, ht, hrest⟩ := ih hlaid.ordered (fun g hg => hfits g (List.mem_cons_of_mem _ hg))
      (n + k)
    refine ⟨k + l, t, ?_, hlaid.cons hrest⟩
    rw [List.foldlM_cons, Step.outcome_bind, Step.outcome_bind, hu, ← Nat.add_assoc]
    exact ht

/-- Whatever a memory is made of, an image whose segments have their places in the range of words is
mapped into it, with one mapping more for each that is counted.  What was mapped stays as it was.
Where nothing was, the first segment that spans the address gives it its protection and byte; an
address that no segment spans stays unmapped. -/
theorem mapInto_overlays (calls : List Call) (image : Image) (base : Option Address)
    (hfits : ∀ g ∈ image.segments, g.Fits (base.getD image.preferredBase)) :
    let s := empty.after calls
    let start := base.getD image.preferredBase
    ∃ n t, Step.outcome (image.mapInto base) s = (.ok n, t)
      ∧ t.mappings.length = s.mappings.length + n
      ∧ (∀ a m, s.find? a = some m →
        t.find? a = some m ∧ ∀ length, t.read a length = s.read a length)
      ∧ (∀ a g, s.find? a = none → image.segments.find? (·.spans start a) = some g →
        t.Holds a g.protection (image.byteAt g (a - (start + g.offset))))
      ∧ (∀ a, s.find? a = none → image.segments.find? (·.spans start a) = none →
        t.find? a = none) := by
  intro s start
  obtain ⟨n, t, ht, hlaid⟩ := exists_overlaid_foldlM image (ordered_after calls) hfits 0
  refine ⟨n, t, ?_, hlaid.length_eq, fun a m hfind => ?_, hlaid.first, hlaid.outside⟩
  · rw [Nat.zero_add] at ht
    exact ht
  · have hkept := hlaid.kept a m hfind
    exact ⟨hkept, read_congr (hkept.trans hfind.symm)⟩

def layeredText : Segment := ⟨"text", 8, 16, 2, 14, .readExecute⟩

def layeredData : Segment := ⟨"data", 20, 8, 0, 2, .readWrite⟩

def layeredImage : Image where
  contents := [0xA0, 0xA1, 0xA2, 0xA3, 0xA4, 0xA5, 0xA6, 0xA7, 0xA8, 0xA9, 0xAA, 0xAB, 0xAC, 0xAD,
    0xAE]
  preferredBase := 0xFF0
  segments := [layeredText, layeredData]

def layeredHeap : Block := ⟨0x1000, .readWrite, "heap", [1, 2, 3, 4]⟩

theorem mapInto_overlays_layered : let s := empty.after [.addBlock layeredHeap]
    (∀ g ∈ layeredImage.segments, g.Fits layeredImage.preferredBase)
      ∧ ∃ t, Step.outcome (layeredImage.mapInto none) s = (.ok 3, t)
        ∧ t.find? 0x1003 = some layeredHeap.mapping ∧ t.Holds 0x1004 .readExecute 0xAE
        ∧ t.Holds 0x1007 .readExecute 0 ∧ t.Holds 0x1008 .readWrite 0 ∧ t.find? 0x100C = none := by
  intro s
  have hfits : ∀ g ∈ layeredImage.segments, g.Fits layeredImage.preferredBase := by
    simp [Segment.Fits, layeredImage, layeredText, layeredData, Word.bound]
  obtain ⟨n, t, ht, _, hkept, hfirst, houtside⟩ :=
    mapInto_overlays [.addBlock layeredHeap] layeredImage none hfits
  have hcount : (Step.outcome (layeredImage.mapInto none) s).1 = .ok 3 := by decide +kernel
  obtain rfl : n = 3 := by
    rw [ht] at hcount
    exact Except.ok.inj hcount
  have hholds (a : Address) (g : Segment) (hnone : s.find? a = none)
      (hspans : layeredImage.segments.find? (·.spans layeredImage.preferredBase a) = some g) :
      t.Holds a g.protection (layeredImage.byteAt g (a - (0xFF0 + g.offset))) :=
    hfirst a g hnone hspans
  refine ⟨hfits, t, ht, (hkept 0x1003 _ (by decide +kernel)).1, ?_, ?_, ?_, ?_⟩
  · exact hholds 0x1004 layeredText (by decide +kernel) (by decide +kernel)
  · exact hholds 0x1007 layeredText (by decide +kernel) (by decide +kernel)
  · exact hholds 0x1008 layeredData (by decide +kernel) (by decide +kernel)
  · exact houtside 0x100C (by decide +kernel) (by decide +kernel)

end Space

end TypeAtlas
