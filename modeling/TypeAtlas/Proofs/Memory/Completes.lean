import TypeAtlas.Proofs.Memory.Checked
import TypeAtlas.Proofs.Memory.Lengths
import TypeAtlas.Proofs.Memory.Narrow
import TypeAtlas.Proofs.Memory.Overruns

namespace TypeAtlas

theorem Backing.bytes_eq_error {backing : Backing} (h : ¬ backing.Fits) :
    backing.bytes = .error .add := by
  cases backing with
  | owned bytes => exact absurd trivial h
  | file contents offset length =>
    have hadd : Word.add offset length = .error .add := if_neg h
    rw [bytes, hadd]
    rfl

theorem Backing.fits_of_bytes {backing : Backing} {bytes : Bytes} (h : backing.bytes = .ok bytes) :
    backing.Fits := by
  by_contra hout
  rw [bytes_eq_error hout] at h
  cases h

namespace Space

variable {s : Space} {m : Mapping} {image : Image} {a length : Nat} {g : Segment}

theorem Ordered.completes_read_iff (hs : s.Ordered) : (s.read a length).Completes ↔
    ∀ m, s.Readable a m → length ≤ m.region.range.remaining a → m.backing.Fits := by
  by_cases hread : ∃ m, s.Readable a m
  · obtain ⟨m, hm⟩ := hread
    rw [hm.read_eq_backing hs]
    split
    case isTrue hshort =>
      refine iff_of_true (.refused _) fun n hn hroom => ?_
      obtain rfl := hm.unique hs hn
      omega
    case isFalse hroom =>
      constructor
      · intro h n hn _
        obtain rfl := hm.unique hs hn
        by_contra hout
        rw [Backing.bytes_eq_error hout] at h
        exact h .add rfl
      · intro h
        obtain ⟨backing, hbytes⟩ := (h m hm (Nat.not_lt.mp hroom)).exists_bytes
        rw [hbytes]
        exact .ok _
  · rw [read_eq_of_not_readable hs hread]
    exact iff_of_true (.refused _) fun m hm => absurd ⟨m, hm⟩ hread

theorem Ordered.completes_word_iff (hs : s.Ordered) : (s.word a).Completes ↔
    ∀ m, s.Readable a m → 8 ≤ m.region.range.remaining a → m.backing.Fits :=
  completes_word_iff_read.trans hs.completes_read_iff

theorem Call.Makes.backing_fits {c : Call} (hfits : c.Fits) (h : c.Makes m) : m.backing.Fits := by
  obtain ⟨bytes, hbytes⟩ := h.exists_bytes hfits
  exact Backing.fits_of_bytes hbytes

theorem fits_of_isNarrow (h : g.IsNarrow) : g.fileOffset + g.memorySize < Word.bound := by
  obtain ⟨hoffset, hsize⟩ := h
  have hbound : 2 ^ 32 + 2 ^ 32 < Word.bound := by decide
  omega

theorem completes_of_fits (hs : s.Ordered) (hb : ∀ m ∈ s.mappings, m.backing.Fits)
    (base : Option Address) (hfits : ∀ g ∈ image.segments, g.fileOffset + g.memorySize < Word.bound) :
    Outcome.Completes (Step.outcome (image.mapInto base) s).1
      ∧ ∀ m ∈ (Step.outcome (image.mapInto base) s).2.mappings, m.backing.Fits := by
  constructor
  · refine (completes_mapAll_iff image (base.getD image.preferredBase) image.segments hs 0).mpr ?_
    intro before g after heq k u _
    exact not_overruns (hfits g (heq ▸ by simp))
  · have hcall : (Call.mapInto image base).Fits := hfits
    intro m hm
    cases (adds_mapInto image base s).mem_or hm with
    | inl hm => exact hb m hm
    | inr hmakes => exact hmakes.backing_fits hcall

/-- Whatever a memory is made of, mapping an image into it is abandoned just where a segment is come
to of which something finds room whose place in the file is past the last word, and reading
afterwards just where what backs the region ends there.  All else that is computed on the way stays
in the range of words and of slices: with every operation checked the results are the same, and as
many regions are counted as are added.  That there is room for the bytes of a read, which fails for
`2 ^ 63` of them and more, is not checked.  Images whose segments have places in the file, narrow
ones among them, are mapped and read without it. -/
theorem mapped_completes_iff (calls : List Call) (image : Image) (base : Option Address) :
    let s := empty.after calls
    let start := base.getD image.preferredBase
    let ended := (Step.outcome (image.mapInto base) s).1
    let t := (Step.outcome (image.mapInto base) s).2
    (Outcome.Completes ended ↔ ∀ before g after, image.segments = before ++ g :: after →
        ∀ n u, Step.outcome ({ image with segments := before }.mapInto (some start)) s = (.ok n, u) →
          ¬ g.Overruns start u)
      ∧ (∀ n, ended = .ok n → t.mappings.length = s.mappings.length + n)
      ∧ (∀ a length, (t.read a length).Completes ↔
        ∀ m, t.Readable a m → length ≤ m.region.range.remaining a → m.backing.Fits)
      ∧ (∀ a, (t.word a).Completes ↔
        ∀ m, t.Readable a m → 8 ≤ m.region.range.remaining a → m.backing.Fits)
      ∧ (∀ region contents offset length, mapRegionChecked region contents offset length
        = mapRegion region contents offset length)
      ∧ (∀ a length, t.readChecked a length = t.read a length)
      ∧ (∀ a, t.readableLengthChecked a = .ok (t.readableLength a))
      ∧ ((∀ m ∈ s.mappings, m.backing.Fits) →
        (∀ g ∈ image.segments, g.fileOffset + g.memorySize < Word.bound)
          ∨ (∀ g ∈ image.segments, g.IsNarrow) →
        Outcome.Completes ended
          ∧ ∀ a, (∀ length, (t.read a length).Completes) ∧ (t.word a).Completes) := by
  intro s start ended t
  have hs : s.Ordered := ordered_after calls
  have ht : t.Ordered := (adds_mapInto image base s).ordered hs
  refine ⟨completes_mapAll_iff image start image.segments hs 0, fun n hended => ?_,
    fun a length => ht.completes_read_iff, fun a => ht.completes_word_iff, mapRegionChecked_eq,
    t.readChecked_eq, t.readableLengthChecked_eq, fun hb himage => ?_⟩
  · have hcount : Step.outcome (image.mapAll start image.segments 0) s = (.ok n, t) :=
      Prod.ext hended rfl
    exact length_of_mapAll hs hcount
  · have hfits : ∀ g ∈ image.segments, g.fileOffset + g.memorySize < Word.bound := by
      rcases himage with hfits | hnarrow
      · exact hfits
      · exact fun g hg => fits_of_isNarrow (hnarrow g hg)
    obtain ⟨hended, hbacked⟩ := completes_of_fits hs hb base hfits
    refine ⟨hended, fun a => ⟨fun length => ?_, ?_⟩⟩
    · exact ht.completes_read_iff.mpr fun m hm _ => hbacked m hm.mem
    · exact ht.completes_word_iff.mpr fun m hm _ => hbacked m hm.mem

def blanks (n : Nat) : Bytes := List.replicate n 0

def narrowFile : Bytes :=
  [0x7F, 0x45, 0x4C, 0x46, 1, 1, 1] ++ blanks 21 ++ [52] ++ blanks 13 ++ [32, 0, 1] ++ blanks 7
    ++ [1, 0, 0, 0, 0xF8, 0xFF, 0xFF, 0xFF] ++ blanks 8 ++ [0x40, 0, 0, 0, 0x40, 0, 0, 0, 4]
    ++ blanks 7

def narrowImage : Image := ⟨narrowFile, 0, [⟨"LOAD0", 0, 0x40, 0xFFFFFFF8, 0x40, .read⟩]⟩

def wideFile : Bytes :=
  [0x7F, 0x45, 0x4C, 0x46, 2, 1, 1] ++ blanks 25 ++ [64] ++ blanks 21 ++ [56, 0, 1] ++ blanks 7
    ++ [1, 0, 0, 0, 4, 0, 0, 0, 0xF8, 0xFF, 0xFF, 0xFF, 0xFF, 0xFF, 0xFF, 0xFF] ++ blanks 16
    ++ [0x40] ++ blanks 7 ++ [0x40] ++ blanks 15

def wideImage : Image := ⟨wideFile, 0, [⟨"LOAD0", 0, 0x40, 0xFFFFFFFFFFFFFFF8, 0x40, .read⟩]⟩

def cutter : Block := ⟨0x5000, .readWrite, "heap", [1, 2, 3, 4, 5, 6, 7, 8]⟩

theorem mapped_completes_iff_narrow : let s := empty.after [.addBlock cutter]
    let t := (Step.outcome (narrowImage.mapInto (some 0x5000)) s).2
    (∀ m ∈ s.mappings, m.backing.Fits)
      ∧ Image.load narrowFile = .ok narrowImage ∧ (∀ g ∈ narrowImage.segments, g.IsNarrow)
      ∧ Outcome.Completes (Step.outcome (narrowImage.mapInto (some 0x5000)) s).1
      ∧ (t.read 0x5008 8).Completes ∧ (t.word 0x5008).Completes := by
  intro s t
  have hblock : s.mappings = [cutter.mapping] := by decide +kernel
  have hfits : ∀ m ∈ s.mappings, m.backing.Fits := by
    rw [hblock]
    exact List.forall_mem_singleton.mpr trivial
  have hload : Image.load narrowFile = .ok narrowImage := by decide +kernel
  have hnarrow : ∀ g ∈ narrowImage.segments, g.IsNarrow :=
    Image.gives_load (.inr rfl) narrowImage hload
  obtain ⟨-, -, -, -, -, -, -, hcompletes⟩ :=
    mapped_completes_iff [.addBlock cutter] narrowImage (some 0x5000)
  obtain ⟨hended, hreads⟩ := hcompletes hfits (.inr hnarrow)
  exact ⟨hfits, hload, hnarrow, hended, (hreads 0x5008).1 8, (hreads 0x5008).2⟩

/-- A file may name a place so far out that reading what it maps is abandoned, and with a block in
the way already mapping it. -/
theorem mapped_abandoned_wide : Image.load wideFile = .ok wideImage
    ∧ (∃ t, Step.outcome (wideImage.mapInto (some 0x5000)) empty = (.ok 1, t)
      ∧ t.read 0x5000 8 = .error (.abandoned .add))
    ∧ ∃ t, Step.outcome (wideImage.mapInto (some 0x5000)) (empty.after [.addBlock cutter])
      = (.error (.abandoned .add), t) := by
  refine ⟨by decide +kernel, ⟨_, Prod.ext ?_ rfl, ?_⟩, _, Prod.ext ?_ rfl⟩
  · decide +kernel
  · decide +kernel
  · decide +kernel

end Space

end TypeAtlas
