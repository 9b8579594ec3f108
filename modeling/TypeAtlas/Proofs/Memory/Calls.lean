import TypeAtlas.Proofs.Memory.Growth

namespace TypeAtlas

open Memory (Error)

def Block.mapping (b : Block) : Mapping :=
  ⟨⟨⟨b.start, b.bytes.length⟩, b.protection, b.name⟩, .owned b.bytes⟩

def Segment.region (g : Segment) (start : Address) : Region :=
  ⟨⟨start, g.memorySize⟩, g.protection, g.name⟩

def Image.piece (image : Image) (g : Segment) (start : Address) (gap : Nat × Nat) : Mapping :=
  Space.piece (g.region start) image.contents g.fileOffset (min g.fileSize g.memorySize) gap

namespace Space

inductive Call
  | addBlock (block : Block)
  | mapInto (image : Image) (base : Option Address)
  deriving DecidableEq

namespace Call

def run : Call → Step Unit
  | .addBlock b => do
    match (← get).addBlock b with
    | .ok s => set s
    | .error e => throw (.refused e)
  | .mapInto image base => do
    let _ ← image.mapInto base

def Fits : Call → Prop
  | .addBlock _ => True
  | .mapInto image _ => ∀ g ∈ image.segments, g.fileOffset + g.memorySize < Word.bound

inductive Makes : Call → Mapping → Prop
  | block (b : Block) : Makes (.addBlock b) b.mapping
  | piece {image : Image} {base : Option Address} {g : Segment} {start : Nat} {gap : Nat × Nat} :
      g ∈ image.segments →
      Word.add? (base.getD image.preferredBase) g.offset = some start →
      start ≤ gap.1 → gap.1 < gap.2 → gap.2 ≤ (g.region start).range.stop →
      Makes (.mapInto image base) (image.piece g start gap)

end Call

def perform (s : Space) (c : Call) : Except (Failure Error) Unit × Space := c.run.outcome s

def after (s : Space) (calls : List Call) : Space := calls.foldl (fun s c => (s.perform c).2) s

variable {s t : Space} {m : Mapping} {b : Block} {c : Call} {calls : List Call} {image : Image}
  {base : Option Address} {g : Segment} {f : Failure Error}

theorem adds_mapSegment (hg : g ∈ image.segments) :
    Adds (Call.mapInto image base).Makes
      (image.mapSegment (base.getD image.preferredBase) g) := by
  unfold Image.mapSegment
  split
  case isTrue => exact .pure 0
  case isFalse =>
    split
    case h_1 => exact .throw _
    case h_2 start hstart =>
      exact adds_mapRegion fun gap hlo hlt hhi => .piece hg hstart hlo hlt hhi

theorem adds_mapInto (image : Image) (base : Option Address) :
    Adds (Call.mapInto image base).Makes (image.mapInto base) :=
  .foldlM (fun _ hg _ => (adds_mapSegment hg).bind fun _ => .pure _) 0

theorem adds_run (c : Call) : Adds c.Makes c.run := by
  cases c with
  | addBlock b => exact Adds.insertStep (m := b.mapping) (.block b)
  | mapInto image base => exact (adds_mapInto image base).bind fun _ => .pure ()

theorem grows_after (s : Space) (calls : List Call) :
    Grows (fun m => ∃ c ∈ calls, c.Makes m) s (s.after calls) := by
  induction calls generalizing s with
  | nil => exact .refl
  | cons c calls ih =>
    have hhead : Grows (fun m => ∃ d ∈ c :: calls, d.Makes m) s (s.perform c).2 :=
      (adds_run c s).mono fun m hm => ⟨c, by simp, hm⟩
    refine hhead.trans ((ih (s.perform c).2).mono fun m hm => ?_)
    obtain ⟨d, hd, hm⟩ := hm
    exact ⟨d, List.mem_cons_of_mem c hd, hm⟩

theorem ordered_after (calls : List Call) : (empty.after calls).Ordered :=
  (grows_after empty calls).ordered ordered_empty

theorem exists_makes (hm : m ∈ (empty.after calls).mappings) : ∃ c ∈ calls, c.Makes m :=
  ((grows_after empty calls).mem_or hm).resolve_left List.not_mem_nil

theorem perform_addBlock (s : Space) (b : Block) : s.perform (.addBlock b) =
    match s.insert b.mapping with
    | .ok t => (.ok (), t)
    | .error e => (.error (.refused e), s) := by
  change Step.outcome (match s.insert b.mapping with
    | .ok t => set t
    | .error e => throw (.refused e)) s = _
  cases s.insert b.mapping with
  | ok t => rfl
  | error e => rfl

theorem perform_addBlock_eq_error_iff : s.perform (.addBlock b) = (.error f, t) ↔
    b.bytes ≠ [] ∧ (∃ m ∈ s.mappings, m.region.range.overlaps ⟨b.start, b.bytes.length⟩ = true)
    ∧ f = .refused (.overlapping b.start) ∧ t = s := by
  have hrefused (e : Error) : s.insert b.mapping = .error e ↔ b.bytes ≠ []
      ∧ (∃ m ∈ s.mappings, m.region.range.overlaps ⟨b.start, b.bytes.length⟩ = true)
      ∧ e = .overlapping b.start := by
    rw [insert_eq_error_iff, ← List.length_pos_iff]
    rfl
  rw [perform_addBlock]
  cases h : s.insert b.mapping with
  | ok u =>
    constructor
    · intro hok
      cases hok
    · rintro ⟨hne, hover, -, -⟩
      exact absurd ((hrefused _).mpr ⟨hne, hover, rfl⟩) (by simp [h])
  | error e =>
    obtain ⟨hne, hover, rfl⟩ := (hrefused e).mp h
    constructor
    · intro herror
      cases herror
      exact ⟨hne, hover, rfl, rfl⟩
    · rintro ⟨-, -, rfl, rfl⟩
      rfl

end Space

end TypeAtlas
