import TypeAtlas.Proofs.Memory.Growth

/-! Mapping and reading with every difference and every slice checked, those that the code around
them guards as well.  It makes no difference: where a memory is in order they are all in range. -/

namespace TypeAtlas

open Memory (Error)

def Word.slice (bytes : Bytes) (lo hi : Nat) : Except Overflow Bytes := do
  let size ← Word.sub hi lo
  let _ ← Word.sub bytes.length hi
  return (bytes.drop lo).take size

def Range.remainingChecked (r : Range) (a : Address) : Except Overflow Nat :=
  if r.contains a then Word.sub r.stop a else return 0

def Backing.bytesChecked : Backing → Except Overflow Bytes
  | .owned bs => .ok bs
  | .file contents offset length => do
    let stop := min (← Word.add offset length) contents.length
    Word.slice contents (min offset stop) stop

namespace Space

def windowChecked (backing : Bytes) (start length : Nat) : Except Overflow Bytes :=
  if start < backing.length then do
    let available := min (← Word.sub backing.length start) length
    let held ← Word.slice backing start (← Word.add start available)
    let zeros ← Word.sub length available
    return held ++ List.replicate zeros 0
  else return List.replicate length 0

def readChecked (s : Space) (a : Address) (length : Nat) : Outcome Error Bytes :=
  match s.find? a with
  | none => .error (.refused (.accessViolation a))
  | some m =>
    if !m.region.protection.canRead then .error (.refused (.accessViolation a))
    else do
      let room ← Outcome.ofWord (m.region.range.remainingChecked a)
      if length > room then .error (.refused (.readFailed a length))
      else Outcome.ofWord do
        let start ← Word.sub a m.region.start
        windowChecked (← m.backing.bytesChecked) start length

def readableLengthChecked (s : Space) (a : Address) : Except Overflow Nat :=
  match (s.find? a).filter (·.region.protection.canRead) with
  | some m => m.region.range.remainingChecked a
  | none => return 0

def Step.ofWord {α : Type} : Except Overflow α → Step α
  | .ok a => pure a
  | .error o => throw (.abandoned o)

def mapGapChecked (region : Region) (contents : Bytes) (offset length : Nat) (gap : Nat × Nat) :
    Step Unit := do
  let delta ← Step.ofWord (Word.sub gap.1 region.start)
  let size ← Step.ofWord (Word.sub gap.2 gap.1)
  let at' ← Step.ofWord (Word.add offset delta)
  insertStep ⟨⟨⟨gap.1, size⟩, region.protection, region.name⟩,
    .file contents at' (min (length - delta) size)⟩

def mapRegionChecked (region : Region) (contents : Bytes) (offset length : Nat) : Step Nat := do
  let pieces := gaps (← get).mappings region.start region.range.stop
  pieces.forM (mapGapChecked region contents offset length)
  return pieces.length

end Space

theorem Range.remainingChecked_eq (r : Range) (a : Address) :
    r.remainingChecked a = .ok (r.remaining a) := by
  unfold remainingChecked remaining
  split
  case isTrue hcontains =>
    exact Word.sub_eq_ok_iff.mpr ⟨Nat.le_of_lt (contains_iff.mp hcontains).2, rfl⟩
  case isFalse => rfl

theorem Word.slice_eq {bytes : Bytes} {lo hi : Nat} (h : lo ≤ hi) (hlength : hi ≤ bytes.length) :
    slice bytes lo hi = .ok ((bytes.take hi).drop lo) := by
  rw [slice, sub_eq_ok_iff.mpr ⟨h, rfl⟩, sub_eq_ok_iff.mpr ⟨hlength, rfl⟩, List.drop_take]
  rfl

/-- A slice that is cut to what there is may start past the end, too. -/
theorem Word.slice_min_eq (bytes : Bytes) (lo hi : Nat) :
    slice bytes (min lo (min hi bytes.length)) (min hi bytes.length)
      = .ok ((bytes.take hi).drop lo) := by
  have hlength : (bytes.take hi).length = min hi bytes.length := List.length_take
  have htake : bytes.take (min hi bytes.length) = bytes.take hi := List.take_eq_take_min.symm
  rw [slice_eq (Nat.min_le_right ..) (Nat.min_le_right ..), htake]
  rcases Nat.le_total lo (min hi bytes.length) with hle | hle
  · rw [Nat.min_eq_left hle]
  · rw [Nat.min_eq_right hle, List.drop_eq_nil_of_le (Nat.le_of_eq hlength),
      List.drop_eq_nil_of_le (hlength ▸ hle)]

theorem Backing.bytesChecked_eq (backing : Backing) : backing.bytesChecked = backing.bytes := by
  cases backing with
  | owned bs => rfl
  | file contents offset length =>
    simp only [bytesChecked, bytes, Word.slice_min_eq]
    rfl

namespace Space

variable {s : Space} {m : Mapping} {ms : List Mapping} {a start length : Nat} {region : Region}
  {contents : Bytes} {offset : Nat} {gap : Nat × Nat}

theorem windowChecked_eq (backing : Bytes) (h : start + length < Word.bound) :
    windowChecked backing start length = .ok (window backing start length) := by
  simp only [windowChecked, window]
  split
  case isTrue hstart =>
    have hrest : start + min (backing.length - start) length ≤ backing.length := by omega
    have hheld : (backing.take (start + min (backing.length - start) length)).drop start
        = (backing.drop start).take length := by
      rw [List.drop_take, Nat.add_sub_cancel_left, ← List.length_drop, Nat.min_comm,
        ← List.take_eq_take_min]
    refine Overflow.bind_eq_ok.mpr ⟨_, Word.sub_eq_ok_iff.mpr ⟨Nat.le_of_lt hstart, rfl⟩, ?_⟩
    refine Overflow.bind_eq_ok.mpr ⟨_, Word.add_eq_ok_iff.mpr ⟨by omega, rfl⟩, ?_⟩
    refine Overflow.bind_eq_ok.mpr ⟨_, Word.slice_eq (Nat.le_add_right ..) hrest, ?_⟩
    refine Overflow.bind_eq_ok.mpr ⟨_, Word.sub_eq_ok_iff.mpr ⟨Nat.min_le_right .., rfl⟩, ?_⟩
    rw [hheld, List.length_take, List.length_drop, Nat.min_comm]
    rfl
  case isFalse hstart =>
    rw [List.drop_eq_nil_of_le (Nat.not_lt.mp hstart), List.take_nil]
    rfl

theorem readChecked_eq (s : Space) (a length : Nat) : s.readChecked a length = s.read a length := by
  unfold readChecked read
  cases hfind : s.find? a with
  | none => rfl
  | some m =>
    have hcontains : m.region.range.contains a = true := (Option.filter_eq_some_iff.mp hfind).2
    have hstart : m.region.start ≤ a := (Range.contains_iff.mp hcontains).1
    have hstop : a < m.region.range.stop := (Range.contains_iff.mp hcontains).2
    have hroom : m.region.range.remaining a = m.region.range.stop - a := by
      rw [Range.remaining, if_pos hcontains]
    have htop : m.region.range.stop < Word.bound :=
      Nat.lt_of_le_of_lt m.region.range.stop_le_top (by decide)
    dsimp only
    split
    case isTrue => rfl
    case isFalse =>
      rw [Range.remainingChecked_eq]
      change (if length > m.region.range.remaining a then _ else _) = _
      split
      case isTrue => rfl
      case isFalse hlength =>
        have hlength : length ≤ m.region.range.stop - a := hroom ▸ Nat.not_lt.mp hlength
        have hbound : a - m.region.start + length < Word.bound := by omega
        rw [Word.sub_eq_ok_iff.mpr ⟨hstart, rfl⟩, Backing.bytesChecked_eq]
        cases m.backing.bytes with
        | error o => rfl
        | ok backing => exact congrArg Outcome.ofWord (windowChecked_eq backing hbound)

theorem readableLengthChecked_eq (s : Space) (a : Address) :
    s.readableLengthChecked a = .ok (s.readableLength a) := by
  unfold readableLengthChecked readableLength
  cases (s.find? a).filter (·.region.protection.canRead) with
  | none => rfl
  | some m => exact Range.remainingChecked_eq ..

theorem mapGapChecked_eq (hstart : region.start ≤ gap.1) (hlt : gap.1 ≤ gap.2) :
    mapGapChecked region contents offset length gap = mapGap region contents offset length gap := by
  unfold mapGapChecked mapGap
  rw [Word.sub_eq_ok_iff.mpr ⟨hstart, rfl⟩, Word.sub_eq_ok_iff.mpr ⟨hlt, rfl⟩]
  simp only [Step.ofWord, pure_bind]
  cases Word.add offset (gap.1 - region.start) with
  | ok n => rfl
  | error o => rfl

theorem forM_mapGapChecked {gs : List (Nat × Nat)}
    (h : ∀ gap ∈ gs, region.start ≤ gap.1 ∧ gap.1 ≤ gap.2) :
    gs.forM (mapGapChecked region contents offset length)
      = gs.forM (mapGap region contents offset length) := by
  induction gs with
  | nil => rfl
  | cons gap gs ih =>
    obtain ⟨⟨hstart, hle⟩, hrest⟩ := List.forall_mem_cons.mp h
    change (do
      mapGapChecked region contents offset length gap
      gs.forM (mapGapChecked region contents offset length)) = _
    rw [mapGapChecked_eq hstart hle, ih hrest]
    rfl

theorem mapRegionChecked_eq (region : Region) (contents : Bytes) (offset length : Nat) :
    mapRegionChecked region contents offset length = mapRegion region contents offset length := by
  unfold mapRegionChecked mapRegion
  congr 1
  funext s
  dsimp only
  rw [forM_mapGapChecked]
  intro gap hgap
  obtain ⟨hstart, hlt, -⟩ := mem_gaps hgap
  exact ⟨hstart, Nat.le_of_lt hlt⟩

end Space

end TypeAtlas
