import TypeAtlas.Memory.Image.Basic

namespace TypeAtlas.Image.MachO

structure Command where
  kind : Nat
  pos : Nat

structure SegmentCommand where
  name : Bytes
  address : Address
  memorySize : Nat
  fileOffset : Nat
  fileSize : Nat
  initial : Nat

namespace Command

def segmentKind : Nat := 0x1

def symbolsKind : Nat := 0x2

def threadKind : Nat := 0x4

def startThreadKind : Nat := 0x5

def wideSegmentKind : Nat := 0x19

def runPathKind : Nat := 0x8000001C

def entryKind : Nat := 0x80000028

def libraryKinds : List Nat := [0xC, 0xD, 0x20, 0x80000018, 0x8000001F, 0x80000023]

/-- The bytes that the record of a command takes; less than that has room for its kind and size
only, or starts the state of a thread. -/
def recordSizes : List (Nat × Nat) :=
  [(0x1, 56), (0x2, 24), (0x3, 16), (0x4, 16), (0x5, 16), (0x6, 20), (0x7, 20), (0x9, 16),
   (0xB, 80), (0xC, 24), (0xD, 24), (0xE, 12), (0xF, 12), (0x10, 20), (0x11, 40), (0x12, 12),
   (0x13, 12), (0x14, 12), (0x15, 12), (0x16, 16), (0x17, 12), (0x19, 72), (0x1A, 72), (0x1B, 24),
   (0x1D, 16), (0x1E, 16), (0x20, 24), (0x21, 20), (0x22, 48), (0x24, 16), (0x25, 16), (0x26, 16),
   (0x27, 12), (0x29, 16), (0x2A, 16), (0x2B, 16), (0x2C, 24), (0x2D, 16), (0x2E, 16), (0x2F, 16),
   (0x30, 16), (0x32, 24), (0x80000018, 24), (0x8000001C, 12), (0x8000001F, 24), (0x80000022, 48),
   (0x80000023, 24), (0x80000028, 24), (0x80000033, 16), (0x80000034, 16), (0x80000035, 32)]

def recordSize (kind : Nat) : Nat := (recordSizes.lookup kind).getD 8

def readAll (b : Binary) : Nat → Nat → Reading (List Command)
  | 0, _ => .ok []
  | count + 1, pos => do
    let kind ← b.number pos 4
    let size ← b.number (pos + 4) 4
    b.holds pos size
    b.holds pos (recordSize kind)
    return ⟨kind, pos⟩ :: (← readAll b count (pos + size))

def threadMachines : List Nat :=
  [0x7, 0xC, 0x12, 0x1000007, 0x100000C, 0x1000012, 0x200000C]

def threadLimit : Nat := 70

def holdsThread (b : Binary) (c : Command) : Reading Unit := do
  let count ← b.number (c.pos + 12) 4
  b.holds (c.pos + 16) (4 * count)
  require (count ≤ threadLimit)

def check (b : Binary) (c : Command) : Reading Unit := do
  if c.kind = symbolsKind then
    let symbols ← b.number (c.pos + 8) 4
    require (symbols ≤ (← b.number (c.pos + 16) 4))
    b.holds symbols 0
  else if libraryKinds.contains c.kind || c.kind = runPathKind then
    let _ ← b.text (c.pos + (← b.number (c.pos + 8) 4))
  else if c.kind = threadKind then c.holdsThread b
  else if c.kind = startThreadKind then
    c.holdsThread b
    require (threadMachines.contains (← b.number 4 4))

def segment (b : Binary) (c : Command) (wide : Bool) : Reading SegmentCommand := do
  let name ← b.part (c.pos + 8) 16
  let r : SegmentCommand ← if wide then
      pure ⟨name, ← b.number (c.pos + 24) 8, ← b.number (c.pos + 32) 8, ← b.number (c.pos + 40) 8,
        ← b.number (c.pos + 48) 8, ← b.number (c.pos + 60) 4⟩
    else
      pure ⟨name, ← b.number (c.pos + 24) 4, ← b.number (c.pos + 28) 4, ← b.number (c.pos + 32) 4,
        ← b.number (c.pos + 36) 4, ← b.number (c.pos + 44) 4⟩
  if r.fileSize ≠ 0 then b.holds r.fileOffset r.fileSize
  return r

end Command

def segments (b : Binary) : List Command → Reading (List SegmentCommand)
  | [] => .ok []
  | c :: cs => do
    if c.kind = Command.segmentKind then return (← c.segment b false) :: (← segments b cs)
    else if c.kind = Command.wideSegmentKind then
      return (← c.segment b true) :: (← segments b cs)
    else
      c.check b
      segments b cs

/-- The address where the program starts: the first command that tells it counts from the start of
the file, as the segment of the program's text is loaded. -/
def entry (b : Binary) (commands : List Command) (segments : List SegmentCommand) :
    Reading (Option Address) :=
  match commands.find? (·.kind = Command.entryKind) with
  | none => .ok none
  | some c => do
    let text ← Reading.ofOption (segments.find? fun s => s.name.take 7 = "__TEXT\x00".toUTF8.toList)
    let start ← Outcome.ofWord (Word.sub text.address text.fileOffset)
    some <$> Outcome.ofWord (Word.add start (← b.number (c.pos + 8) 8))

def SegmentCommand.text (s : SegmentCommand) : String :=
  let name := ((utf8? s.name).getD "").toList
  String.ofList (name.reverse.dropWhile (· == '\x00')).reverse

def read (contents : Bytes) (order : ByteOrder) (wide : Bool) :
    Reading (Address × List Segment) := do
  let b : Binary := ⟨contents, order, wide⟩
  b.holds 0 32
  let count ← b.number 16 4
  let size ← b.number 20 4
  require (count ≤ size / 8)
  b.holds 0 size
  let commands ← Command.readAll b count (if wide then 32 else 28)
  let all ← segments b commands
  let _ ← entry b commands all
  let loads := all.filter (·.initial ≠ 0)
  let base := least (loads.map SegmentCommand.address)
  return (base, loads.map fun s =>
    { name := s.text, offset := s.address - base, memorySize := s.memorySize
      fileOffset := s.fileOffset, fileSize := s.fileSize, protection := .ofBits s.initial })

end TypeAtlas.Image.MachO
