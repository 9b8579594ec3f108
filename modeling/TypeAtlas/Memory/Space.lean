import TypeAtlas.Memory.Address
import TypeAtlas.Pattern

/-! The observed process's memory: regions in address order, none of which overlap, each
backed by captured bytes or by a stretch of a file. -/

namespace TypeAtlas

namespace Memory

inductive Error
  | accessViolation (address : Address)
  | readFailed (address : Address) (length : Nat)
  | overlapping (start : Address)
  | unsupported (what : String)
  | badImage
  | unreadableFile
  deriving DecidableEq, Repr

def Error.message? : Error → Option String
  | .accessViolation a => some s!"Access violation at address 0x{Hex.lower a}"
  | .readFailed a n => some s!"Read of {n} bytes failed at address 0x{Hex.lower a}"
  | .overlapping a => some s!"Region 0x{Hex.lower a} overlaps an already mapped region"
  | .unsupported what => some s!"Not supported: {what}"
  | .badImage => none
  | .unreadableFile => none

end Memory

structure Block where
  start : Address
  protection : Protection
  name : String
  bytes : Bytes
  deriving DecidableEq, Repr

inductive Backing
  | owned (bytes : Bytes)
  | file (contents : Bytes) (offset length : Nat)
  deriving DecidableEq

/-- The bytes that stand behind a region; the region reads as zero past them. -/
def Backing.bytes : Backing → Except Overflow Bytes
  | .owned bs => .ok bs
  | .file contents offset length => do
    let stop ← Word.add offset length
    return (contents.take stop).drop offset

structure Mapping where
  region : Region
  backing : Backing
  deriving DecidableEq

structure Space where
  mappings : List Mapping
  deriving DecidableEq

namespace Space

open Memory (Error)

def empty : Space := ⟨[]⟩

def regions (s : Space) : List Region := s.mappings.map Mapping.region

def isEmpty (s : Space) : Bool := s.mappings.isEmpty

def place (m : Mapping) : List Mapping → List Mapping
  | [] => [m]
  | n :: ns => if n.region.start ≤ m.region.start then n :: place m ns else m :: n :: ns

def insert (s : Space) (m : Mapping) : Except Error Space :=
  if m.region.range.size = 0 then .ok s
  else if s.mappings.any (·.region.range.overlaps m.region.range) then
    .error (.overlapping m.region.start)
  else .ok ⟨place m s.mappings⟩

def addBlock (s : Space) (b : Block) : Except Error Space :=
  s.insert ⟨⟨⟨b.start, b.bytes.length⟩, b.protection, b.name⟩, .owned b.bytes⟩

def ofBlocks (blocks : List Block) : Except Error Space := blocks.foldlM addBlock empty

/-- The mapping with the greatest start not after the address, if it holds the address. -/
def find? (s : Space) (a : Address) : Option Mapping :=
  (s.mappings.takeWhile (·.region.start ≤ a)).getLast?.filter (·.region.contains a)

def protectionAt? (s : Space) (a : Address) : Option Protection :=
  (s.find? a).map (·.region.protection)

def readableLength (s : Space) (a : Address) : Nat :=
  match (s.find? a).filter (·.region.protection.canRead) with
  | some m => m.region.range.remaining a
  | none => 0

def window (backing : Bytes) (start length : Nat) : Bytes :=
  let held := (backing.drop start).take length
  held ++ List.replicate (length - held.length) 0

/-- Any length is taken.  No machine makes room for `2 ^ 63` bytes or more at once, and a request
for so many ends for want of room even if the region has them, which is left out here. -/
def read (s : Space) (a : Address) (length : Nat) : Outcome Error Bytes :=
  match s.find? a with
  | none => .error (.refused (.accessViolation a))
  | some m =>
    if !m.region.protection.canRead then .error (.refused (.accessViolation a))
    else if length > m.region.range.remaining a then .error (.refused (.readFailed a length))
    else do
      let backing ← Outcome.ofWord m.backing.bytes
      return window backing (a - m.region.start) length

end Space

namespace Memory

def littleEndian : Bytes → Nat
  | [] => 0
  | b :: bs => b.toNat + 256 * littleEndian bs

def wordThrough (read : Address → Nat → Outcome Error Bytes) (a : Address) : Outcome Error Nat := do
  let bytes ← read a 8
  if bytes.length < 8 then throw (.refused (.readFailed a 8))
  return littleEndian (bytes.take 8)

def readableAmong (regions : List Region) (a : Address) : Nat :=
  match regions.find? fun r => r.contains a && r.protection.canRead with
  | some r => r.range.remaining a
  | none => 0

end Memory

namespace Space

open Memory (Error)

def word (s : Space) (a : Address) : Outcome Error Nat := Memory.wordThrough s.read a

def defaultWindow : Nat := 0x200

def search (s : Space) (p : Pattern) (start : Address) (window : Nat) :
    Outcome Error (Option Nat) := do
  let length := min window (s.readableLength start)
  if length = 0 then throw (.refused (.accessViolation start))
  let data ← s.read start length
  return p.find? data

def gaps (mappings : List Mapping) (cursor stop : Nat) : List (Nat × Nat) :=
  match mappings with
  | [] => if cursor < stop then [(cursor, stop)] else []
  | m :: ms =>
    let s := m.region.start
    let e := m.region.range.stop
    if e ≤ cursor || s ≥ stop then gaps ms cursor stop
    else
      let rest := gaps ms (max cursor e) stop
      if s > cursor then (cursor, s) :: rest else rest

abbrev Step (α : Type) := ExceptT (Failure Error) (StateM Space) α

def insertStep (m : Mapping) : Step Unit := do
  match (← get).insert m with
  | .ok s => set s
  | .error e => throw (.refused e)

def mapGap (region : Region) (contents : Bytes) (offset length : Nat) (gap : Nat × Nat) :
    Step Unit := do
  let delta := gap.1 - region.start
  let size := gap.2 - gap.1
  let at' ← match Word.add offset delta with
    | .ok n => pure n
    | .error o => throw (.abandoned o)
  insertStep ⟨⟨⟨gap.1, size⟩, region.protection, region.name⟩,
    .file contents at' (min (length - delta) size)⟩

def mapRegion (region : Region) (contents : Bytes) (offset length : Nat) : Step Nat := do
  let pieces := gaps (← get).mappings region.start region.range.stop
  pieces.forM (mapGap region contents offset length)
  return pieces.length

end Space

end TypeAtlas
