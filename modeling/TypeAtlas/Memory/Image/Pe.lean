import TypeAtlas.Memory.Image.Pe.Directory

namespace TypeAtlas.Image.Pe

open Coff (Section)

structure Optional where
  wide : Bool
  base : Address
  alignment : Nat
  directories : List Directory

def Optional.read (b : Binary) (pos : Nat) : Reading Optional := do
  let wide ← match ← b.number pos 2 with
    | 0x10B => .ok false
    | 0x20B => .ok true
    | _ => malformed
  let size := if wide then 112 else 96
  b.holds pos size
  let directories ← Directory.readAll b (pos + size) (← b.number (pos + size - 4) 4)
  let base ← if wide then b.number (pos + 24) 8 else b.number (pos + 28) 4
  return ⟨wide, base, ← b.number (pos + 36) 4, directories⟩

def segment (s : Section) : Segment :=
  { name := s.name, offset := s.address, memorySize := max s.virtualSize s.rawSize
    fileOffset := s.rawOffset, fileSize := s.rawSize
    protection := protectionOf s.flags 0x40000000 0x80000000 0x20000000 }

/-- A file starts with a header of 64 bytes and a program of as many, whatever is in them. -/
def read (contents : Bytes) : Reading (Address × List Segment) := do
  let b : Binary := ⟨contents, .little, false⟩
  b.holds 0 0x80
  let start ← b.number 0x3C 4
  require ((← b.number start 4) = 0x4550)
  let h ← Coff.Header.read b (start + 4)
  let behind := start + 4 + Coff.Header.size
  let optional ← if h.optionalSize = 0 then .ok none else some <$> Optional.read b behind
  let sections ← Coff.sections b h (behind + h.optionalSize)
  match optional with
  | none => return (0, sections.map segment)
  | some o =>
    holdsDirectories { b with wide := o.wide } ⟨sections, o.alignment⟩ h.machine o.directories
    return (o.base, sections.map segment)

end TypeAtlas.Image.Pe
