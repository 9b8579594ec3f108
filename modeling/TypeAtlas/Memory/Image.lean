import TypeAtlas.Memory.Image.Archive
import TypeAtlas.Memory.Image.Elf
import TypeAtlas.Memory.Image.MachO
import TypeAtlas.Memory.Image.Pe

namespace TypeAtlas

structure Image where
  contents : Bytes
  preferredBase : Address
  segments : List Segment
  deriving DecidableEq

namespace Image

open Memory (Error)

def ofParts (contents : Bytes) (parts : Reading (Address × List Segment)) : Reading Image := do
  let (base, segments) ← parts
  return ⟨contents, base, segments⟩

def unsupported {α : Type} (what : String) : Reading α := .error (.refused (.unsupported what))

def unrecognised {α : Type} : Reading α := unsupported "Unrecognised image format"

/-- Recognises a file by its first bytes.  Archives and object files are known, but nothing in them
can be loaded. -/
def load (contents : Bytes) : Outcome Error Image :=
  if contents.length < 16 then malformed
  else match contents with
    | 0x7F :: 0x45 :: 0x4C :: 0x46 :: _ => ofParts contents (Elf.read contents)
    | 0x4D :: 0x5A :: _ => ofParts contents (Pe.read contents)
    | 0xCF :: 0xFA :: 0xED :: 0xFE :: _ => ofParts contents (MachO.read contents .little true)
    | 0xCE :: 0xFA :: 0xED :: 0xFE :: _ => ofParts contents (MachO.read contents .little false)
    | 0xFE :: 0xED :: 0xFA :: 0xCF :: _ => ofParts contents (MachO.read contents .big true)
    | 0xFE :: 0xED :: 0xFA :: 0xCE :: _ => ofParts contents (MachO.read contents .big false)
    | 0xCA :: 0xFE :: 0xBA :: 0xBE :: _ => unsupported "Fat binaries not supported"
    | 0x21 :: 0x3C :: 0x61 :: 0x72 :: 0x63 :: 0x68 :: 0x3E :: 0x0A :: _ => do
      Archive.check contents
      unrecognised
    | first :: second :: _ => do
      if Coff.objectMachines.contains (Memory.littleEndian [first, second]) then
        Coff.holdsObject ⟨contents, .little, false⟩
      unrecognised
    | _ => unrecognised

def mapSegment (image : Image) (base : Address) (g : Segment) : Space.Step Nat :=
  if g.memorySize = 0 then pure 0
  else match Word.add? base g.offset with
    | none => throw (.refused (.accessViolation g.offset))
    | some start =>
      Space.mapRegion ⟨⟨start, g.memorySize⟩, g.protection, g.name⟩ image.contents g.fileOffset
        (min g.fileSize g.memorySize)

def mapInto (image : Image) (base : Option Address) : Space.Step Nat :=
  image.segments.foldlM
    (fun n g => do return n + (← image.mapSegment (base.getD image.preferredBase) g)) 0

end Image

end TypeAtlas
