import TypeAtlas.Memory.Image.Elf.Basic

/-! The part of an ELF file that a dynamic linker works from.  It names tables by their addresses,
and they must be where it says. -/

namespace TypeAtlas.Image.Elf

def fileOffset? (headers : List ProgramHeader) (a : Address) : Option Nat := do
  let h ← headers.find? fun h =>
    h.kind = loadKind && h.address ≤ a && a - h.address < h.memorySize
  Word.add? h.fileOffset (a - h.address)

structure Dynamic where
  entries : List (Nat × Nat)

namespace Dynamic

def hashTag : Nat := 4

def stringsTag : Nat := 5

def symbolsTag : Nat := 6

def addendRelocationsTag : Nat := 7

def addendRelocationsSizeTag : Nat := 8

def stringsSizeTag : Nat := 10

def relocationsTag : Nat := 17

def relocationsSizeTag : Nat := 18

def linkageKindTag : Nat := 20

def linkageTag : Nat := 23

def linkageSizeTag : Nat := 2

def quickHashTag : Nat := 0x6FFFFEF5

def read (b : Binary) (h : ProgramHeader) : Reading Dynamic := do
  if h.fileSize ≠ 0 then b.holds h.fileOffset h.fileSize
  let size := 2 * b.wordSize
  let entries ← (List.range (h.fileSize / size)).mapM fun i => do
    let pos := h.fileOffset + i * size
    return (← b.word pos, ← b.word (pos + b.wordSize))
  return ⟨entries.takeWhile (·.1 ≠ 0)⟩

def value? (d : Dynamic) (tag : Nat) : Option Nat := d.entries.reverse.lookup tag

def value (d : Dynamic) (tag : Nat) : Nat := (d.value? tag).getD 0

def place? (d : Dynamic) (headers : List ProgramHeader) (tag : Nat) : Option Nat :=
  (d.value? tag).bind (fileOffset? headers)

def place (d : Dynamic) (headers : List ProgramHeader) (tag : Nat) : Nat :=
  (d.place? headers tag).getD 0

def relocated (b : Binary) (pos size : Nat) (addends : Bool) : Reading (List Nat) :=
  if size = 0 then .ok []
  else do
    b.holds pos size
    let entry := b.wordSize * if addends then 3 else 2
    (List.range (size / entry)).mapM fun i => do
      return (← b.word (pos + i * entry + b.wordSize)) / if b.wide then 1 <<< 32 else 1 <<< 8

def chainEnd? (order : ByteOrder) (count : Nat) : Bytes → Option Nat
  | first :: _ :: _ :: last :: rest =>
    let low := match order with
      | .little => first
      | .big => last
    if low.toNat % 2 = 1 then some (count + 1) else chainEnd? order (count + 1) rest
  | _ => none

def quickHashed (b : Binary) (pos : Nat) : Reading Nat := do
  let buckets ← b.number pos 4
  let first ← b.number (pos + 4) 4
  let filters ← b.number (pos + 8) 4
  require (buckets ≠ 0 && first ≠ 0 && filters ≠ 0)
  let table := pos + 16 + filters * b.wordSize
  b.holds table (4 * buckets)
  let chains ← (List.range buckets).mapM fun i => b.number (table + 4 * i) 4
  let last := chains.foldl max 0
  if last < first then return 0
  Reading.ofOption
    (chainEnd? b.order last (b.bytes.drop (table + 4 * buckets + 4 * (last - first))))

def wideHashMachines : List Nat := [22, 41]

def hashed (b : Binary) (pos : Nat) : Reading Nat := do
  let machine ← b.number 18 2
  b.number (pos + 4) (if b.wide && wideHashMachines.contains machine then 8 else 4)

def symbolCount (d : Dynamic) (b : Binary) (headers : List ProgramHeader) : Reading Nat :=
  match d.place? headers quickHashTag, d.place? headers hashTag with
  | some pos, _ => quickHashed b pos
  | none, some pos => hashed b pos
  | none, none => .ok 0

/-- Names, relocations and symbols are in the file; there are as many symbols as the hashes count,
and enough for every relocation. -/
def holdsTables (d : Dynamic) (b : Binary) (headers : List ProgramHeader) : Reading Unit := do
  b.holdsTexts (d.place headers stringsTag) (d.value stringsSizeTag)
  let withAddends ← relocated b (d.place headers addendRelocationsTag)
    (d.value addendRelocationsSizeTag) true
  let without ← relocated b (d.place headers relocationsTag) (d.value relocationsSizeTag) false
  let linkage ← relocated b (d.place headers linkageTag) (d.value linkageSizeTag)
    (d.value linkageKindTag = addendRelocationsTag)
  let counted ← d.symbolCount b headers
  let highest := (withAddends ++ without ++ linkage).foldl max 0
  let count := if highest = 0 then counted else max counted (highest + 1)
  b.holds (d.place headers symbolsTag) (count * symbolSize b)

end Dynamic

def holdsDynamic (b : Binary) (headers : List ProgramHeader) : Reading Unit :=
  match headers.find? (·.kind = dynamicKind) with
  | none => .ok ()
  | some h => do (← Dynamic.read b h).holdsTables b headers

def binary (contents : Bytes) : Reading Binary :=
  match contents.drop 4 with
  | 1 :: 1 :: _ => .ok ⟨contents, .little, false⟩
  | 1 :: 2 :: _ => .ok ⟨contents, .big, false⟩
  | 2 :: 1 :: _ => .ok ⟨contents, .little, true⟩
  | 2 :: 2 :: _ => .ok ⟨contents, .big, true⟩
  | _ => malformed

def read (contents : Bytes) : Reading (Address × List Segment) := do
  let b ← binary contents
  b.holds 0 (if b.wide then 64 else 52)
  let headers ← programHeaders b
  holdsSections b (← sectionHeaders b)
  holdsDynamic b headers
  let loads := headers.filter (·.kind = loadKind)
  let base := least (loads.map ProgramHeader.address)
  let segments := loads.mapIdx fun i h =>
    { name := s!"LOAD{i}", offset := h.address - base, memorySize := h.memorySize
      fileOffset := h.fileOffset, fileSize := h.fileSize
      protection := protectionOf h.flags 4 2 1 }
  return (base, segments)

end TypeAtlas.Image.Elf
