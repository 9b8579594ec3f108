import TypeAtlas.Memory.Image.Basic

namespace TypeAtlas.Image.Elf

structure ProgramHeader where
  kind : Nat
  flags : Nat
  fileOffset : Nat
  address : Nat
  fileSize : Nat
  memorySize : Nat

structure SectionHeader where
  kind : Nat
  address : Nat
  fileOffset : Nat
  size : Nat
  link : Nat
  entrySize : Nat

def loadKind : Nat := 1

def dynamicKind : Nat := 2

def symbolsKind : Nat := 2

def addendRelocationsKind : Nat := 4

def noContentsKind : Nat := 8

def relocationsKind : Nat := 9

def versionKinds : List Nat := [0x6FFFFFFD, 0x6FFFFFFE, 0x6FFFFFFF]

def ProgramHeader.read (b : Binary) (pos : Nat) : Reading ProgramHeader := do
  if b.wide then
    b.holds pos 56
    return ⟨← b.number pos 4, ← b.number (pos + 4) 4, ← b.word (pos + 8), ← b.word (pos + 16),
      ← b.word (pos + 32), ← b.word (pos + 40)⟩
  else
    b.holds pos 32
    return ⟨← b.number pos 4, ← b.number (pos + 24) 4, ← b.word (pos + 4), ← b.word (pos + 8),
      ← b.word (pos + 16), ← b.word (pos + 20)⟩

def SectionHeader.read (b : Binary) (pos : Nat) : Reading SectionHeader := do
  if b.wide then
    b.holds pos 64
    return ⟨← b.number (pos + 4) 4, ← b.word (pos + 16), ← b.word (pos + 24), ← b.word (pos + 32),
      ← b.number (pos + 40) 4, ← b.word (pos + 56)⟩
  else
    b.holds pos 40
    return ⟨← b.number (pos + 4) 4, ← b.word (pos + 12), ← b.word (pos + 16), ← b.word (pos + 20),
      ← b.number (pos + 24) 4, ← b.word (pos + 36)⟩

def programHeaders (b : Binary) : Reading (List ProgramHeader) := do
  let table ← b.word (if b.wide then 32 else 28)
  let count ← b.number (if b.wide then 56 else 44) 2
  (List.range count).mapM fun i => ProgramHeader.read b (table + i * if b.wide then 56 else 32)

/-- The table of sections, if there is one.  Where its length is not in the file's header, it is
the size of its first entry. -/
def sectionHeaders (b : Binary) : Reading (List SectionHeader) := do
  let table ← b.word (if b.wide then 40 else 32)
  let stated ← b.number (if b.wide then 60 else 48) 2
  if table = 0 then return []
  let first ← SectionHeader.read b table
  let count := if stated = 0 then first.size else stated
  let entry := if b.wide then 64 else 40
  b.holds table (count * entry)
  return first :: (← (List.range (count - 1)).mapM fun i =>
    SectionHeader.read b (table + (i + 1) * entry))

def SectionHeader.hasContents (s : SectionHeader) (b : Binary) : Reading Unit := do
  if s.kind ≠ noContentsKind && s.size ≠ 0 then
    b.holds s.fileOffset s.size
    require (s.address + s.size < Word.bound)

def indexed? (sections : List SectionHeader) (index : Nat) : Option SectionHeader :=
  if index = 0xFFFF then sections.head?.bind fun s => sections[s.link]? else sections[index]?

def holdsNames (b : Binary) (sections : List SectionHeader) (index : Nat) : Reading Unit :=
  match indexed? sections index with
  | none => .ok ()
  | some s => do
    s.hasContents b
    b.holdsTexts s.fileOffset s.size

def symbolSize (b : Binary) : Nat := if b.wide then 24 else 16

def holdsSymbols (b : Binary) (sections : List SectionHeader) : Reading Unit :=
  match sections.reverse.find? (·.kind = symbolsKind) with
  | none => .ok ()
  | some s => do
    b.holds s.fileOffset (s.size / s.entrySize * symbolSize b)
    holdsNames b sections s.link

def holdsSections (b : Binary) (sections : List SectionHeader) : Reading Unit := do
  holdsNames b sections (← b.number (if b.wide then 62 else 50) 2)
  holdsSymbols b sections
  sections.forM fun s =>
    if s.kind = addendRelocationsKind ∨ s.kind = relocationsKind then s.hasContents b else .ok ()
  versionKinds.forM fun kind =>
    match sections.find? (·.kind = kind) with
    | none => .ok ()
    | some s => b.holds s.fileOffset s.size

end TypeAtlas.Image.Elf
