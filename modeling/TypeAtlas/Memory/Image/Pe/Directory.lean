import TypeAtlas.Memory.Image.Coff

namespace TypeAtlas.Image.Pe

open Coff (Section)

structure Layout where
  sections : List Section
  alignment : Nat

def roundUp (unit n : Nat) : Nat := (n + unit - 1) / unit * unit

def roundDown (unit n : Nat) : Nat := n / unit * unit

def sectionStart (s : Section) : Nat := roundDown 0x200 s.rawOffset

/-- What a loader reads of a section: whole units of the file, yet no more pages than the
contents, or the memory that is asked for them, fill. -/
def sectionLength (alignment : Nat) (s : Section) : Nat :=
  let stored := min (roundUp alignment (s.rawOffset + s.rawSize) - sectionStart s)
    (roundUp 0x1000 s.rawSize)
  if s.virtualSize = 0 then stored else min stored (roundUp 0x1000 s.virtualSize)

namespace Layout

def isAligned (l : Layout) : Bool := l.alignment ≠ 0 && l.alignment &&& (l.alignment - 1) = 0

def fileOffset? (l : Layout) (a : Address) : Option Nat :=
  if l.isAligned then
    (l.sections.find? fun s => s.address ≤ a && a < s.address + sectionLength l.alignment s).map
      fun s => a - s.address + sectionStart s
  else none

def fileOffset (l : Layout) (a : Address) : Reading Nat := .ofOption (l.fileOffset? a)

end Layout

structure Directory where
  address : Nat
  size : Nat
  deriving DecidableEq

namespace Directory

def importIndex : Nat := 1

def exceptionIndex : Nat := 3

def certificateIndex : Nat := 4

def debugIndex : Nat := 6

def limit : Nat := 16

def isPresent (d : Directory) : Bool := d.address ≠ 0 || d.size ≠ 0

def read (b : Binary) (pos : Nat) : Reading Directory := do
  return ⟨← b.number pos 4, ← b.number (pos + 4) 4⟩

def readAll (b : Binary) (pos count : Nat) : Reading (List Directory) := do
  require (count ≤ limit)
  (List.range count).mapM fun i => read b (pos + 8 * i)

end Directory

def holdsImportName (b : Binary) (l : Layout) (a : Address) : Reading Unit :=
  match l.fileOffset? a with
  | none => .ok ()
  | some pos => do
    b.holds pos 2
    let _ ← b.text (pos + 2)

def holdsLookups (b : Binary) (l : Layout) : Nat → Nat → Reading Unit
  | 0, _ => malformed
  | room + 1, pos => do
    let entry ← b.word pos
    if entry ≠ 0 then
      if entry < 1 <<< (8 * b.wordSize - 1) then holdsImportName b l (entry % (1 <<< 31))
      holdsLookups b l room (pos + b.wordSize)

def holdsAddresses (b : Binary) : Nat → Nat → Reading Unit
  | 0, _ => malformed
  | room + 1, pos => do
    if (← b.word pos) ≠ 0 then holdsAddresses b room (pos + b.wordSize)

def holdsLibrary (b : Binary) (l : Layout) (lookups name addresses : Address) : Reading Unit := do
  let _ ← b.text (← l.fileOffset name)
  let filled ← l.fileOffset addresses
  holdsLookups b l b.length ((l.fileOffset? lookups).getD filled)
  holdsAddresses b b.length filled

def holdsImports (b : Binary) (l : Layout) : Nat → Nat → Reading Unit
  | 0, _ => malformed
  | room + 1, pos => do
    let entry ← (List.range 5).mapM fun i => b.number (pos + 4 * i) 4
    match entry with
    | [lookups, _, _, name, addresses] =>
      if entry.any (· ≠ 0) then
        if name ≠ 0 ∧ addresses ≠ 0 then holdsLibrary b l lookups name addresses
        holdsImports b l room (pos + 20)
    | _ => malformed

def holdsExceptions (l : Layout) (d : Directory) : Reading Unit := do
  require (d.size % 12 = 0)
  require ((← l.fileOffset d.address) % 4 = 0)

def holdsCertificates (b : Binary) (stop : Nat) : Nat → Nat → Reading Unit
  | 0, _ => malformed
  | room + 1, pos =>
    if stop ≤ pos then .ok ()
    else do
      b.holds pos 8
      let size := (← b.number pos 4) - 8
      b.holds (pos + 8) size
      require ([0x100, 0x200].contains (← b.number (pos + 4) 2))
      require ([1, 2, 3, 4].contains (← b.number (pos + 6) 2))
      holdsCertificates b stop room (roundUp 8 (pos + 8 + size))

/-- The table of certificates is not loaded, so its address is its place in the file. -/
def holdsCertificateTable (b : Binary) (d : Directory) : Reading Unit := do
  b.holds d.address d.size
  holdsCertificates b (d.address + d.size) (b.length + 1) d.address

/-- Debug information of the kind that names a file with symbols is complete, if it starts as the
newer form does: four bytes of mark, sixteen of identity, four of age, and the file's name. -/
def holdsSymbolFile (b : Binary) (pos size : Nat) : Reading Unit := do
  require (24 ≤ size)
  if (← b.number pos 4) = 0x53445352 then b.holds pos size

def holdsDebug (b : Binary) (l : Layout) (d : Directory) : Reading Unit := do
  let pos ← l.fileOffset d.address
  b.holds pos 28
  if (← b.number (pos + 12) 4) = 2 then
    holdsSymbolFile b (← b.number (pos + 24) 4) (← b.number (pos + 16) 4)

def withDirectory (ds : List Directory) (index : Nat) (check : Directory → Reading Unit) :
    Reading Unit :=
  match ds[index]? with
  | none => .ok ()
  | some d => if d.isPresent then check d else .ok ()

def holdsDirectories (b : Binary) (l : Layout) (machine : Nat) (ds : List Directory) :
    Reading Unit := do
  withDirectory ds Directory.importIndex fun d => do
    holdsImports b l b.length (← l.fileOffset d.address)
  withDirectory ds Directory.debugIndex (holdsDebug b l)
  if machine = 0x8664 then withDirectory ds Directory.exceptionIndex (holdsExceptions l)
  withDirectory ds Directory.certificateIndex (holdsCertificateTable b)

end TypeAtlas.Image.Pe
