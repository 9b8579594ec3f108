import TypeAtlas.Memory.Image.Basic

/-! Headers and sections that object files and PE files have in common.  A section's name stands in
its header, or behind a slash stands the place of the name in the table of texts. -/

namespace TypeAtlas.Image.Coff

structure Header where
  machine : Nat
  sectionCount : Nat
  symbols : Nat
  symbolCount : Nat
  optionalSize : Nat

structure Section where
  name : String
  virtualSize : Nat
  address : Address
  rawSize : Nat
  rawOffset : Nat
  flags : Nat

def objectMachines : List Nat := [0x14C, 0x8664, 0xAA64]

namespace Header

def size : Nat := 20

def read (b : Binary) (pos : Nat) : Reading Header := do
  b.holds pos size
  return ⟨← b.number pos 2, ← b.number (pos + 2) 2, ← b.number (pos + 8) 4,
    ← b.number (pos + 12) 4, ← b.number (pos + 16) 2⟩

def symbolsSize (h : Header) : Nat := 18 * h.symbolCount

def texts (h : Header) : Nat := h.symbols + h.symbolsSize

end Header

def digit64? (c : Char) : Option Nat :=
  if c.isUpper then some (c.toNat - 'A'.toNat)
  else if c.isLower then some (c.toNat - 'a'.toNat + 26)
  else if c.isDigit then some (c.toNat - '0'.toNat + 52)
  else if c = '+' then some 62
  else if c = '/' then some 63
  else none

def place? : List Char → Option Nat
  | '/' :: cs => cs.foldlM (fun n c => (digit64? c).map (64 * n + ·)) 0
  | cs => decimal? cs

/-- A short name that is no text is left empty, but a place must be spelled and hold a text. -/
def sectionName (b : Binary) (texts : Nat) : Bytes → Reading String
  | 0x2F :: spelled => do
    let spelled ← Reading.ofOption (utf8? (beforeZero spelled))
    b.text (texts + (← Reading.ofOption (place? spelled.toList)))
  | raw => .ok ((utf8? (beforeZero raw)).getD "")

def Section.size : Nat := 40

def Section.read (b : Binary) (texts pos : Nat) : Reading Section := do
  b.holds pos Section.size
  return ⟨← sectionName b texts (← b.part pos 8), ← b.number (pos + 8) 4, ← b.number (pos + 12) 4,
    ← b.number (pos + 16) 4, ← b.number (pos + 20) 4, ← b.number (pos + 36) 4⟩

def sections (b : Binary) (h : Header) (pos : Nat) : Reading (List Section) := do
  (List.range h.sectionCount).mapM fun i => Section.read b h.texts (pos + i * Section.size)

def holdsObject (b : Binary) : Reading Unit := do
  let h ← Header.read b 0
  let _ ← sections b h (Header.size + h.optionalSize)
  if h.symbols ≠ 0 then
    b.holds h.symbols h.symbolsSize
    let size ← Outcome.ofWord (Word.sub (← b.number h.texts 4) 4)
    b.holdsTexts (h.texts + 4) size

end TypeAtlas.Image.Coff
