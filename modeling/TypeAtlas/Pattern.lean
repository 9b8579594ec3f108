import TypeAtlas.Text

namespace TypeAtlas

abbrev Bytes := List UInt8

/-- One position of a signature.  The byte of a position that does not count is kept but never
compared. -/
structure Cell where
  byte : UInt8
  counts : Bool
  deriving DecidableEq, Repr

structure Pattern where
  cells : List Cell
  nonempty : cells ≠ []
  deriving DecidableEq

namespace Pattern

inductive Error
  | badToken (token : String)
  | tooShort (length : Nat)
  | allWild (text : String)
  | lengthMismatch (bytes mask : Nat)
  deriving DecidableEq, Repr

def Error.message : Error → String
  | .badToken t => s!"Invalid pattern token: {t}"
  | .tooShort n => s!"Pattern too short: {n} bytes"
  | .allWild t => s!"Pattern has no significant byte: {t}"
  | .lengthMismatch b m => s!"Pattern has {b} bytes but {m} mask entries"

def ofCells (cells : List Cell) : Except Error Pattern :=
  if h : cells = [] then .error (.tooShort 0) else .ok ⟨cells, h⟩

def ofMask (bytes : Bytes) (mask : List Bool) : Except Error Pattern :=
  if bytes.length = mask.length then ofCells (bytes.zipWith Cell.mk mask)
  else .error (.lengthMismatch bytes.length mask.length)

def ofBytes (bytes : Bytes) : Except Error Pattern := ofCells (bytes.map (⟨·, true⟩))

end Pattern

namespace Cell

def wild : Cell := ⟨0, false⟩

/-- A token is a wildcard or a byte of two characters, the first of which may be a plus sign. -/
def ofToken? : List Char → Option Cell
  | ['?'] => some wild
  | ['?', '?'] => some wild
  | [h, l] => do
    let high ← if h = '+' then some 0 else Hex.digit? h
    let low ← Hex.digit? l
    return ⟨UInt8.ofNat (16 * high + low), true⟩
  | _ => none

def text (c : Cell) : String :=
  if c.counts then Hex.upperPadded 2 c.byte.toNat else "??"

def accepts (c : Cell) (b : UInt8) : Bool := !c.counts || c.byte == b

end Cell

namespace Pattern

def cellOfToken (token : List Char) : Except Error Cell :=
  match Cell.ofToken? token with
  | some c => .ok c
  | none => .error (.badToken (String.ofList token))

def parse (text : String) : Except Error Pattern := do
  let cells ← (Blank.words text.toList).mapM cellOfToken
  if cells.any Cell.counts then ofCells cells else throw (.allWild text)

def text (p : Pattern) : String := " ".intercalate (p.cells.map Cell.text)

def length (p : Pattern) : Nat := p.cells.length

def acceptsAll : List Cell → Bytes → Bool
  | [], _ => true
  | _ :: _, [] => false
  | c :: cs, b :: bs => c.accepts b && acceptsAll cs bs

def matchesAt (p : Pattern) (data : Bytes) : Bool := acceptsAll p.cells data

/-- The position whose byte every candidate must show: the first that counts, else the first. -/
def anchor (p : Pattern) : Nat := (p.cells.findIdx? Cell.counts).getD 0

def anchorByte? (p : Pattern) : Option UInt8 := (p.cells[p.anchor]?).map Cell.byte

def findFrom (p : Pattern) (anchor : UInt8) (offset : Nat) : Bytes → Bytes → Option Nat
  | b :: bs, a :: as =>
    if a == anchor && p.matchesAt (b :: bs) then some offset
    else p.findFrom anchor (offset + 1) bs as
  | _, _ => none

/-- The least offset of a match, among the offsets where the anchor byte stands in its place. -/
def find? (p : Pattern) (data : Bytes) : Option Nat := do
  p.findFrom (← p.anchorByte?) 0 data (data.drop p.anchor)

theorem length_pos (p : Pattern) : 0 < p.length := List.length_pos_iff.mpr p.nonempty

@[simp] theorem acceptsAll_nil (data : Bytes) : acceptsAll [] data = true := by
  cases data <;> rfl

end Pattern

end TypeAtlas
