import TypeAtlas.Memory.Space

namespace TypeAtlas

structure Segment where
  name : String
  /-- Address relative to the image's preferred base. -/
  offset : Nat
  memorySize : Nat
  fileOffset : Nat
  fileSize : Nat
  protection : Protection
  deriving DecidableEq, Repr

namespace Image

/-- What is read from a file: the file may be malformed, or an address in it may overflow. -/
abbrev Reading (α : Type) := Outcome Memory.Error α

def malformed {α : Type} : Reading α := .error (.refused .badImage)

def Reading.ofOption {α : Type} : Option α → Reading α
  | some a => .ok a
  | none => malformed

def require (condition : Bool) : Reading Unit := if condition then .ok () else malformed

inductive ByteOrder
  | little | big
  deriving DecidableEq

structure Binary where
  bytes : Bytes
  order : ByteOrder
  wide : Bool

def utf8? (bytes : Bytes) : Option String := String.fromUTF8? (ByteArray.mk bytes.toArray)

def beforeZero (bytes : Bytes) : Bytes := bytes.takeWhile (· != 0)

namespace Binary

def length (b : Binary) : Nat := b.bytes.length

def wordSize (b : Binary) : Nat := if b.wide then 8 else 4

def part (b : Binary) (pos size : Nat) : Reading Bytes :=
  if pos + size ≤ b.length then .ok ((b.bytes.drop pos).take size) else malformed

def holds (b : Binary) (pos size : Nat) : Reading Unit := require (pos + size ≤ b.length)

def number (b : Binary) (pos width : Nat) : Reading Nat := do
  let bytes ← b.part pos width
  match b.order with
  | .little => return Memory.littleEndian bytes
  | .big => return Memory.littleEndian bytes.reverse

def word (b : Binary) (pos : Nat) : Reading Nat := b.number pos b.wordSize

def field (b : Binary) (pos size : Nat) : Reading String := do
  Reading.ofOption (utf8? (← b.part pos size))

def text (b : Binary) (pos : Nat) : Reading String :=
  if pos ≤ b.length then .ofOption (utf8? (beforeZero (b.bytes.drop pos))) else malformed

/-- A table of texts: no zero byte stands inside a character, so the table is one text itself. -/
def holdsTexts (b : Binary) (pos size : Nat) : Reading Unit := do
  let _ ← b.field pos size

end Binary

def decimal? (cs : List Char) : Option Nat :=
  let digits := match cs with
    | '+' :: cs => cs
    | cs => cs
  if digits.isEmpty || !digits.all Char.isDigit then none
  else some (digits.foldl (fun n c => 10 * n + (c.toNat - '0'.toNat)) 0)

def bit (flags weight : Nat) : Bool := flags / weight % 2 = 1

def protectionOf (flags read write execute : Nat) : Protection :=
  .ofBits ((if bit flags read then 1 else 0) + (if bit flags write then 2 else 0)
    + (if bit flags execute then 4 else 0))

def least : List Nat → Nat
  | [] => 0
  | n :: ns => ns.foldl min n

end Image

end TypeAtlas
