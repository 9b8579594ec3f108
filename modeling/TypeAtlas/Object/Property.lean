import TypeAtlas.Word

namespace TypeAtlas

/-- The identity of a reflected object, below `2 ^ 32`; two objects may share a name. -/
abbrev ObjectId := Nat

inductive PlainType
  | int8 | int16 | int32 | int64 | uint16 | uint32 | uint64 | float | double
  | name | string | text | delegate | multicastDelegate
  deriving DecidableEq, Repr

inductive Reference
  | object | metaclass | interface | weak | lazy | asset
  deriving DecidableEq, Repr

inductive PropertyKind
  | plain (type : PlainType)
  | byte (enumeration : Option ObjectId)
  | bool (mask : Nat)
  | reference (how : Reference) (target : Option ObjectId)
  | struct (type : ObjectId)
  | array (item : ObjectId)
  | set (item : ObjectId)
  | map (key value : ObjectId)
  | unknown (typeName : String)
  deriving DecidableEq, Repr

structure Property where
  offset : Nat
  elementSize : Nat
  arrayDim : Nat
  flags : Nat
  kind : PropertyKind
  deriving DecidableEq, Repr

namespace PropertyKind

def wholeMask : Nat := 255

def elements : PropertyKind → List ObjectId
  | .array i => [i]
  | .set i => [i]
  | .map k v => [k, v]
  | _ => []

end PropertyKind

namespace Property

def count (p : Property) : Nat := max p.arrayDim 1

def rawSize (p : Property) : Except Overflow Nat := Word.mul p.elementSize p.count

def mask? (p : Property) : Option Nat :=
  match p.kind with
  | .bool m => some m
  | _ => none

def isBool (p : Property) : Bool := p.mask?.isSome

def isBitField (p : Property) : Bool :=
  match p.mask? with
  | some m => m ≠ PropertyKind.wholeMask
  | none => false

/-- By offset; booleans at one offset by mask. -/
def compare (p q : Property) : Ordering :=
  match p.mask?, q.mask? with
  | some m, some n =>
    if p.offset = q.offset then Ord.compare m n else Ord.compare p.offset q.offset
  | _, _ => Ord.compare p.offset q.offset

end Property

end TypeAtlas
