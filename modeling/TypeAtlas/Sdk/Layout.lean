import TypeAtlas.Graph.TypeInfo
import TypeAtlas.Object.Flags

namespace TypeAtlas

structure Member where
  name : String
  type : String
  offset : Nat
  size : Nat
  comment : String
  flags : String
  deriving DecidableEq, Repr

namespace Member

def fillerName : String := "UnknownData"

def fillerType : String := "unsigned char"

def filler (number offset size : Nat) (reason : String) : Member where
  name := fillerName ++ Pad.zeros 2 number ++ "[0x" ++ Hex.upper size ++ "]"
  type := fillerType
  offset := offset
  size := size
  comment := reason
  flags := ""

def isFiller (m : Member) : Bool :=
  fillerName.toList.isPrefixOf m.name.toList && m.type == fillerType

def stop (m : Member) : Except Overflow Nat := Word.add m.offset m.size

end Member

namespace Layout

abbrev Entry := Object × Property

def comesBefore (a b : Entry) : Bool := a.2.compare b.2 ≠ .gt

/-- The properties of an object that take room at or above an offset, sorted.  Where a property that
is no boolean stands at the offset of two booleans with different masks, the comparison is not
transitive, and this is only one of the orders that a sort may leave. -/
def collect (g : Graph) (owner : ObjectId) (minOffset : Nat) : List Entry :=
  match g.get? owner with
  | none => []
  | some o =>
    ((o.children.filterMap g.property?).filter fun e =>
      0 < e.2.elementSize && minOffset ≤ e.2.offset).mergeSort comesBefore

def missedOffset : String := "MISSED OFFSET"

def wrongSize : String := "FIX WRONG TYPE SIZE OF PREVIOUS PROPERTY"

def unknownProperty (o : Object) : String := "UNKNOWN PROPERTY: " ++ o.fullName

structure State where
  position : Nat
  fillers : Nat
  names : NamesTaken

namespace State

def gap (s : State) (offset : Nat) : List Member × State :=
  if offset > s.position then
    ([.filler s.fillers s.position (offset - s.position) missedOffset],
      { s with fillers := s.fillers + 1 })
  else ([], s)

def memberName (s : State) (o : Object) (p : Property) : String :=
  s.names.next (Identifier.sanitize o.name)
    ++ (if p.count > 1 then "[0x" ++ Hex.upper p.count ++ "]" else "")
    ++ (if p.isBitField then " : 1" else "")

def known (s : State) (o : Object) (p : Property) (i : TypeInfo) :
    Except Overflow (List Member × State) := do
  let size ← Word.mul i.size p.count
  let member : Member :=
    ⟨s.memberName o p, i.text, p.offset, size, "", Flags.text Flags.propertyNames p.flags⟩
  let s := { s with names := s.names.take (Identifier.sanitize o.name) }
  if i.size < p.elementSize then
    let missing ← Word.mul (p.elementSize - i.size) p.count
    let offset ← Word.add p.offset size
    return ([member, .filler s.fillers offset missing wrongSize],
      { s with fillers := s.fillers + 1 })
  else return ([member], s)

def unknown (s : State) (o : Object) (p : Property) : Except Overflow (List Member × State) := do
  let size ← p.rawSize
  return ([.filler s.fillers p.offset size (unknownProperty o)],
    { s with fillers := s.fillers + 1 })

def step (g : Graph) (s : State) (e : Entry) : Except Overflow (List Member × State) := do
  let (o, p) := e
  let (gap, s) := s.gap p.offset
  let i := g.info p
  let (own, s) ← if i.isKnown then s.known o p i else s.unknown o p
  let position ← Word.add p.offset (← p.rawSize)
  return (gap ++ own, { s with position })

def steps (g : Graph) (s : State) : List Entry → Except Overflow (List Member × State)
  | [] => .ok ([], s)
  | e :: es => do
    let (first, s) ← s.step g e
    let (rest, s) ← s.steps g es
    return (first ++ rest, s)

/-- The filler behind the last property, unless what is left is mere padding. -/
def tail (s : State) (alignment declared : Nat) : List Member :=
  if s.position < declared ∧ alignment ≤ declared - s.position then
    [.filler s.fillers s.position (declared - s.position) missedOffset]
  else []

end State

/-- The members of a type that inherits its first `start` bytes and has `declared` bytes in all. -/
def reconstruct (g : Graph) (alignment : Nat) (entries : List Entry) (start declared : Nat) :
    Except Overflow (List Member) := do
  let (members, s) ← State.steps g ⟨start, 0, .none⟩ entries
  return members ++ s.tail alignment declared

end Layout

end TypeAtlas
