import TypeAtlas.Word
import TypeAtlas.Text

namespace TypeAtlas

/-- A virtual address, below `Word.bound`. -/
abbrev Address := Nat

namespace Address

def text (a : Address) : String := "0x" ++ Hex.lowerPadded 16 a

def slot? (a : Address) (index : Nat) : Option Address := do
  let delta ← Word.mul? index 8
  Word.add? a delta

end Address

/-- Addresses from `start` on; a range that would pass the last word ends there. -/
structure Range where
  start : Address
  size : Nat
  deriving DecidableEq, Repr

namespace Range

def stop (r : Range) : Nat := Word.addCapped r.start r.size

def contains (r : Range) (a : Address) : Bool := r.start ≤ a && a < r.stop

def remaining (r : Range) (a : Address) : Nat := if r.contains a then r.stop - a else 0

def overlaps (r s : Range) : Bool := r.start < s.stop && r.stop > s.start

def text (r : Range) : String :=
  s!"[{Address.text r.start}, {Address.text r.stop})"

theorem contains_iff {r : Range} {a : Address} :
    r.contains a = true ↔ r.start ≤ a ∧ a < r.stop := by
  simp [contains]

theorem overlaps_iff {r s : Range} :
    r.overlaps s = true ↔ r.start < s.stop ∧ s.start < r.stop := by
  simp [overlaps]

end Range

inductive Protection
  | none | read | write | execute | readWrite | readExecute | readWriteExecute
  deriving DecidableEq, Repr

namespace Protection

def all : List Protection :=
  [none, read, write, execute, readWrite, readExecute, readWriteExecute]

def name : Protection → String
  | none => "none"
  | read => "read"
  | write => "write"
  | execute => "execute"
  | readWrite => "read_write"
  | readExecute => "read_execute"
  | readWriteExecute => "read_write_execute"

def ofName? (s : String) : Option Protection := all.find? (·.name == s)

def bits : Protection → Nat
  | none => 0
  | read => 1
  | write => 2
  | execute => 4
  | readWrite => 3
  | readExecute => 5
  | readWriteExecute => 7

/-- The three lowest bits decide; writing and executing without reading allows nothing. -/
def ofBits (n : Nat) : Protection :=
  match n % 8 with
  | 1 => read
  | 2 => write
  | 3 => readWrite
  | 4 => execute
  | 5 => readExecute
  | 7 => readWriteExecute
  | _ => none

def canRead : Protection → Bool
  | read | readWrite | readExecute | readWriteExecute => true
  | _ => false

def canWrite : Protection → Bool
  | write | readWrite | readWriteExecute => true
  | _ => false

def canExecute : Protection → Bool
  | execute | readExecute | readWriteExecute => true
  | _ => false

def isCode : Protection → Bool
  | readExecute | readWriteExecute => true
  | _ => false

def text : Protection → String
  | none => "---"
  | read => "r--"
  | write => "-w-"
  | execute => "--x"
  | readWrite => "rw-"
  | readExecute => "r-x"
  | readWriteExecute => "rwx"

@[simp] theorem ofName?_name (p : Protection) : ofName? p.name = some p := by
  cases p <;> decide

end Protection

structure Region where
  range : Range
  protection : Protection
  name : String
  deriving DecidableEq, Repr

namespace Region

def start (r : Region) : Address := r.range.start

def contains (r : Region) (a : Address) : Bool := r.range.contains a

def text (r : Region) : String :=
  s!"{Range.text r.range} {Protection.text r.protection} {r.name}"

end Region

end TypeAtlas
