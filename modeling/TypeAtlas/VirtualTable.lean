import TypeAtlas.Memory.Space
import TypeAtlas.Policy

namespace TypeAtlas.VirtualTable

inductive Error
  | memory (error : Memory.Error)
  | unreadable (owner : String) (address : Address)
  deriving DecidableEq, Repr

def Error.message : Error → String
  | .memory e => "Memory error: " ++ e.message?.getD ""
  | .unreadable owner a => s!"Virtual table of {owner} at {Address.text a} is not readable"

def maxSlots : Nat := 1024

def pointer (s : Space) (owner : String) (a : Address) : Outcome Error Address :=
  match s.word a with
  | .ok p => .ok p
  | .error (.refused _) => .error (.refused (.unreadable owner a))
  | .error (.abandoned o) => .error (.abandoned o)

/-- At most `count` entries from a slot on, up to the first that does not point to code. -/
def entries (s : Space) (owner : String) (table : Address) : Nat → Nat → Outcome Error (List Address)
  | 0, _ => .ok []
  | count + 1, index =>
    match table.slot? index with
    | none => .error (.refused (.unreadable owner table))
    | some a => do
      let entry ← pointer s owner a
      match s.protectionAt? entry with
      | some p => if p.isCode then return entry :: (← entries s owner table count (index + 1)) else return []
      | none => return []

def read (s : Space) (owner : String) (object : Address) (slots : Nat) :
    Outcome Error (List Address) := do
  entries s owner (← pointer s owner object) slots 0

def firstSlot? (s : Space) (window : Nat) (p : Pattern) :
    Nat → List Address → Outcome Error (Option Nat)
  | _, [] => .ok none
  | index, entry :: rest =>
    match s.search p entry window with
    | .ok (some _) => .ok (some index)
    | .ok none => firstSlot? s window p (index + 1) rest
    | .error (.refused e) => .error (.refused (.memory e))
    | .error (.abandoned o) => .error (.abandoned o)

def methods (s : Space) (window slots : Nat) (owner : String) (object : Address)
    (functions : List VirtualFunction) : Outcome Error (List ExtraMethod) := do
  let table ← read s owner object slots
  let found ← functions.mapM fun f => do
    return (← firstSlot? s window f.pattern 0 table).map fun i => ExtraMethod.inline (f.render i)
  return found.filterMap id

end TypeAtlas.VirtualTable
