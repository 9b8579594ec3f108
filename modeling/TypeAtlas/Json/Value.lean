import TypeAtlas.Json.Number

/-! JSON as it is read and written.  Texts can stop being JSON anywhere, and what was read before
that point still counts, so a value may be unfinished. -/

namespace TypeAtlas

inductive Break
  | ended | malformed
  deriving DecidableEq, Repr

/-- A text breaks off differently for a reader that wants what stands there, for one that skips
it, and for one that takes it for a name. -/
structure Breach where
  wanted : Break
  skipped : Break
  named : Break
  deriving DecidableEq, Repr

namespace Breach

def all (b : Break) : Breach := ⟨b, b, b⟩

def scalar (wanted skipped : Break) : Breach := ⟨wanted, skipped, .malformed⟩

def text (wanted skipped : Break) : Breach := ⟨wanted, skipped, wanted⟩

end Breach

/-- A JSON value, as far as its text could be read.  Members keep their order and their
repetitions; a key that names half of a surrogate pair spells no text.  A container that breaks
off says so after its last part. -/
inductive Json
  | null
  | bool (b : Bool)
  | natural (n : Nat)
  /-- A number that is no word, as it was spelled. -/
  | decimal (spelling : String)
  | string (s : String)
  | unpaired
  | array (items : List Json) (breach : Option Break)
  | object (members : List (Option String × Json)) (breach : Option Breach)
  | broken (breach : Breach)

namespace Json

abbrev list (items : List Json) : Json := .array items none

def record (members : List (String × Json)) : Json :=
  .object (members.map fun (k, v) => (some k, v)) none

def ofOption {α : Type} (f : α → Json) : Option α → Json
  | some a => f a
  | none => .null

def wantBreak? : Json → Option Break
  | .broken b => some b.wanted
  | .unpaired => some .malformed
  | .decimal s => if Number.tooLarge s then some .malformed else none
  | _ => none

mutual

def skipBreak? : Json → Option Break
  | .array items breach => (skipItems? items).or breach
  | .object members breach => (skipMembers? members).or (breach.map Breach.skipped)
  | .broken b => some b.skipped
  | _ => none

def skipItems? : List Json → Option Break
  | [] => none
  | v :: vs => v.skipBreak?.or (skipItems? vs)

def skipMembers? : List (Option String × Json) → Option Break
  | [] => none
  | (_, v) :: ms => v.skipBreak?.or (skipMembers? ms)

end

end Json

end TypeAtlas
