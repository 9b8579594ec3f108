import TypeAtlas.Json.Value
import TypeAtlas.Table

/-! Decoding JSON values of an expected shape.  Of several faults the first in text order is
reported: a value is judged when it has been read, and a record's missing fields at its end. -/

namespace TypeAtlas.Json

inductive Fault
  | broken (b : Break)
  | shape (reason : Option String)
  deriving DecidableEq, Repr

abbrev Decoder (α : Type) := Json → Except Fault α

def mismatch {α : Type} (v : Json) : Except Fault α :=
  match v.wantBreak? with
  | some b => .error (.broken b)
  | none => .error (.shape none)

def afterParts {α : Type} (a : α) : Option Break → Except Fault α
  | none => .ok a
  | some b => .error (.broken b)

namespace Decoder

def bool : Decoder Bool
  | .bool b => .ok b
  | v => mismatch v

def naturalBelow (bound : Nat) : Decoder Nat
  | .natural n => if n < bound then .ok n else mismatch (.natural n)
  | v => mismatch v

def byte : Decoder Nat := naturalBelow (1 <<< 8)

def half : Decoder Nat := naturalBelow (1 <<< 32)

def word : Decoder Nat := naturalBelow Word.bound

def string : Decoder String
  | .string s => .ok s
  | v => mismatch v

def option {α : Type} (d : Decoder α) : Decoder (Option α)
  | .null => .ok none
  | v => (d v).map some

def list {α : Type} (d : Decoder α) : Decoder (List α)
  | .array items breach =>
    match items.mapM d with
    | .ok xs => afterParts xs breach
    | .error e => .error e
  | v => mismatch v

def entries {α : Type} (d : Decoder α) :
    Table α → List (Option String × Json) → Except Fault (Table α)
  | done, [] => .ok done
  | _, (none, _) :: _ => .error (.broken .malformed)
  | done, (some k, v) :: rest =>
    match d v with
    | .ok a => entries d (Table.insert k a done) rest
    | .error e => .error e

/-- An object taken as a table: a repeated key keeps its first place and its last value. -/
def table {α : Type} (d : Decoder α) : Decoder (Table α)
  | .object members breach =>
    match entries d [] members with
    | .ok xs => afterParts xs (breach.map Breach.wanted)
    | .error e => .error e
  | v => mismatch v

def skip : Decoder Unit := fun v =>
  match v.skipBreak? with
  | some b => .error (.broken b)
  | none => .ok ()

mutual

def whole (room : Nat) : Json → Except Fault Unit
  | .array items breach =>
    if room = 0 then .error (.broken .malformed)
    else match wholeItems (room - 1) items with
      | .ok () => afterParts () breach
      | .error e => .error e
  | .object members breach =>
    if room = 0 then .error (.broken .malformed)
    else match wholeMembers (room - 1) members with
      | .ok () => afterParts () (breach.map Breach.wanted)
      | .error e => .error e
  | v =>
    match v.wantBreak? with
    | some b => .error (.broken b)
    | none => .ok ()

def wholeItems (room : Nat) : List Json → Except Fault Unit
  | [] => .ok ()
  | v :: vs =>
    match whole room v with
    | .ok () => wholeItems room vs
    | .error e => .error e

def wholeMembers (room : Nat) : List (Option String × Json) → Except Fault Unit
  | [] => .ok ()
  | (none, _) :: _ => .error (.broken .malformed)
  | (some _, v) :: ms =>
    match whole room v with
    | .ok () => wholeMembers room ms
    | .error e => .error e

end

def document {α : Type} (d : Decoder α) (value : Json) (trailing : Bool) : Except Fault α :=
  match d value with
  | .ok a => if trailing then .error (.broken .malformed) else .ok a
  | .error e => .error e

end Decoder

inductive Fields : Type → Type 1
  | done : Fields Unit
  | field {α β : Type} (name : String) (decode : Decoder α) (absent found : Option α)
      (rest : Fields β) : Fields (α × β)

namespace Fields

def need {α β : Type} (name : String) (d : Decoder α) (rest : Fields β) : Fields (α × β) :=
  .field name d none none rest

def default {α β : Type} (name : String) (d : Decoder α) (a : α) (rest : Fields β) :
    Fields (α × β) :=
  .field name d (some a) none rest

def put {τ : Type} (key : String) (v : Json) : Fields τ → Except Fault (Fields τ)
  | .done =>
    match Decoder.skip v with
    | .ok () => .ok .done
    | .error e => .error e
  | .field name d absent found rest =>
    if name = key then
      if found.isSome then .error (.shape none)
      else match d v with
        | .ok a => .ok (.field name d absent (some a) rest)
        | .error e => .error e
    else match rest.put key v with
      | .ok rest => .ok (.field name d absent found rest)
      | .error e => .error e

def putAll {τ : Type} (fs : Fields τ) : List (Option String × Json) → Except Fault (Fields τ)
  | [] => .ok fs
  | (none, _) :: _ => .error (.broken .malformed)
  | (some k, v) :: ms =>
    match fs.put k v with
    | .ok fs => fs.putAll ms
    | .error e => .error e

def close {τ : Type} : Fields τ → Except Fault τ
  | .done => .ok ()
  | .field _ _ absent found rest =>
    match found.or absent with
    | none => .error (.shape none)
    | some a =>
      match rest.close with
      | .ok b => .ok (a, b)
      | .error e => .error e

/-- A record written as the list of its fields; those with a default may be missing at the end,
and nothing may follow the last. -/
def ofItems {τ : Type} (breach : Option Break) : Fields τ → List Json → Except Fault τ
  | .done, items =>
    if items.isEmpty then afterParts () breach else .error (.broken .malformed)
  | .field _ _ absent _ rest, [] =>
    match breach, absent with
    | some b, _ => .error (.broken b)
    | none, none => .error (.shape none)
    | none, some a =>
      match ofItems breach rest [] with
      | .ok b => .ok (a, b)
      | .error e => .error e
  | .field _ d _ _ rest, v :: vs =>
    match d v with
    | .error e => .error e
    | .ok a =>
      match ofItems breach rest vs with
      | .ok b => .ok (a, b)
      | .error e => .error e

def decode {τ : Type} (fs : Fields τ) : Decoder τ
  | .object members breach =>
    match fs.putAll members with
    | .error e => .error e
    | .ok fs =>
      match breach with
      | some b => .error (.broken b.wanted)
      | none => fs.close
  | .array items breach => ofItems breach fs items
  | v => mismatch v

end Fields

namespace Decoder

def variant {α : Type} (ofName? : String → Option α) : Decoder α
  | .string s =>
    match ofName? s with
    | some a => .ok a
    | none => .error (.shape none)
  | .object [] (some b) => .error (.broken b.named)
  | .object ((some k, v) :: ms) breach =>
    match ofName? k, v with
    | none, _ => .error (.shape none)
    | some a, .null =>
      match ms, breach with
      | [], none => .ok a
      | [], some b => .error (.broken b.named)
      | _ :: _, _ => .error (.broken .malformed)
    | some _, v => mismatch v
  | .broken b => .error (.broken b.named)
  | _ => .error (.broken .malformed)

abbrev Variant (α : Type) := String × Decoder α

def tag {α : Type} (numbered : Bool) (variants : List (Variant α)) : Decoder (Decoder α)
  | .string s =>
    match variants.find? (·.1 = s) with
    | some v => .ok v.2
    | none => .error (.shape none)
  | .natural n =>
    match numbered, variants[n]? with
    | true, some v => .ok v.2
    | _, _ => mismatch (.natural n)
  | v => mismatch v

/-- The tag is judged where it stands; every other member is read whole first. -/
def findTag {α : Type} (readTag : Decoder α) (room : Nat) :
    Option α → List (Option String × Json) → Except Fault (Option α)
  | found, [] => .ok found
  | _, (none, _) :: _ => .error (.broken .malformed)
  | found, (some k, v) :: ms =>
    if k = "type" then
      match found with
      | some _ => .error (.shape none)
      | none =>
        match readTag v with
        | .ok t => findTag readTag room (some t) ms
        | .error e => .error e
    else match whole room v with
      | .ok () => findTag readTag room found ms
      | .error e => .error e

def settled {α : Type} (d : Decoder α) : Decoder α := fun v =>
  match d v with
  | .error (.broken _) => .error (.shape none)
  | r => r

def bare {α : Type} (a : α) : Decoder α
  | .array (_ :: _) _ => .error (.shape none)
  | _ => .ok a

/-- An object whose member `type` names its variant, or a list that starts with the name. -/
def tagged {α : Type} (numbered : Bool) (room : Nat) (variants : List (Variant α)) : Decoder α
  | .object members breach =>
    match findTag (tag numbered variants) (room - 1) none members with
    | .error e => .error e
    | .ok found =>
      match breach, found with
      | some b, _ => .error (.broken b.wanted)
      | none, none => .error (.shape none)
      | none, some d => settled d (.object (members.filter (·.1 ≠ some "type")) none)
  | .array [] breach =>
    match breach with
    | some b => .error (.broken b)
    | none => .error (.shape none)
  | .array (t :: items) breach =>
    match tag numbered variants t with
    | .error e => .error e
    | .ok d =>
      match wholeItems (room - 1) items with
      | .error e => .error e
      | .ok () =>
        match breach with
        | some b => .error (.broken b)
        | none => settled d (.list items)
  | v => mismatch v

end Decoder

end TypeAtlas.Json
