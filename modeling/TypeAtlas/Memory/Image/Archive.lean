import TypeAtlas.Memory.Image.Basic
import TypeAtlas.Text

namespace TypeAtlas.Image.Archive

structure Member where
  name : String
  longName : Option String
  start : Nat
  contents : Nat
  size : Nat

def blank : Char := ' '

def padded (name : String) : String := name.pushn blank (16 - name.length)

def indexName : String := padded "/"

def longNamesName : String := padded "//"

def rangeIndexNames : List String := ["__.SYMDEF", "__.SYMDEF SORTED"]

def dropRight (p : Char → Bool) (cs : List Char) : List Char := (cs.reverse.dropWhile p).reverse

def longNameLength? (name : String) : Option Nat :=
  match name.toList with
  | '#' :: '1' :: '/' :: cs => decimal? (dropRight (· == blank) cs)
  | _ => none

def Member.read (b : Binary) (start : Nat) : Reading Member := do
  let name ← b.field start 16
  b.holds start 60
  let spelled ← b.field (start + 48) 10
  let size ← Reading.ofOption (decimal? (dropRight Blank spelled.toList))
  let contents := start + 60
  match longNameLength? name with
  | none => return ⟨name, none, start, contents, size⟩
  | some length =>
    let long ← b.field contents length
    let size ← Outcome.ofWord (Word.sub size length)
    return ⟨name, some (String.ofList (dropRight (· == '\x00') long.toList)), start,
      contents + length, size⟩

inductive Form
  | members | symbols | ranges
  deriving DecidableEq

structure Index where
  form : Form
  places : List Nat

def textCount (bytes : Bytes) : Nat :=
  bytes.count 0 + if (bytes.getLast?.getD 0) = 0 then 0 else 1

def Index.ofMembers (bytes : Bytes) : Reading Index := do
  let b : Binary := ⟨bytes, .big, false⟩
  let count ← b.word 0
  b.holds 4 (4 * count)
  let places ← (List.range count).mapM fun i => b.word (4 + 4 * i)
  let names ← b.part (4 + 4 * count) (b.length - (4 + 4 * count))
  b.holdsTexts (4 + 4 * count) names.length
  return ⟨.members, places.take (textCount names)⟩

/-- The second form: places of members, and for each symbol the number of a member, from one on. -/
def Index.ofSymbols (bytes : Bytes) : Reading Index := do
  let b : Binary := ⟨bytes, .little, false⟩
  let count ← b.word 0
  b.holds 4 (4 * count)
  let members ← (List.range count).mapM fun i => b.word (4 + 4 * i)
  let start := 8 + 4 * count
  let symbols ← b.word (start - 4)
  require (symbols ≤ b.length / 2)
  let places ← (List.range symbols).mapM fun i => do
    let number ← Outcome.ofWord (Word.sub (← b.number (start + 2 * i) 2) 1)
    Reading.ofOption members[number]?
  let names ← b.part (start + 2 * symbols) (b.length - (start + 2 * symbols))
  b.holdsTexts (start + 2 * symbols) names.length
  return ⟨.symbols, places.take (textCount names)⟩

/-- A text starts at a position of a table: at a character of it, or at the end of its last text. -/
def startsText (table : Bytes) (pos : Nat) : Bool :=
  if pos < table.length then (utf8? (table.drop pos)).isSome
  else pos = table.length && (table.getLast?.getD 0) ≠ 0

def Index.ofRanges (bytes : Bytes) : Reading Index := do
  let b : Binary := ⟨bytes, .little, false⟩
  let size ← b.word 0
  let names ← b.part (size + 8) (← b.word (size + 4))
  b.holdsTexts (size + 8) names.length
  let places ← (List.range (size / 8)).mapM fun i => do
    require (startsText names (← b.word (8 * i + 4)))
    b.word (8 * i + 8)
  return ⟨.ranges, places⟩

structure State where
  index : Option Index
  members : List Nat

def State.withIndex (s : State) (b : Binary) (m : Member) : Reading State := do
  let read ← match s.index.map Index.form with
    | none => .ok Index.ofMembers
    | some .members => .ok Index.ofSymbols
    | _ => malformed
  return { s with index := some (← read (← b.part m.contents m.size)) }

def State.withRanges (s : State) (b : Binary) (m : Member) : Reading State := do
  require s.index.isNone
  return { s with index := some (← Index.ofRanges (← b.part m.contents m.size)) }

/-- The table of long names is read from the line end before it, and its own last line end is left
out again. -/
def holdsLongNames (b : Binary) (m : Member) : Reading Unit := do
  b.holdsTexts (m.contents - 1) (m.size + 1)
  let _ ← Outcome.ofWord (Word.sub (m.size + 1) 2)

def State.take (s : State) (b : Binary) (m : Member) : Reading State :=
  if m.name = indexName then s.withIndex b m
  else if rangeIndexNames.any (some · == m.longName) then s.withRanges b m
  else if m.name = longNamesName then do
    holdsLongNames b m
    return s
  else .ok { s with members := m.start :: s.members }

def members (b : Binary) : Nat → Nat → State → Reading State
  | 0, _, _ => malformed
  | room + 1, pos, s =>
    if b.length ≤ pos + 1 then .ok s
    else do
      let m ← Member.read b (pos + pos % 2)
      members b room (m.contents + m.size) (← s.take b m)

def check (contents : Bytes) : Reading Unit := do
  let b : Binary := ⟨contents, .big, false⟩
  let s ← members b b.length 8 ⟨none, []⟩
  match s.index with
  | none => return ()
  | some index => require (index.places.all s.members.contains)

end TypeAtlas.Image.Archive
