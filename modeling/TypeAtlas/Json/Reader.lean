import TypeAtlas.Json.Value
import TypeAtlas.Text

namespace TypeAtlas.Json

inductive Token
  | openArray | closeArray | openObject | closeObject | comma | colon
  | text (s : Except Breach (Option String))
  | atom (v : Json)
  | stray

namespace Token

def shortEscape? : Char → Option Char
  | '"' => some '"'
  | '\\' => some '\\'
  | '/' => some '/'
  | 'b' => some '\x08'
  | 'f' => some '\x0c'
  | 'n' => some '\n'
  | 'r' => some '\r'
  | 't' => some '\t'
  | _ => none

def isHighHalf (n : Nat) : Bool := 0xD800 ≤ n && n < 0xDC00

def isLowHalf (n : Nat) : Bool := 0xDC00 ≤ n && n < 0xE000

def joined? : List Nat → Option (List Char)
  | [] => some []
  | n :: m :: rest =>
    if isHighHalf n then
      if isLowHalf m then
        (joined? rest).map (Char.ofNat (0x10000 + (n - 0xD800) * 0x400 + (m - 0xDC00)) :: ·)
      else none
    else if isLowHalf n then none
    else (joined? (m :: rest)).map (Char.ofNat n :: ·)
  | [n] => if isHighHalf n || isLowHalf n then none else some [Char.ofNat n]

/-- A break behind these units, reversed.  Half of a pair that cannot be completed any more has
already stopped a reader that wants the string. -/
def textBreak (units : List Nat) (b : Break) : Except Breach (Option String) :=
  let settled := match units with
    | n :: rest => if isHighHalf n then rest else n :: rest
    | [] => []
  .error (.text (if (joined? settled.reverse).isSome then b else .malformed) b)

def holdsEscape (cs : List Char) : Bool := 4 ≤ (cs.map Char.utf8Size).foldl (· + ·) 0

/-- Reads a string from behind its opening quote; `units` holds what was read, reversed. -/
def scanText (units : List Nat) : List Char → Except Breach (Option String) × List Char
  | [] => (textBreak units .ended, [])
  | '"' :: cs => (.ok ((joined? units.reverse).map String.ofList), cs)
  | '\\' :: 'u' :: a :: b :: c :: d :: cs =>
    match Hex.value? [a, b, c, d] with
    | some n => scanText (n :: units) cs
    | none => (textBreak units .malformed, [])
  | '\\' :: 'u' :: cs => (textBreak units (if holdsEscape cs then .malformed else .ended), [])
  | '\\' :: e :: cs =>
    match shortEscape? e with
    | some c => scanText (c.toNat :: units) cs
    | none => (textBreak units .malformed, [])
  | '\\' :: [] => (textBreak units .ended, [])
  | c :: cs =>
    if c.toNat < 0x20 then (textBreak units .malformed, []) else scanText (c.toNat :: units) cs

/-- Digits that must follow: what is wrong without them hangs on whether the text ends. -/
def missingDigits (rest : List Char) : Json :=
  .broken (.scalar (if rest.isEmpty then .ended else .malformed) .malformed)

def scanExponent (spelled rest : List Char) : Json × List Char :=
  match rest with
  | e :: cs =>
    if e = 'e' ∨ e = 'E' then
      let (sign, cs) := match cs with
        | '+' :: cs => (['+'], cs)
        | '-' :: cs => (['-'], cs)
        | cs => ([], cs)
      let digits := cs.takeWhile Char.isDigit
      let rest := cs.dropWhile Char.isDigit
      if digits.isEmpty then (missingDigits rest, [])
      else (.decimal (String.ofList (spelled ++ e :: sign ++ digits)), rest)
    else (.decimal (String.ofList spelled), rest)
  | [] => (.decimal (String.ofList spelled), [])

def integer (negative : Bool) (whole : List Char) : Json :=
  let n := Number.value (Number.digits whole)
  if negative then .decimal (String.ofList ('-' :: whole))
  else if n < Word.bound then .natural n
  else .decimal (String.ofList whole)

def scanFraction (negative : Bool) (whole rest : List Char) : Json × List Char :=
  let spelled := if negative then '-' :: whole else whole
  match rest with
  | '.' :: cs =>
    let digits := cs.takeWhile Char.isDigit
    let rest := cs.dropWhile Char.isDigit
    if digits.isEmpty then (missingDigits rest, [])
    else scanExponent (spelled ++ '.' :: digits) rest
  | e :: _ =>
    if e = 'e' ∨ e = 'E' then scanExponent spelled rest
    else (integer negative whole, rest)
  | [] => (integer negative whole, [])

def scanNumber (negative : Bool) : List Char → Json × List Char
  | [] => (.broken (.scalar .ended .malformed), [])
  | c :: cs =>
    if c = '0' then
      if (cs.head?.map Char.isDigit).getD false then (.broken (.scalar .malformed .malformed), [])
      else scanFraction negative ['0'] cs
    else if c.isDigit then
      scanFraction negative (c :: cs.takeWhile Char.isDigit) (cs.dropWhile Char.isDigit)
    else (.broken (.scalar .malformed .malformed), [])

def scanWord (v : Json) : List Char → List Char → Json × List Char
  | [], cs => (v, cs)
  | _ :: _, [] => (.broken (.scalar .ended .ended), [])
  | w :: ws, c :: cs =>
    if w = c then scanWord v ws cs else (.broken (.scalar .malformed .malformed), [])

def scan (c : Char) (cs : List Char) : Token × List Char :=
  match c with
  | '[' => (.openArray, cs)
  | ']' => (.closeArray, cs)
  | '\x7b' => (.openObject, cs)
  | '\x7d' => (.closeObject, cs)
  | ',' => (.comma, cs)
  | ':' => (.colon, cs)
  | '"' => let (s, rest) := scanText [] cs; (.text s, rest)
  | 'n' => let (v, rest) := scanWord .null ['u', 'l', 'l'] cs; (.atom v, rest)
  | 't' => let (v, rest) := scanWord (.bool true) ['r', 'u', 'e'] cs; (.atom v, rest)
  | 'f' => let (v, rest) := scanWord (.bool false) ['a', 'l', 's', 'e'] cs; (.atom v, rest)
  | '-' => let (v, rest) := scanNumber true cs; (.atom v, rest)
  | c =>
    if c.isDigit then let (v, rest) := scanNumber false (c :: cs); (.atom v, rest)
    else (.stray, [])

def isSpace (c : Char) : Bool := c == ' ' || c == '\n' || c == '\t' || c == '\r'

def scanAll : Nat → List Char → List Token
  | 0, _ => []
  | _ + 1, [] => []
  | room + 1, c :: cs =>
    if isSpace c then scanAll room cs
    else let (t, rest) := scan c cs; t :: scanAll room rest

end Token

inductive Frame
  | item (before : List Json)
  | member (before : List (Option String × Json)) (key : Option String)

inductive Expecting
  | value (frames : List Frame)
  | firstItem (frames : List Frame)
  | nextItem (before : List Json) (frames : List Frame)
  | firstKey (frames : List Frame)
  | nextKey (before : List (Option String × Json)) (frames : List Frame)
  | colon (before : List (Option String × Json)) (key : Option String) (frames : List Frame)
  | nextMember (before : List (Option String × Json)) (frames : List Frame)
  | nothing (v : Json)
  | stopped (v : Json) (trailing : Bool)

namespace Expecting

def abandon (b : Break) (v : Json) : List Frame → Json
  | [] => v
  | .item before :: fs => abandon b (.array (v :: before).reverse (some b)) fs
  | .member before key :: fs =>
    abandon b (.object ((key, v) :: before).reverse (some (.all b))) fs

def stop (b : Breach) (fs : List Frame) : Expecting :=
  .stopped (abandon b.wanted (.broken b) fs) false

def deliver (v : Json) : List Frame → Expecting
  | [] => .nothing v
  | .item before :: fs => .nextItem (v :: before) fs
  | .member before key :: fs => .nextMember ((key, v) :: before) fs

def deliverAtom (v : Json) (fs : List Frame) : Expecting :=
  match v with
  | .broken b => stop b fs
  | v => deliver v fs

def deliverText (s : Except Breach (Option String)) (fs : List Frame) : Expecting :=
  match s with
  | .ok (some s) => deliver (.string s) fs
  | .ok none => deliver .unpaired fs
  | .error b => stop b fs

def onValue (fs : List Frame) : Token → Expecting
  | .openArray => .firstItem fs
  | .openObject => .firstKey fs
  | .text s => deliverText s fs
  | .atom v => deliverAtom v fs
  | _ => stop (.all .malformed) fs

def stopArray (b : Break) (before : List Json) (fs : List Frame) : Expecting :=
  .stopped (abandon b (.array before.reverse (some b)) fs) false

def stopObject (b : Breach) (before : List (Option String × Json)) (fs : List Frame) : Expecting :=
  .stopped (abandon b.wanted (.object before.reverse (some b)) fs) false

def onFirstKey (fs : List Frame) : Token → Expecting
  | .text (.ok key) => .colon [] key fs
  | .text (.error b) => stopObject b [] fs
  | _ => stopObject (.all .malformed) [] fs

def onNextKey (before : List (Option String × Json)) (fs : List Frame) : Token → Expecting
  | .text (.ok key) => .colon before key fs
  | .text (.error b) => stopObject ⟨b.wanted, b.skipped, .malformed⟩ before fs
  | _ => stopObject (.all .malformed) before fs

def step : Expecting → Token → Expecting
  | .value fs, t => onValue fs t
  | .firstItem fs, .closeArray => deliver (.list []) fs
  | .firstItem fs, t => onValue (.item [] :: fs) t
  | .nextItem before fs, .comma => .value (.item before :: fs)
  | .nextItem before fs, .closeArray => deliver (.list before.reverse) fs
  | .nextItem before fs, _ => stopArray .malformed before fs
  | .firstKey fs, .closeObject => deliver (.record []) fs
  | .firstKey fs, t => onFirstKey fs t
  | .nextKey before fs, t => onNextKey before fs t
  | .colon before key fs, .colon => .value (.member before key :: fs)
  | .colon before key fs, _ => stop (.all .malformed) (.member before key :: fs)
  | .nextMember before fs, .comma => .nextKey before fs
  | .nextMember before fs, .closeObject => deliver (.object before.reverse none) fs
  | .nextMember before fs, _ => stopObject (.all .malformed) before fs
  | .nothing v, _ => .stopped v true
  | .stopped v trailing, _ => .stopped v trailing

end Expecting

structure Document where
  value : Json
  trailing : Bool

def Expecting.finish : Expecting → Document
  | .value fs => ⟨abandon .ended (.broken (.all .ended)) fs, false⟩
  | .firstItem fs => ⟨abandon .ended (.array [] (some .ended)) fs, false⟩
  | .nextItem before fs => ⟨abandon .ended (.array before.reverse (some .ended)) fs, false⟩
  | .firstKey fs => ⟨abandon .ended (.object [] (some (.all .ended))) fs, false⟩
  | .nextKey before fs =>
    ⟨abandon .ended (.object before.reverse (some ⟨.ended, .ended, .malformed⟩)) fs, false⟩
  | .colon before key fs => ⟨abandon .ended (.broken (.all .ended)) (.member before key :: fs), false⟩
  | .nextMember before fs =>
    ⟨abandon .ended (.object before.reverse (some (.all .ended))) fs, false⟩
  | .nothing v => ⟨v, false⟩
  | .stopped v trailing => ⟨v, trailing⟩

def tokens (text : String) : List Token :=
  let cs := text.toList
  Token.scanAll cs.length cs

def read (text : String) : Document :=
  ((tokens text).foldl Expecting.step (.value [])).finish

end TypeAtlas.Json
