import TypeAtlas.Json.Value
import TypeAtlas.Text

namespace TypeAtlas.Json

def escapeChar (c : Char) : List Char :=
  match c with
  | '"' => ['\\', '"']
  | '\\' => ['\\', '\\']
  | '\x08' => ['\\', 'b']
  | '\x0c' => ['\\', 'f']
  | '\n' => ['\\', 'n']
  | '\r' => ['\\', 'r']
  | '\t' => ['\\', 't']
  | c =>
    if c.toNat < 0x20 then
      ['\\', 'u', '0', '0', Hex.lowerDigit (c.toNat / 16), Hex.lowerDigit (c.toNat % 16)]
    else [c]

def quoted (s : String) : String :=
  String.ofList ('"' :: (s.toList.flatMap escapeChar ++ ['"']))

def unpairedText : String := "\"\\ud800\""

def keyText (k : Option String) : String := (k.map quoted).getD unpairedText

mutual

def compact : Json → String
  | .null => "null"
  | .bool b => if b then "true" else "false"
  | .natural n => toString n
  | .decimal s => s
  | .string s => quoted s
  | .unpaired => unpairedText
  | .array items _ => "[" ++ ",".intercalate (compactItems items) ++ "]"
  | .object members _ => "\x7b" ++ ",".intercalate (compactMembers members) ++ "\x7d"
  | .broken _ => ""

def compactItems : List Json → List String
  | [] => []
  | v :: vs => v.compact :: compactItems vs

def compactMembers : List (Option String × Json) → List String
  | [] => []
  | (k, v) :: ms => (keyText k ++ ":" ++ v.compact) :: compactMembers ms

end

def lineStart (depth : Nat) : String := "\n" ++ String.ofList (List.replicate (2 * depth) ' ')

def block (depth : Nat) (opening closing : String) (parts : List String) : String :=
  if parts.isEmpty then opening ++ closing
  else opening ++ lineStart (depth + 1) ++ ("," ++ lineStart (depth + 1)).intercalate parts
    ++ lineStart depth ++ closing

mutual

def indented (depth : Nat) : Json → String
  | .array items _ => block depth "[" "]" (indentedItems (depth + 1) items)
  | .object members _ => block depth "\x7b" "\x7d" (indentedMembers (depth + 1) members)
  | v => v.compact

def indentedItems (depth : Nat) : List Json → List String
  | [] => []
  | v :: vs => indented depth v :: indentedItems depth vs

def indentedMembers (depth : Nat) : List (Option String × Json) → List String
  | [] => []
  | (k, v) :: ms => (keyText k ++ ": " ++ indented depth v) :: indentedMembers depth ms

end

def pretty (v : Json) : String := indented 0 v

end TypeAtlas.Json
