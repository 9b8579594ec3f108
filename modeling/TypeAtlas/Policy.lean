import TypeAtlas.Pattern
import TypeAtlas.Json.Decode
import TypeAtlas.Json.Reader

namespace TypeAtlas

open Json (Decoder Fault Fields)

structure ExtraMember where
  type : String
  name : String
  deriving DecidableEq, Repr

inductive MethodForm
  | inline
  | outOfLine
  deriving DecidableEq, Repr

structure ExtraMethod where
  form : MethodForm
  signature : String
  body : String
  deriving DecidableEq, Repr

def ExtraMethod.inline (body : String) : ExtraMethod := ⟨.inline, "", body⟩

structure VirtualFunction where
  pattern : Pattern
  template : String
  deriving DecidableEq

/-- Replaces every occurrence of a word, from left to right; `skip` characters of an occurrence
are still to be passed over. -/
def substitute (word value : List Char) : Nat → List Char → List Char
  | _, [] => []
  | skip + 1, _ :: cs => substitute word value skip cs
  | 0, c :: cs =>
    if word.isPrefixOf (c :: cs) then value ++ substitute word value (word.length - 1) cs
    else c :: substitute word value 0 cs

namespace VirtualFunction

def slotMark : List Char := ['\x7b', 'i', 'n', 'd', 'e', 'x', '\x7d']

def render (v : VirtualFunction) (slot : Nat) : String :=
  String.ofList (substitute slotMark (toString slot).toList 0 v.template.toList)

end VirtualFunction

structure Policy where
  shortName : String
  emptyFiles : Bool
  useStrings : Bool
  xorStrings : Bool
  /-- Trailing gaps smaller than this are padding. -/
  alignment : Nat
  typeOverrides : Table String
  alignas : Table Nat
  members : Table (List ExtraMember)
  staticMembers : Table (List ExtraMember)
  methods : Table (List ExtraMethod)
  virtualFunctions : Table (List VirtualFunction)
  deriving DecidableEq

namespace Policy

def standard : Policy where
  shortName := "SDK"
  emptyFiles := false
  useStrings := false
  xorStrings := false
  alignment := 8
  typeOverrides := []
  alignas := []
  members := []
  staticMembers := []
  methods := []
  virtualFunctions := []

def typeFor (p : Policy) (type : String) : String := (p.typeOverrides.get? type).getD type

def alignasFor? (p : Policy) (fullName : String) : Option Nat :=
  (p.alignas.get? fullName).filter (· ≠ 0)

def membersFor? (p : Policy) (fullName : String) : Option (List ExtraMember) :=
  p.members.get? fullName

def staticMembersFor? (p : Policy) (fullName : String) : Option (List ExtraMember) :=
  p.staticMembers.get? fullName

def methodsFor (p : Policy) (fullName : String) : List ExtraMethod :=
  (p.methods.get? fullName).getD []

def virtualFunctionsFor? (p : Policy) (fullName : String) : Option (List VirtualFunction) :=
  (p.virtualFunctions.get? fullName).filter (!·.isEmpty)

inductive Invalid
  | emptyShortName
  | badAlignas (name : String)
  deriving DecidableEq, Repr

def Invalid.message : Invalid → String
  | .emptyShortName => "Invalid policy: game_name_short must not be empty"
  | .badAlignas name => s!"Invalid policy: alignas for {name} is not a power of two"

def isPowerOfTwo (n : Nat) : Bool := n ≠ 0 && n = 1 <<< n.log2

def check (p : Policy) : Except Invalid Unit :=
  if p.shortName.isEmpty then .error .emptyShortName
  else match p.alignas.find? fun e => !isPowerOfTwo e.2 with
    | some (name, _) => .error (.badAlignas name)
    | none => .ok ()

end Policy

namespace ExtraMember

def encode (m : ExtraMember) : Json := .record [("type", .string m.type), ("name", .string m.name)]

def decode : Decoder ExtraMember := fun v =>
  match (Fields.need "type" .string <| .need "name" .string .done).decode v with
  | .ok (type, name, ()) => .ok ⟨type, name⟩
  | .error e => .error e

end ExtraMember

namespace MethodForm

def name : MethodForm → String
  | .inline => "inline"
  | .outOfLine => "default"

def ofName? : String → Option MethodForm
  | "inline" => some .inline
  | "default" => some .outOfLine
  | _ => none

end MethodForm

namespace ExtraMethod

def encode (m : ExtraMethod) : Json :=
  .record [
    ("kind", .string m.form.name), ("signature", .string m.signature), ("body", .string m.body)]

def decode : Decoder ExtraMethod := fun v =>
  match (Fields.need "kind" (.variant MethodForm.ofName?) <| .default "signature" .string ""
    <| .need "body" .string .done).decode v with
  | .ok (form, signature, body, ()) => .ok ⟨form, signature, body⟩
  | .error e => .error e

end ExtraMethod

def Pattern.decode : Decoder Pattern := fun v =>
  match Decoder.string v with
  | .error e => .error e
  | .ok s =>
    match Pattern.parse s with
    | .ok p => .ok p
    | .error e => .error (.shape (some e.message))

namespace VirtualFunction

def encode (f : VirtualFunction) : Json :=
  .record [("pattern", .string f.pattern.text), ("template", .string f.template)]

def decode : Decoder VirtualFunction := fun v =>
  match (Fields.need "pattern" Pattern.decode <| .need "template" .string .done).decode v with
  | .ok (pattern, template, ()) => .ok ⟨pattern, template⟩
  | .error e => .error e

end VirtualFunction

namespace Policy

def encodeTable {α : Type} (f : α → Json) (t : Table α) : Json :=
  .record (t.map fun (k, a) => (k, f a))

def encode (p : Policy) : Json :=
  .record [
    ("game_name_short", .string p.shortName), ("generate_empty_files", .bool p.emptyFiles),
    ("use_strings", .bool p.useStrings), ("xor_strings", .bool p.xorStrings),
    ("global_member_alignment", .natural p.alignment),
    ("type_overrides", encodeTable .string p.typeOverrides),
    ("alignas", encodeTable .natural p.alignas),
    ("predefined_members", encodeTable (fun ms => .list (ms.map ExtraMember.encode)) p.members),
    ("predefined_static_members",
      encodeTable (fun ms => .list (ms.map ExtraMember.encode)) p.staticMembers),
    ("predefined_methods", encodeTable (fun ms => .list (ms.map ExtraMethod.encode)) p.methods),
    ("virtual_function_patterns",
      encodeTable (fun fs => .list (fs.map VirtualFunction.encode)) p.virtualFunctions)]

def decode : Decoder Policy := fun v =>
  match (Fields.default "game_name_short" .string standard.shortName
    <| .default "generate_empty_files" .bool standard.emptyFiles
    <| .default "use_strings" .bool standard.useStrings
    <| .default "xor_strings" .bool standard.xorStrings
    <| .default "global_member_alignment" .word standard.alignment
    <| .default "type_overrides" (.table .string) []
    <| .default "alignas" (.table .word) []
    <| .default "predefined_members" (.table (.list ExtraMember.decode)) []
    <| .default "predefined_static_members" (.table (.list ExtraMember.decode)) []
    <| .default "predefined_methods" (.table (.list ExtraMethod.decode)) []
    <| .default "virtual_function_patterns" (.table (.list VirtualFunction.decode)) []
    .done).decode v with
  | .ok (shortName, emptyFiles, useStrings, xorStrings, alignment, typeOverrides, alignas, members,
      staticMembers, methods, virtualFunctions, ()) =>
    .ok { shortName, emptyFiles, useStrings, xorStrings, alignment, typeOverrides, alignas,
          members, staticMembers, methods, virtualFunctions }
  | .error e => .error e

inductive Error
  | unreadableFile
  | json (fault : Fault)
  | invalid (reason : Invalid)
  deriving DecidableEq, Repr

def ofDocument (d : Json.Document) : Except Error Policy :=
  match Decoder.document decode d.value d.trailing with
  | .error f => .error (.json f)
  | .ok p =>
    match p.check with
    | .ok () => .ok p
    | .error reason => .error (.invalid reason)

end Policy

end TypeAtlas
