import TypeAtlas.Sdk.Declaration.Basic
import TypeAtlas.VirtualTable

namespace TypeAtlas

structure Target where
  graph : Graph
  policy : Policy
  memory : Option Space

def Graph.baseOf? (g : Graph) (o : Object) : Option Object :=
  ((g.superOf? o.id).filter (· ≠ o.id)).bind g.get?

def Graph.inheritedSize (g : Graph) (o : Object) : Nat :=
  match g.baseOf? o with
  | some b => g.sizeOf b.id
  | none => 0

namespace EnumDecl

def untilColons : List Char → List Char
  | [] => []
  | c :: cs => if [':', ':'].isPrefixOf (c :: cs) then [] else c :: untilColons cs

def shortName (raw : String) : String :=
  String.ofList (untilColons raw.toList.reverse).reverse

def ofObject? (g : Graph) (o : Object) (names : List String) : Option EnumDecl :=
  let name := g.uniqueName o
  if o.isPlaceholder || isPlaceholderName name then none
  else some ⟨name, o.fullName, NamesTaken.none.all (names.map (Identifier.sanitize ∘ shortName))⟩

end EnumDecl

def constantName? (o : Object) : Option String :=
  let name := Identifier.sanitize o.name
  if o.isPlaceholder || isPlaceholderName name then none else some name

namespace StructDecl

def baseClause (base : Option String) : String :=
  match base with
  | some b => " : public " ++ b
  | none => ""

def alignment (policy : Policy) (o : Object) : String :=
  match policy.alignasFor? o.fullName with
  | some n => "alignas(" ++ toString n ++ ") "
  | none => ""

def layout (t : Target) (o : Object) (minOffset : Nat) : Except Overflow (List Member) :=
  Layout.reconstruct t.graph t.policy.alignment (Layout.collect t.graph o.id minOffset)
    (t.graph.inheritedSize o) (t.graph.sizeOf o.id)

def ofObject (t : Target) (o : Object) : Except Overflow StructDecl := do
  let members ← layout t o 0
  return {
    id := o.id
    name := o.name
    fullName := o.fullName
    nativeName := t.graph.uniqueName o
    head := "struct " ++ alignment t.policy o ++ t.graph.uniqueName o
      ++ baseClause ((t.graph.baseOf? o).map t.graph.uniqueName)
    size := t.graph.sizeOf o.id
    inheritedSize := t.graph.inheritedSize o
    members
    extraMethods := t.policy.methodsFor o.fullName }

end StructDecl

namespace ClassDecl

def logTopic : String := "generator::package"

def handWritten : String := "NOT AUTO-GENERATED PROPERTY"

def staticMember (m : ExtraMember) : Member := ⟨m.name, "static " ++ m.type, 0, 0, "", ""⟩

def extraMember (m : ExtraMember) : Member := ⟨m.name, m.type, 0, 0, handWritten, ""⟩

def ownMembers (t : Target) (o : Object) : Except Overflow (List Member) :=
  match t.policy.membersFor? o.fullName with
  | some ms => .ok (ms.map extraMember)
  | none => StructDecl.layout t o (t.graph.inheritedSize o)

def membersOf (t : Target) (o : Object) : Except Overflow (List Member) := do
  let own ← ownMembers t o
  return ((t.policy.staticMembersFor? o.fullName).getD []).map staticMember ++ own

def lookup (policy : Policy) (o : Object) : String :=
  if policy.useStrings then
    if policy.xorStrings then "UObject::FindClass(_xor_(\"" ++ o.fullName ++ "\"))"
    else "UObject::FindClass(\"" ++ o.fullName ++ "\")"
  else "static_cast<UClass*>(UObject::GetGlobalObjects().GetByIndex(" ++ toString o.index ++ "))"

def staticClass (policy : Policy) (o : Object) : ExtraMethod :=
  .inline ("\tstatic UClass* StaticClass()\n\t\x7b\n\t\tstatic auto ptr = " ++ lookup policy o
    ++ ";\n\t\treturn ptr;\n\t\x7d")

/-- The methods for known virtual functions.  A table that cannot be read costs the class these
methods and no more. -/
def virtualMethods (t : Target) (o : Object) :
    Except Overflow (List ExtraMethod × List Log.Entry) :=
  match t.policy.virtualFunctionsFor? o.fullName, t.memory with
  | some functions, some memory =>
    if o.address = 0 then .ok ([], [])
    else match VirtualTable.methods memory Space.defaultWindow VirtualTable.maxSlots o.fullName
        o.address functions with
      | .ok methods => .ok (methods, [])
      | .error (.refused e) => .ok ([], [Log.warning logTopic e.message])
      | .error (.abandoned v) => .error v
  | _, _ => .ok ([], [])

def nameOf (g : Graph) (o : Object) : String := Identifier.sanitize (g.nativeName o)

def ofObject (t : Target) (o : Object) : Except Overflow (ClassDecl × List Log.Entry) := do
  let members ← membersOf t o
  let (virtuals, virtualLog) ← virtualMethods t o
  let (methods, methodLog) := Method.ofChildren t.graph t.policy o.id
  return ({
    id := o.id
    name := o.name
    fullName := o.fullName
    nativeName := nameOf t.graph o
    head := "class " ++ nameOf t.graph o
      ++ StructDecl.baseClause ((t.graph.baseOf? o).map (nameOf t.graph))
    size := t.graph.sizeOf o.id
    inheritedSize := t.graph.inheritedSize o
    members
    extraMethods := t.policy.methodsFor o.fullName ++ staticClass t.policy o :: virtuals
    methods }, virtualLog ++ methodLog)

end ClassDecl

end TypeAtlas
