import TypeAtlas.Sdk.Layout
import TypeAtlas.Policy
import TypeAtlas.Log

namespace TypeAtlas

inductive Role
  | input | output | result
  deriving DecidableEq, Repr

/-- The role that flags give, if they make the property a parameter.  A constant output is passed
in. -/
def Role.ofFlags? (flags : Nat) : Option Role :=
  if Flags.has flags Flags.returnParameter then some .result
  else if Flags.has flags Flags.outParameter then
    some (if Flags.has flags Flags.constParameter then .input else .output)
  else if Flags.has flags Flags.parameter then some .input
  else none

structure Parameter where
  role : Role
  byReference : Bool
  name : String
  type : String
  flags : String
  deriving DecidableEq, Repr

def Parameter.declaration (p : Parameter) : String :=
  if p.byReference then "const " ++ p.type ++ "& " ++ p.name
  else if p.role = .output then p.type ++ "* " ++ p.name
  else p.type ++ " " ++ p.name

structure Method where
  id : ObjectId
  index : Nat
  fullName : String
  name : String
  isNative : Bool
  isStatic : Bool
  flags : String
  parameters : List Parameter
  deriving DecidableEq, Repr

namespace Method

def result? (m : Method) : Option Parameter := m.parameters.find? (·.role = .result)

def withRole (m : Method) (r : Role) : List Parameter := m.parameters.filter (·.role = r)

def signature (m : Method) (owner : Option String) : String :=
  (if m.isStatic && owner.isNone then "static " else "")
    ++ (match m.result? with
      | some r => r.type
      | none => "void")
    ++ " "
    ++ (match owner with
      | some o => o ++ "::"
      | none => "")
    ++ m.name ++ "("
    ++ ", ".intercalate ((m.withRole .input ++ m.withRole .output).map Parameter.declaration)
    ++ ")"

def lookup (m : Method) (policy : Policy) : String :=
  if policy.useStrings then
    if policy.xorStrings then "UObject::FindObject<UFunction>(_xor_(\"" ++ m.fullName ++ "\"))"
    else "UObject::FindObject<UFunction>(\"" ++ m.fullName ++ "\")"
  else "static_cast<UFunction*>(UObject::GetGlobalObjects().GetByIndex(" ++ toString m.index ++ "))"

def field (p : Parameter) : String := "\t\t" ++ Pad.right 30 p.type ++ " " ++ p.name ++ ";\n"

def copyIn (p : Parameter) : String := "\tparams." ++ p.name ++ " = " ++ p.name ++ ";\n"

def copyOut (p : Parameter) : String :=
  "\tif (" ++ p.name ++ " != nullptr)\n" ++ "\t\t*" ++ p.name ++ " = params." ++ p.name ++ ";\n"

def body (m : Method) (policy : Policy) : String :=
  "\x7b\n\tstatic auto fn = " ++ m.lookup policy ++ ";\n\n"
    ++ "\tstruct\n\t\x7b\n" ++ String.join (m.parameters.map field) ++ "\t\x7d params;\n"
    ++ String.join ((m.withRole .input).map copyIn) ++ "\n"
    ++ "\tauto flags = fn->FunctionFlags;\n"
    ++ (if m.isNative then "\tfn->FunctionFlags |= 0x400;\n" else "") ++ "\n"
    ++ (if m.isStatic then
      "\tstatic auto defaultObj = StaticClass()->CreateDefaultObject();\n"
        ++ "\tdefaultObj->ProcessEvent(fn, &params);\n\n"
      else "\tUObject::ProcessEvent(fn, &params);\n\n")
    ++ "\tfn->FunctionFlags = flags;\n"
    ++ (if (m.withRole .output).isEmpty then ""
      else "\n" ++ String.join ((m.withRole .output).map copyOut))
    ++ (match m.result? with
      | some r => "\n\treturn params." ++ r.name ++ ";\n"
      | none => "")
    ++ "\x7d\n"

structure Part where
  entry : Layout.Entry
  info : TypeInfo
  role : Role

def part? (g : Graph) (e : Layout.Entry) : Option Part :=
  let i := g.info e.2
  if e.2.elementSize = 0 || !i.isKnown then none
  else (Role.ofFlags? e.2.flags).map (⟨e, i, ·⟩)

/-- The type a parameter is passed as: a boolean's is the policy's, and an array is passed by its
first element. -/
def Part.type (policy : Policy) (p : Part) : String :=
  (if p.entry.2.isBool then policy.typeFor "bool" else p.info.text)
    ++ (if p.role = .input ∧ p.entry.2.arrayDim > 1 then "*" else "")

def Part.parameter (policy : Policy) (p : Part) (name : String) : Parameter where
  role := p.role
  byReference := p.role = .input && !(p.entry.2.arrayDim > 1) && p.info.byReference
  name := name
  type := p.type policy
  flags := Flags.text Flags.propertyNames p.entry.2.flags

def oneResult (seen : Bool) : List Parameter → List Parameter × List Parameter
  | [] => ([], [])
  | p :: ps =>
    if p.role = .result then
      let (rest, extra) := oneResult true ps
      if seen then ({ p with role := .output } :: rest, p :: extra) else (p :: rest, extra)
    else
      let (rest, extra) := oneResult seen ps
      (p :: rest, extra)

def logTopic : String := "generator::method"

def extraResult (o : Object) (p : Parameter) : Log.Entry :=
  Log.warning logTopic
    (o.fullName ++ ": extra return parameter " ++ p.name ++ " is treated as out parameter")

/-- The parameters that children make, named in their order and sorted by the frame.  Where the
comparison of the properties is not transitive, this is only one of the orders that a sort may
leave. -/
def parametersOf (g : Graph) (policy : Policy) (children : List ObjectId) : List Parameter :=
  let parts := (children.filterMap g.property?).filterMap (part? g)
  let names := NamesTaken.none.all (parts.map fun p => Identifier.sanitize p.entry.1.name)
  let named := parts.zip names
  (named.mergeSort fun a b => Layout.comesBefore a.1.entry b.1.entry).map
    fun (p, name) => p.parameter policy name

def ofFunction? (g : Graph) (policy : Policy) (o : Object) : Option (Method × List Log.Entry) :=
  match o.function? with
  | none => none
  | some f =>
    let (parameters, extra) := oneResult false (parametersOf g policy f.children)
    some ({
      id := o.id
      index := o.index
      fullName := o.fullName
      name := Identifier.sanitize o.name
      isNative := Flags.has f.flags Flags.native
      isStatic := Flags.has f.flags Flags.static
      flags := Flags.text Flags.functionNames f.flags
      parameters }, extra.map (extraResult o))

def distinctFunctions (seen : List String) : List Object → List Object
  | [] => []
  | o :: os =>
    if o.function?.isNone || seen.contains o.fullName then distinctFunctions seen os
    else o :: distinctFunctions (o.fullName :: seen) os

def ofChildren (g : Graph) (policy : Policy) (owner : ObjectId) : List Method × List Log.Entry :=
  match g.get? owner with
  | none => ([], [])
  | some o =>
    let built := (distinctFunctions [] (o.children.filterMap g.get?)).filterMap
      (ofFunction? g policy)
    (built.map (·.1), (built.map (·.2)).flatten)

end Method

end TypeAtlas
