import TypeAtlas.Graph.Names

namespace TypeAtlas

inductive TypeClass
  | primitive | customStruct | container | unknown
  deriving DecidableEq, Repr

structure TypeInfo where
  type : TypeClass
  size : Nat
  text : String
  byReference : Bool
  deriving DecidableEq, Repr

namespace TypeInfo

def isKnown (i : TypeInfo) : Bool := i.type ≠ .unknown

def unknown : TypeInfo := ⟨.unknown, 0, "", false⟩

def primitive (size : Nat) (text : String) : TypeInfo := ⟨.primitive, size, text, false⟩

end TypeInfo

def PlainType.info : PlainType → TypeInfo
  | .int8 => .primitive 1 "int8_t"
  | .int16 => .primitive 2 "int16_t"
  | .int32 => .primitive 4 "int"
  | .int64 => .primitive 8 "int64_t"
  | .uint16 => .primitive 2 "uint16_t"
  | .uint32 => .primitive 4 "uint32_t"
  | .uint64 => .primitive 8 "uint64_t"
  | .float => .primitive 4 "float"
  | .double => .primitive 8 "double"
  | .name => .primitive 8 "struct FName"
  | .string => ⟨.primitive, 0x10, "struct FString", true⟩
  | .text => ⟨.primitive, 0x18, "struct FText", true⟩
  | .delegate => .primitive 0x14 "struct FScriptDelegate"
  | .multicastDelegate => .primitive 0x10 "struct FScriptMulticastDelegate"

namespace Reference

def size : Reference → Nat
  | .object => 8
  | .metaclass => 8
  | .interface => 0x10
  | .weak => 8
  | .lazy => 0x1C
  | .asset => 0x20

def defaultClass : Reference → String
  | .metaclass => "UClass"
  | .interface => "UInterface"
  | _ => "UObject"

def text : Reference → String → String
  | .object, c => "class " ++ c ++ "*"
  | .metaclass, c => "class " ++ c ++ "*"
  | .interface, c => "TScriptInterface<class " ++ c ++ ">"
  | .weak, c => "TWeakObjectPtr<class " ++ c ++ ">"
  | .lazy, c => "TLazyObjectPtr<class " ++ c ++ ">"
  | .asset, c => "TAssetPtr<class " ++ c ++ ">"

end Reference

namespace Graph

def containerInfo (size : Nat) (head : String) (elements : List TypeInfo) : TypeInfo :=
  if elements.all TypeInfo.isKnown then
    ⟨.container, size, head ++ "<" ++ ", ".intercalate (elements.map TypeInfo.text) ++ ">", false⟩
  else .unknown

/-- The info of a property whose containers nest no deeper than `depth`; what nests deeper is left
unknown. -/
def infoWithin (g : Graph) (depth : Nat) (p : Property) : TypeInfo :=
  match p.kind with
  | .plain t => t.info
  | .byte e =>
    match e.bind g.get? with
    | some o => .primitive 1 ("TEnumAsByte<" ++ g.uniqueName o ++ ">")
    | none => .primitive 1 "unsigned char"
  | .bool m => .primitive 1 (if m = PropertyKind.wholeMask then "bool" else "unsigned char")
  | .reference how target =>
    let name := match target.bind g.get? with
      | some o => Identifier.sanitize (g.nativeName o)
      | none => how.defaultClass
    .primitive how.size (how.text name)
  | .struct id =>
    match g.get? id with
    | some o =>
      match o.aggregate? with
      | some a => ⟨.customStruct, a.size, "struct " ++ g.uniqueName o, true⟩
      | none => .unknown
    | none => .unknown
  | .array i => containerInfo 0x10 "TArray" [element i]
  | .set i => containerInfo 0x50 "TSet" [element i]
  | .map k v => containerInfo 0x50 "TMap" [element k, element v]
  | .unknown _ => .unknown
where
  element (id : ObjectId) : TypeInfo :=
    match depth, g.property? id with
    | depth + 1, some (_, q) => g.infoWithin depth q
    | _, _ => .unknown

/-- A chain of containers that does not come round is no longer than the graph has objects, and so
it is followed to its end.  One that comes round has no end: who follows it never comes back.  Its
info is unknown here, where the program has no answer at all, and what is said of layouts and
methods is said of the program where it comes back. -/
def info (g : Graph) (p : Property) : TypeInfo := g.infoWithin (g.objects.length + 1) p

end Graph

end TypeAtlas
