import TypeAtlas.Graph.Basic
import TypeAtlas.Memory.Space
import TypeAtlas.Json.Decode
import TypeAtlas.Json.Reader

namespace TypeAtlas

open Json (Decoder Fault Fields)

structure Snapshot where
  objects : List Object
  memory : List Block
  deriving DecidableEq

namespace PlainType

def tag : PlainType → String
  | .int8 => "int8"
  | .int16 => "int16"
  | .int32 => "int"
  | .int64 => "int64"
  | .uint16 => "uint16"
  | .uint32 => "uint32"
  | .uint64 => "uint64"
  | .float => "float"
  | .double => "double"
  | .name => "name"
  | .string => "str"
  | .text => "text"
  | .delegate => "delegate"
  | .multicastDelegate => "multicast_delegate"

end PlainType

namespace Reference

def name : Reference → String
  | .object => "object"
  | .metaclass => "class"
  | .interface => "interface"
  | .weak => "weak_object"
  | .lazy => "lazy_object"
  | .asset => "asset_object"

def key : Reference → String
  | .metaclass => "meta_class"
  | .interface => "interface_class"
  | _ => "class"

end Reference

namespace PropertyKind

def encode : PropertyKind → Json
  | .plain t => .record [("type", .string t.tag)]
  | .byte e => .record [("type", .string "byte"), ("enum_type", .ofOption .natural e)]
  | .bool m => .record [("type", .string "bool"), ("field_mask", .natural m)]
  | .reference how target =>
    .record [("type", .string how.name), (how.key, .ofOption .natural target)]
  | .struct id => .record [("type", .string "struct"), ("script_struct", .natural id)]
  | .array i => .record [("type", .string "array"), ("inner", .natural i)]
  | .set i => .record [("type", .string "set"), ("element", .natural i)]
  | .map k v => .record [("type", .string "map"), ("key", .natural k), ("value", .natural v)]
  | .unknown n => .record [("type", .string "unknown"), ("class_name", .string n)]

def plainVariant (t : PlainType) : Decoder.Variant PropertyKind :=
  (t.tag, .bare (.plain t))

def referenceVariant (how : Reference) : Decoder.Variant PropertyKind :=
  (how.name, fun v =>
    match (Fields.default how.key (.option .half) none .done).decode v with
    | .ok (target, ()) => .ok (.reference how target)
    | .error e => .error e)

def variants : List (Decoder.Variant PropertyKind) :=
  [plainVariant .int8, plainVariant .int16, plainVariant .int32, plainVariant .int64,
   plainVariant .uint16, plainVariant .uint32, plainVariant .uint64, plainVariant .float,
   plainVariant .double,
   ("byte", fun v =>
    match (Fields.default "enum_type" (.option .half) none .done).decode v with
    | .ok (e, ()) => .ok (.byte e)
    | .error e => .error e),
   ("bool", fun v =>
    match (Fields.default "field_mask" .byte wholeMask .done).decode v with
    | .ok (m, ()) => .ok (.bool m)
    | .error e => .error e),
   plainVariant .name, plainVariant .string, plainVariant .text,
   referenceVariant .object, referenceVariant .metaclass, referenceVariant .interface,
   referenceVariant .weak, referenceVariant .lazy, referenceVariant .asset,
   plainVariant .delegate, plainVariant .multicastDelegate,
   ("struct", fun v =>
    match (Fields.need "script_struct" .half .done).decode v with
    | .ok (id, ()) => .ok (.struct id)
    | .error e => .error e),
   ("array", fun v =>
    match (Fields.need "inner" .half .done).decode v with
    | .ok (i, ()) => .ok (.array i)
    | .error e => .error e),
   ("set", fun v =>
    match (Fields.need "element" .half .done).decode v with
    | .ok (i, ()) => .ok (.set i)
    | .error e => .error e),
   ("map", fun v =>
    match (Fields.need "key" .half (.need "value" .half .done)).decode v with
    | .ok (k, w, ()) => .ok (.map k w)
    | .error e => .error e),
   ("unknown", fun v =>
    match (Fields.default "class_name" .string "" .done).decode v with
    | .ok (n, ()) => .ok (.unknown n)
    | .error e => .error e)]

end PropertyKind

namespace Property

def kindRoom : Nat := 124

def encode (p : Property) : List (String × Json) :=
  [("offset", .natural p.offset), ("element_size", .natural p.elementSize),
   ("array_dim", .natural p.arrayDim), ("flags", .natural p.flags), ("kind", p.kind.encode)]

/-- Inside a document read whole, a number may stand for the variant of the type. -/
def decode (nested : Bool) : Decoder Property := fun v =>
  match (Fields.need "offset" .word <| .need "element_size" .word <| .default "array_dim" .word 1
    <| .default "flags" .word 0 <| .need "kind" (.tagged nested kindRoom PropertyKind.variants)
    .done).decode v with
  | .ok (offset, elementSize, arrayDim, flags, kind, ()) =>
    .ok ⟨offset, elementSize, arrayDim, flags, kind⟩
  | .error e => .error e

end Property

namespace Aggregate

def encode (a : Aggregate) : List (String × Json) :=
  [("super_struct", .ofOption .natural a.super), ("property_size", .natural a.size),
   ("children", .list (a.children.map .natural))]

def decode : Decoder Aggregate := fun v =>
  match (Fields.default "super_struct" (.option .half) none <| .need "property_size" .word
    <| .default "children" (.list .half) [] .done).decode v with
  | .ok (super, size, children, ()) => .ok ⟨super, size, children⟩
  | .error e => .error e

end Aggregate

namespace Function

def encode (f : Function) : List (String × Json) :=
  [("flags", .natural f.flags), ("children", .list (f.children.map .natural))]

def decode : Decoder Function := fun v =>
  match (Fields.default "flags" .half 0 <| .default "children" (.list .half) [] .done).decode v with
  | .ok (flags, children, ()) => .ok ⟨flags, children⟩
  | .error e => .error e

end Function

namespace ObjectKind

def encode : ObjectKind → Json
  | .package => .record [("type", .string "package")]
  | .enumeration names =>
    .record [("type", .string "enum"), ("names", .list (names.map .string))]
  | .constant value => .record [("type", .string "const"), ("value", .string value)]
  | .scriptStruct a => .record (("type", .string "script_struct") :: a.encode)
  | .classType a => .record (("type", .string "class") :: a.encode)
  | .function f => .record (("type", .string "function") :: f.encode)
  | .property p => .record (("type", .string "property") :: p.encode)

def variants : List (Decoder.Variant ObjectKind) :=
  [("package", .bare .package),
   ("enum", fun v =>
    match (Fields.need "names" (.list .string) .done).decode v with
    | .ok (names, ()) => .ok (.enumeration names)
    | .error e => .error e),
   ("const", fun v =>
    match (Fields.need "value" .string .done).decode v with
    | .ok (value, ()) => .ok (.constant value)
    | .error e => .error e),
   ("script_struct", fun v => (Aggregate.decode v).map .scriptStruct),
   ("class", fun v => (Aggregate.decode v).map .classType),
   ("function", fun v => (Function.decode v).map .function),
   ("property", fun v => (Property.decode true v).map .property)]

def room : Nat := 124

end ObjectKind

namespace Object

def encode (o : Object) : Json :=
  .record [
    ("id", .natural o.id), ("index", .natural o.index), ("name", .string o.name),
    ("cpp_name", .ofOption .string o.nativeName), ("full_name", .string o.fullName),
    ("outer", .ofOption .natural o.outer), ("package", .ofOption .natural o.package),
    ("address", .natural o.address), ("kind", o.kind.encode)]

def decode : Decoder Object := fun v =>
  match (Fields.need "id" .half <| .default "index" .half 0 <| .need "name" .string
    <| .default "cpp_name" (.option .string) none <| .need "full_name" .string
    <| .default "outer" (.option .half) none <| .default "package" (.option .half) none
    <| .default "address" .word 0
    <| .need "kind" (.tagged false ObjectKind.room ObjectKind.variants) .done).decode v with
  | .ok (id, index, name, nativeName, fullName, outer, package, address, kind, ()) =>
    .ok ⟨id, index, name, nativeName, fullName, outer, package, address, kind⟩
  | .error e => .error e

end Object

namespace Block

def encode (b : Block) : Json :=
  .record [
    ("start", .natural b.start), ("protection", .string b.protection.name),
    ("name", .string b.name), ("bytes", .list (b.bytes.map fun c => .natural c.toNat))]

def decode : Decoder Block := fun v =>
  match (Fields.need "start" .word <| .need "protection" (.variant Protection.ofName?)
    <| .default "name" .string "" <| .need "bytes" (.list .byte) .done).decode v with
  | .ok (start, protection, name, bytes, ()) =>
    .ok ⟨start, protection, name, bytes.map UInt8.ofNat⟩
  | .error e => .error e

end Block

namespace Snapshot

def encode (s : Snapshot) : Json :=
  .record [
    ("objects", .list (s.objects.map Object.encode)),
    ("memory", .list (s.memory.map Block.encode))]

def decode : Decoder Snapshot := fun v =>
  match (Fields.need "objects" (.list Object.decode) <| .default "memory" (.list Block.decode) []
    .done).decode v with
  | .ok (objects, memory, ()) => .ok ⟨objects, memory⟩
  | .error e => .error e

inductive Error
  | unreadableFile
  | json (fault : Fault)
  | duplicateId (id : ObjectId)
  | memory (error : Memory.Error)
  deriving DecidableEq, Repr

def Error.message? : Error → Option String
  | .unreadableFile => none
  | .json _ => none
  | .duplicateId id => some s!"Object id #{id} appears more than once"
  | .memory e => e.message?.map ("Snapshot memory error: " ++ ·)

def ofDocument (d : Json.Document) : Except Error Snapshot :=
  match Decoder.document decode d.value d.trailing with
  | .ok s => .ok s
  | .error f => .error (.json f)

def parts (s : Snapshot) : Except Error (Graph × Space) :=
  match Graph.ofObjects s.objects with
  | .error id => .error (.duplicateId id)
  | .ok graph =>
    match Space.ofBlocks s.memory with
    | .error e => .error (.memory e)
    | .ok memory => .ok (graph, memory)

end Snapshot

end TypeAtlas
