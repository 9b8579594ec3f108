import TypeAtlas.Object.Property
import TypeAtlas.Memory.Address

namespace TypeAtlas

structure Aggregate where
  super : Option ObjectId
  /-- Total size in bytes, the inherited part included. -/
  size : Nat
  children : List ObjectId
  deriving DecidableEq, Repr

structure Function where
  flags : Nat
  children : List ObjectId
  deriving DecidableEq, Repr

inductive ObjectKind
  | package
  | enumeration (names : List String)
  | constant (value : String)
  | scriptStruct (a : Aggregate)
  | classType (a : Aggregate)
  | function (f : Function)
  | property (p : Property)
  deriving DecidableEq, Repr

inductive KindTag
  | package | enumeration | constant | scriptStruct | classType | function | property
  deriving DecidableEq, Repr

def ObjectKind.tag : ObjectKind → KindTag
  | .package => .package
  | .enumeration _ => .enumeration
  | .constant _ => .constant
  | .scriptStruct _ => .scriptStruct
  | .classType _ => .classType
  | .function _ => .function
  | .property _ => .property

structure Object where
  id : ObjectId
  index : Nat
  name : String
  /-- The native name with its mark (UObject, FVector), where it is known. -/
  nativeName : Option String
  fullName : String
  outer : Option ObjectId
  package : Option ObjectId
  address : Address
  kind : ObjectKind
  deriving DecidableEq, Repr

def occursIn (part : List Char) : List Char → Bool
  | [] => part.isEmpty
  | c :: cs => part.isPrefixOf (c :: cs) || occursIn part cs

def placeholderMarks : List String := ["Default__", "<uninitialized>", "PLACEHOLDER-CLASS"]

def isPlaceholderName (name : String) : Bool :=
  placeholderMarks.any fun mark => occursIn mark.toList name.toList

namespace Object

def isPlaceholder (o : Object) : Bool := isPlaceholderName o.name

def isPackage (o : Object) : Bool := o.kind.tag = .package

def aggregate? (o : Object) : Option Aggregate :=
  match o.kind with
  | .scriptStruct a => some a
  | .classType a => some a
  | _ => none

def property? (o : Object) : Option Property :=
  match o.kind with
  | .property p => some p
  | _ => none

def function? (o : Object) : Option Function :=
  match o.kind with
  | .function f => some f
  | _ => none

def children (o : Object) : List ObjectId :=
  match o.kind with
  | .scriptStruct a => a.children
  | .classType a => a.children
  | .function f => f.children
  | _ => []

end Object

end TypeAtlas
