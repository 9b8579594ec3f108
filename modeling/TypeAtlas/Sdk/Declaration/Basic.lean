import TypeAtlas.Sdk.Method

namespace TypeAtlas

structure EnumDecl where
  name : String
  fullName : String
  values : List String
  deriving DecidableEq, Repr

structure StructDecl where
  id : ObjectId
  name : String
  fullName : String
  nativeName : String
  head : String
  size : Nat
  inheritedSize : Nat
  members : List Member
  extraMethods : List ExtraMethod
  deriving DecidableEq, Repr

structure ClassDecl extends StructDecl where
  methods : List Method
  deriving DecidableEq, Repr

structure PackageDecls where
  id : ObjectId
  name : String
  enums : List EnumDecl
  constants : Table String
  structs : List StructDecl
  classes : List ClassDecl
  deriving DecidableEq, Repr

namespace StructDecl

def hasContent (s : StructDecl) : Bool := !s.members.isEmpty || !s.extraMethods.isEmpty

def ownSize (s : StructDecl) : Nat := s.size - s.inheritedSize

end StructDecl

def ClassDecl.hasContent (c : ClassDecl) : Bool :=
  c.toStructDecl.hasContent || !c.methods.isEmpty

namespace PackageDecls

def empty (id : ObjectId) (name : String) : PackageDecls := ⟨id, name, [], [], [], []⟩

/-- Something is declared that could be missed; constants alone are not. -/
def hasContent (p : PackageDecls) : Bool :=
  p.enums.any (!·.values.isEmpty) || p.structs.any StructDecl.hasContent
    || p.classes.any ClassDecl.hasContent

def methodCount (p : PackageDecls) : Nat := (p.classes.map (·.methods.length)).foldl (· + ·) 0

end PackageDecls

end TypeAtlas
