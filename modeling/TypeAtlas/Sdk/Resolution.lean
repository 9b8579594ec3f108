import TypeAtlas.Sdk.Declaration.OfObject
import TypeAtlas.Sdk.Order
import TypeAtlas.Sdk.Progress

/-! Declaring the types of a package: each once, and after those that it inherits from or holds by
value, as far as they are of the same package.  Those of other packages have their packages come
first. -/

namespace TypeAtlas

structure Resolution where
  progress : Progress
  order : PackageOrder
  deriving DecidableEq, Repr

def Resolution.start : Resolution := ⟨.empty, .empty⟩

structure Session where
  shared : Resolution
  decls : PackageDecls
  log : List Log.Entry

/-- A step of the work.  One that overflows leaves what was done before. -/
abbrev Build := ExceptT Overflow (StateM Session)

namespace Build

def update (f : Session → Session) : Build Unit := fun s => (.ok (), f s)

def setProgress (p : Progress) (s : Session) : Session := { s with shared.progress := p }

def note (entries : List Log.Entry) : Build Unit := update fun s => { s with log := s.log ++ entries }

def see (id : ObjectId) : Build Unit := update fun s => setProgress (s.shared.progress.see id) s

def enter (id : ObjectId) : Build Bool := fun s =>
  match s.shared.progress.enter? id with
  | some p => (.ok true, setProgress p s)
  | none => (.ok false, s)

def finish (id : ObjectId) : Build Unit :=
  update fun s => setProgress (s.shared.progress.finish id) s

def ensure (package : ObjectId) : Build Unit :=
  update fun s => { s with shared.order := s.shared.order.ensure package }

def packageName (g : Graph) (package : ObjectId) : String :=
  match g.get? package with
  | some o => o.name
  | none => "?"

def cycleWarning (g : Graph) (referencer dependency : ObjectId) : Log.Entry :=
  Log.warning ClassDecl.logTopic
    ("package cycle: " ++ packageName g referencer ++ " and " ++ packageName g dependency
      ++ " depend on each other, order is best effort")

def require (g : Graph) (dependency referencer : ObjectId) : Build Unit := fun s =>
  let (placement, order) := s.shared.order.require dependency referencer
  let warnings := if placement = .cycle then [cycleWarning g referencer dependency] else []
  (.ok (), { s with shared.order := order, log := s.log ++ warnings })

def addEnum (e : EnumDecl) : Build Unit :=
  update fun s => { s with decls.enums := s.decls.enums ++ [e] }

def addConstant (name value : String) : Build Unit :=
  update fun s => { s with decls.constants := Table.insert name value s.decls.constants }

def addStruct (d : StructDecl) : Build Unit :=
  update fun s => { s with decls.structs := s.decls.structs ++ [d] }

def addClass (d : ClassDecl) : Build Unit :=
  update fun s => { s with decls.classes := s.decls.classes ++ [d] }

end Build

namespace Graph

def structOf? (p : Property) : Option ObjectId :=
  match p.kind with
  | .struct id => some id
  | _ => none

def heldStructs (g : Graph) (p : Property) : List ObjectId :=
  match structOf? p with
  | some id => [id]
  | none => (p.kind.elements.filterMap g.property?).filterMap fun e => structOf? e.2

def prerequisites (g : Graph) (o : Object) : List ObjectId :=
  ((g.superOf? o.id).filter (· ≠ o.id)).toList
    ++ (o.children.filterMap g.property?).flatMap fun e => g.heldStructs e.2

def declarable? (g : Graph) (id : ObjectId) : Option Object :=
  (g.get? id).filter fun o => o.aggregate?.isSome && !o.isPlaceholder

end Graph

namespace Build

def declare (t : Target) (o : Object) : Build Unit :=
  match o.kind with
  | .scriptStruct _ => do addStruct (← StructDecl.ofObject t o)
  | .classType _ => do
    let (d, entries) ← ClassDecl.ofObject t o
    addClass d
    note entries
  | _ => pure ()

def resolveWithin (t : Target) (package : ObjectId) : Nat → ObjectId → Build Unit
  | 0, _ => pure ()
  | depth + 1, id =>
    match t.graph.declarable? id with
    | none => pure ()
    | some o => do
      see id
      match t.graph.packageOf? id with
      | none => pure ()
      | some owner =>
        ensure package
        if owner ≠ package then require t.graph owner package
        else if ← enter id then
          (t.graph.prerequisites o).forM (resolveWithin t package depth)
          declare t o
          finish id

/-- Every step deeper has entered one more type, so that as many steps as there are objects, and
one more, go as deep as can be. -/
def resolve (t : Target) (package id : ObjectId) : Build Unit :=
  resolveWithin t package (t.graph.objects.length + 1) id

def add (t : Target) (package : ObjectId) (o : Object) : Build Unit :=
  match o.kind with
  | .enumeration names =>
    match EnumDecl.ofObject? t.graph o names with
    | some e => addEnum e
    | none => pure ()
  | .constant value =>
    match constantName? o with
    | some name => addConstant name value
    | none => pure ()
  | .scriptStruct _ => resolve t package o.id
  | .classType _ => resolve t package o.id
  | _ => pure ()

def addAll (t : Target) (package : ObjectId) (ids : List ObjectId) : Build Unit :=
  (ids.filterMap t.graph.get?).forM (add t package)

def process (t : Target) (package : ObjectId) : Build Unit :=
  addAll t package
    ((t.graph.objects.map Object.id).filter fun id => t.graph.packageOf? id = some package)

end Build

namespace Session

def start (shared : Resolution) (package : Object) : Session :=
  ⟨shared, .empty package.id package.name, []⟩

def isSaved (policy : Policy) (s : Session) : Bool := policy.emptyFiles || s.decls.hasContent

end Session

end TypeAtlas
