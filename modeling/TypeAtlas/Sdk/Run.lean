import TypeAtlas.Sdk.Resolution

namespace TypeAtlas

namespace Graph

def packages (g : Graph) : List Object := g.objects.filter fun o => o.isPackage && !o.isPlaceholder

def join (package id : ObjectId) : List (ObjectId × List ObjectId) → List (ObjectId × List ObjectId)
  | [] => [(package, [id])]
  | (p, ids) :: rest =>
    if p = package then (p, ids ++ [id]) :: rest else (p, ids) :: join package id rest

def grouped (g : Graph) : List (ObjectId × List ObjectId) :=
  g.objects.foldl (fun groups o =>
    match g.packageOf? o.id with
    | some p => join p o.id groups
    | none => groups) []

end Graph

structure Built where
  decls : PackageDecls
  isSaved : Bool
  deriving DecidableEq, Repr

structure Run where
  built : List Built
  shared : Resolution
  log : List Log.Entry

namespace Run

def logTopic : String := "generator::engine"

def saved (r : Run) : List PackageDecls := (r.built.filter (·.isSaved)).map Built.decls

def skipped (r : Run) : List String := (r.built.filter (!·.isSaved)).map (·.decls.name)

def structCount (r : Run) : Nat := (r.saved.map (·.structs.length)).foldl (· + ·) 0

def classCount (r : Run) : Nat := (r.saved.map (·.classes.length)).foldl (· + ·) 0

def cycles (r : Run) : List Edge := r.shared.order.cycles

/-- The saved packages as they are written: those without a place come first, the others follow in
the order of their places. -/
def ordered (r : Run) : List PackageDecls :=
  let place (p : PackageDecls) : Option Nat := r.shared.order.position? p.id
  r.saved.filter (fun p => (place p).isNone)
    ++ (r.saved.filter fun p => (place p).isSome).mergeSort fun p q =>
      (place p).getD 0 ≤ (place q).getD 0

def skipNote (name : String) : Log.Entry := Log.note logTopic ("skip empty package: " ++ name)

def cycleNote (cycles : List Edge) : List Log.Entry :=
  if cycles.isEmpty then []
  else [Log.warning logTopic
    (toString cycles.length ++ " package cycle(s) found, package order is best effort")]

def build (t : Target) (shared : Resolution) (package : Object) (objects : List ObjectId) :
    Except Overflow (Built × Resolution × List Log.Entry) :=
  match (Build.addAll t package.id objects).run.run (.start shared package) with
  | (.error e, _) => .error e
  | (.ok (), s) =>
    let isSaved := s.isSaved t.policy
    .ok (⟨s.decls, isSaved⟩, s.shared,
      s.log ++ if isSaved then [] else [skipNote package.name])

def buildAll (t : Target) (groups : List (ObjectId × List ObjectId)) :
    Resolution → List Object → Except Overflow Run
  | shared, [] => .ok ⟨[], shared, cycleNote shared.order.cycles⟩
  | shared, p :: ps => do
    let (built, shared, entries) ← build t shared p ((groups.lookup p.id).getD [])
    let rest ← buildAll t groups shared ps
    return ⟨built :: rest.built, rest.shared, entries ++ rest.log⟩

/-- A run over all packages that starts from what earlier runs have left. -/
def generate (t : Target) (shared : Resolution) : Except Overflow Run :=
  buildAll t t.graph.grouped shared t.graph.packages

end Run

end TypeAtlas
