import TypeAtlas.Pattern

namespace TypeAtlas

structure Host (m : Type → Type) where
  read : String → m (Option Bytes)
  /-- Makes a directory and those that lead to it; the answer is whether it is there now. -/
  makeDirectory : String → m Bool
  write : String → String → m Bool
  print : String → m Unit
  report : String → m Unit
  /-- Hundredths of a second since the program began. -/
  elapsed : m Nat

def Bytes.text? (bs : Bytes) : Option String := String.fromUTF8? ⟨bs.toArray⟩

def Bytes.ofText (s : String) : Bytes := s.toUTF8.toList

/-- Where a file or directory is: its name and those of the directories around it, innermost
first. -/
abbrev Place := List String

inductive Node
  | directory
  | file (contents : Bytes)
  deriving DecidableEq

/-- Places are counted from the root.  `home` is the working directory. -/
structure Disk where
  nodes : List (Place × Node)
  home : Place
  deriving DecidableEq

namespace Disk

def empty : Disk := ⟨[], []⟩

def node? (d : Disk) : Place → Option Node
  | [] => some .directory
  | p => d.nodes.lookup p

def put (d : Disk) (p : Place) (n : Node) : Disk :=
  { d with nodes := (p, n) :: d.nodes.filter (·.1 ≠ p) }

def splitSlash : List Char → List (List Char)
  | [] => [[]]
  | c :: cs =>
    if c = '/' then [] :: splitSlash cs
    else match splitSlash cs with
      | [] => [[c]]
      | p :: ps => (c :: p) :: ps

def nameLimit : Nat := 255

def pathLimit : Nat := 4095

def isName (name : String) : Bool :=
  name.utf8ByteSize ≤ nameLimit && !name.toList.contains '\x00'

def names? (path : String) : Option (List String) :=
  if path.isEmpty || pathLimit < path.utf8ByteSize then none
  else some ((splitSlash path.toList).map String.ofList)

def isAbsolute (path : String) : Bool := path.toList.head? = some '/'

def start (d : Disk) (path : String) : Place := if isAbsolute path then [] else d.home

def enter? (d : Disk) (p : Place) (name : String) : Option Place :=
  if d.node? p ≠ some .directory then none
  else if name = "" ∨ name = "." then some p
  else if name = ".." then some p.tail
  else if isName name then some (name :: p)
  else none

def locate? (d : Disk) (path : String) : Option Place := do
  (← names? path).foldlM d.enter? (d.start path)

def read? (d : Disk) (path : String) : Option Bytes := do
  match ← d.node? (← d.locate? path) with
  | .file contents => some contents
  | .directory => none

def makeStep (s : Disk × Place) (name : String) : Option (Disk × Place) := do
  let (d, p) := s
  let p ← d.enter? p name
  match d.node? p with
  | some .directory => some (d, p)
  | some (.file _) => none
  | none => some (d.put p .directory, p)

def makeDirectory? (d : Disk) (path : String) : Option Disk := do
  return (← (← names? path).foldlM makeStep (d, d.start path)).1

def write? (d : Disk) (path : String) (contents : Bytes) : Option Disk := do
  let p ← d.locate? path
  if d.node? p = some .directory then none else some (d.put p (.file contents))

def files (d : Disk) : List (String × Bytes) :=
  d.nodes.filterMap fun (p, n) =>
    match n with
    | .file contents => some ("/".intercalate p.reverse, contents)
    | .directory => none

end Disk

/-- A machine in memory, with all that was printed on it.  No time passes. -/
structure Machine where
  disk : Disk
  output : String
  reports : String

namespace Machine

def ofDisk (d : Disk) : Machine := ⟨d, "", ""⟩

def change (d : Option Disk) : StateM Machine Bool := fun s =>
  match d with
  | some disk => (true, { s with disk })
  | none => (false, s)

def host : Host (StateM Machine) where
  read path := do return (← get).disk.read? path
  makeDirectory path := do change ((← get).disk.makeDirectory? path)
  write path text := do change ((← get).disk.write? path (Bytes.ofText text))
  print text := modify fun s => { s with output := s.output ++ text }
  report text := modify fun s => { s with reports := s.reports ++ text }
  elapsed := pure 0

end Machine

end TypeAtlas
