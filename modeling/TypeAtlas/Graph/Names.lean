import TypeAtlas.Graph.Basic
import TypeAtlas.Text

namespace TypeAtlas

namespace Identifier

def isLetter (c : Char) : Bool := ('A' ≤ c && c ≤ 'Z') || ('a' ≤ c && c ≤ 'z')

def isDigit (c : Char) : Bool := '0' ≤ c && c ≤ '9'

def isPart (c : Char) : Bool := isLetter c || isDigit c || c == '_'

/-- An underscore stands for what may not stand, and before a leading digit. -/
def sanitizeChars (cs : List Char) : List Char :=
  match cs.map fun c => if isPart c then c else '_' with
  | [] => []
  | c :: rest => if isDigit c then '_' :: c :: rest else c :: rest

def sanitize (raw : String) : String := String.ofList (sanitizeChars raw.toList)

end Identifier

namespace Graph

def isAmbiguous (g : Graph) (o : Object) : Bool :=
  1 < (g.objects.filter fun p => p.kind.tag = o.kind.tag && p.name == o.name).length

def uniqueName (g : Graph) (o : Object) : String :=
  let own := Identifier.sanitize (g.nativeName o)
  if g.isAmbiguous o then
    match o.outer.bind g.get? with
    | some outer => Identifier.sanitize outer.name ++ "_" ++ own
    | none => own
  else own

end Graph

structure NamesTaken where
  names : List String
  deriving DecidableEq, Repr

namespace NamesTaken

def none : NamesTaken := ⟨[]⟩

/-- A name as it is the first time, and with the number of its earlier uses after that. -/
def next (t : NamesTaken) (name : String) : String :=
  match t.names.count name with
  | 0 => name
  | n => name ++ Pad.zeros 2 n

def take (t : NamesTaken) (name : String) : NamesTaken := ⟨name :: t.names⟩

def all (t : NamesTaken) : List String → List String
  | [] => []
  | name :: names => t.next name :: (t.take name).all names

end NamesTaken

end TypeAtlas
