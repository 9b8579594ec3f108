import TypeAtlas.Sdk.Run
import TypeAtlas.Sdk.Declaration.Source
import TypeAtlas.Json.Printer
import TypeAtlas.Host

namespace TypeAtlas

namespace Bundle

def directory : String := "SDK"

def inside (directory : String) : String :=
  if directory.isEmpty || directory.toList.getLast? = some '/' then directory else directory ++ "/"

/-- The path to a name in a directory; a name that begins with a slash leads elsewhere by itself. -/
def join (directory name : String) : String :=
  if Disk.isAbsolute name then name else inside directory ++ name

def packageFiles (policy : Policy) (p : PackageDecls) : List (String × String) :=
  FileKind.all.map fun kind =>
    (join directory (kind.fileName policy p.name), p.text policy kind)

def entry (policy : Policy) (p : PackageDecls) : Json :=
  .record [
    ("name", .string p.name), ("enums", .natural p.enums.length),
    ("constants", .natural p.constants.length), ("script_structs", .natural p.structs.length),
    ("classes", .natural p.classes.length), ("methods", .natural p.methodCount),
    ("files", .list (FileKind.all.map fun kind =>
      .string (directory ++ "/" ++ kind.fileName policy p.name)))]

def nameOf (g : Graph) (id : ObjectId) : String :=
  match g.get? id with
  | some o => o.name
  | none => "#" ++ toString id

def cycleEntry (g : Graph) (e : Edge) : Json :=
  .record [
    ("referencer", .string (nameOf g e.referencer)), ("dependency", .string (nameOf g e.dependency))]

def manifest (t : Target) (r : Run) : Json :=
  .record [
    ("game", .string t.policy.shortName),
    ("packages", .list (r.ordered.map (entry t.policy))),
    ("skipped", .list (r.skipped.map .string)),
    ("cycles", .list (r.cycles.map (cycleEntry t.graph)))]

def files (t : Target) (r : Run) (withManifest : Bool) : List (String × String) :=
  r.ordered.flatMap (packageFiles t.policy)
    ++ ("SDK.hpp", Source.umbrella t.policy r.ordered)
    :: if withManifest then [("manifest.json", (manifest t r).pretty)] else []

def size (files : List (String × String)) : Nat := (files.map (·.2.utf8ByteSize)).foldl (· + ·) 0

def logTopic : String := "output::writer"

def writtenNote (files : List (String × String)) (root : String) : Log.Entry :=
  Log.note logTopic
    ("Wrote " ++ toString files.length ++ " files (" ++ toString (size files) ++ " bytes) to " ++ root)

variable {m : Type → Type} [Monad m]

def writeAll (host : Host m) (root : String) : List (String × String) → m Bool
  | [] => pure true
  | (name, text) :: rest => do
    if ← host.write (join root name) text then writeAll host root rest else return false

def write (host : Host m) (root : String) (files : List (String × String)) : m Bool := do
  if ← host.makeDirectory (join root directory) then writeAll host root files
  else return false

end Bundle

end TypeAtlas
