import TypeAtlas.CommandLine.Options
import TypeAtlas.Memory.Image
import TypeAtlas.Sdk.Bundle
import TypeAtlas.Snapshot

namespace TypeAtlas.CommandLine

def name : String := "sdk-layout-generator"

def versionText : String := name ++ " 1.0.0\n"

def usageLine : String := "Usage: " ++ name ++ " [OPTIONS]\n"

def helpText : String :=
  "C++ SDK generator for reflected object runtimes\n\n" ++ usageLine ++ "\nOptions:\n"
    ++ "  -s, --snapshot <SNAPSHOT>      Reflection snapshot (JSON)\n"
    ++ "  -p, --policy <POLICY>          Target policy (JSON)\n"
    ++ "  -o, --output <OUTPUT>          \n"
    ++ "      --image <IMAGE>            Module image mapped over the snapshot memory\n"
    ++ "      --image-base <IMAGE_BASE>  Load address of the module image, hex\n"
    ++ "  -j, --threads <THREADS>        \n"
    ++ "      --log-level <LOG_LEVEL>    [default: info]\n"
    ++ "  -v, --verbose                  \n"
    ++ "      --no-progress              \n"
    ++ "      --no-manifest              \n"
    ++ "  -q, --quiet                    \n"
    ++ "  -c, --config <CONFIG>          Run configuration (JSON); command line flags take precedence\n"
    ++ "  -h, --help                     Print help\n"
    ++ "  -V, --version                  Print version\n"

inductive Error
  | unreadableConfig (path : String)
  | badConfig (path : String)
  | settings (reason : Settings.Invalid)
  | snapshot (path : String) (error : Snapshot.Error)
  | parts (error : Snapshot.Error)
  | policy (path : String) (error : Policy.Error)
  | image (path : String) (error : Memory.Error)
  | mapping (error : Memory.Error)
  | output (root : String)
  deriving DecidableEq, Repr

namespace Error

def unreadable : String := "IO error: the file cannot be read"

def malformed (what : String) : String := what ++ " parse error: the text is not as it should be"

def memoryText (e : Memory.Error) : String :=
  match e with
  | .unreadableFile => unreadable
  | .badImage => "Binary parse error: Failed to parse image: the headers do not make sense"
  | e => e.message?.getD ""

def snapshotChain (e : Snapshot.Error) : List String :=
  match e with
  | .unreadableFile => [unreadable]
  | .json _ => [malformed "Snapshot"]
  | .memory cause => [e.message?.getD "", memoryText cause]
  | e => [e.message?.getD ""]

def policyText (e : Policy.Error) : String :=
  match e with
  | .unreadableFile => unreadable
  | .json _ => malformed "Policy"
  | .invalid reason => reason.message

def chain : Error → List String
  | .unreadableConfig path => ["Cannot read config " ++ path ++ ": the file cannot be read"]
  | .badConfig path => ["Invalid config " ++ path ++ ": the text is not as it should be"]
  | .settings reason => ["Invalid configuration: " ++ reason.message]
  | .snapshot path e => ("Failed to load snapshot " ++ path) :: snapshotChain e
  | .parts e => "Snapshot is inconsistent" :: snapshotChain e
  | .policy path e => ["Failed to load policy " ++ path, policyText e]
  | .image path e => ["Failed to load module image " ++ path, memoryText e]
  | .mapping e => ["Failed to map module image", memoryText e]
  | .output root => ["Failed to write SDK to " ++ root, "a file cannot be written"]

def line (e : Error) : String := "[!] " ++ ": ".intercalate e.chain

end Error

def Options.amend (o : Options) (s : Settings) : Settings :=
  { s with
    snapshot := o.snapshot.getD s.snapshot
    policy := o.policy.or s.policy
    outputDir := o.output.getD s.outputDir
    image := o.image.or s.image
    imageBase := if o.image.isSome then o.imageBase else s.imageBase
    maxThreads := o.threads.or s.maxThreads
    progressBars := s.progressBars && !o.has .noProgress && !o.has .quiet
    verbose := s.verbose || o.has .verbose
    manifest := s.manifest && !o.has .noManifest }

variable {m : Type → Type} [Monad m]

abbrev Task (m : Type → Type) := ExceptT (Failure Error) m

namespace Task

def fail {α : Type} (e : Error) : Task m α := throw (.refused e)

def ofExcept {α ε : Type} (f : ε → Error) : Except ε α → Task m α
  | .ok a => pure a
  | .error e => fail (f e)

def ofOutcome {α ε : Type} (f : ε → Error) : Outcome ε α → Task m α
  | .ok a => pure a
  | .error (.refused e) => fail (f e)
  | .error (.abandoned v) => throw (.abandoned v)

end Task

def readBytes (host : Host m) (path : String) : Task m (Option Bytes) := ExceptT.lift (host.read path)

def readText (host : Host m) (path : String) : Task m (Option String) := do
  return (← readBytes host path).bind Bytes.text?

def loadSettings (host : Host m) (o : Options) : Task m Settings := do
  let base ← match o.config with
    | none => pure Settings.standard
    | some path =>
      match ← readText host path with
      | none => Task.fail (.unreadableConfig path)
      | some text => Task.ofExcept (fun _ => .badConfig path) (Settings.ofDocument (Json.read text))
  let settings := o.amend base
  Task.ofExcept .settings settings.check
  return settings

def loadSnapshot (host : Host m) (path : String) : Task m (Graph × Space) := do
  match ← readText host path with
  | none => Task.fail (.snapshot path .unreadableFile)
  | some text =>
    let s ← Task.ofExcept (.snapshot path) (Snapshot.ofDocument (Json.read text))
    Task.ofExcept .parts s.parts

def loadPolicy (host : Host m) : Option String → Task m Policy
  | none => pure Policy.standard
  | some path => do
    match ← readText host path with
    | none => Task.fail (.policy path .unreadableFile)
    | some text => Task.ofExcept (.policy path) (Policy.ofDocument (Json.read text))

def tell (host : Host m) (o : Options) (entries : List Log.Entry) : Task m Unit :=
  ExceptT.lift ((Log.shown o.level entries).forM fun e => host.report (e.line ++ "\n"))

def say (host : Host m) (o : Options) (lines : List String) : Task m Unit :=
  if o.has .quiet then pure ()
  else ExceptT.lift (host.print (String.join (lines.map (· ++ "\n"))))

def mappedNotes (path : String) (base count : Nat) : List Log.Entry :=
  [Log.note "memory::image"
    ("Mapped " ++ toString count ++ " regions of " ++ path ++ " at " ++ Address.text base),
   Log.note "" ("Mapped " ++ toString count ++ " segments of " ++ path)]

def mapImage (host : Host m) (o : Options) (s : Settings) (memory : Space) : Task m Space :=
  match s.image with
  | none => pure memory
  | some path => do
    let contents ← match ← readBytes host path with
      | none => Task.fail (.image path .unreadableFile)
      | some bytes => pure bytes
    let image ← Task.ofOutcome (.image path) (Image.load contents)
    let (mapped, memory) := (image.mapInto s.imageBase).run.run memory
    let count ← Task.ofOutcome .mapping mapped
    tell host o (mappedNotes path (s.imageBase.getD image.preferredBase) count)
    return memory

def greeting (s : Settings) : List String :=
  ["SDK Layout Generator", String.ofList (List.replicate 50 '='),
   "[*] Loading snapshot: " ++ s.snapshot]

def summary (s : Settings) (r : Run) (fileCount hundredths : Nat) : List String :=
  ["", "Results Summary", String.ofList (List.replicate 40 '-'),
   "  Packages saved: " ++ toString r.saved.length,
   "  Packages skipped: " ++ toString r.skipped.length,
   "  Script structs: " ++ toString r.structCount,
   "  Classes: " ++ toString r.classCount,
   "  Files written: " ++ toString fileCount]
  ++ (if r.cycles.isEmpty then []
    else ["  [!] " ++ toString r.cycles.length ++ " package cycle(s), order is best effort"])
  ++ ["", String.ofList (List.replicate 50 '='),
   "[+] SDK written to " ++ s.outputDir ++ " in " ++ toString (hundredths / 100) ++ "."
    ++ Pad.zeros 2 (hundredths % 100) ++ "s"]

def generate (host : Host m) (o : Options) : Task m Unit := do
  let settings ← loadSettings host o
  say host o (greeting settings)
  let (graph, memory) ← loadSnapshot host settings.snapshot
  tell host o [Log.note "" ("Loaded " ++ toString graph.objects.length ++ " reflected objects")]
  let policy ← loadPolicy host settings.policy
  let memory ← mapImage host o settings memory
  let target : Target := ⟨graph, policy, some memory⟩
  match Run.generate target .start with
  | .error v => throw (.abandoned v)
  | .ok run =>
    tell host o run.log
    let files := Bundle.files target run settings.manifest
    if ← ExceptT.lift (Bundle.write host settings.outputDir files) then
      tell host o [Bundle.writtenNote files settings.outputDir]
      say host o (summary settings run files.length (← ExceptT.lift host.elapsed))
    else Task.fail (.output settings.outputDir)

/-- Runs the program; the answer is the code that it ends with. -/
def run (host : Host m) (arguments : List String) : m Nat := do
  match read arguments with
  | .error misuse =>
    host.report ("error: " ++ misuse.message ++ "\n\n" ++ usageLine)
    return 2
  | .ok .help =>
    host.print helpText
    return 0
  | .ok .version =>
    host.print versionText
    return 0
  | .ok (.run o) =>
    match ← (generate host o).run with
    | .ok () => return 0
    | .error (.refused e) =>
      host.report (e.line ++ "\n")
      return 1
    | .error (.abandoned v) =>
      host.report (v.message ++ "\n")
      return 101

end TypeAtlas.CommandLine
