import TypeAtlas.Settings
import TypeAtlas.Log
import TypeAtlas.Text

namespace TypeAtlas.CommandLine

inductive Flag
  | verbose | noProgress | noManifest | quiet | help | version
  deriving DecidableEq, Repr

inductive Key
  | snapshot | policy | output | image | imageBase | threads | logLevel | config
  deriving DecidableEq, Repr

inductive Switch
  | flag (f : Flag)
  | key (k : Key)
  deriving DecidableEq, Repr

def Switch.ofLong? : String → Option Switch
  | "snapshot" => some (.key .snapshot)
  | "policy" => some (.key .policy)
  | "output" => some (.key .output)
  | "image" => some (.key .image)
  | "image-base" => some (.key .imageBase)
  | "threads" => some (.key .threads)
  | "log-level" => some (.key .logLevel)
  | "config" => some (.key .config)
  | "verbose" => some (.flag .verbose)
  | "no-progress" => some (.flag .noProgress)
  | "no-manifest" => some (.flag .noManifest)
  | "quiet" => some (.flag .quiet)
  | "help" => some (.flag .help)
  | "version" => some (.flag .version)
  | _ => none

def Switch.ofShort? : Char → Option Switch
  | 's' => some (.key .snapshot)
  | 'p' => some (.key .policy)
  | 'o' => some (.key .output)
  | 'j' => some (.key .threads)
  | 'c' => some (.key .config)
  | 'v' => some (.flag .verbose)
  | 'q' => some (.flag .quiet)
  | 'h' => some (.flag .help)
  | 'V' => some (.flag .version)
  | _ => none

def Key.long : Key → String
  | .snapshot => "--snapshot"
  | .policy => "--policy"
  | .output => "--output"
  | .image => "--image"
  | .imageBase => "--image-base"
  | .threads => "--threads"
  | .logLevel => "--log-level"
  | .config => "--config"

def Flag.long : Flag → String
  | .verbose => "--verbose"
  | .noProgress => "--no-progress"
  | .noManifest => "--no-manifest"
  | .quiet => "--quiet"
  | .help => "--help"
  | .version => "--version"

structure Options where
  snapshot : Option String
  policy : Option String
  output : Option String
  image : Option String
  imageBase : Option Nat
  threads : Option Nat
  logLevel : Option String
  config : Option String
  flags : List Flag
  deriving DecidableEq, Repr

inductive Misuse
  | unexpected (argument : String)
  | noValue (option : String)
  | needlessValue (option : String)
  | badValue (option value : String)
  | repeated (option : String)
  | baseWithoutImage
  deriving DecidableEq, Repr

def Misuse.message : Misuse → String
  | .unexpected argument => "unexpected argument '" ++ argument ++ "' found"
  | .noValue option => "a value is required for '" ++ option ++ "' but none was supplied"
  | .needlessValue option => "unexpected value for '" ++ option ++ "' found"
  | .badValue option value => "invalid value '" ++ value ++ "' for '" ++ option ++ "'"
  | .repeated option => "the argument '" ++ option ++ "' cannot be used multiple times"
  | .baseWithoutImage => "'--image-base' needs '--image'"

namespace Options

def empty : Options := ⟨none, none, none, none, none, none, none, none, []⟩

def has (o : Options) (f : Flag) : Bool := o.flags.contains f

def level (o : Options) : Log.Level :=
  if o.has .quiet then .warn
  else if o.has .verbose then .debug
  else Log.Level.ofName (o.logLevel.getD "info")

end Options

/-- A plus sign before a number says nothing. -/
def unsigned : List Char → List Char
  | '+' :: cs => cs
  | cs => cs

def dropPairs (a b : Char) : List Char → List Char
  | c :: d :: cs => if c = a ∧ d = b then dropPairs a b cs else c :: d :: cs
  | cs => cs

def fits (n : Nat) : Option Nat := if n < Word.bound then some n else none

def address? (s : String) : Option Nat :=
  (Hex.value? (unsigned (dropPairs '0' 'X' (dropPairs '0' 'x' s.toList)))).bind fits

def decimal? (s : String) : Option Nat :=
  match unsigned s.toList with
  | [] => none
  | c :: cs =>
    if (c :: cs).all fun d => '0' ≤ d && d ≤ '9' then
      fits ((c :: cs).foldl (fun n d => 10 * n + (d.toNat - '0'.toNat)) 0)
    else none

def path? (s : String) : Option String := if s.isEmpty then none else some s

def store {α : Type} (k : Key) (before : Option α) (value : String) (read : String → Option α)
    (set : Option α → Options) : Except Misuse Options :=
  match read value with
  | none => .error (.badValue k.long value)
  | some a => if before.isSome then .error (.repeated k.long) else .ok (set (some a))

namespace Options

def put (o : Options) (k : Key) (value : String) : Except Misuse Options :=
  match k with
  | .snapshot => store k o.snapshot value path? fun v => { o with snapshot := v }
  | .policy => store k o.policy value path? fun v => { o with policy := v }
  | .output => store k o.output value path? fun v => { o with output := v }
  | .image => store k o.image value path? fun v => { o with image := v }
  | .imageBase => store k o.imageBase value address? fun v => { o with imageBase := v }
  | .threads => store k o.threads value decimal? fun v => { o with threads := v }
  | .logLevel => store k o.logLevel value some fun v => { o with logLevel := v }
  | .config => store k o.config value path? fun v => { o with config := v }

def raise (o : Options) (f : Flag) : Except Misuse Options :=
  if o.has f then .error (.repeated f.long) else .ok { o with flags := o.flags ++ [f] }

end Options

structure Reading where
  options : Options
  waiting : Option Key

inductive Request
  | help | version
  | run (o : Options)
  deriving DecidableEq, Repr

abbrev Step := Except Misuse (Reading ⊕ Request)

namespace Step

def next (o : Options) : Step := .ok (.inl ⟨o, none⟩)

def ofOptions : Except Misuse Options → Step
  | .ok o => next o
  | .error e => .error e

end Step

def long (o : Options) (argument : String) (body : List Char) : Step :=
  let name := String.ofList (body.takeWhile (· ≠ '='))
  let value? := match body.dropWhile (· ≠ '=') with
    | [] => none
    | _ :: cs => some (String.ofList cs)
  match Switch.ofLong? name, value? with
  | none, _ => .error (.unexpected argument)
  | some (.flag f), some _ => .error (.needlessValue f.long)
  | some (.flag .help), none => .ok (.inr .help)
  | some (.flag .version), none => .ok (.inr .version)
  | some (.flag f), none => .ofOptions (o.raise f)
  | some (.key k), some v => .ofOptions (o.put k v)
  | some (.key k), none => .ok (.inl ⟨o, some k⟩)

/-- Letters behind one dash; the first that takes a value takes what is left. -/
def short (o : Options) (argument : String) : List Char → Step
  | [] => .next o
  | c :: cs =>
    match Switch.ofShort? c with
    | none => .error (.unexpected argument)
    | some (.flag .help) => .ok (.inr .help)
    | some (.flag .version) => .ok (.inr .version)
    | some (.flag f) =>
      match o.raise f with
      | .ok o => short o argument cs
      | .error e => .error e
    | some (.key k) =>
      match cs with
      | [] => .ok (.inl ⟨o, some k⟩)
      | '=' :: value => .ofOptions (o.put k (String.ofList value))
      | value => .ofOptions (o.put k (String.ofList value))

def close (r : Reading) : Except Misuse Request :=
  match r.waiting with
  | some k => .error (.noValue k.long)
  | none =>
    if r.options.imageBase.isSome && r.options.image.isNone then .error .baseWithoutImage
    else .ok (.run r.options)

def plain (r : Reading) (argument : String) : Step :=
  match r.waiting with
  | some k => .ofOptions (r.options.put k argument)
  | none => .error (.unexpected argument)

def free (r : Reading) : Except Misuse Options :=
  match r.waiting with
  | some k => .error (.noValue k.long)
  | none => .ok r.options

def argument (r : Reading) (a : String) : Step :=
  match a.toList with
  | '-' :: '-' :: body => do long (← free r) a body
  | '-' :: c :: cs => do short (← free r) a (c :: cs)
  | _ => plain r a

def readFrom (r : Reading) : List String → Except Misuse Request
  | [] => close r
  | "--" :: [] => close r
  | "--" :: a :: _ => .error (.unexpected a)
  | a :: rest => do
    match ← argument r a with
    | .inl r => readFrom r rest
    | .inr request => return request

def read (arguments : List String) : Except Misuse Request := readFrom ⟨.empty, none⟩ arguments

end TypeAtlas.CommandLine
