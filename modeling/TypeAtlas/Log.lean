import TypeAtlas.Text

namespace TypeAtlas.Log

inductive Level
  | off | error | warn | info | debug | trace
  deriving DecidableEq, Repr

namespace Level

def name : Level → String
  | .off => "OFF"
  | .error => "ERROR"
  | .warn => "WARN"
  | .info => "INFO"
  | .debug => "DEBUG"
  | .trace => "TRACE"

def rank : Level → Nat
  | .off => 0
  | .error => 1
  | .warn => 2
  | .info => 3
  | .debug => 4
  | .trace => 5

def ofName (s : String) : Level :=
  match String.ofList (s.toList.map Char.toLower) with
  | "error" => .error
  | "warn" => .warn
  | "warning" => .warn
  | "debug" => .debug
  | "trace" => .trace
  | "off" => .off
  | _ => .info

def ofVerbosity : Nat → Level
  | 0 => .warn
  | 1 => .info
  | 2 => .debug
  | _ => .trace

end Level

structure Entry where
  level : Level
  topic : String
  text : String
  deriving DecidableEq, Repr

def Entry.line (e : Entry) : String :=
  Pad.right 5 e.level.name ++ " " ++ (if e.topic.isEmpty then "" else "[" ++ e.topic ++ "]") ++ " "
    ++ e.text

def warning (topic text : String) : Entry := ⟨.warn, topic, text⟩

def note (topic text : String) : Entry := ⟨.info, topic, text⟩

def shown (level : Level) (entries : List Entry) : List Entry :=
  entries.filter (·.level.rank ≤ level.rank)

def warnings (entries : List Entry) : List String :=
  (entries.filter (·.level = .warn)).map Entry.text

end TypeAtlas.Log
