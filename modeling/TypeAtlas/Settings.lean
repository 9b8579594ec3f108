import TypeAtlas.Json.Decode
import TypeAtlas.Json.Reader

namespace TypeAtlas

open Json (Decoder Fault Fields)

structure Settings where
  snapshot : String
  policy : Option String
  outputDir : String
  image : Option String
  imageBase : Option Nat
  /-- Unset, it is the number of processors. -/
  maxThreads : Option Nat
  progressBars : Bool
  verbose : Bool
  manifest : Bool
  deriving DecidableEq, Repr

namespace Settings

def standard : Settings where
  snapshot := ""
  policy := none
  outputDir := "sdk_out"
  image := none
  imageBase := none
  maxThreads := none
  progressBars := true
  verbose := false
  manifest := true

def encode (s : Settings) : Json :=
  .record [
    ("snapshot", .string s.snapshot), ("policy", .ofOption .string s.policy),
    ("output_dir", .string s.outputDir), ("image", .ofOption .string s.image),
    ("image_base", .ofOption .natural s.imageBase),
    ("max_threads", .ofOption .natural s.maxThreads),
    ("enable_progress_bars", .bool s.progressBars), ("enable_verbose_output", .bool s.verbose),
    ("write_manifest", .bool s.manifest)]

def decode : Decoder Settings := fun v =>
  match (Fields.default "snapshot" .string standard.snapshot
    <| .default "policy" (.option .string) standard.policy
    <| .default "output_dir" .string standard.outputDir
    <| .default "image" (.option .string) standard.image
    <| .default "image_base" (.option .word) standard.imageBase
    <| .default "max_threads" (fun v => (Decoder.word v).map some) standard.maxThreads
    <| .default "enable_progress_bars" .bool standard.progressBars
    <| .default "enable_verbose_output" .bool standard.verbose
    <| .default "write_manifest" .bool standard.manifest
    .done).decode v with
  | .ok (snapshot, policy, outputDir, image, imageBase, maxThreads, progressBars, verbose,
      manifest, ()) =>
    .ok { snapshot, policy, outputDir, image, imageBase, maxThreads, progressBars, verbose,
          manifest }
  | .error e => .error e

def ofDocument (d : Json.Document) : Except Fault Settings :=
  Decoder.document decode d.value d.trailing

inductive Invalid
  | noSnapshot | noOutputDir | noThreads | baseWithoutImage
  deriving DecidableEq, Repr

def Invalid.message : Invalid → String
  | .noSnapshot => "snapshot must be set"
  | .noOutputDir => "output_dir must not be empty"
  | .noThreads => "max_threads must be greater than 0"
  | .baseWithoutImage => "image_base requires image"

def check (s : Settings) : Except Invalid Unit :=
  if s.snapshot.isEmpty then .error .noSnapshot
  else if s.outputDir.isEmpty then .error .noOutputDir
  else if s.maxThreads = some 0 then .error .noThreads
  else if s.imageBase.isSome && s.image.isNone then .error .baseWithoutImage
  else .ok ()

end Settings

end TypeAtlas
