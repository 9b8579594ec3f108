import TypeAtlas.CommandLine.Program

namespace TypeAtlas

def succeeds (action : IO Unit) : IO Bool := do
  try
    action
    return true
  catch _ => return false

def shell (start : Nat) : Host IO where
  read path := do
    try
      return some (← IO.FS.readBinFile path).toList
    catch _ => return none
  makeDirectory path := succeeds (IO.FS.createDirAll path)
  write path text := succeeds (IO.FS.writeFile path text)
  print := IO.print
  report := IO.eprint
  elapsed := do return ((← IO.monoMsNow) - start) / 10

end TypeAtlas

def main (arguments : List String) : IO UInt32 := do
  let code ← TypeAtlas.CommandLine.run (TypeAtlas.shell (← IO.monoMsNow)) arguments
  return code.toUInt32
