import VectorGraph.Demo

/-! The command line, with the log off. `NAUTYLUS_CONFIG` may name a configuration file. -/
namespace VectorGraph.Demo

def contentOf (path : String) : IO (Option ByteArray) := do
  try
    return some (← IO.FS.readBinFile path)
  catch _ => return none

def runOnEnvironment : IO Outcome := do
  match ← IO.getEnv "NAUTYLUS_CONFIG" with
  | none => return run (.ok {})
  | some path => return runOnFile path (← contentOf path)

end VectorGraph.Demo

def main : IO UInt32 := do
  let o ← VectorGraph.Demo.runOnEnvironment
  IO.print o.stdout
  IO.eprint o.stderr
  return o.exitCode
