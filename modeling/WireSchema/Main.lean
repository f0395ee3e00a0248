import WireSchema.CommandLine.Session

/-!
# The command line

Carries out the session of the arguments on the files of the system.
-/

open WireSchema WireSchema.CommandLine

/-- The content of a file, or nothing if it cannot be read. -/
def readFileBytes (path : String) : IO (Option Bytes) := do
  try
    let content ← IO.FS.readBinFile path
    return some content.toList
  catch _ => return none

/-- Writes a file, and tells whether that was possible. -/
def writeFileBytes (path : String) (content : Bytes) : IO Bool := do
  try
    IO.FS.writeBinFile path (ByteArray.mk content.toArray)
    return true
  catch _ => return false

/-- The variables of the environment that matter. -/
def readEnvironment : IO (List (String × String)) := do
  let names := ["PROTOGEN_CONFIG", "PROTOGEN_SCHEMA", "PROTOGEN_UNKNOWN_FLAGS",
    "PROTOGEN_STRICT_RECORDS"]
  names.filterMapM fun name => do
    let value ← IO.getEnv name
    return value.map fun v => (name, v)

/-- The entry point: the session of the arguments. -/
def main (args : List String) : IO UInt32 := do
  let env ← readEnvironment
  let outcome ← (Session.ofWords env args).run readFileBytes writeFileBytes
  let stdout ← IO.getStdout
  let stderr ← IO.getStderr
  stdout.write (ByteArray.mk outcome.stdout.toArray)
  stdout.flush
  stderr.putStr outcome.stderr
  stderr.flush
  return outcome.exitCode.toUInt32
