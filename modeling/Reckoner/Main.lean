import Reckoner.CommandLine.Run

/-! The program itself: reads the file that the arguments name, and writes what a run
leaves behind in its order. Its logger puts the level in front of the message. -/

namespace Reckoner.CommandLine

def fileFault : IO.Error → FileFault
  | .noFileOrDirectory .. => .notFound
  | .inappropriateType _ code _ => if code = 21 then .isDirectory else .notDirectory
  | e => .other e.toString

def readText (name : String) : IO (Except FileFault String) := do
  try
    let bytes ← IO.FS.readBinFile name
    return match String.fromUTF8? bytes with
      | some text => .ok text
      | none => .error .notText
  catch e =>
    return .error (fileFault e)

def logLine (record : Record) : String :=
  Emission.plain s!"[{record.level.label}] {record.message}\n"

def Outcome.write (o : Outcome) (lightest : Option Level) : IO UInt32 := do
  for e in o.emissions do
    IO.print e.toOutput
    IO.eprint (e.toErrors logLine lightest)
  return UInt32.ofNat o.exitCode

def execute (args : List String) : IO UInt32 := do
  match Arguments.parse args with
  | .error halt => halt.outcome.write none
  | .ok a =>
    let file ← if a.readsFile then readText a.contents else pure (.ok a.contents)
    let override := (← IO.getEnv "RUST_LOG").bind Level.lightest?
    (a.run file).write (a.lightest override)

end Reckoner.CommandLine

def main (args : List String) : IO UInt32 := Reckoner.CommandLine.execute args
