import RamFs.Shell

/-!
The command-line program: reads what the arguments name, runs it and passes the
outcome on. With `--config FILE` the volume is configured from a file, with
`--keep-going` the script runs to its end, and without a script file the script comes
from standard input.
-/

namespace RamFs.Main

structure Arguments where
  script : Option String := none
  config : Option String := none
  keepGoing : Bool := false

/-- Reads the arguments; nothing when they make no sense. -/
def Arguments.ofList? (arguments : Arguments) : List String → Option Arguments
  | [] => some arguments
  | "--config" :: path :: rest | "-c" :: path :: rest =>
    ofList? { arguments with config := some path } rest
  | "--keep-going" :: rest | "-k" :: rest => ofList? { arguments with keepGoing := true } rest
  | script :: rest =>
    if arguments.script.isSome || script.toList.head? = some '-' then none
    else ofList? { arguments with script := some script } rest

def errorText : IO.Error → String
  | .noFileOrDirectory .. => Document.noSuchFile
  | .permissionDenied .. => "Permission denied (os error 13)"
  | error => error.toString

def readFile (path : String) : IO Document := do
  try
    return { name := some path, contents := .ok (← IO.FS.readBinFile path) }
  catch error =>
    return { name := some path, contents := .error (errorText error) }

partial def readStream (stream : IO.FS.Stream) (before : ByteArray) : IO ByteArray := do
  let chunk ← stream.read 65536
  if chunk.isEmpty then return before else readStream stream (before ++ chunk)

def readScript : Option String → IO Document
  | some path => readFile path
  | none => do
    return { name := none, contents := .ok (← readStream (← IO.getStdin) .empty) }

end RamFs.Main

open RamFs RamFs.Main in
def main (args : List String) : IO UInt32 := do
  let some arguments := Arguments.ofList? {} args
    | (← IO.getStderr).putStrLn "usage: [SCRIPT] [--config FILE] [--keep-going]"
      return 2
  let config ← arguments.config.mapM readFile
  let script ← readScript arguments.script
  -- no command shows a time, so that any clock will do
  let clock := Int.ofNat (← IO.monoNanosNow)
  let outcome := Shell.run ⟨config, script, arguments.keepGoing⟩ clock
  (← IO.getStdout).write ⟨outcome.out.toArray⟩
  (← IO.getStderr).putStr outcome.err
  return UInt32.ofNat outcome.code
