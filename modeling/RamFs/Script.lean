import RamFs.Command

/-!
Running a script: its lines in order on one volume. A script stops at the first line
that fails, or goes on and counts the lines that failed, each of which is reported.
-/

namespace RamFs

/-- What a script has printed so far and how many of its lines have failed. -/
structure Transcript where
  out : Bytes := []
  err : String := ""
  failures : Nat := 0
  deriving DecidableEq, Repr

namespace Script

/-- Runs one line; what it prints, or why it failed. -/
def runLine (volume : VolumeId) (line : List Char) : StateM World (Except Complaint Bytes) := do
  match Command.parse line with
  | .error complaint => return .error complaint
  | .ok none => return .ok []
  | .ok (some command) =>
    let outcome ← (command.run volume).run
    return outcome.mapError Failure.chain

/-- How a line is named when it fails. -/
def lineName (number : Nat) : String :=
  "line " ++ number.repr ++ ": "

/-- Runs lines from the given number on. A failure ends a script that does not keep
going; the complaint then names the line and shows it. -/
def runLines (volume : VolumeId) (keepGoing : Bool) :
    Nat → List (List Char) → Transcript → StateM World (Except Complaint Unit × Transcript)
  | _, [], transcript => return (.ok (), transcript)
  | number, line :: rest, transcript => do
    match ← runLine volume line with
    | .ok printed =>
      runLines volume keepGoing (number + 1) rest
        { transcript with out := transcript.out ++ printed }
    | .error complaint =>
      if keepGoing then
        runLines volume keepGoing (number + 1) rest
          { transcript with
            err := transcript.err ++ lineName number ++ complaint.oneLine ++ "\n"
            failures := transcript.failures + 1 }
      else
        let shown := String.ofList (Text.trim line)
        return (.error ((lineName number ++ shown) :: complaint), transcript)

/-- Runs a whole script. -/
def run (volume : VolumeId) (script : String) (keepGoing : Bool) :
    StateM World (Except Complaint Unit × Transcript) :=
  runLines volume keepGoing 1 (Text.lines script.toList) {}

end Script

end RamFs
