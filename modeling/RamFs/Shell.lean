import RamFs.Config.Json
import RamFs.Script

/-!
The command line: a configuration and a script are read, the script runs on a new
volume, and the exit code tells whether every line succeeded.
-/

namespace RamFs

/-- A file or stream that was to be read. -/
structure Document where
  /-- How it was asked for; standard input has no name. -/
  name : Option String
  /-- Its bytes, or why it cannot be read. -/
  contents : Except String ByteArray

namespace Document

/-- What the system says of a file that is not there. -/
def noSuchFile : String := "No such file or directory (os error 2)"

/-- The text of a document. A complaint about one with a name begins with the name. -/
def text (document : Document) : Except Complaint String :=
  let decoded := document.contents.bind fun bytes =>
    match String.fromUTF8? bytes with
    | some text => .ok text
    | none => .error "stream did not contain valid UTF-8"
  decoded.mapError fun cause =>
    match document.name with
    | some name => ["reading " ++ name, cause]
    | none => [cause]

end Document

namespace Shell

structure Invocation where
  config : Option Document
  script : Document
  keepGoing : Bool

structure Outcome where
  code : Nat
  out : Bytes := []
  err : String := ""
  deriving DecidableEq, Repr

/-- A complaint at the end of a run: the refusal, then its causes, numbered if there
are several. -/
def report : Complaint → String
  | [] => "Error: \n"
  | [refusal] => "Error: " ++ refusal ++ "\n"
  | [refusal, cause] => "Error: " ++ refusal ++ "\n\nCaused by:\n    " ++ cause ++ "\n"
  | refusal :: causes =>
    "Error: " ++ refusal ++ "\n\nCaused by:\n" ++
      String.join (causes.zipIdx.map fun (cause, n) => "    " ++ n.repr ++ ": " ++ cause ++ "\n")

def faultText : Json.Fault → String
  | .malformed => "malformed configuration"
  | .mismatched => "unexpected value in configuration"
  | .truncated => "configuration ends early"

def loadConfig : Option Document → Except Complaint Config
  | none => .ok {}
  | some document => do
    let text ← document.text
    (Config.ofJson text).mapError fun fault => [faultText fault]

/-- A new volume, and then the text of the script. -/
def prepare (invocation : Invocation) (clock : Time) :
    Except Complaint (VolumeId × String × World) := do
  let config ← loadConfig invocation.config
  match newVolume config { clock } with
  | (.error failure, _) => throw failure.chain
  | (.ok volume, world) =>
    let script ← invocation.script.text
    return (volume, script, world)

/-- Runs an invocation at a given time. -/
def run (invocation : Invocation) (clock : Time) : Outcome :=
  match prepare invocation clock with
  | .error complaint => { code := 1, err := report complaint }
  | .ok (volume, script, world) =>
    match ((Script.run volume script invocation.keepGoing).run world).1 with
    | (.error complaint, transcript) =>
      { code := 1, out := transcript.out, err := transcript.err ++ report complaint }
    | (.ok (), transcript) =>
      { code := if transcript.failures > 0 then 1 else 0
        out := transcript.out
        err := transcript.err }

end Shell

end RamFs
