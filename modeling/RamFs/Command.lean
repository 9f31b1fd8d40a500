import RamFs.Handle.Close
import RamFs.Relocation

/-!
Commands of the script language: one line each, words between whitespace, the text of
a write taken as it stands. A refusal is a list of texts, each the cause of the one
before it.
-/

namespace RamFs

inductive Command where
  | makeDirectory (path : String)
  | touch (path : String)
  | write (path text : String)
  | append (path text : String)
  | print (path : String)
  | list (path : String)
  | status (path : String)
  | copy (source target : String) (force : Bool)
  | move (source target : String) (force : Bool)
  | link (existing name : String)
  | symlink (target name : String)
  | remove (path : String)
  | truncate (path : String) (size : Nat)
  | readLink (path : String)
  | realPath (path : String)
  deriving DecidableEq, Repr

/-- A refusal and its causes, outermost first. -/
abbrev Complaint := List String

namespace Complaint

/-- All of a complaint on one line. -/
def oneLine (complaint : Complaint) : String :=
  ": ".intercalate complaint

end Complaint

namespace Command

/-! ### Words -/

/-- The next word, which is required; `what` says what it is for. -/
def word (what : String) (rest : List Char) : Except Complaint (String × List Char) :=
  match Text.nextWord? rest with
  | some (word, rest) => .ok (word, rest)
  | none => .error ["missing " ++ what]

/-- Takes the next word if it is `flag`. -/
def takeFlag (flag : String) (rest : List Char) : Bool × List Char :=
  match Text.nextWord? rest with
  | some (word, tail) => if word = flag then (true, tail) else (false, rest)
  | none => (false, rest)

/-- Refuses whatever words are left. -/
def noMore (rest : List Char) : Except Complaint Unit :=
  match Text.nextWord? rest with
  | some (extra, _) => .error ["unexpected argument '" ++ extra ++ "'"]
  | none => .ok ()

/-- The rest of a line after one separating space. -/
def tailText (rest : List Char) : String :=
  match rest with
  | ' ' :: tail => String.ofList tail
  | _ => String.ofList rest

/-- Reads digits onto a value that stays at most the largest offset. -/
def readDigits (value : Nat) : List Char → Except String Nat
  | [] => .ok value
  | c :: rest =>
    if !c.isDigit then .error "invalid digit found in string"
    else
      let value := 10 * value + (c.toNat - 48)
      if value > maxOffset then .error "number too large to fit in target type"
      else readDigits value rest

/-- A size: digits, perhaps after a plus sign. -/
def parseSize (text : String) : Except Complaint Nat :=
  let digits := match text.toList with
    | '+' :: rest => rest
    | cs => cs
  let size := if digits.isEmpty then .error "invalid digit found in string" else readDigits 0 digits
  size.mapError fun cause => ["invalid size '" ++ text ++ "'", cause]

/-! ### Lines -/

/-- A command whose only argument is a path. -/
def onePath (make : String → Command) (rest : List Char) : Except Complaint Command := do
  let (path, rest) ← word "path" rest
  noMore rest
  return make path

/-- A command whose arguments are a path and a text. -/
def pathAndText (make : String → String → Command) (rest : List Char) :
    Except Complaint Command := do
  let (path, rest) ← word "path" rest
  return make path (tailText rest)

/-- A command with a flag and two more words. -/
def flagAndTwo (flag first second : String) (make : Bool → String → String → Command)
    (rest : List Char) : Except Complaint Command := do
  let (isSet, rest) := takeFlag flag rest
  let (a, rest) ← word first rest
  let (b, rest) ← word second rest
  noMore rest
  return make isSet a b

/-- The command of a name and what follows the name. -/
def ofWords (name : String) (rest : List Char) : Except Complaint Command :=
  match name with
  | "mkdir" => onePath makeDirectory rest
  | "touch" => onePath touch rest
  | "write" => pathAndText write rest
  | "append" => pathAndText append rest
  | "cat" => onePath print rest
  | "ls" =>
    match Text.nextWord? rest with
    | some _ => onePath list rest
    | none => .ok (list "/")
  | "stat" => onePath status rest
  | "cp" => flagAndTwo "-f" "source" "target" (fun force a b => copy a b force) rest
  | "mv" => flagAndTwo "-f" "source" "target" (fun force a b => move a b force) rest
  | "ln" =>
    flagAndTwo "-s" "target" "link name" (fun symbolic a b =>
      if symbolic then symlink a b else link a b) rest
  | "rm" => onePath remove rest
  | "truncate" => do
    let (path, rest) ← word "path" rest
    let (text, rest) ← word "size" rest
    let size ← parseSize text
    noMore rest
    return truncate path size
  | "readlink" => onePath readLink rest
  | "realpath" => onePath realPath rest
  | other => .error ["unknown command '" ++ other ++ "'"]

/-- Reads one line. Blank lines and comments hold no command. -/
def parse (line : List Char) : Except Complaint (Option Command) :=
  match Text.nextWord? (Text.dropTailWhile (fun c => c = '\r' || c = '\n') line) with
  | none => .ok none
  | some (name, rest) =>
    if name.toList.head? = some '#' then .ok none
    else some <$> ofWords name rest

/-! ### Execution -/

def kindMark : Kind → String
  | .directory => "/"
  | .symlink => "@"
  | .file => ""

def kindWord : Kind → String
  | .directory => "directory"
  | .symlink => "symlink"
  | .file => "file"

/-- Attributes on one line, the mode in octal. -/
def statusText (attributes : Attributes) : String :=
  let mode := String.ofList (Nat.toDigits 8 attributes.owner.mode.toNat)
  "type=" ++ kindWord attributes.kind ++ " size=" ++ attributes.size.repr ++
    " nlink=" ++ attributes.links.repr ++ " mode=" ++ mode ++
    " uid=" ++ attributes.owner.uid.toNat.repr ++ " gid=" ++ attributes.owner.gid.toNat.repr

def lineOf (text : String) : Bytes :=
  (text ++ "\n").toUTF8.data.toList

/-- Contents as shown: a line end is added to a last line without one. -/
def shown (contents : Bytes) : Bytes :=
  match contents.getLast? with
  | none => []
  | some last => if last = 10 then contents else contents ++ [10]

/-- Runs a command on a volume; what it prints. -/
def run (volume : VolumeId) : Command → Action Bytes
  | makeDirectory path => do
    volume.createDirectory path
    return []
  | touch path => do
    let handle ← volume.openFile path .creating
    handle.close
    return []
  | write path text => do
    volume.writeAll path text.toUTF8.data.toList
    return []
  | append path text => do
    let handle ← volume.openFile path .appending
    let outcome ← (handle.write text.toUTF8.data.toList).attempt
    handle.close
    outcome
    return []
  | print path => return shown (← volume.readAll path)
  | list path => do
    let names ← Action.ask (·.readDirectory volume path)
    return names.flatMap fun (name, kind) => lineOf (name ++ kindMark kind)
  | status path => do
    let attributes ← Action.ask (·.metadata volume path false)
    return lineOf (statusText attributes)
  | copy source target force => do
    volume.copy source volume target { replaceExisting := force }
    return []
  | move source target force => do
    volume.move source volume target { replaceExisting := force }
    return []
  | link existing name => do
    volume.createHardLink name existing
    return []
  | symlink target name => do
    volume.createSymlink name target
    return []
  | remove path => do
    volume.delete path
    return []
  | truncate path size => do
    volume.truncate path size
    return []
  | readLink path => return lineOf (← Action.ask (·.readLink volume path))
  | realPath path => return lineOf (← Action.ask (·.canonicalize volume path)).text

end Command

end RamFs
