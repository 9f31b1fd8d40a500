import RamFs.Collation
import RamFs.Failure
import RamFs.Text.Blank

/-!
Paths: a root, the names below it in order, and whether the text named its root.
Both slashes separate names. A parsed path holds no empty name, no `.`, no `..` and
no NUL; `..` drops the name before it and is dropped itself at the root.
-/

namespace RamFs

def isSeparator (c : Char) : Bool :=
  c = '/' || c = '\\'

structure Path where
  root : Nat
  rootName : String
  elements : List String
  absolute : Bool
  deriving DecidableEq, Repr

namespace Path

/-- The raw parts of a text between separators. -/
def parts (cs : List Char) : List String :=
  (cs.splitOnP isSeparator).map String.ofList

/-- Adds one raw part to the names read so far. -/
def push (elements : List String) (part : String) : Except Failure (List String) :=
  if part = "" ∨ part = "." then .ok elements
  else if part = ".." then .ok elements.dropLast
  else if part.toList.any (· = '\x00') then .error .invalidName
  else .ok (elements ++ [part])

/-- Adds raw parts in order; the first refused part decides. -/
def pushAll (elements : List String) : List String → Except Failure (List String)
  | [] => .ok elements
  | part :: rest => do
    let elements ← push elements part
    pushAll elements rest

/-- Splits off the first `count` bytes of the UTF-8 form, if a character ends there. -/
def splitBytes? : Nat → List Char → Option (List Char × List Char)
  | 0, cs => some ([], cs)
  | _ + 1, [] => none
  | count@(_ + 1), c :: cs =>
    if c.utf8Size ≤ count then
      (splitBytes? (count - c.utf8Size) cs).map fun (head, rest) => (c :: head, rest)
    else
      none

/-- How much of `input` names the root `name`: the bytes matched, a following
separator included, and the text after them. A root name made of separators only
matches one leading separator. -/
def matchRoot? (collation : Collation) (name : String) (input : List Char) :
    Option (Nat × List Char) :=
  if name.toList.all isSeparator then
    match input with
    | c :: rest => if isSeparator c then some (1, rest) else none
    | [] => none
  else do
    let (head, rest) ← splitBytes? name.utf8ByteSize input
    guard (collation.sameName (String.ofList head) name)
    match rest with
    | [] => some (name.utf8ByteSize, [])
    | c :: rest => if isSeparator c then some (name.utf8ByteSize + 1, rest) else none

/-- The root with the longest match, the first of them on a tie: its ordinal, the
bytes it matched and the text after them. -/
def longestRoot? (collation : Collation) (input : List Char) :
    Nat → List String → Option (Nat × Nat × List Char)
  | _, [] => none
  | ordinal, name :: names =>
    match matchRoot? collation name input, longestRoot? collation input (ordinal + 1) names with
    | none, later => later
    | some (size, rest), none => some (ordinal, size, rest)
    | some (size, rest), some later =>
      if later.2.1 > size then some later else some (ordinal, size, rest)

/-- Reads a path text. Text that names no root is relative and starts at the first. -/
def parse (roots : List String) (collation : Collation) (input : String) :
    Except Failure Path :=
  match roots with
  | [] => .error .invalidArgument
  | first :: _ =>
    match longestRoot? collation input.toList 0 roots with
    | some (ordinal, _, rest) => do
      let elements ← pushAll [] (parts rest)
      return ⟨ordinal, roots.getD ordinal first, elements, true⟩
    | none => do
      let elements ← pushAll [] (parts input.toList)
      return ⟨0, first, elements, false⟩

/-- The path with other names below the same root. -/
def withElements (path : Path) (elements : List String) : Path :=
  { path with elements, absolute := true }

def isRoot (path : Path) : Bool :=
  path.elements.isEmpty

def fileName? (path : Path) : Option String :=
  path.elements.getLast?

def parent? (path : Path) : Option Path :=
  if path.isRoot then none else some (path.withElements path.elements.dropLast)

/-- The path of a text below this one. A root name in the text is a name like others. -/
def join (path : Path) (text : String) : Except Failure Path := do
  let elements ← pushAll path.elements (parts text.toList)
  return path.withElements elements

/-- Whether `path` is `other` or lies below it. -/
def startsWith (collation : Collation) (path other : Path) : Bool :=
  path.root == other.root && other.elements.length ≤ path.elements.length &&
    (path.elements.zip other.elements).all fun (a, b) => collation.sameName a b

/-- The text of a path. An absolute path shows its root name and one separator. -/
def text (path : Path) : String :=
  let names := "/".intercalate path.elements
  if !path.absolute then names
  else if path.rootName.toList.getLast?.any isSeparator then path.rootName ++ names
  else path.rootName ++ "/" ++ names

end Path

end RamFs
