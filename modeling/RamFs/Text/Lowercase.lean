import RamFs.Text.CaseTable

/-!
Full lowercase of a text by the default case conversion of Unicode. Two characters
are special: a dotted capital I becomes two characters, and a capital sigma becomes
a final sigma exactly at the end of a word. Every other character is mapped on
its own.
-/

namespace RamFs.Text

def isTitlecase (c : Char) : Bool :=
  titlecaseLetters.any (·.contains c.toNat)

/-- The single-character lowercase form of a code point; itself where there is none. -/
def lowerCode (code : Nat) : Nat :=
  (lowercaseRuns.findSome? (·.image? code)).getD code

def isUppercase (c : Char) : Bool :=
  unpairedCapitals.any (·.contains c.toNat) ||
    (lowercaseRuns.any (fun run => (run.image? c.toNat).isSome) && !isTitlecase c)

def isCased (c : Char) : Bool :=
  casedRanges.any (·.contains c.toNat)

def isCaseIgnorable (c : Char) : Bool :=
  ignorableRanges.any (·.contains c.toNat)

/-- Whether the nearest character that is not passed over is a cased letter. -/
def reachesCased (cs : List Char) : Bool :=
  (cs.dropWhile isCaseIgnorable).head?.any isCased

/-- A capital sigma ends a word when a cased letter comes before it and none after.
The text before it is given nearest character first. -/
def sigmaEndsWord (before after : List Char) : Bool :=
  reachesCased before && !reachesCased after

/-- Lowercase form of `c` between the text before it, nearest first, and the text after. -/
def lowerAt (before : List Char) (c : Char) (after : List Char) : List Char :=
  if c = 'Σ' then
    [if sigmaEndsWord before after then 'ς' else 'σ']
  else if c = 'İ' then
    ['i', '\u0307']
  else
    [Char.ofNat (lowerCode c.toNat)]

def lowerFrom (before : List Char) : List Char → List Char
  | [] => []
  | c :: after => lowerAt before c after ++ lowerFrom (c :: before) after

def lowercase (text : String) : String :=
  String.ofList (lowerFrom [] text.toList)

end RamFs.Text
