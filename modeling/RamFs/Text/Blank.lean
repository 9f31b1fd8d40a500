/-!
Whitespace and the text operations that rest on it: words, trimming and lines.
All of them work on character lists; what they drop is exactly whitespace, or the
line end named in the operation.
-/

namespace RamFs.Text

/-- The characters with the Unicode property White_Space. -/
def isBlank (c : Char) : Bool :=
  let code := c.toNat
  (9 ≤ code && code ≤ 13) || code = 0x20 || code = 0x85 || code = 0xA0 || code = 0x1680 ||
    (0x2000 ≤ code && code ≤ 0x200A) || code = 0x2028 || code = 0x2029 || code = 0x202F ||
    code = 0x205F || code = 0x3000

/-- The first word and the text that follows it; nothing when only whitespace is left. -/
def nextWord? (cs : List Char) : Option (String × List Char) :=
  match cs.dropWhile isBlank with
  | [] => none
  | word => some (String.ofList (word.takeWhile (!isBlank ·)), word.dropWhile (!isBlank ·))

/-- Drops the longest tail whose characters all satisfy `p`. -/
def dropTailWhile (p : Char → Bool) (cs : List Char) : List Char :=
  (cs.reverse.dropWhile p).reverse

def trim (cs : List Char) : List Char :=
  dropTailWhile isBlank (cs.dropWhile isBlank)

/-- An ended line without the carriage return that may belong to its end. -/
def dropReturn (line : List Char) : List Char :=
  match line.getLast? with
  | some '\r' => line.dropLast
  | _ => line

/-- The lines of a text. A line ends at a line feed, which a carriage return may
precede; what follows the last line feed is a line of its own unless it is empty. -/
def lines (cs : List Char) : List (List Char) :=
  let parts := cs.splitOnP (· = '\n')
  let ended := parts.dropLast.map dropReturn
  match parts.getLast? with
  | some (c :: rest) => ended ++ [c :: rest]
  | _ => ended

end RamFs.Text
