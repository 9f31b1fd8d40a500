import RamFs.Json.Value

/-!
Reading JSON from the front of a text. Each reader takes the characters it needs and
leaves the rest. The first fault met from left to right decides, and its kind tells a
text that is not JSON from one of an unexpected shape and from one that ends early.
Values nobody asked for are skipped by a machine that takes one character a step and
keeps the open brackets on a stack, so that their depth is not bounded.
-/

namespace RamFs.Json

inductive Fault where
  /-- The text is not JSON. -/
  | malformed
  /-- The text may be JSON, but not of the shape that is read. -/
  | mismatched
  /-- The text ends before the value does. -/
  | truncated
  deriving DecidableEq, Repr

abbrev Scan := StateT (List Char) (Except Fault)

namespace Scan

def isBlank (c : Char) : Bool :=
  c = ' ' || c = '\n' || c = '\t' || c = '\r'

/-- The next character that is not blank, which stays in the text. -/
def peek : Scan (Option Char) := fun cs =>
  let rest := cs.dropWhile isBlank
  .ok (rest.head?, rest)

def advance : Scan Unit :=
  modify List.tail

/-! ### Strings -/

def hexValue? (c : Char) : Option Nat :=
  if '0' ≤ c ∧ c ≤ '9' then some (c.toNat - 48)
  else if 'a' ≤ c ∧ c ≤ 'f' then some (c.toNat - 87)
  else if 'A' ≤ c ∧ c ≤ 'F' then some (c.toNat - 55)
  else none

/-- The character of a one-letter escape. -/
def unescape? (c : Char) : Option Char :=
  match c with
  | '"' => some '"'
  | '\\' => some '\\'
  | '/' => some '/'
  | 'b' => some '\x08'
  | 'f' => some '\x0c'
  | 'n' => some '\n'
  | 'r' => some '\r'
  | 't' => some '\t'
  | _ => none

def byteCount (cs : List Char) : Nat :=
  cs.foldr (fun c count => c.utf8Size + count) 0

def isLeadSurrogate (unit : Nat) : Bool :=
  0xD800 ≤ unit && unit ≤ 0xDBFF

def isTrailSurrogate (unit : Nat) : Bool :=
  0xDC00 ≤ unit && unit ≤ 0xDFFF

/-- Where a reader stands inside a string. -/
inductive StringState where
  | plain
  | escaped
  /-- Inside the four digits of an escape, after a leading surrogate or not. -/
  | hex (lead : Option Nat) (value : Nat) (digitsLeft : Nat)
  /-- After a leading surrogate: a second escape is due. -/
  | paired (lead : Nat)
  | pairedEscape (lead : Nat)

/-- What a finished four-digit escape means. Halves of surrogate pairs have to match,
unless the string is only skipped. -/
def finishHex (strict : Bool) (lead : Option Nat) (unit : Nat) :
    Except Fault (StringState × List Char) :=
  if !strict then .ok (.plain, [])
  else match lead with
    | none =>
      if isTrailSurrogate unit then .error .malformed
      else if isLeadSurrogate unit then .ok (.paired unit, [])
      else .ok (.plain, [Char.ofNat unit])
    | some lead =>
      if isTrailSurrogate unit then
        .ok (.plain, [Char.ofNat ((lead - 0xD800) * 0x400 + (unit - 0xDC00) + 0x10000)])
      else .error .malformed

/-- An escape of four digits starts only where four bytes are left. -/
def startHex (lead : Option Nat) (rest : List Char) : Except Fault (StringState × List Char) :=
  if byteCount rest < 4 then .error .truncated else .ok (.hex lead 0 4, [])

/-- One character inside a string: the next state and the characters it stands for. -/
def StringState.step (strict : Bool) (state : StringState) (c : Char) (rest : List Char) :
    Except Fault (StringState × List Char) :=
  match state with
  | .plain =>
    if c = '\\' then .ok (.escaped, [])
    else if c.toNat < 0x20 then .error .malformed
    else .ok (.plain, [c])
  | .escaped =>
    if c = 'u' then startHex none rest
    else match unescape? c with
      | some character => .ok (.plain, [character])
      | none => .error .malformed
  | .hex lead value digitsLeft =>
    match hexValue? c with
    | none => .error .malformed
    | some digit =>
      if digitsLeft ≤ 1 then finishHex strict lead (16 * value + digit)
      else .ok (.hex lead (16 * value + digit) (digitsLeft - 1), [])
  | .paired lead => if c = '\\' then .ok (.pairedEscape lead, []) else .error .malformed
  | .pairedEscape lead => if c = 'u' then startHex (some lead) rest else .error .malformed

def StringState.ends (state : StringState) (c : Char) : Bool :=
  match state with
  | .plain => c = '"'
  | _ => false

/-- The rest of a string up to its closing quote, and the text after it. -/
def stringFrom (state : StringState) : List Char → Except Fault (List Char × List Char)
  | [] => .error .truncated
  | c :: rest =>
    if state.ends c then .ok ([], rest)
    else do
      let (next, out) ← state.step true c rest
      let (text, rest) ← stringFrom next rest
      return (out ++ text, rest)

/-- A string whose opening quote has been read. -/
def stringBody : Scan String := fun cs => do
  let (text, rest) ← stringFrom .plain cs
  return (String.ofList text, rest)

/-! ### Numbers -/

/-- A nonempty run of digits, and the text after it. -/
def digitRun (cs : List Char) : Except Fault (List Char × List Char) :=
  match cs with
  | [] => .error .truncated
  | c :: _ =>
    if c.isDigit then .ok (cs.takeWhile Char.isDigit, cs.dropWhile Char.isDigit)
    else .error .malformed

/-- The whole part of a number: a zero that stands alone or digits without one in front. -/
def wholePart : Scan Nat := fun cs => do
  let (digits, rest) ← digitRun cs
  if digits.head? = some '0' ∧ digits.length > 1 then .error .malformed
  return (Nat.ofDigitChars 10 digits 0, rest)

def fractionPart : Scan (List (Fin 10)) := fun cs =>
  match cs with
  | '.' :: rest => do
    let (digits, rest) ← digitRun rest
    return (digits.map fun c => Fin.ofNat 10 (c.toNat - 48), rest)
  | _ => .ok ([], cs)

def exponentSign (cs : List Char) : Bool × List Char :=
  match cs with
  | '-' :: rest => (true, rest)
  | '+' :: rest => (false, rest)
  | _ => (false, cs)

def exponentPart : Scan (Option Int) := fun cs =>
  match cs with
  | c :: rest =>
    if c = 'e' ∨ c = 'E' then do
      let (negative, rest) := exponentSign rest
      let (digits, rest) ← digitRun rest
      let size := Int.ofNat (Nat.ofDigitChars 10 digits 0)
      return (some (if negative then -size else size), rest)
    else .ok (none, cs)
  | [] => .ok (none, cs)

end Json.Scan

namespace Numeral

/-- The digits of a numeral as one whole number, and the power of ten that belongs to it. -/
def scaled (numeral : Numeral) : Nat × Int :=
  (numeral.fraction.foldl (fun value d => 10 * value + d.val) numeral.whole,
    numeral.exponent.getD 0 - numeral.fraction.length)

/-- Leaves off last digits until 64 bits are enough, and how many were left off. -/
def leadingDigits (significand : Nat) : Nat × Nat :=
  if _hlarge : significand < UInt64.size then (significand, 0)
  else
    let (digits, dropped) := leadingDigits (significand / 10)
    (digits, dropped + 1)
termination_by significand
decreasing_by
  have hsize : UInt64.size = 18446744073709551616 := rfl
  omega

/-- A whole number to 53 binary digits, a tie to the even neighbour. -/
def roundToDouble (n : Nat) : Nat :=
  let unit := Nat.pow 2 (n.log2 - 52)
  let (quotient, rest) := (n / unit, n % unit)
  if 2 * rest > unit ∨ (2 * rest = unit ∧ quotient % 2 = 1) then (quotient + 1) * unit
  else quotient * unit

/-- Whether a numeral is beyond the range of double-precision numbers. Its digits and its
power of ten are each rounded, and their product must not round to 2^1024 or more. -/
def overflows (numeral : Numeral) : Bool :=
  let (significand, exponent) := numeral.scaled
  let (digits, dropped) := leadingDigits significand
  let power := exponent + dropped
  if digits = 0 ∨ power < 0 then false
  else if power > 308 then true
  else roundToDouble digits * roundToDouble (Nat.pow 10 power.toNat) ≥
    Nat.pow 2 1024 - Nat.pow 2 970

/-- The value of a numeral written without sign, point and exponent. -/
def natural? (numeral : Numeral) : Option Nat :=
  if numeral.negative ∨ numeral.fraction ≠ [] ∨ numeral.exponent.isSome then none
  else some numeral.whole

end Numeral

namespace Json.Scan

/-- A number whose first character has been seen and not read. -/
def number : Scan Numeral := do
  let negative := (← get).head? = some '-'
  if negative then advance
  let whole ← wholePart
  let fraction ← fractionPart
  let exponent ← exponentPart
  let numeral : Numeral := ⟨negative, whole, fraction, exponent⟩
  if numeral.overflows then throw .malformed
  return numeral

/-! ### Words and punctuation -/

/-- The rest of a fixed word. -/
def word : List Char → Scan Unit
  | [] => pure ()
  | expected :: rest => do
    match ← get with
    | [] => throw .truncated
    | c :: _ =>
      if c ≠ expected then throw .malformed
      advance
      word rest

def colon : Scan Unit := do
  match ← peek with
  | some ':' => advance
  | some _ => throw .malformed
  | none => throw .truncated

/-- Refuses the value that comes next because another shape was asked for. A word, a
number or a string is read first, and a fault inside it comes before the refusal. -/
def mismatch {α : Type} : Scan α := do
  match ← peek with
  | none => throw .truncated
  | some 'n' => word ['n', 'u', 'l', 'l']
  | some 't' => word ['t', 'r', 'u', 'e']
  | some 'f' => word ['f', 'a', 'l', 's', 'e']
  | some '"' => do advance; discard stringBody
  | some '[' | some '{' => pure ()
  | some c => if c = '-' ∨ c.isDigit then discard number else throw .malformed
  throw .mismatched

/-! ### Skipping a value -/

inductive Bracket where
  | list
  | object

/-- Where the skipping machine stands. -/
inductive SkipState where
  /-- A value is due. -/
  | value
  /-- A bracket has just been opened. -/
  | opened
  /-- The name of a member is due. -/
  | name
  | colon
  | string (state : StringState) (isName : Bool)
  /-- Inside a fixed word, of which these characters are left. -/
  | word (left : List Char)
  | minus
  | zero
  | whole
  | point
  | fraction
  | exponent
  | exponentSign
  | exponentDigits
  /-- A value has ended. -/
  | after

namespace SkipState

/-- A number ends before the first character that cannot belong to it. -/
def settle (state : SkipState) (c : Char) : SkipState :=
  let isExponent := c = 'e' || c = 'E'
  match state with
  | zero | whole => if c.isDigit || c = '.' || isExponent then state else after
  | fraction => if c.isDigit || isExponent then state else after
  | exponentDigits => if c.isDigit then state else after
  | _ => state

/-- What the end of the text means here, outside all brackets or inside one. -/
def atEnd (state : SkipState) (outside : Bool) : Except Fault Unit :=
  match state with
  | zero | whole | fraction | exponentDigits | after =>
    if outside then .ok () else .error .truncated
  | minus | point | exponent | exponentSign => .error .malformed
  | _ => .error .truncated

abbrev Step := Except Fault (List Bracket × SkipState)

def valueStep (brackets : List Bracket) (c : Char) : Step :=
  match c with
  | 'n' => .ok (brackets, word ['u', 'l', 'l'])
  | 't' => .ok (brackets, word ['r', 'u', 'e'])
  | 'f' => .ok (brackets, word ['a', 'l', 's', 'e'])
  | '-' => .ok (brackets, minus)
  | '0' => .ok (brackets, zero)
  | '"' => .ok (brackets, string .plain false)
  | '[' => .ok (.list :: brackets, opened)
  | '{' => .ok (.object :: brackets, opened)
  | c => if c.isDigit then .ok (brackets, whole) else .error .malformed

def nameStep (brackets : List Bracket) (c : Char) : Step :=
  if c = '"' then .ok (brackets, string .plain true) else .error .malformed

def openedStep (brackets : List Bracket) (c : Char) : Step :=
  match brackets with
  | .list :: outer => if c = ']' then .ok (outer, after) else valueStep brackets c
  | .object :: outer => if c = '}' then .ok (outer, after) else nameStep brackets c
  | [] => valueStep brackets c

def afterStep (brackets : List Bracket) (c : Char) : Step :=
  match brackets with
  | .list :: outer =>
    if c = ',' then .ok (brackets, value)
    else if c = ']' then .ok (outer, after)
    else .error .malformed
  | .object :: outer =>
    if c = ',' then .ok (brackets, name)
    else if c = '}' then .ok (outer, after)
    else .error .malformed
  | [] => .error .malformed

def step (brackets : List Bracket) (state : SkipState) (c : Char) (rest : List Char) : Step :=
  let blankOr (next : Step) : Step := if isBlank c then .ok (brackets, state) else next
  let digitTo (next : SkipState) : Step :=
    if c.isDigit then .ok (brackets, next) else .error .malformed
  let pointOrExponent : Step :=
    .ok (brackets, if c = '.' then point else exponent)
  match state with
  | value => blankOr (valueStep brackets c)
  | opened => blankOr (openedStep brackets c)
  | name => blankOr (nameStep brackets c)
  | colon => blankOr (if c = ':' then .ok (brackets, value) else .error .malformed)
  | string inner isName =>
    if inner.ends c then .ok (brackets, if isName then colon else after)
    else do
      let (inner, _) ← inner.step false c rest
      return (brackets, string inner isName)
  | word (expected :: left) =>
    if c ≠ expected then .error .malformed
    else .ok (brackets, if left.isEmpty then after else word left)
  | word [] => .error .malformed
  | minus => if c = '0' then .ok (brackets, zero) else digitTo whole
  | zero => if c.isDigit then .error .malformed else pointOrExponent
  | whole => if c.isDigit then .ok (brackets, whole) else pointOrExponent
  | point => digitTo fraction
  | fraction => if c.isDigit then .ok (brackets, fraction) else .ok (brackets, exponent)
  | exponent => if c = '+' ∨ c = '-' then .ok (brackets, exponentSign) else digitTo exponentDigits
  | exponentSign => digitTo exponentDigits
  | exponentDigits => digitTo exponentDigits
  | after => blankOr (afterStep brackets c)

end SkipState

/-- Runs the skipping machine to the end of the value it stands in. -/
def skipFrom (brackets : List Bracket) (state : SkipState) :
    List Char → Except Fault (List Char)
  | [] => do
    state.atEnd brackets.isEmpty
    return []
  | c :: rest =>
    match brackets, state.settle c with
    | [], .after => .ok (c :: rest)
    | brackets, settled => do
      let (brackets, next) ← settled.step brackets c rest
      skipFrom brackets next rest

/-- Skips one value of any kind. -/
def skipValue : Scan Unit := fun cs => do
  let rest ← skipFrom [] .value cs
  return ((), rest)

end Json.Scan

end RamFs
