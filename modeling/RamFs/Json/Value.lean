/-!
JSON values and their compact text. A number is kept as it is written: sign, whole
part, digits after the point and exponent. Members of an object keep their order.
-/

namespace RamFs

structure Numeral where
  negative : Bool := false
  whole : Nat
  /-- Digits after the point; none means that there is no point. -/
  fraction : List (Fin 10) := []
  exponent : Option Int := none
  deriving DecidableEq, Repr

inductive Json where
  | null
  | bool (value : Bool)
  | number (numeral : Numeral)
  | string (value : String)
  | array (items : List Json)
  | object (members : List (String × Json))

namespace Json

def natural (value : Nat) : Json :=
  .number { whole := value }

/-- A quote, a backslash and control characters are escaped, the usual five by their
letters. -/
def escape (c : Char) : List Char :=
  if c = '"' then ['\\', '"']
  else if c = '\\' then ['\\', '\\']
  else if c = '\x08' then ['\\', 'b']
  else if c = '\t' then ['\\', 't']
  else if c = '\n' then ['\\', 'n']
  else if c = '\x0c' then ['\\', 'f']
  else if c = '\r' then ['\\', 'r']
  else if c.toNat < 0x20 then
    ['\\', 'u', '0', '0', Nat.digitChar (c.toNat / 16), Nat.digitChar (c.toNat % 16)]
  else [c]

def quote (text : String) : List Char :=
  '"' :: text.toList.flatMap escape ++ ['"']

end Json

namespace Numeral

def digits (numeral : Numeral) : List Char :=
  (if numeral.negative then ['-'] else []) ++ Nat.toDigits 10 numeral.whole ++
    (match numeral.fraction with
      | [] => []
      | fraction => '.' :: fraction.map fun d => Nat.digitChar d.val) ++
    (match numeral.exponent with
      | none => []
      | some (.ofNat n) => 'e' :: Nat.toDigits 10 n
      | some (.negSucc n) => 'e' :: '-' :: Nat.toDigits 10 (n + 1))

end Numeral

namespace Json

mutual

def chars : Json → List Char
  | null => ['n', 'u', 'l', 'l']
  | bool true => ['t', 'r', 'u', 'e']
  | bool false => ['f', 'a', 'l', 's', 'e']
  | number numeral => numeral.digits
  | string value => quote value
  | array items => '[' :: itemChars items ++ [']']
  | object members => '{' :: memberChars members ++ ['}']

def itemChars : List Json → List Char
  | [] => []
  | [item] => item.chars
  | item :: rest => item.chars ++ ',' :: itemChars rest

def memberChars : List (String × Json) → List Char
  | [] => []
  | [(name, value)] => quote name ++ ':' :: value.chars
  | (name, value) :: rest => quote name ++ ':' :: value.chars ++ ',' :: memberChars rest

end

def render (value : Json) : String :=
  String.ofList value.chars

end Json

end RamFs
