import RamFs.Json.Scan

/-!
Reading JSON of a known shape: numbers of 32 bits, lists of strings, one of a set of
named choices, and records. A record is an object or a list: an object gives fields by
name, in any order, each at most once, and may hold members of other names, which are
skipped; a list gives the fields in their order and may stop early. Fields that are
not given keep the value the record starts with.
-/

namespace RamFs.Json.Scan

def uint32 : Scan UInt32 := do
  match ← peek with
  | some c =>
    if c = '-' ∨ c.isDigit then
      match (← number).natural? with
      | some n => if n < UInt32.size then return UInt32.ofNat n else throw .mismatched
      | none => throw .mismatched
    else mismatch
  | none => throw .truncated

def string : Scan String := do
  match ← peek with
  | some '"' => do advance; stringBody
  | _ => mismatch

/-! ### Items of a list, members of an object -/

/-- Whether another item comes in a list. The comma before it is read, the closing
bracket is not. -/
def hasItem (first : Bool) : Scan Bool := do
  match ← peek with
  | some ']' => return false
  | some c =>
    if first then return true
    else if c = ',' then
      advance
      match ← peek with
      | some ']' => throw .malformed
      | some _ => return true
      | none => throw .truncated
    else throw .malformed
  | none => throw .truncated

/-- Whether another member comes in an object. The comma before it and the quote that
opens its name are read, the closing bracket is not. -/
def hasMember (first : Bool) : Scan Bool := do
  match ← peek with
  | some '}' => return false
  | some c =>
    if first then opening c
    else if c = ',' then
      advance
      match ← peek with
      | some c => opening c
      | none => throw .truncated
    else throw .malformed
  | none => throw .truncated
where
  opening (c : Char) : Scan Bool := do
    if c ≠ '"' then throw .malformed
    advance
    return true

/-- The closing bracket `close`. -/
def closing (close : Char) : Scan Unit := do
  match ← peek with
  | some c => if c = close then advance else throw .malformed
  | none => throw .truncated

/-! ### Lists of strings -/

/-- Items of a list of strings up to its closing bracket. Each takes a character at
least, so that the length of the text is fuel enough. -/
def stringItems : Nat → Bool → Scan (List String)
  | 0, _ => throw .truncated
  | fuel + 1, first => do
    if ← hasItem first then
      let item ← string
      let items ← stringItems fuel false
      return item :: items
    else return []

def strings : Scan (List String) := do
  match ← peek with
  | some '[' => do
    advance
    let items ← stringItems ((← get).length + 1) true
    closing ']'
    return items
  | _ => mismatch

/-! ### Named choices -/

def choose {α : Type} (choices : List (String × α)) (name : String) : Scan α :=
  match choices.lookup name with
  | some choice => pure choice
  | none => throw .mismatched

def nullValue : Scan Unit := do
  match ← peek with
  | some 'n' => word ['n', 'u', 'l', 'l']
  | _ => mismatch

/-- One of the named choices: its name, or an object whose only member has that name
and the value null. -/
def choice {α : Type} (choices : List (String × α)) : Scan α := do
  match ← peek with
  | some '"' => do
    advance
    choose choices (← stringBody)
  | some '{' => do
    advance
    let chosen ← choose choices (← string)
    colon
    nullValue
    closing '}'
    return chosen
  | some _ => throw .malformed
  | none => throw .truncated

/-! ### Records -/

structure RecordField (ρ : Type) where
  name : String
  /-- Reads the field's value and says how it changes the record. -/
  read : Scan (ρ → ρ)

variable {ρ : Type}

def RecordField.of {α : Type} (name : String) (scan : Scan α) (set : α → ρ → ρ) : RecordField ρ :=
  ⟨name, set <$> scan⟩

/-- Fields of a record given as a list, in their order. -/
def fieldItems : List (RecordField ρ) → Bool → ρ → Scan ρ
  | [], _, record => return record
  | field :: fields, first, record => do
    if ← hasItem first then
      let update ← field.read
      fieldItems fields false (update record)
    else return record

/-- Fields of a record given as an object. Each member takes a character at least, so
that the length of the text is fuel enough. -/
def fieldMembers (fields : List (RecordField ρ)) : Nat → List String → Bool → ρ → Scan ρ
  | 0, _, _, _ => throw .truncated
  | fuel + 1, seen, first, record => do
    if ← hasMember first then
      let name ← stringBody
      match fields.find? (·.name == name) with
      | none =>
        colon
        skipValue
        fieldMembers fields fuel seen false record
      | some field =>
        if seen.contains name then throw .mismatched
        colon
        let update ← field.read
        fieldMembers fields fuel (name :: seen) false (update record)
    else return record

/-- A record that starts as `record`. -/
def recordFrom (fields : List (RecordField ρ)) (record : ρ) : Scan ρ := do
  match ← peek with
  | some '[' => do
    advance
    let record ← fieldItems fields true record
    closing ']'
    return record
  | some '{' => do
    advance
    let record ← fieldMembers fields ((← get).length + 1) [] true record
    closing '}'
    return record
  | _ => mismatch

/-- Reads a whole text as one value. -/
def readAll {α : Type} (scan : Scan α) (text : String) : Except Fault α := do
  let (value, rest) ← scan text.toList
  if rest.all isBlank then return value else throw .malformed

end RamFs.Json.Scan
