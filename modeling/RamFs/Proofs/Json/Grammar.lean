import RamFs.Json.Value

/-!
The texts of a JSON value. Whitespace may stand around every part, a character of a string may be
written as it is or escaped, and the members of an object stand in their order. A value has many
texts; the compact one is among them.
-/

namespace RamFs.Json

/-- Whitespace, or nothing. -/
def IsSpace (cs : List Char) : Prop :=
  ∀ c ∈ cs, c = ' ' ∨ c = '\t' ∨ c = '\n' ∨ c = '\r'

instance : DecidablePred IsSpace := fun cs => List.decidableBAll _ cs

/-! ### Strings -/

/-- The digit of a value below sixteen, in small or in capital letters. -/
def IsHexDigit (value : Nat) (c : Char) : Prop :=
  value < 16 ∧ (c = value.digitChar ∨ c = value.digitChar.toUpper)

/-- Four digits that write down sixteen bits. -/
inductive IsUnit (unit : Nat) : List Char → Prop where
  | digits {a b c d : Char} :
      IsHexDigit (unit / 4096) a → IsHexDigit (unit / 256 % 16) b →
      IsHexDigit (unit / 16 % 16) c → IsHexDigit (unit % 16) d → IsUnit unit [a, b, c, d]

/-- The characters that have an escape of one letter, and that letter. -/
def escapeLetters : List (Char × Char) :=
  [('"', '"'), ('\\', '\\'), ('/', '/'), ('\x08', 'b'), ('\x0c', 'f'), ('\n', 'n'), ('\r', 'r'),
    ('\t', 't')]

/-- The ways to write a character of a string. One beyond sixteen bits is escaped as two units, of
ten bits each. -/
inductive WritesChar (c : Char) : List Char → Prop where
  | plain : c ≠ '"' → c ≠ '\\' → 0x20 ≤ c.toNat → WritesChar c [c]
  | letter {e : Char} : (c, e) ∈ escapeLetters → WritesChar c ['\\', e]
  | unit {digits : List Char} : IsUnit c.toNat digits → WritesChar c ('\\' :: 'u' :: digits)
  | pair {lead trail : List Char} : 0x10000 ≤ c.toNat →
      IsUnit (0xD800 + (c.toNat - 0x10000) / 0x400) lead →
      IsUnit (0xDC00 + (c.toNat - 0x10000) % 0x400) trail →
      WritesChar c ('\\' :: 'u' :: (lead ++ '\\' :: 'u' :: trail))

inductive WritesChars : List Char → List Char → Prop where
  | nil : WritesChars [] []
  | cons {c : Char} {cs piece rest : List Char} :
      WritesChar c piece → WritesChars cs rest → WritesChars (c :: cs) (piece ++ rest)

/-! ### Numbers -/

inductive WritesFraction : List (Fin 10) → List Char → Prop where
  | none : WritesFraction [] []
  | point {digits : List (Fin 10)} : digits ≠ [] →
      WritesFraction digits ('.' :: digits.map fun d => Nat.digitChar d.val)

/-- An exponent may have zeros in front, and a plus sign. -/
inductive WritesExponent : Option Int → List Char → Prop where
  | none : WritesExponent none []
  | plain {mark : Char} {sign digits : List Char} : mark = 'e' ∨ mark = 'E' →
      sign = [] ∨ sign = ['+'] → digits ≠ [] → (∀ c ∈ digits, c.isDigit = true) →
      WritesExponent (some (Nat.ofDigitChars 10 digits 0)) (mark :: (sign ++ digits))
  | minus {mark : Char} {digits : List Char} : mark = 'e' ∨ mark = 'E' →
      digits ≠ [] → (∀ c ∈ digits, c.isDigit = true) →
      WritesExponent (some (-Nat.ofDigitChars 10 digits 0)) (mark :: '-' :: digits)

inductive WritesNumeral (numeral : Numeral) : List Char → Prop where
  | parts {fraction exponent : List Char} :
      WritesFraction numeral.fraction fraction → WritesExponent numeral.exponent exponent →
      WritesNumeral numeral ((if numeral.negative then ['-'] else []) ++
        (Nat.toDigits 10 numeral.whole ++ (fraction ++ exponent)))

/-! ### Values -/

/-- What a stretch of a text stands for: a value, a member of an object, or all that is between the
brackets of a list or an object. -/
inductive Phrase where
  | value (value : Json)
  | member (name : String) (value : Json)
  | items (items : List Json)
  | members (members : List (String × Json))

inductive Writes : Phrase → List Char → Prop where
  | null : Writes (.value .null) ['n', 'u', 'l', 'l']
  | yes : Writes (.value (.bool true)) ['t', 'r', 'u', 'e']
  | no : Writes (.value (.bool false)) ['f', 'a', 'l', 's', 'e']
  | number {numeral : Numeral} {text : List Char} :
      WritesNumeral numeral text → Writes (.value (.number numeral)) text
  | string {value : String} {text : List Char} :
      WritesChars value.toList text → Writes (.value (.string value)) ('"' :: (text ++ ['"']))
  | array {items : List Json} {text : List Char} :
      Writes (.items items) text → Writes (.value (.array items)) ('[' :: (text ++ [']']))
  | object {members : List (String × Json)} {text : List Char} :
      Writes (.members members) text → Writes (.value (.object members)) ('{' :: (text ++ ['}']))
  | member {name : String} {value : Json} {quoted before after text : List Char} :
      WritesChars name.toList quoted → IsSpace before → IsSpace after →
      Writes (.value value) text →
      Writes (.member name value) ('"' :: (quoted ++ '"' :: (before ++ ':' :: (after ++ text))))
  | noItem {space : List Char} : IsSpace space → Writes (.items []) space
  | lastItem {item : Json} {before text after : List Char} :
      IsSpace before → Writes (.value item) text → IsSpace after →
      Writes (.items [item]) (before ++ (text ++ after))
  | nextItem {item : Json} {items : List Json} {before text after rest : List Char} :
      IsSpace before → Writes (.value item) text → IsSpace after → items ≠ [] →
      Writes (.items items) rest →
      Writes (.items (item :: items)) (before ++ (text ++ (after ++ ',' :: rest)))
  | noMember {space : List Char} : IsSpace space → Writes (.members []) space
  | lastMember {name : String} {value : Json} {before text after : List Char} :
      IsSpace before → Writes (.member name value) text → IsSpace after →
      Writes (.members [(name, value)]) (before ++ (text ++ after))
  | nextMember {name : String} {value : Json} {members : List (String × Json)}
      {before text after rest : List Char} :
      IsSpace before → Writes (.member name value) text → IsSpace after → members ≠ [] →
      Writes (.members members) rest →
      Writes (.members ((name, value) :: members)) (before ++ (text ++ (after ++ ',' :: rest)))

/-- A whole text that stands for one value. -/
inductive Represents (value : Json) (text : String) : Prop where
  | text {before core after : List Char} : IsSpace before → Writes (.value value) core →
      IsSpace after → text.toList = before ++ (core ++ after) → Represents value text

/-! ### The compact text -/

variable {value : Nat}

theorem isSpace_nil : IsSpace [] := nofun

theorem isHexDigit_digitChar (h : value < 16) : IsHexDigit value value.digitChar := ⟨h, .inl rfl⟩

theorem isUnit_of_lt (h : value < 256) :
    IsUnit value ['0', '0', Nat.digitChar (value / 16), Nat.digitChar (value % 16)] := by
  have hhigh : value / 4096 = 0 := by omega
  have hhigh' : value / 256 % 16 = 0 := by omega
  have hlow : value / 16 % 16 = value / 16 := by omega
  refine .digits ?_ ?_ ?_ (isHexDigit_digitChar (Nat.mod_lt _ (by decide)))
  · rw [hhigh]
    exact isHexDigit_digitChar (by decide)
  · rw [hhigh']
    exact isHexDigit_digitChar (by decide)
  · rw [hlow]
    exact isHexDigit_digitChar (by omega)

theorem writesChar_escape (c : Char) : WritesChar c (escape c) := by
  unfold escape
  -- the letters first, then the other control characters
  iterate 7
    split
    case isTrue h =>
      subst h
      exact .letter (by decide)
  split
  case isTrue hcontrol => exact .unit (isUnit_of_lt (by omega))
  case isFalse hquote hslash _ _ _ _ _ hcontrol =>
    exact .plain hquote hslash (Nat.not_lt.1 hcontrol)

theorem writesChars_escape (cs : List Char) : WritesChars cs (cs.flatMap escape) := by
  induction cs with
  | nil => exact .nil
  | cons c cs ih => exact .cons (writesChar_escape c) ih

theorem writesNumeral_digits (numeral : Numeral) : WritesNumeral numeral numeral.digits := by
  have hdigit (n : Nat) : ∀ c ∈ Nat.toDigits 10 n, c.isDigit = true := fun c hc =>
    Nat.isDigit_of_mem_toDigits (by decide) (by decide) hc
  unfold Numeral.digits
  rw [List.append_assoc, List.append_assoc]
  refine .parts ?_ ?_
  · split
    case h_1 hnone =>
      rw [hnone]
      exact .none
    case h_2 hsome => exact .point hsome
  · split
    case h_1 hnone =>
      rw [hnone]
      exact .none
    case h_2 n hsome =>
      have h := WritesExponent.plain (.inl rfl) (.inl rfl) Nat.toDigits_ne_nil (hdigit n)
      rw [Nat.ofDigitChars_ten_toDigits] at h
      rw [hsome]
      exact h
    case h_3 n hsome =>
      have h := WritesExponent.minus (.inl rfl) Nat.toDigits_ne_nil (hdigit (n + 1))
      rw [Nat.ofDigitChars_ten_toDigits] at h
      rw [hsome]
      exact h

theorem writes_quote (text : String) : Writes (.value (.string text)) (quote text) :=
  .string (writesChars_escape text.toList)

theorem Writes.named {value : Json} {text : List Char} (h : Writes (.value value) text)
    (name : String) : Writes (.member name value) (quote name ++ ':' :: text) := by
  have hmember := Writes.member (writesChars_escape name.toList) isSpace_nil isSpace_nil h
  rw [quote, List.cons_append, List.cons_append, List.append_assoc]
  exact hmember

mutual

theorem writes_chars : ∀ value : Json, Writes (.value value) value.chars
  | null => .null
  | bool true => .yes
  | bool false => .no
  | number numeral => .number (writesNumeral_digits numeral)
  | string value => writes_quote value
  | array items => .array (writes_itemChars items)
  | object members => .object (writes_memberChars members)

theorem writes_itemChars : ∀ items : List Json, Writes (.items items) (itemChars items)
  | [] => .noItem isSpace_nil
  | [item] => by
    have h := Writes.lastItem isSpace_nil (writes_chars item) isSpace_nil
    rwa [List.append_nil] at h
  | item :: next :: items =>
    .nextItem isSpace_nil (writes_chars item) isSpace_nil (List.cons_ne_nil _ _)
      (writes_itemChars (next :: items))

theorem writes_memberChars :
    ∀ members : List (String × Json), Writes (.members members) (memberChars members)
  | [] => .noMember isSpace_nil
  | [(name, value)] => by
    have h := Writes.lastMember isSpace_nil ((writes_chars value).named name) isSpace_nil
    rwa [List.append_nil] at h
  | (name, value) :: next :: members =>
    .nextMember isSpace_nil ((writes_chars value).named name) isSpace_nil (List.cons_ne_nil _ _)
      (writes_memberChars (next :: members))

end

theorem represents_render (value : Json) : Represents value value.render := by
  refine .text isSpace_nil (writes_chars value) isSpace_nil ?_
  rw [render, String.toList_ofList, List.append_nil]
  rfl

end RamFs.Json
