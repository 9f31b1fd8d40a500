import RamFs.Proofs.Commands.Words

/-!
The language of scripts. A line is read by words: the name of a command, then its arguments,
whatever the whitespace between them. Only a text is more than a word: it is the rest of its line.
The forms of the commands are listed once, and a line is taken as a command exactly when it has one
of the forms.
-/

namespace RamFs

namespace Command

open Text

/-! ### The forms -/

/-- ASCII digits that write down an offset. -/
structure Digits (digits : List Char) (size : Nat) : Prop where
  not_empty : digits ≠ []
  digit : ∀ c ∈ digits, c.isDigit = true
  value : Nat.ofDigitChars 10 digits 0 = size
  fits : size < UInt64.size

/-- Digits, perhaps behind a plus sign. -/
def Numeral (word : String) (size : Nat) : Prop :=
  Digits word.toList size ∨ ∃ digits, word.toList = '+' :: digits ∧ Digits digits size

/-- The commands without a text, by their words. -/
inductive ByWords : List String → Command → Prop
  | makeDirectory (path : String) : ByWords ["mkdir", path] (makeDirectory path)
  | touch (path : String) : ByWords ["touch", path] (touch path)
  | print (path : String) : ByWords ["cat", path] (print path)
  | listRoot : ByWords ["ls"] (list "/")
  | list (path : String) : ByWords ["ls", path] (list path)
  | status (path : String) : ByWords ["stat", path] (status path)
  | copy (source target : String) (hplain : source ≠ "-f") :
      ByWords ["cp", source, target] (copy source target false)
  | copyForced (source target : String) :
      ByWords ["cp", "-f", source, target] (copy source target true)
  | move (source target : String) (hplain : source ≠ "-f") :
      ByWords ["mv", source, target] (move source target false)
  | moveForced (source target : String) :
      ByWords ["mv", "-f", source, target] (move source target true)
  | link (existing name : String) (hplain : existing ≠ "-s") :
      ByWords ["ln", existing, name] (link existing name)
  | symlink (target name : String) : ByWords ["ln", "-s", target, name] (symlink target name)
  | remove (path : String) : ByWords ["rm", path] (remove path)
  | truncate (path word : String) (size : Nat) (hsize : Numeral word size) :
      ByWords ["truncate", path, word] (truncate path size)
  | readLink (path : String) : ByWords ["readlink", path] (readLink path)
  | realPath (path : String) : ByWords ["realpath", path] (realPath path)

/-- After whitespace comes the word `path`, and the rest of the line is `text`, less one space that
may stand before it. -/
def PathThenText (rest : List Char) (path text : String) : Prop :=
  ∃ gap tail, rest = gap ++ (path.toList ++ tail) ∧ (∀ c ∈ gap, isBlank c = true) ∧
    IsWord path ∧ (∀ c ∈ tail.head?, isBlank c = true) ∧
    (tail = ' ' :: text.toList ∨ tail.head? ≠ some ' ' ∧ tail = text.toList)

/-- The same behind the word `name`. -/
def TextLine (name : String) (body : List Char) (path text : String) : Prop :=
  ∃ lead rest, body = lead ++ (name.toList ++ rest) ∧ (∀ c ∈ lead, isBlank c = true) ∧
    (∀ c ∈ rest.head?, isBlank c = true) ∧ PathThenText rest path text

/-- The command that a line stands for. -/
inductive Denotes (body : List Char) : Command → Prop
  | byWords {command : Command} (hwords : ByWords (words body) command) : Denotes body command
  | write {path text : String} (hline : TextLine "write" body path text) :
      Denotes body (write path text)
  | append {path text : String} (hline : TextLine "append" body path text) :
      Denotes body (append path text)

/-- A blank line or a comment. -/
def Silent (body : List Char) : Prop :=
  words body = [] ∨ ∃ name ∈ (words body).head?, name.toList.head? = some '#'

variable {rest tail cs body : List Char} {name path text flag first second what : String}
  {size value : Nat} {command : Command} {α β : Type}

/-! ### Sizes -/

theorem le_ofDigitChars (cs : List Char) (value : Nat) : value ≤ Nat.ofDigitChars 10 cs value := by
  induction cs generalizing value with
  | nil => rw [Nat.ofDigitChars_nil]
  | cons c cs ih =>
      rw [Nat.ofDigitChars_cons]
      exact le_trans (by omega) (ih _)

/-- Reading stops where the value passes the largest offset; digits behind that could only make it
larger. -/
theorem readDigits_eq_ok (hvalue : value ≤ maxOffset) :
    readDigits value cs = .ok size ↔
      (∀ c ∈ cs, c.isDigit = true) ∧ Nat.ofDigitChars 10 cs value = size ∧ size ≤ maxOffset := by
  induction cs generalizing value with
  | nil =>
      rw [Nat.ofDigitChars_nil]
      simp only [readDigits, List.not_mem_nil, false_implies, implies_true, true_and]
      constructor
      · intro h
        cases h
        exact ⟨rfl, hvalue⟩
      · rintro ⟨rfl, -⟩
        rfl
  | cons c cs ih =>
      have hzero : '0'.toNat = 48 := rfl
      rw [Nat.ofDigitChars_cons, List.forall_mem_cons, hzero]
      unfold readDigits
      by_cases hc : c.isDigit = true
      case neg => simp [hc]
      rw [if_neg (by simp [hc])]
      dsimp only
      generalize 10 * value + (c.toNat - 48) = larger
      by_cases hbig : larger > maxOffset
      case pos =>
        rw [if_pos hbig]
        constructor
        · intro h
          cases h
        · rintro ⟨-, rfl, hsize⟩
          exact absurd ((le_ofDigitChars cs larger).trans hsize) (Nat.not_le.2 hbig)
      case neg =>
        rw [if_neg hbig, ih (Nat.not_lt.1 hbig)]
        simp only [hc, true_and]

theorem digits_iff : Digits cs size ↔ cs ≠ [] ∧ readDigits 0 cs = .ok size := by
  have hlargest : size ≤ maxOffset ↔ size < UInt64.size := Nat.le_sub_one_iff_lt (by decide)
  rw [readDigits_eq_ok (Nat.zero_le _), hlargest]
  exact ⟨fun h => ⟨h.not_empty, h.digit, h.value, h.fits⟩,
    fun ⟨hne, hdigit, hvalue, hfits⟩ => ⟨hne, hdigit, hvalue, hfits⟩⟩

theorem not_digits_of_plus : ¬ Digits ('+' :: cs) size :=
  fun h => absurd (h.digit _ (List.mem_cons_self ..)) (by decide)

theorem parseSize_eq_ok : parseSize text = .ok size ↔ Numeral text size := by
  have hread (digits : List Char) :
      Except.mapError (fun cause => ["invalid size '" ++ text ++ "'", cause])
        (if digits.isEmpty then .error "invalid digit found in string" else readDigits 0 digits) =
          .ok size ↔ Digits digits size := by
    rw [digits_iff]
    cases digits with
    | nil => simp [Except.mapError]
    | cons c cs => cases readDigits 0 (c :: cs) <;> simp [Except.mapError]
  unfold parseSize Numeral
  dsimp only
  rw [hread]
  split
  case h_1 digits hplus =>
    rw [hplus]
    constructor
    · intro h
      exact .inr ⟨digits, rfl, h⟩
    · rintro (h | ⟨others, hothers, h⟩)
      · exact absurd h not_digits_of_plus
      · cases hothers
        exact h
  case h_2 hplain =>
    constructor
    · intro h
      exact .inl h
    · rintro (h | ⟨digits, hplus, -⟩)
      · exact h
      · exact absurd hplus (hplain digits)

/-! ### Arguments -/

theorem bind_eq_ok {outcome : Except Complaint α} {next : α → Except Complaint β} {answer : β} :
    outcome >>= next = .ok answer ↔ ∃ value, outcome = .ok value ∧ next value = .ok answer := by
  cases outcome with
  | error complaint => exact ⟨fun h => (by cases h), fun ⟨_, h, _⟩ => (by cases h)⟩
  | ok value =>
      exact ⟨fun h => ⟨value, rfl, h⟩, fun ⟨_, h, hnext⟩ => by cases h; exact hnext⟩

theorem word_eq_ok : word what rest = .ok (name, tail) ↔ nextWord? rest = some (name, tail) := by
  unfold word
  cases nextWord? rest with
  | none => exact ⟨fun h => (by cases h), fun h => (by cases h)⟩
  | some next => rw [Except.ok.injEq, Option.some.injEq]

/-- The words of a line are taken from the front. -/
theorem word_bind_eq_ok {next : String × List Char → Except Complaint β} {answer : β} :
    word what rest >>= next = .ok answer ↔
      ∃ name tail, nextWord? rest = some (name, tail) ∧ next (name, tail) = .ok answer := by
  rw [bind_eq_ok]
  exact ⟨fun ⟨(name, tail), h, hnext⟩ => ⟨name, tail, word_eq_ok.1 h, hnext⟩,
    fun ⟨name, tail, h, hnext⟩ => ⟨(name, tail), word_eq_ok.2 h, hnext⟩⟩

theorem noMore_eq_ok : noMore rest = .ok () ↔ words rest = [] := by
  rw [← nextWord?_eq_none]
  unfold noMore
  cases nextWord? rest with
  | none => exact ⟨fun _ => rfl, fun _ => rfl⟩
  | some next => exact ⟨fun h => (by cases h), fun h => (by cases h)⟩

/-- A command whose words have all been read. -/
theorem noMore_bind_eq_ok {made : Command} :
    (noMore rest >>= fun _ => pure made) = .ok command ↔ words rest = [] ∧ made = command := by
  rw [bind_eq_ok]
  constructor
  · rintro ⟨_, h, hmade⟩
    cases hmade
    exact ⟨noMore_eq_ok.1 h, rfl⟩
  · rintro ⟨h, rfl⟩
    exact ⟨(), noMore_eq_ok.2 h, rfl⟩

theorem onePath_eq_ok {make : String → Command} :
    onePath make rest = .ok command ↔ ∃ path, words rest = [path] ∧ make path = command := by
  unfold onePath
  rw [word_bind_eq_ok]
  constructor
  · rintro ⟨path, tail, hpath, h⟩
    obtain ⟨hend, rfl⟩ := noMore_bind_eq_ok.1 h
    exact ⟨path, words_eq_cons.2 ⟨tail, hpath, hend⟩, rfl⟩
  · rintro ⟨path, hwords, rfl⟩
    obtain ⟨tail, hpath, hend⟩ := words_eq_cons.1 hwords
    exact ⟨path, tail, hpath, noMore_bind_eq_ok.2 ⟨hend, rfl⟩⟩

theorem twoWords_eq_ok (make : String → String → Command) :
    (do
      let (a, rest) ← word first rest
      let (b, rest) ← word second rest
      noMore rest
      return make a b) = .ok command ↔ ∃ a b, words rest = [a, b] ∧ make a b = command := by
  rw [word_bind_eq_ok]
  constructor
  · rintro ⟨a, middle, ha, h⟩
    obtain ⟨b, tail, hb, h⟩ := word_bind_eq_ok.1 h
    obtain ⟨hend, rfl⟩ := noMore_bind_eq_ok.1 h
    exact ⟨a, b, words_eq_cons.2 ⟨middle, ha, words_eq_cons.2 ⟨tail, hb, hend⟩⟩, rfl⟩
  · rintro ⟨a, b, hwords, rfl⟩
    obtain ⟨middle, ha, hwords⟩ := words_eq_cons.1 hwords
    obtain ⟨tail, hb, hend⟩ := words_eq_cons.1 hwords
    exact ⟨a, middle, ha, word_bind_eq_ok.2 ⟨b, tail, hb, noMore_bind_eq_ok.2 ⟨hend, rfl⟩⟩⟩

theorem takeFlag_cases (flag : String) (rest : List Char) :
    (∃ tail, words rest = flag :: words tail ∧ takeFlag flag rest = (true, tail)) ∨
      (∀ name ∈ (words rest).head?, name ≠ flag) ∧ takeFlag flag rest = (false, rest) := by
  unfold takeFlag
  cases hnext : nextWord? rest with
  | none =>
      rw [nextWord?_eq_none.1 hnext]
      exact .inr ⟨fun name hname => (by cases hname), rfl⟩
  | some next =>
      obtain ⟨name, tail⟩ := next
      have hwords := words_of_nextWord? hnext
      by_cases hflag : name = flag
      case pos =>
        subst hflag
        exact .inl ⟨tail, hwords, if_pos rfl⟩
      case neg =>
        rw [hwords]
        exact .inr ⟨fun first hfirst => by cases hfirst; exact hflag, if_neg hflag⟩

/-- A flag is only looked for before the other words, and there it is never one of them. -/
theorem flagAndTwo_eq_ok {make : Bool → String → String → Command} :
    flagAndTwo flag first second make rest = .ok command ↔
      (∃ a b, words rest = [a, b] ∧ a ≠ flag ∧ make false a b = command) ∨
        ∃ a b, words rest = [flag, a, b] ∧ make true a b = command := by
  unfold flagAndTwo
  obtain ⟨tail, hwords, htaken⟩ | ⟨hplain, htaken⟩ := takeFlag_cases flag rest
  case inl =>
    rw [htaken, hwords]
    refine (twoWords_eq_ok (make true)).trans ⟨?_, ?_⟩
    · rintro ⟨a, b, hab, hmade⟩
      exact .inr ⟨a, b, by rw [hab], hmade⟩
    · rintro (⟨a, b, hab, hflag, -⟩ | ⟨a, b, hab, hmade⟩)
      · exact absurd (List.cons.inj hab).1.symm hflag
      · exact ⟨a, b, (List.cons.inj hab).2, hmade⟩
  case inr =>
    rw [htaken]
    refine (twoWords_eq_ok (make false)).trans ⟨?_, ?_⟩
    · rintro ⟨a, b, hab, hmade⟩
      exact .inl ⟨a, b, hab, hplain a (by rw [hab]; rfl), hmade⟩
    · rintro (⟨a, b, hab, -, hmade⟩ | ⟨a, b, hab, -⟩)
      · exact ⟨a, b, hab, hmade⟩
      · exact absurd rfl (hplain flag (by rw [hab]; rfl))

theorem tailText_eq :
    tailText tail = text ↔
      tail = ' ' :: text.toList ∨ tail.head? ≠ some ' ' ∧ tail = text.toList := by
  unfold tailText
  split
  case h_1 later =>
    constructor
    · rintro rfl
      exact .inl (by rw [String.toList_ofList])
    · rintro (h | ⟨h, -⟩)
      · rw [(List.cons.inj h).2, String.ofList_toList]
      · exact absurd rfl h
  case h_2 hplain =>
    constructor
    · rintro rfl
      refine .inr ⟨fun h => ?_, String.toList_ofList.symm⟩
      obtain ⟨later, hlater⟩ := List.head?_eq_some_iff.1 h
      exact hplain later hlater
    · rintro (h | ⟨-, h⟩)
      · exact absurd h (hplain _)
      · rw [h, String.ofList_toList]

/-- A text is whatever is left of the line. -/
theorem pathAndText_eq_ok {make : String → String → Command} :
    pathAndText make rest = .ok command ↔
      ∃ path text, PathThenText rest path text ∧ make path text = command := by
  unfold pathAndText
  rw [word_bind_eq_ok]
  constructor
  · rintro ⟨path, tail, hpath, h⟩
    cases h
    obtain ⟨gap, hrest, hgap, hword, htail⟩ := nextWord?_eq_some.1 hpath
    exact ⟨path, tailText tail, ⟨gap, tail, hrest, hgap, hword, htail, tailText_eq.1 rfl⟩, rfl⟩
  · rintro ⟨path, text, ⟨gap, tail, hrest, hgap, hword, htail, htext⟩, rfl⟩
    obtain rfl := tailText_eq.2 htext
    exact ⟨path, tail, nextWord?_eq_some.2 ⟨gap, hrest, hgap, hword, htail⟩, rfl⟩

theorem exists_pathThenText :
    (∃ text, PathThenText rest path text) ↔ ∃ more, words rest = path :: more := by
  constructor
  · rintro ⟨text, gap, tail, hrest, hgap, hword, htail, -⟩
    exact ⟨_, words_of_nextWord? (nextWord?_eq_some.2 ⟨gap, hrest, hgap, hword, htail⟩)⟩
  · rintro ⟨more, hwords⟩
    obtain ⟨tail, hpath, -⟩ := words_eq_cons.1 hwords
    obtain ⟨gap, hrest, hgap, hword, htail⟩ := nextWord?_eq_some.1 hpath
    exact ⟨tailText tail, gap, tail, hrest, hgap, hword, htail, tailText_eq.1 rfl⟩

/-! ### Lines -/

theorem list_eq_ok :
    ofWords "ls" rest = .ok command ↔
      words rest = [] ∧ list "/" = command ∨ ∃ path, words rest = [path] ∧ list path = command := by
  rw [← nextWord?_eq_none, ← onePath_eq_ok, ofWords]
  cases hnext : nextWord? rest with
  | none =>
      have hwords := nextWord?_eq_none.1 hnext
      rw [Except.ok.injEq, onePath_eq_ok, hwords]
      simp
  | some next => simp

theorem truncate_eq_ok :
    ofWords "truncate" rest = .ok command ↔
      ∃ path word size, words rest = [path, word] ∧ Numeral word size ∧
        truncate path size = command := by
  rw [ofWords, word_bind_eq_ok]
  constructor
  · rintro ⟨path, middle, hpath, h⟩
    obtain ⟨text, tail, htext, h⟩ := word_bind_eq_ok.1 h
    obtain ⟨size, hsize, h⟩ := bind_eq_ok.1 h
    obtain ⟨hend, rfl⟩ := noMore_bind_eq_ok.1 h
    have hwords := words_eq_cons.2 ⟨middle, hpath, words_eq_cons.2 ⟨tail, htext, hend⟩⟩
    exact ⟨path, text, size, hwords, parseSize_eq_ok.1 hsize, rfl⟩
  · rintro ⟨path, text, size, hwords, hsize, rfl⟩
    obtain ⟨middle, hpath, hwords⟩ := words_eq_cons.1 hwords
    obtain ⟨tail, htext, hend⟩ := words_eq_cons.1 hwords
    refine ⟨path, middle, hpath, word_bind_eq_ok.2 ⟨text, tail, htext, ?_⟩⟩
    exact bind_eq_ok.2 ⟨size, parseSize_eq_ok.2 hsize, noMore_bind_eq_ok.2 ⟨hend, rfl⟩⟩

/-- What may follow the name of a command. -/
theorem ofWords_eq_ok :
    ofWords name rest = .ok command ↔ ByWords (name :: words rest) command ∨
      ∃ path text, PathThenText rest path text ∧
        (name = "write" ∧ write path text = command ∨
          name = "append" ∧ append path text = command) := by
  constructor
  · intro h
    unfold ofWords at h
    split at h
    case h_3 | h_4 =>
      obtain ⟨path, text, hrest, rfl⟩ := pathAndText_eq_ok.1 h
      exact .inr ⟨path, text, hrest, by simp⟩
    case h_1 | h_2 | h_5 | h_7 | h_11 | h_13 | h_14 =>
      obtain ⟨path, hwords, rfl⟩ := onePath_eq_ok.1 h
      rw [hwords]
      exact .inl (by constructor)
    case h_6 =>
      obtain ⟨hwords, rfl⟩ | ⟨path, hwords, rfl⟩ := list_eq_ok.1 h
      · rw [hwords]
        exact .inl .listRoot
      · rw [hwords]
        exact .inl (.list path)
    case h_8 | h_9 | h_10 =>
      obtain ⟨a, b, hwords, hplain, rfl⟩ | ⟨a, b, hwords, rfl⟩ := flagAndTwo_eq_ok.1 h
      · rw [hwords]
        exact .inl (by constructor; exact hplain)
      · rw [hwords]
        exact .inl (by constructor)
    case h_12 =>
      obtain ⟨path, word, size, hwords, hsize, rfl⟩ := truncate_eq_ok.1 h
      rw [hwords]
      exact .inl (.truncate path word size hsize)
    case h_15 => cases h
  · rintro (h | ⟨path, text, hrest, ⟨rfl, rfl⟩ | ⟨rfl, rfl⟩⟩)
    · generalize hwords : words rest = later at h
      cases h
      case makeDirectory path | touch path | print path | status path | remove path |
          readLink path | realPath path =>
        exact onePath_eq_ok.2 ⟨path, hwords, rfl⟩
      case listRoot => exact list_eq_ok.2 (.inl ⟨hwords, rfl⟩)
      case list path => exact list_eq_ok.2 (.inr ⟨path, hwords, rfl⟩)
      case copy a b hplain | move a b hplain | link a b hplain =>
        rw [ofWords, flagAndTwo_eq_ok]
        exact .inl ⟨a, b, hwords, hplain, rfl⟩
      case copyForced a b | moveForced a b | symlink a b =>
        rw [ofWords, flagAndTwo_eq_ok]
        exact .inr ⟨a, b, hwords, rfl⟩
      case truncate path word size hsize =>
        exact truncate_eq_ok.2 ⟨path, word, size, hwords, hsize, rfl⟩
    · exact pathAndText_eq_ok.2 ⟨path, text, hrest, rfl⟩
    · exact pathAndText_eq_ok.2 ⟨path, text, hrest, rfl⟩

theorem textLine_iff (hname : IsWord name) :
    TextLine name body path text ↔
      ∃ rest, nextWord? body = some (name, rest) ∧ PathThenText rest path text := by
  constructor
  · rintro ⟨lead, rest, hbody, hlead, hrest, htext⟩
    exact ⟨rest, nextWord?_eq_some.2 ⟨lead, hbody, hlead, hname, hrest⟩, htext⟩
  · rintro ⟨rest, hnext, htext⟩
    obtain ⟨lead, hbody, hlead, -, hrest⟩ := nextWord?_eq_some.1 hnext
    exact ⟨lead, rest, hbody, hlead, hrest, htext⟩

/-- Any path may be followed by a text, if only by an empty one. -/
theorem exists_textLine (hname : IsWord name) :
    (∃ text, TextLine name body path text) ↔ ∃ more, words body = name :: path :: more := by
  constructor
  · rintro ⟨text, hline⟩
    obtain ⟨rest, hnext, htext⟩ := (textLine_iff hname).1 hline
    obtain ⟨more, hwords⟩ := exists_pathThenText.1 ⟨text, htext⟩
    exact ⟨more, words_eq_cons.2 ⟨rest, hnext, hwords⟩⟩
  · rintro ⟨more, hwords⟩
    obtain ⟨rest, hnext, hwords⟩ := words_eq_cons.1 hwords
    obtain ⟨text, htext⟩ := exists_pathThenText.2 ⟨more, hwords⟩
    exact ⟨text, (textLine_iff hname).2 ⟨rest, hnext, htext⟩⟩

theorem isWord_write : IsWord "write" := by decide

theorem isWord_append : IsWord "append" := by decide

theorem denotes_iff (hnext : nextWord? body = some (name, rest)) :
    Denotes body command ↔ ofWords name rest = .ok command := by
  have hwords := words_of_nextWord? hnext
  rw [ofWords_eq_ok]
  constructor
  · rintro (h | h | h)
    case byWords => exact .inl (hwords ▸ h)
    case write path text =>
      obtain ⟨others, hothers, htext⟩ := (textLine_iff isWord_write).1 h
      cases hnext.symm.trans hothers
      exact .inr ⟨path, text, htext, .inl ⟨rfl, rfl⟩⟩
    case append path text =>
      obtain ⟨others, hothers, htext⟩ := (textLine_iff isWord_append).1 h
      cases hnext.symm.trans hothers
      exact .inr ⟨path, text, htext, .inr ⟨rfl, rfl⟩⟩
  · rintro (h | ⟨path, text, htext, ⟨rfl, rfl⟩ | ⟨rfl, rfl⟩⟩)
    · exact .byWords (hwords ▸ h)
    · exact .write ((textLine_iff isWord_write).2 ⟨rest, hnext, htext⟩)
    · exact .append ((textLine_iff isWord_append).2 ⟨rest, hnext, htext⟩)

theorem not_denotes_of_blank (hblank : nextWord? body = none) : ¬ Denotes body command := by
  rintro (h | h | h)
  case byWords =>
    rw [nextWord?_eq_none.1 hblank] at h
    cases h
  case write =>
    obtain ⟨rest, hnext, -⟩ := (textLine_iff isWord_write).1 h
    cases hblank.symm.trans hnext
  case append =>
    obtain ⟨rest, hnext, -⟩ := (textLine_iff isWord_append).1 h
    cases hblank.symm.trans hnext

/-- No command has a name that starts a comment. -/
theorem ofWords_comment (hname : name.toList.head? = some '#') :
    ofWords name rest ≠ .ok command := by
  intro h
  obtain h | ⟨path, text, -, ⟨rfl, -⟩ | ⟨rfl, -⟩⟩ := ofWords_eq_ok.1 h
  case inl =>
    generalize words rest = later at h
    cases h <;> cases hname
  case inr.inl => cases hname
  case inr.inr => cases hname

theorem silent_iff (hnext : nextWord? body = some (name, rest)) :
    Silent body ↔ name.toList.head? = some '#' := by
  unfold Silent
  rw [words_of_nextWord? hnext, List.head?_cons]
  simp

section Parse

variable {line : List Char}
  (hbody : dropTailWhile (fun c => c = '\r' || c = '\n') line = body)

include hbody

theorem parse_of_blank (hblank : nextWord? body = none) : parse line = .ok none := by
  unfold parse
  rw [hbody, hblank]

theorem parse_of_word (hnext : nextWord? body = some (name, rest)) :
    parse line =
      if name.toList.head? = some '#' then .ok none else some <$> ofWords name rest := by
  unfold parse
  rw [hbody, hnext]

theorem parse_eq_ok_none : parse line = .ok none ↔ Silent body := by
  cases hnext : nextWord? body with
  | none => exact iff_of_true (parse_of_blank hbody hnext) (.inl (nextWord?_eq_none.1 hnext))
  | some next =>
      obtain ⟨name, rest⟩ := next
      rw [parse_of_word hbody hnext, silent_iff hnext]
      split
      case isTrue hcomment => exact iff_of_true rfl hcomment
      case isFalse hcomment =>
        refine iff_of_false (fun h => ?_) hcomment
        cases hread : ofWords name rest with
        | error complaint => rw [hread] at h; cases h
        | ok command => rw [hread] at h; cases h

theorem parse_eq_ok_some : parse line = .ok (some command) ↔ Denotes body command := by
  cases hnext : nextWord? body with
  | none =>
      rw [parse_of_blank hbody hnext]
      exact iff_of_false (fun h => by cases h) (not_denotes_of_blank hnext)
  | some next =>
      obtain ⟨name, rest⟩ := next
      rw [parse_of_word hbody hnext, denotes_iff hnext]
      split
      case isTrue hcomment =>
        exact iff_of_false (fun h => by cases h) (ofWords_comment hcomment)
      case isFalse hcomment =>
        cases ofWords name rest with
        | error complaint => exact iff_of_false (fun h => by cases h) (fun h => by cases h)
        | ok made => exact ⟨fun h => by cases h; rfl, fun h => by cases h; rfl⟩

theorem parse_eq_ok_write :
    parse line = .ok (some (write path text)) ↔ TextLine "write" body path text := by
  rw [parse_eq_ok_some hbody]
  constructor
  · rintro (h | h | h)
    case byWords =>
      generalize words body = spoken at h
      cases h
    case write => exact h
  · exact .write

theorem parse_eq_ok_append :
    parse line = .ok (some (append path text)) ↔ TextLine "append" body path text := by
  rw [parse_eq_ok_some hbody]
  constructor
  · rintro (h | h | h)
    case byWords =>
      generalize words body = spoken at h
      cases h
    case append => exact h
  · exact .append

theorem parse_eq_error :
    (∃ complaint, parse line = .error complaint) ↔
      ¬ Silent body ∧ ∀ command, ¬ Denotes body command := by
  simp only [← parse_eq_ok_none hbody, ← parse_eq_ok_some hbody]
  cases parse line with
  | error complaint => simp
  | ok outcome => cases outcome <;> simp

end Parse

/-- The script language is read by its grammar and in no other way: a line without its line end is
blank or a comment, or it has the form of the one command that is read from it, or it is refused. A
text may follow any path, so that a write and an append ask for a path and no more. -/
theorem lines_read_by_grammar (line : List Char) :
    ∃ body lineEnd, line = body ++ lineEnd ∧ (∀ c ∈ lineEnd, c = '\r' ∨ c = '\n') ∧
      (∀ c ∈ body.getLast?, c ≠ '\r' ∧ c ≠ '\n') ∧
      (parse line = .ok none ↔ Silent body) ∧
      (∀ command, parse line = .ok (some command) ↔ Denotes body command) ∧
      ((∃ complaint, parse line = .error complaint) ↔
        ¬ Silent body ∧ ∀ command, ¬ Denotes body command) ∧
      (∀ path, (∃ text, parse line = .ok (some (write path text))) ↔
        ∃ more, words body = "write" :: path :: more) ∧
      ∀ path, (∃ text, parse line = .ok (some (append path text))) ↔
        ∃ more, words body = "append" :: path :: more := by
  obtain ⟨body, hbody⟩ : ∃ body, dropTailWhile (fun c => c = '\r' || c = '\n') line = body :=
    ⟨_, rfl⟩
  obtain ⟨lineEnd, hline, hend, hlast⟩ := dropTailWhile_eq_iff.1 hbody
  refine ⟨body, lineEnd, hline, fun c hc => ?_, fun c hc => ?_, parse_eq_ok_none hbody,
    fun command => parse_eq_ok_some hbody, parse_eq_error hbody, fun path => ?_, fun path => ?_⟩
  · simpa using hend c hc
  · simpa using hlast c hc
  · simp only [parse_eq_ok_write hbody]
    exact exists_textLine isWord_write
  · simp only [parse_eq_ok_append hbody]
    exact exists_textLine isWord_append

example : parse "cp -f -f  b\r\n".toList = .ok (some (copy "-f" "b" true)) := by rfl

end Command

end RamFs
