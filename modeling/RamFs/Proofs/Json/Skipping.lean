import RamFs.Proofs.Json.Strings

/-!
Values that are skipped. The skipping machine passes over any text of any value and stops right
behind it, however deep the value is nested and whatever its numbers and strings are.
-/

namespace RamFs.Json

namespace Scan

variable {cs before after space text rest digits fraction exponent : List Char} {c : Char}
  {n : Nat} {brackets brackets' outer : List Bracket} {state next settled : SkipState}
  {isName : Bool}

/-- What comes next is no part of a number. -/
def Stops (rest : List Char) : Prop :=
  ∀ c ∈ rest.head?, c.isDigit = false ∧ c ≠ '.' ∧ c ≠ 'e' ∧ c ≠ 'E'

theorem isBlank_of_isSpace (h : IsSpace space) : ∀ c ∈ space, isBlank c = true := by
  intro c hc
  rcases h c hc with rfl | rfl | rfl | rfl <;> rfl

theorem isBlank_of_isDigit (h : c.isDigit = true) : isBlank c = false := by
  unfold isBlank
  simp only [Bool.or_eq_false_iff, decide_eq_false_iff_not]
  refine ⟨⟨⟨?_, ?_⟩, ?_⟩, ?_⟩ <;> rintro rfl <;> cases h

theorem isDigit_of_mem_toDigits (n : Nat) : ∀ c ∈ Nat.toDigits 10 n, c.isDigit = true := fun _ hc =>
  Nat.isDigit_of_mem_toDigits (by decide) (by decide) hc

theorem exists_digit_of_toDigits (n : Nat) :
    ∃ c digits, Nat.toDigits 10 n = c :: digits ∧ c.isDigit = true := by
  obtain ⟨c, digits, hdigits⟩ := List.exists_cons_of_ne_nil (@Nat.toDigits_ne_nil n 10)
  have hc : c ∈ Nat.toDigits 10 n := hdigits ▸ List.mem_cons_self
  exact ⟨c, digits, hdigits, isDigit_of_mem_toDigits n c hc⟩

/-- There is no zero in front of other digits. -/
theorem toDigits_eq_cons (h : n ≠ 0) : ∃ d digits, Nat.toDigits 10 n = d :: digits ∧ d ≠ '0' := by
  induction n using Nat.strongRecOn with
  | ind n ih =>
      rcases Nat.lt_or_ge n 10 with hsmall | hlarge
      · rw [Nat.toDigits_of_lt_base hsmall]
        exact ⟨_, _, rfl, mt Nat.digitChar_eq_zero.1 h⟩
      · obtain ⟨d, digits, hdigits, hne⟩ := ih (n / 10) (by omega) (by omega)
        rw [Nat.toDigits_of_base_le (by decide) hlarge, hdigits]
        exact ⟨d, _, rfl, hne⟩

/-! ### Steps of the machine -/

theorem skipFrom_cons (hsettle : state.settle c = settled) (hgoes : settled ≠ .after ∨ brackets ≠ [])
    (hstep : settled.step brackets c rest = .ok (brackets', next)) :
    skipFrom brackets state (c :: rest) = skipFrom brackets' next rest := by
  conv => lhs; unfold skipFrom
  rw [hsettle]
  dsimp only
  split
  case h_1 => simp at hgoes
  case h_2 =>
    rw [hstep]
    rfl

theorem skipFrom_settles (h : state.settle c = .after) :
    skipFrom brackets state (c :: rest) = skipFrom brackets .after (c :: rest) := by
  unfold skipFrom
  rw [h]
  rfl

/-- The machine waits between the parts of a text and passes over whitespace. -/
inductive SkipState.Waits : SkipState → Prop where
  | value : Waits .value
  | opened : Waits .opened
  | name : Waits .name
  | colon : Waits .colon
  | after : Waits .after

theorem skipFrom_space (hstate : state.Waits) (hgoes : state ≠ .after ∨ brackets ≠ [])
    (hspace : IsSpace space) (rest : List Char) :
    skipFrom brackets state (space ++ rest) = skipFrom brackets state rest := by
  induction space with
  | nil => rfl
  | cons c space ih =>
      have hc : isBlank c = true := isBlank_of_isSpace hspace c List.mem_cons_self
      have hspace' : IsSpace space := fun d hd => hspace d (List.mem_cons_of_mem c hd)
      have hsettle : state.settle c = state := by cases hstate <;> rfl
      have hstep : state.step brackets c (space ++ rest) = .ok (brackets, state) := by
        cases hstate <;> exact if_pos hc
      rw [List.cons_append, skipFrom_cons hsettle hgoes hstep, ih hspace']

/-! ### Strings -/

theorem skipFrom_runs {inner last : StringState} {out : List Char}
    (h : inner.Runs false cs last rest out) :
    skipFrom brackets (.string inner isName) cs = skipFrom brackets (.string last isName) rest := by
  induction h with
  | done => rfl
  | @step inner next _ c rest _ _ _ hgoes hstep _ ih =>
      have hskip : SkipState.step brackets (.string inner isName) c rest =
          .ok (brackets, .string next isName) := by
        unfold SkipState.step
        dsimp only
        rw [if_neg (Bool.eq_false_iff.1 hgoes), hstep]
        rfl
      rw [skipFrom_cons rfl (.inl (by nofun)) hskip, ih]

theorem skipFrom_quoted {value : List Char} (h : WritesChars value text) (rest : List Char) :
    skipFrom brackets (.string .plain isName) (text ++ '"' :: rest) =
      skipFrom brackets (if isName then .colon else .after) rest := by
  obtain ⟨_, hruns, -⟩ := StringState.runs_writesChars false h ('"' :: rest)
  rw [skipFrom_runs hruns]
  exact skipFrom_cons rfl (.inl (by nofun)) rfl

/-! ### Numbers -/

/-- The machine reads digits and stays where it is. -/
inductive SkipState.Counts : SkipState → Prop where
  | whole : Counts .whole
  | fraction : Counts .fraction
  | exponentDigits : Counts .exponentDigits

theorem skipFrom_digits (hstate : state.Counts) (hdigits : ∀ c ∈ digits, c.isDigit = true)
    (rest : List Char) :
    skipFrom brackets state (digits ++ rest) = skipFrom brackets state rest := by
  induction digits with
  | nil => rfl
  | cons c digits ih =>
      obtain ⟨hc, hdigits⟩ := List.forall_mem_cons.1 hdigits
      have hsettle : state.settle c = state := by
        cases hstate <;> simp [SkipState.settle, hc]
      have hstep : state.step brackets c (digits ++ rest) = .ok (brackets, state) := by
        cases hstate <;> exact if_pos hc
      have hgoes : state ≠ .after := by cases hstate <;> nofun
      rw [List.cons_append, skipFrom_cons hsettle (.inl hgoes) hstep, ih hdigits]

/-- The first of several digits is due, and they are counted in the second state. -/
inductive SkipState.Expects : SkipState → SkipState → Prop where
  | fraction : Expects .point .fraction
  | exponent : Expects .exponent .exponentDigits
  | signed : Expects .exponentSign .exponentDigits

theorem skipFrom_first (hstate : state.Expects next) (hne : digits ≠ [])
    (hdigits : ∀ c ∈ digits, c.isDigit = true) (rest : List Char) :
    skipFrom brackets state (digits ++ rest) = skipFrom brackets next rest := by
  obtain ⟨c, more, rfl⟩ := List.exists_cons_of_ne_nil hne
  obtain ⟨hc, hmore⟩ := List.forall_mem_cons.1 hdigits
  have hsign : ¬(c = '+' ∨ c = '-') := by
    rintro (rfl | rfl) <;> cases hc
  have hstep : state.step brackets c (more ++ rest) = .ok (brackets, next) := by
    cases hstate with
    | fraction | signed => exact if_pos hc
    | exponent => exact (if_neg hsign).trans (if_pos hc)
  have hgoes : state ≠ .after := by cases hstate <;> nofun
  have hcounts : next.Counts := by cases hstate <;> constructor
  rw [List.cons_append, skipFrom_cons (by cases hstate <;> rfl) (.inl hgoes) hstep,
    skipFrom_digits hcounts hmore]

/-- The whole part of a number may end here. -/
inductive SkipState.Whole : SkipState → Prop where
  | zero : Whole .zero
  | whole : Whole .whole

theorem valueStep_digit (hdigit : c.isDigit = true) (hzero : c ≠ '0') :
    SkipState.valueStep brackets c = .ok (brackets, .whole) := by
  unfold SkipState.valueStep
  split
  case h_9 => exact if_pos hdigit
  all_goals first | exact absurd rfl hzero | cases hdigit

theorem skipFrom_whole (hstate : state = .value ∨ state = .minus) (n : Nat) (rest : List Char) :
    ∃ last : SkipState, last.Whole ∧
      skipFrom brackets state (Nat.toDigits 10 n ++ rest) = skipFrom brackets last rest := by
  by_cases hzero : n = 0
  case pos =>
    subst hzero
    refine ⟨.zero, .zero, ?_⟩
    rcases hstate with rfl | rfl <;> exact skipFrom_cons rfl (.inl (by nofun)) rfl
  case neg =>
    obtain ⟨d, digits, hdigits, hne⟩ := toDigits_eq_cons hzero
    obtain ⟨hd, hmore⟩ := List.forall_mem_cons.1 (hdigits ▸ isDigit_of_mem_toDigits n)
    refine ⟨.whole, .whole, ?_⟩
    rw [hdigits, List.cons_append, ← skipFrom_digits .whole hmore rest]
    rcases hstate with rfl | rfl
    · refine skipFrom_cons rfl (.inl (by nofun)) ?_
      exact (if_neg (by rw [isBlank_of_isDigit hd]; nofun)).trans (valueStep_digit hd hne)
    · refine skipFrom_cons rfl (.inl (by nofun)) ?_
      exact (if_neg hne).trans (if_pos hd)

theorem skipFrom_fraction (hstate : state.Whole) {digits : List (Fin 10)}
    (h : WritesFraction digits fraction) (rest : List Char) :
    ∃ last : SkipState, (last.Whole ∨ last = .fraction) ∧
      skipFrom brackets state (fraction ++ rest) = skipFrom brackets last rest := by
  cases h with
  | none => exact ⟨state, .inl hstate, rfl⟩
  | point hne =>
      have hdigits : ∀ c ∈ digits.map (fun d => Nat.digitChar d.val), c.isDigit = true := by
        simp [Nat.isDigit_digitChar]
      refine ⟨.fraction, .inr rfl, ?_⟩
      rw [List.cons_append, ← skipFrom_first .fraction (by simpa using hne) hdigits rest]
      cases hstate <;> exact skipFrom_cons rfl (.inl (by nofun)) rfl

/-- A number may end here. -/
def SkipState.Ends (state : SkipState) : Prop :=
  (state.Whole ∨ state = .fraction) ∨ state = .exponentDigits

theorem skipFrom_mark (hstate : state.Whole ∨ state = .fraction) (hmark : c = 'e' ∨ c = 'E')
    (rest : List Char) :
    skipFrom brackets state (c :: rest) = skipFrom brackets .exponent rest := by
  rcases hstate with hwhole | rfl
  · rcases hmark with rfl | rfl <;> cases hwhole <;> exact skipFrom_cons rfl (.inl (by nofun)) rfl
  · rcases hmark with rfl | rfl <;> exact skipFrom_cons rfl (.inl (by nofun)) rfl

theorem skipFrom_exponent (hstate : state.Whole ∨ state = .fraction) {power : Option Int}
    (h : WritesExponent power exponent) (rest : List Char) :
    ∃ last : SkipState, last.Ends ∧
      skipFrom brackets state (exponent ++ rest) = skipFrom brackets last rest := by
  cases h with
  | none => exact ⟨state, .inl hstate, rfl⟩
  | plain hmark hsign hne hdigits =>
      refine ⟨.exponentDigits, .inr rfl, ?_⟩
      rw [List.cons_append, skipFrom_mark hstate hmark]
      rcases hsign with rfl | rfl
      · exact skipFrom_first .exponent hne hdigits rest
      · rw [← skipFrom_first .signed hne hdigits rest]
        exact skipFrom_cons rfl (.inl (by nofun)) rfl
  | minus hmark hne hdigits =>
      refine ⟨.exponentDigits, .inr rfl, ?_⟩
      rw [List.cons_append, skipFrom_mark hstate hmark, ← skipFrom_first .signed hne hdigits rest]
      exact skipFrom_cons rfl (.inl (by nofun)) rfl

theorem skipFrom_stops (hstate : state.Ends) (hstops : Stops rest) :
    skipFrom brackets state rest = skipFrom brackets .after rest := by
  cases rest with
  | nil => rcases hstate with (⟨_, _⟩ | rfl) | rfl <;> rfl
  | cons c rest =>
      obtain ⟨hdigit, hpoint, hsmall, hcapital⟩ := hstops c rfl
      refine skipFrom_settles ?_
      rcases hstate with (⟨_, _⟩ | rfl) | rfl <;>
        simp [SkipState.settle, hdigit, hpoint, hsmall, hcapital]

theorem skipFrom_numeral {numeral : Numeral} (h : WritesNumeral numeral text)
    (hstops : Stops rest) :
    skipFrom brackets .value (text ++ rest) = skipFrom brackets .after rest := by
  obtain @⟨fraction, exponent, hfraction, hexponent⟩ := h
  obtain ⟨start, hstart, hsign⟩ : ∃ start, (start = .value ∨ start = .minus) ∧
      skipFrom brackets .value ((if numeral.negative then ['-'] else []) ++
        (Nat.toDigits 10 numeral.whole ++ (fraction ++ (exponent ++ rest)))) =
      skipFrom brackets start
        (Nat.toDigits 10 numeral.whole ++ (fraction ++ (exponent ++ rest))) := by
    split
    · exact ⟨.minus, .inr rfl, skipFrom_cons rfl (.inl (by nofun)) rfl⟩
    · exact ⟨.value, .inl rfl, rfl⟩
  obtain ⟨counted, hcounted, hdigits⟩ :=
    skipFrom_whole hstart numeral.whole (fraction ++ (exponent ++ rest))
  obtain ⟨pointed, hpointed, hfractioned⟩ :=
    skipFrom_fraction hcounted hfraction (exponent ++ rest)
  obtain ⟨last, hlast, hscaled⟩ := skipFrom_exponent hpointed hexponent rest
  simp only [List.append_assoc]
  rw [hsign, hdigits, hfractioned, hscaled, skipFrom_stops hlast hstops]

/-! ### Values -/

theorem exists_cons_of_writes {value : Json} (h : Writes (.value value) text) :
    ∃ c rest, text = c :: rest ∧ isBlank c = false ∧ c ≠ ']' := by
  cases h with
  | null | yes | no | string | array | object => exact ⟨_, _, rfl, rfl, by decide⟩
  | @number numeral _ h =>
      obtain @⟨fraction, exponent, -, -⟩ := h
      split
      case isTrue => exact ⟨_, _, rfl, rfl, by decide⟩
      case isFalse =>
        obtain ⟨c, digits, hdigits, hc⟩ := exists_digit_of_toDigits numeral.whole
        rw [hdigits]
        refine ⟨c, _, rfl, isBlank_of_isDigit hc, ?_⟩
        rintro rfl
        cases hc

/-- Behind an opening bracket a first item is read like any other. -/
theorem skipFrom_opened_item {item : Json} (hspace : IsSpace before)
    (h : Writes (.value item) text) (rest : List Char) :
    skipFrom (.list :: outer) .opened (before ++ (text ++ rest)) =
      skipFrom (.list :: outer) .value (before ++ (text ++ rest)) := by
  obtain ⟨c, more, rfl, hblank, hclosing⟩ := exists_cons_of_writes h
  rw [skipFrom_space .opened (.inl (by nofun)) hspace,
    skipFrom_space .value (.inl (by nofun)) hspace]
  have hstep : SkipState.step (.list :: outer) .opened c (more ++ rest) =
      SkipState.step (.list :: outer) .value c (more ++ rest) := by
    unfold SkipState.step
    dsimp only
    rw [if_neg (by rw [hblank]; nofun), if_neg (by rw [hblank]; nofun)]
    exact if_neg hclosing
  unfold skipFrom
  dsimp only [List.cons_append, SkipState.settle]
  rw [hstep]

theorem skipFrom_opened_member {name : String} {value : Json} (hspace : IsSpace before)
    (h : Writes (.member name value) text) (rest : List Char) :
    skipFrom (.object :: outer) .opened (before ++ (text ++ rest)) =
      skipFrom (.object :: outer) .name (before ++ (text ++ rest)) := by
  rw [skipFrom_space .opened (.inl (by nofun)) hspace,
    skipFrom_space .name (.inl (by nofun)) hspace]
  cases h
  rfl

/-- What the machine does with a stretch of a text: it goes to its end. -/
def Skipped : Phrase → List Char → Prop
  | .value _, text => ∀ brackets rest, Stops rest →
    skipFrom brackets .value (text ++ rest) = skipFrom brackets .after rest
  | .member _ _, text => ∀ brackets rest, Stops rest →
    skipFrom brackets .name (text ++ rest) = skipFrom brackets .after rest
  | .items items, text => ∀ outer rest,
    skipFrom (.list :: outer) .opened (text ++ ']' :: rest) = skipFrom outer .after rest ∧
      (items ≠ [] →
        skipFrom (.list :: outer) .value (text ++ ']' :: rest) = skipFrom outer .after rest)
  | .members members, text => ∀ outer rest,
    skipFrom (.object :: outer) .opened (text ++ '}' :: rest) = skipFrom outer .after rest ∧
      (members ≠ [] →
        skipFrom (.object :: outer) .name (text ++ '}' :: rest) = skipFrom outer .after rest)

theorem stops_cons (hc : c.isDigit = false ∧ c ≠ '.' ∧ c ≠ 'e' ∧ c ≠ 'E') : Stops (c :: rest) := by
  rintro d hd
  obtain rfl := Option.some.inj hd
  exact hc

theorem stops_space (hspace : IsSpace space) (hrest : Stops rest) : Stops (space ++ rest) := by
  cases space with
  | nil => exact hrest
  | cons c space =>
      refine stops_cons ?_
      rcases hspace c List.mem_cons_self with rfl | rfl | rfl | rfl <;> decide

/-- What is due inside a bracket before the next part. -/
def SkipState.due : Bracket → SkipState
  | .list => .value
  | .object => .name

def Bracket.closing : Bracket → Char
  | .list => ']'
  | .object => '}'

section Parts

variable (bracket : Bracket) (hbefore : IsSpace before) (hafter : IsSpace after)
  (htext : ∀ brackets rest, Stops rest →
    skipFrom brackets (.due bracket) (text ++ rest) = skipFrom brackets .after rest)
  (outer : List Bracket) (rest : List Char)

include hbefore hafter htext

theorem skipFrom_part (hrest : Stops rest) :
    skipFrom (bracket :: outer) (.due bracket) (before ++ (text ++ (after ++ rest))) =
      skipFrom (bracket :: outer) .after rest := by
  have hwaits : (SkipState.due bracket).Waits := by cases bracket <;> constructor
  rw [skipFrom_space hwaits (.inr (by nofun)) hbefore, htext _ _ (stops_space hafter hrest),
    skipFrom_space .after (.inr (by nofun)) hafter]

theorem skipFrom_last :
    skipFrom (bracket :: outer) (.due bracket)
      (before ++ (text ++ (after ++ bracket.closing :: rest))) = skipFrom outer .after rest := by
  have hstops : Stops (bracket.closing :: rest) := stops_cons (by cases bracket <;> decide)
  rw [skipFrom_part bracket hbefore hafter htext outer _ hstops]
  cases bracket <;> exact skipFrom_cons rfl (.inr (by nofun)) rfl

theorem skipFrom_next :
    skipFrom (bracket :: outer) (.due bracket) (before ++ (text ++ (after ++ ',' :: rest))) =
      skipFrom (bracket :: outer) (.due bracket) rest := by
  rw [skipFrom_part bracket hbefore hafter htext outer _ (stops_cons (by decide))]
  cases bracket <;> exact skipFrom_cons rfl (.inr (by nofun)) rfl

end Parts

theorem skipped {phrase : Phrase} (h : Writes phrase text) : Skipped phrase text := by
  induction h with
  | null | yes | no =>
      intro brackets rest _
      cases brackets <;> rfl
  | number h => exact fun brackets rest hstops => skipFrom_numeral h hstops
  | string h =>
      intro brackets rest _
      rw [List.cons_append, List.append_assoc, skipFrom_cons rfl (.inl (by nofun)) rfl]
      exact skipFrom_quoted h rest
  | array _ ih | object _ ih =>
      intro brackets rest _
      rw [List.cons_append, List.append_assoc, skipFrom_cons rfl (.inl (by nofun)) rfl]
      exact (ih brackets rest).1
  | member hname hbefore hafter _ ih =>
      intro brackets rest hstops
      simp only [List.cons_append, List.append_assoc]
      rw [skipFrom_cons rfl (.inl (by nofun)) rfl, skipFrom_quoted hname, if_pos rfl,
        skipFrom_space .colon (.inl (by nofun)) hbefore, skipFrom_cons rfl (.inl (by nofun)) rfl,
        skipFrom_space .value (.inl (by nofun)) hafter, ih brackets rest hstops]
  | noItem hspace | noMember hspace =>
      intro outer rest
      refine ⟨?_, fun h => absurd rfl h⟩
      rw [skipFrom_space .opened (.inl (by nofun)) hspace]
      exact skipFrom_cons rfl (.inl (by nofun)) rfl
  | lastItem hbefore htext hafter ih =>
      intro outer rest
      simp only [List.append_assoc]
      have hlast := skipFrom_last .list hbefore hafter ih outer rest
      exact ⟨(skipFrom_opened_item hbefore htext _).trans hlast, fun _ => hlast⟩
  | lastMember hbefore htext hafter ih =>
      intro outer rest
      simp only [List.append_assoc]
      have hlast := skipFrom_last .object hbefore hafter ih outer rest
      exact ⟨(skipFrom_opened_member hbefore htext _).trans hlast, fun _ => hlast⟩
  | nextItem hbefore htext hafter hne _ ih ih' =>
      intro outer rest
      simp only [List.append_assoc]
      have hnext := (skipFrom_next .list hbefore hafter ih outer _).trans ((ih' outer rest).2 hne)
      exact ⟨(skipFrom_opened_item hbefore htext _).trans hnext, fun _ => hnext⟩
  | nextMember hbefore htext hafter hne _ ih ih' =>
      intro outer rest
      simp only [List.append_assoc]
      have hnext := (skipFrom_next .object hbefore hafter ih outer _).trans ((ih' outer rest).2 hne)
      exact ⟨(skipFrom_opened_member hbefore htext _).trans hnext, fun _ => hnext⟩

/-- A value is skipped with the whitespace in front of it. -/
theorem skipValue_writes {value : Json} (hspace : IsSpace before) (h : Writes (.value value) text)
    (hstops : Stops rest) : skipValue (before ++ (text ++ rest)) = .ok ((), rest) := by
  have hend : skipFrom [] .after rest = .ok rest := by cases rest <;> rfl
  unfold skipValue
  rw [skipFrom_space .value (.inl (by nofun)) hspace, skipped h [] rest hstops, hend]
  rfl

end Scan

end RamFs.Json
