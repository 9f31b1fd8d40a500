import RamFs.Json.Record
import RamFs.Proofs.Json.Skipping

/-!
Values of a known shape. A reader that finds its shape in front takes any text of the value, however
it is spelled, and stops right behind it. The shapes are numbers of 32 bits, strings, named choices
and lists of strings.
-/

namespace RamFs.Json.Scan

variable {α β : Type} {cs cs' before after space text rest digits : List Char} {n : Nat}

/-! ### Steps of a reader -/

theorem bind_eq_of_eq {scan scan' : Scan α} (h : scan cs = scan' cs') (next : α → Scan β) :
    (scan >>= next) cs = (scan' >>= next) cs' := by
  change (scan cs >>= fun found => next found.1 found.2) = _
  rw [h]
  rfl

theorem bind_ok {scan : Scan α} {next : α → Scan β} {result : α}
    (h : scan cs = .ok (result, rest)) : (scan >>= next) cs = next result rest := by
  have hpure : scan cs = (pure result : Scan α) rest := h
  exact bind_eq_of_eq hpure next

theorem get_all (cs : List Char) : (get : Scan (List Char)) cs = .ok (cs, cs) := rfl

theorem advance_cons (c : Char) (rest : List Char) : advance (c :: rest) = .ok ((), rest) := rfl

theorem peek_cons (hspace : IsSpace space) (hc : isBlank c = false) (rest : List Char) :
    peek (space ++ c :: rest) = .ok (some c, c :: rest) := by
  unfold peek
  rw [List.dropWhile_append_of_pos (isBlank_of_isSpace hspace),
    List.dropWhile_cons_of_neg (by rw [hc]; nofun)]
  rfl

/-! ### Numbers -/

theorem digitRun_digits (hne : digits ≠ []) (hdigits : ∀ c ∈ digits, c.isDigit = true)
    (hstops : Stops rest) : digitRun (digits ++ rest) = .ok (digits, rest) := by
  have hhead : rest.takeWhile Char.isDigit = [] ∧ rest.dropWhile Char.isDigit = rest := by
    cases rest with
    | nil => exact ⟨rfl, rfl⟩
    | cons c rest =>
        have hc : ¬c.isDigit = true := Bool.eq_false_iff.1 (hstops c rfl).1
        exact ⟨List.takeWhile_cons_of_neg hc, List.dropWhile_cons_of_neg hc⟩
  obtain ⟨c, digits, rfl⟩ := List.exists_cons_of_ne_nil hne
  unfold digitRun
  rw [List.takeWhile_append_of_pos hdigits, List.dropWhile_append_of_pos hdigits, hhead.1, hhead.2,
    List.append_nil]
  exact if_pos (hdigits c List.mem_cons_self)

theorem wholePart_toDigits (n : Nat) (hstops : Stops rest) :
    wholePart (Nat.toDigits 10 n ++ rest) = .ok (n, rest) := by
  have hlead : ¬((Nat.toDigits 10 n).head? = some '0' ∧ (Nat.toDigits 10 n).length > 1) := by
    by_cases hzero : n = 0
    case pos =>
      subst hzero
      decide
    case neg =>
      obtain ⟨d, digits, hdigits, hne⟩ := toDigits_eq_cons hzero
      rw [hdigits]
      exact fun h => hne (Option.some.inj h.1)
  unfold wholePart
  rw [digitRun_digits Nat.toDigits_ne_nil (isDigit_of_mem_toDigits n) hstops]
  change (if _ then _ else _) = _
  rw [if_neg hlead, Nat.ofDigitChars_ten_toDigits]
  rfl

theorem fractionPart_stops (hstops : Stops rest) : fractionPart rest = .ok ([], rest) := by
  unfold fractionPart
  split
  case h_1 => exact absurd rfl (hstops '.' rfl).2.1
  case h_2 => rfl

theorem exponentPart_stops (hstops : Stops rest) : exponentPart rest = .ok (none, rest) := by
  cases rest with
  | nil => rfl
  | cons c rest =>
      obtain ⟨-, -, hsmall, hcapital⟩ := hstops c rfl
      exact if_neg (not_or.2 ⟨hsmall, hcapital⟩)

theorem roundToDouble_of_lt (h : n < Nat.pow 2 53) : Numeral.roundToDouble n = n := by
  have hunit : n.log2 - 52 = 0 := by
    by_cases hzero : n = 0
    case pos =>
      subst hzero
      rfl
    case neg =>
      have hlog : n.log2 < 53 := (Nat.log2_lt hzero).2 h
      omega
  unfold Numeral.roundToDouble
  rw [hunit]
  simp [Nat.mod_one]

theorem overflows_natural (h : n < UInt32.size) : Numeral.overflows { whole := n } = false := by
  have hdigits : Numeral.leadingDigits n = (n, 0) := by
    unfold Numeral.leadingDigits
    exact dif_pos (Nat.lt_trans h (by decide))
  have hpower : (0 : Int) - (0 : Nat) + (0 : Nat) = 0 := rfl
  have hn : Numeral.roundToDouble n = n := roundToDouble_of_lt (Nat.lt_trans h (by decide))
  have hone : Numeral.roundToDouble (Nat.pow 10 (0 : Int).toNat) = 1 :=
    roundToDouble_of_lt (by decide)
  have hlimit : n < Nat.pow 2 1024 - Nat.pow 2 970 := Nat.lt_trans h (by decide +kernel)
  unfold Numeral.overflows Numeral.scaled
  simp only [List.foldl_nil, Option.getD_none, List.length_nil, hdigits]
  split
  case isTrue => rfl
  case isFalse =>
    rw [hpower, hn, hone, Nat.mul_one, decide_eq_false (Nat.not_le.2 hlimit)]
    rfl

theorem number_natural (h : n < UInt32.size) (hstops : Stops rest) :
    number (Nat.toDigits 10 n ++ rest) = .ok ({ whole := n }, rest) := by
  have hnegative : (Nat.toDigits 10 n ++ rest).head? ≠ some '-' := by
    obtain ⟨c, digits, hdigits, hc⟩ := exists_digit_of_toDigits n
    rw [hdigits]
    rintro ⟨⟩
    cases hc
  unfold number
  rw [bind_ok (get_all _)]
  dsimp only
  rw [if_neg hnegative, bind_ok (wholePart_toDigits n hstops), bind_ok (fractionPart_stops hstops),
    bind_ok (exponentPart_stops hstops), decide_eq_false hnegative, overflows_natural h]
  rfl

/-! ### Readers of a shape -/

/-- Behind whitespace the reader takes any text of the value, and gives the result for it. -/
def Reads (scan : Scan α) (value : Json) (result : α) : Prop :=
  ∀ ⦃before text rest⦄, IsSpace before → Writes (.value value) text → Stops rest →
    scan (before ++ (text ++ rest)) = .ok (result, rest)

theorem Reads.map {scan : Scan α} {value : Json} {result : α} (h : Reads scan value result)
    (change : α → β) : Reads (change <$> scan) value (change result) := by
  intro before text rest hbefore htext hstops
  change (scan _ >>= fun found => Except.ok (change found.1, found.2)) = _
  rw [h hbefore htext hstops]
  rfl

/-- A text is read as a whole. -/
theorem readAll_represents {scan : Scan α} {value : Json} {result : α} {text : String}
    (hread : Reads scan value result) (h : Represents value text) :
    readAll scan text = .ok result := by
  obtain @⟨before, core, after, hbefore, hcore, hafter, htext⟩ := h
  have hstops : Stops (after ++ []) := stops_space hafter nofun
  have hblank : after.all isBlank = true := List.all_eq_true.2 (isBlank_of_isSpace hafter)
  rw [List.append_nil] at hstops
  unfold readAll
  rw [htext, hread hbefore hcore hstops]
  change (if _ then _ else _) = _
  rw [if_pos hblank]
  rfl

theorem eq_toDigits_of_writes (h : Writes (.value (natural n)) text) :
    text = Nat.toDigits 10 n := by
  obtain _ | _ | _ | ⟨@⟨fraction, exponent, hfraction, hexponent⟩⟩ := h
  have hfraction : fraction = [] := by
    cases hfraction with
    | none => rfl
    | point hne => exact absurd rfl hne
  have hexponent : exponent = [] := by
    cases hexponent
    rfl
  rw [hfraction, hexponent, List.append_nil, List.append_nil]
  rfl

theorem reads_uint32 (n : UInt32) : Reads uint32 (natural n.toNat) n := by
  intro before text rest hbefore htext hstops
  have hn : n.toNat < UInt32.size := n.toNat_lt_size
  obtain ⟨c, digits, hdigits, hc⟩ := exists_digit_of_toDigits n.toNat
  have hpeek : peek (before ++ (Nat.toDigits 10 n.toNat ++ rest)) =
      .ok (some c, Nat.toDigits 10 n.toNat ++ rest) := by
    rw [hdigits]
    exact peek_cons hbefore (isBlank_of_isDigit hc) _
  have hwhole : Numeral.natural? { whole := n.toNat } = some n.toNat := by
    simp [Numeral.natural?]
  rw [eq_toDigits_of_writes htext]
  unfold uint32
  rw [bind_ok hpeek]
  dsimp only
  rw [if_pos (.inr hc), bind_ok (number_natural hn hstops), hwhole]
  dsimp only
  rw [if_pos hn, UInt32.ofNat_toNat]
  rfl

theorem reads_string (value : String) : Reads string (.string value) value := by
  intro before text rest hbefore htext _
  obtain _ | _ | _ | _ | ⟨hquoted⟩ := htext
  rw [List.cons_append, List.append_assoc]
  unfold string
  rw [bind_ok (peek_cons hbefore rfl _)]
  exact stringBody_quoted hquoted rest

theorem reads_choice {choices : List (String × α)} {name : String} {chosen : α}
    (h : choices.lookup name = some chosen) : Reads (choice choices) (.string name) chosen := by
  intro before text rest hbefore htext _
  obtain _ | _ | _ | _ | ⟨hquoted⟩ := htext
  rw [List.cons_append, List.append_assoc]
  unfold choice
  rw [bind_ok (peek_cons hbefore rfl _)]
  change (advance >>= _) ('"' :: _) = _
  rw [bind_ok (advance_cons _ _), List.singleton_append, bind_ok (stringBody_quoted hquoted rest),
    choose, h]
  rfl

/-! ### Lists of strings -/

theorem peek_value {value : Json} (hbefore : IsSpace before) (h : Writes (.value value) text)
    (rest : List Char) : ∃ c, c ≠ ']' ∧
      peek (before ++ (text ++ rest)) = .ok (some c, text ++ rest) := by
  obtain ⟨c, more, rfl, hblank, hc⟩ := exists_cons_of_writes h
  exact ⟨c, hc, peek_cons hbefore hblank _⟩

theorem hasItem_end (first : Bool) (hspace : IsSpace space) (rest : List Char) :
    hasItem first (space ++ ']' :: rest) = .ok (false, ']' :: rest) := by
  unfold hasItem
  rw [bind_ok (peek_cons hspace rfl _)]
  rfl

theorem hasItem_item {item : Json} (hbefore : IsSpace before) (h : Writes (.value item) text)
    (rest : List Char) : hasItem true (before ++ (text ++ rest)) = .ok (true, text ++ rest) := by
  obtain ⟨c, hc, hpeek⟩ := peek_value hbefore h rest
  unfold hasItem
  rw [bind_ok hpeek]
  simp only
  rfl

/-- Behind a comma an item is read like a first one. -/
theorem hasItem_comma {items : List Json} (hafter : IsSpace after) (h : Writes (.items items) text)
    (hne : items ≠ []) (rest : List Char) :
    hasItem false (after ++ ',' :: (text ++ rest)) = hasItem true (text ++ rest) := by
  obtain ⟨item, before, core, more, hbefore, hcore, rfl⟩ : ∃ item before core more,
      IsSpace before ∧ Writes (.value item) core ∧ text = before ++ (core ++ more) := by
    cases h with
    | noItem => exact absurd rfl hne
    | lastItem hbefore hcore | nextItem hbefore hcore => exact ⟨_, _, _, _, hbefore, hcore, rfl⟩
  rw [List.append_assoc, List.append_assoc, hasItem_item hbefore hcore]
  obtain ⟨c, hc, hpeek⟩ := peek_value hbefore hcore (more ++ rest)
  unfold hasItem
  rw [bind_ok (peek_cons hafter rfl _)]
  change (advance >>= _) (',' :: _) = _
  rw [bind_ok (advance_cons _ _), bind_ok hpeek]
  simp only
  rfl

variable {fuel : Nat}

theorem stringItems_end (first : Bool) (hspace : IsSpace space) (rest : List Char) :
    stringItems (fuel + 1) first (space ++ ']' :: rest) = .ok ([], ']' :: rest) := by
  unfold stringItems
  rw [bind_ok (hasItem_end first hspace rest)]
  rfl

theorem stringItems_item {value : String} (hbefore : IsSpace before)
    (h : Writes (.value (.string value)) text) (hstops : Stops rest) :
    stringItems (fuel + 1) true (before ++ (text ++ rest)) =
      (stringItems fuel false >>= fun items => pure (value :: items)) rest := by
  have hread := reads_string value isSpace_nil h hstops
  conv => lhs; unfold stringItems
  rw [bind_ok (hasItem_item hbefore h rest)]
  exact bind_ok hread

theorem stringItems_comma {items : List Json} (hafter : IsSpace after)
    (h : Writes (.items items) text) (hne : items ≠ []) (rest : List Char) :
    stringItems fuel false (after ++ ',' :: (text ++ rest)) =
      stringItems fuel true (text ++ rest) := by
  cases fuel with
  | zero => rfl
  | succ fuel =>
      unfold stringItems
      exact bind_eq_of_eq (hasItem_comma hafter h hne rest) _

/-- The characters of a text are steps enough. -/
theorem stringItems_writes {values : List String} (h : Writes (.items (values.map .string)) text)
    (hfuel : text.length < fuel) (rest : List Char) :
    stringItems fuel true (text ++ ']' :: rest) = .ok (values, ']' :: rest) := by
  induction values generalizing text fuel with
  | nil =>
      obtain ⟨fuel, rfl⟩ := Nat.exists_eq_add_one_of_ne_zero (Nat.ne_zero_of_lt hfuel)
      cases h with
      | noItem hspace => exact stringItems_end true hspace rest
  | cons value values ih =>
      obtain ⟨fuel, rfl⟩ := Nat.exists_eq_add_one_of_ne_zero (Nat.ne_zero_of_lt hfuel)
      rw [List.map_cons] at h
      generalize hitems : values.map Json.string = items at h ih
      cases h with
      | @lastItem _ before text after hbefore hvalue hafter =>
          obtain rfl := List.map_eq_nil_iff.1 hitems
          -- the item takes a character, so that one step is left for the end of the list
          obtain ⟨c, more, rfl, -, -⟩ := exists_cons_of_writes hvalue
          obtain ⟨fuel, rfl⟩ : ∃ n, fuel = n + 1 :=
            Nat.exists_eq_add_one_of_ne_zero (by simp at hfuel; omega)
          rw [List.append_assoc, List.append_assoc,
            stringItems_item hbefore hvalue (stops_space hafter (stops_cons (by decide))),
            bind_ok (stringItems_end false hafter rest)]
          rfl
      | @nextItem _ _ before text after more hbefore hvalue hafter hne hmore =>
          have hfuel' : more.length < fuel := by
            simp only [List.length_append, List.length_cons] at hfuel
            omega
          rw [List.append_assoc, List.append_assoc, List.append_assoc, List.cons_append,
            stringItems_item hbefore hvalue (stops_space hafter (stops_cons (by decide))),
            bind_eq_of_eq (stringItems_comma hafter hmore hne _), bind_ok (ih hmore hfuel')]
          rfl

theorem closing_cons {close : Char} (hclose : isBlank close = false) (rest : List Char) :
    closing close (close :: rest) = .ok ((), rest) := by
  have hpeek : peek (close :: rest) = .ok (some close, close :: rest) :=
    peek_cons isSpace_nil hclose rest
  unfold closing
  rw [bind_ok hpeek]
  dsimp only
  rw [if_pos rfl]
  rfl

theorem reads_strings (values : List String) :
    Reads strings (.array (values.map .string)) values := by
  intro before text rest hbefore htext _
  obtain _ | _ | _ | _ | _ | @⟨_, text, hitems⟩ := htext
  have hfuel : text.length < (text ++ ']' :: rest).length + 1 := by
    rw [List.length_append]
    omega
  rw [List.cons_append, List.append_assoc]
  unfold strings
  rw [bind_ok (peek_cons hbefore rfl _)]
  change (advance >>= _) ('[' :: _) = _
  rw [bind_ok (advance_cons _ _), List.singleton_append, bind_ok (get_all _),
    bind_ok (stringItems_writes hitems hfuel rest), bind_ok (closing_cons rfl rest)]
  rfl

end RamFs.Json.Scan
