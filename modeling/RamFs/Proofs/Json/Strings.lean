import RamFs.Json.Scan
import RamFs.Proofs.Json.Grammar

/-!
Strings of a text. A reader of strings takes one character a step; however the characters of a
string are written, its steps over them stand for just these characters, and end where they began.
Steps over a string that is skipped take the same text, but do not tell one unit from another.
-/

namespace RamFs.Json.Scan

variable {cs text rest left out more piece digits : List Char} {c : Char} {value unit : Nat}
  {strict : Bool} {lead : Option Nat}

theorem hexValue?_of_isHexDigit (h : IsHexDigit value c) : hexValue? c = some value := by
  have hall : ∀ value < 16,
      hexValue? value.digitChar = some value ∧ hexValue? value.digitChar.toUpper = some value := by
    decide
  obtain ⟨hvalue, rfl | rfl⟩ := h
  · exact (hall value hvalue).1
  · exact (hall value hvalue).2

theorem unescape?_of_mem {e : Char} (h : (c, e) ∈ escapeLetters) :
    e ≠ 'u' ∧ unescape? e = some c := by
  have hall : ∀ escape ∈ escapeLetters,
      escape.2 ≠ 'u' ∧ unescape? escape.2 = some escape.1 := by
    decide
  exact hall (c, e) h

namespace StringState

variable {state next middle last : StringState}

/-- The steps from one state to another, the text that they take, and the characters that they
stand for. -/
inductive Runs (strict : Bool) :
    StringState → List Char → StringState → List Char → List Char → Prop where
  | done {state : StringState} {cs : List Char} : Runs strict state cs state cs []
  | step {state next last : StringState} {c : Char} {rest left out more : List Char} :
      state.ends c = false → state.step strict c rest = .ok (next, out) →
      Runs strict next rest last left more → Runs strict state (c :: rest) last left (out ++ more)

theorem Runs.silent (h : Runs strict next rest last left out) (hgoes : state.ends c = false)
    (hstep : state.step strict c rest = .ok (next, [])) :
    Runs strict state (c :: rest) last left out :=
  .step hgoes hstep h

theorem Runs.single (hgoes : state.ends c = false)
    (hstep : state.step strict c rest = .ok (next, out)) :
    Runs strict state (c :: rest) next rest out :=
  List.append_nil out ▸ .step hgoes hstep .done

theorem Runs.trans (h : Runs strict state cs middle rest out)
    (h' : Runs strict middle rest last left more) :
    Runs strict state cs last left (out ++ more) := by
  induction h with
  | done => exact h'
  | step hgoes hstep _ ih =>
      rw [List.append_assoc]
      exact .step hgoes hstep (ih h')

theorem Runs.stringFrom (h : Runs true state cs last left out)
    (hlast : stringFrom last left = .ok (text, rest)) :
    Scan.stringFrom state cs = .ok (out ++ text, rest) := by
  induction h with
  | done => exact hlast
  | step hgoes hstep _ ih =>
      unfold Scan.stringFrom
      rw [if_neg (Bool.eq_false_iff.1 hgoes), hstep, List.append_assoc]
      change (Scan.stringFrom _ _ >>= _) = _
      rw [ih hlast]
      rfl

/-! ### Escapes -/

theorem startHex_of_isUnit (h : IsUnit unit digits) (lead : Option Nat) (rest : List Char) :
    startHex lead (digits ++ rest) = .ok (.hex lead 0 4, []) := by
  obtain @⟨a, b, c, d, -, -, -, -⟩ := h
  have ha := a.utf8Size_pos
  have hb := b.utf8Size_pos
  have hc := c.utf8Size_pos
  have hd := d.utf8Size_pos
  refine if_neg ?_
  simp only [byteCount, List.cons_append, List.foldr_cons]
  omega

theorem step_hex {sum left : Nat} (h : IsHexDigit value c) (hleft : 1 < left) :
    (StringState.hex lead sum left).step strict c rest =
      .ok (.hex lead (16 * sum + value) (left - 1), []) := by
  unfold StringState.step
  dsimp only
  rw [hexValue?_of_isHexDigit h]
  exact if_neg (Nat.not_le.2 hleft)

theorem step_hex_last {sum : Nat} (h : IsHexDigit value c) :
    (StringState.hex lead sum 1).step strict c rest = finishHex strict lead (16 * sum + value) := by
  unfold StringState.step
  dsimp only
  rw [hexValue?_of_isHexDigit h]
  rfl

/-- The four digits of a unit stand for what the unit means. -/
theorem runs_digits (h : IsUnit unit digits)
    (hfinish : finishHex strict lead unit = .ok (next, out)) :
    Runs strict (.hex lead 0 4) (digits ++ rest) next rest out := by
  obtain ⟨ha, hb, hc, hd⟩ := h
  have hsum : 16 * (16 * (16 * (16 * 0 + unit / 4096) + unit / 256 % 16) + unit / 16 % 16) +
      unit % 16 = unit := by
    have hhigh := ha.1
    omega
  refine .silent ?_ rfl (step_hex ha (by decide))
  refine .silent ?_ rfl (step_hex hb (by decide))
  refine .silent ?_ rfl (step_hex hc (by decide))
  exact .single rfl ((step_hex_last hd).trans (hsum.symm ▸ hfinish))

theorem runs_escape (h : IsUnit unit digits)
    (hfinish : finishHex strict none unit = .ok (next, out)) (rest : List Char) :
    Runs strict .plain ('\\' :: 'u' :: (digits ++ rest)) next rest out := by
  have hstart : StringState.escaped.step strict 'u' (digits ++ rest) = .ok (.hex none 0 4, []) :=
    startHex_of_isUnit h none rest
  exact ((runs_digits h hfinish).silent rfl hstart).silent rfl rfl

/-- A unit is not half of a pair if it is the code of a character. -/
theorem finishHex_of_char (c : Char) : finishHex true none c.toNat = .ok (.plain, [c]) := by
  have hvalid : c.toNat < 0xD800 ∨ 0xDFFF < c.toNat ∧ c.toNat < 0x110000 := c.valid
  have hlead : isLeadSurrogate c.toNat = false := by
    unfold isLeadSurrogate
    rw [Bool.and_eq_false_iff, decide_eq_false_iff_not, decide_eq_false_iff_not]
    omega
  have htrail : isTrailSurrogate c.toNat = false := by
    unfold isTrailSurrogate
    rw [Bool.and_eq_false_iff, decide_eq_false_iff_not, decide_eq_false_iff_not]
    omega
  unfold finishHex
  simp [hlead, htrail]

/-- The two units of a character beyond sixteen bits are the halves of a pair. -/
theorem runs_pair {first second : List Char} (hlarge : 0x10000 ≤ c.toNat)
    (hfirst : IsUnit (0xD800 + (c.toNat - 0x10000) / 0x400) first)
    (hsecond : IsUnit (0xDC00 + (c.toNat - 0x10000) % 0x400) second) :
    Runs true .plain ('\\' :: 'u' :: (first ++ '\\' :: 'u' :: (second ++ rest))) .plain rest
      [c] := by
  have hvalid : c.toNat < 0xD800 ∨ 0xDFFF < c.toNat ∧ c.toNat < 0x110000 := c.valid
  generalize hhigh : (c.toNat - 0x10000) / 0x400 = high at hfirst
  generalize hlow : (c.toNat - 0x10000) % 0x400 = low at hsecond
  have hlead : finishHex true none (0xD800 + high) = .ok (.paired (0xD800 + high), []) := by
    have hbound : ¬0xDC00 ≤ 0xD800 + high ∧ 0xD800 + high ≤ 0xDBFF := by omega
    simp [finishHex, isTrailSurrogate, isLeadSurrogate, hbound]
  have htrail : finishHex true (some (0xD800 + high)) (0xDC00 + low) = .ok (.plain, [c]) := by
    have hbound : 0xDC00 + low ≤ 0xDFFF := by omega
    have hcode : high * 0x400 + low + 0x10000 = c.toNat := by omega
    simp [finishHex, isTrailSurrogate, hbound, hcode]
  have hstart : (StringState.pairedEscape (0xD800 + high)).step true 'u' (second ++ rest) =
      .ok (.hex (some (0xD800 + high)) 0 4, []) :=
    startHex_of_isUnit hsecond _ rest
  have hruns : Runs true (.paired (0xD800 + high)) ('\\' :: 'u' :: (second ++ rest)) .plain rest
      [c] :=
    ((runs_digits hsecond htrail).silent rfl hstart).silent rfl rfl
  exact (runs_escape hfirst hlead _).trans hruns

/-- Behind a character a string goes on as before it. If the string is read and not skipped, the
steps stand for the character. -/
theorem runs_writesChar (strict : Bool) (h : WritesChar c piece) (rest : List Char) :
    ∃ out, Runs strict .plain (piece ++ rest) .plain rest out ∧ (strict = true → out = [c]) := by
  cases h with
  | plain hquote hslash hprinted =>
      have hstep : StringState.plain.step strict c rest = .ok (.plain, [c]) := by
        unfold StringState.step
        rw [if_neg hslash, if_neg (Nat.not_lt.2 hprinted)]
      have hgoes : StringState.plain.ends c = false := decide_eq_false hquote
      exact ⟨[c], .single hgoes hstep, fun _ => rfl⟩
  | @letter e hletter =>
      obtain ⟨hunit, hmeant⟩ := unescape?_of_mem hletter
      have hstep : StringState.escaped.step strict e rest = .ok (.plain, [c]) := by
        unfold StringState.step
        rw [if_neg hunit, hmeant]
      exact ⟨[c], (Runs.single rfl hstep).silent rfl rfl, fun _ => rfl⟩
  | unit hunit =>
      cases strict with
      | true => exact ⟨[c], runs_escape hunit (finishHex_of_char c) rest, fun _ => rfl⟩
      | false => exact ⟨[], runs_escape hunit rfl rest, nofun⟩
  | @pair first second hlarge hfirst hsecond =>
      rw [List.cons_append, List.cons_append, List.append_assoc, List.cons_append,
        List.cons_append]
      cases strict with
      | true => exact ⟨[c], runs_pair hlarge hfirst hsecond, fun _ => rfl⟩
      | false =>
          have hskipped (unit : Nat) : finishHex false none unit = .ok (.plain, []) := rfl
          have hruns := runs_escape hfirst (hskipped _) ('\\' :: 'u' :: (second ++ rest))
          exact ⟨[], hruns.trans (runs_escape hsecond (hskipped _) rest), nofun⟩

theorem runs_writesChars (strict : Bool) (h : WritesChars cs text) (rest : List Char) :
    ∃ out, Runs strict .plain (text ++ rest) .plain rest out ∧ (strict = true → out = cs) := by
  induction h with
  | nil => exact ⟨[], .done, fun _ => rfl⟩
  | @cons c cs piece more hchar _ ih =>
      obtain ⟨out, hruns, hout⟩ := runs_writesChar strict hchar (more ++ rest)
      obtain ⟨later, hruns', hlater⟩ := ih
      rw [List.append_assoc]
      exact ⟨out ++ later, hruns.trans hruns', fun h => by rw [hout h, hlater h]; rfl⟩

end StringState

/-- A string is read up to its closing quote. -/
theorem stringBody_quoted {value : String} (h : WritesChars value.toList text) (rest : List Char) :
    stringBody (text ++ '"' :: rest) = .ok (value, rest) := by
  obtain ⟨out, hruns, hout⟩ := StringState.runs_writesChars true h ('"' :: rest)
  have hend : stringFrom .plain ('"' :: rest) = .ok ([], rest) := rfl
  have hread := hruns.stringFrom hend
  rw [hout rfl, List.append_nil] at hread
  unfold stringBody
  rw [hread]
  change Except.ok (String.ofList value.toList, rest) = _
  rw [String.ofList_toList]

end RamFs.Json.Scan
