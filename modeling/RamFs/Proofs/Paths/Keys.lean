import RamFs.Collation

/-!
Characters that have no case. The ASCII characters before the small letters, less the capitals, are
their own lowercase form and occur in that of no other character. So a key has one of them exactly
where the name has it, and a name made of them is the same as no other name.
-/

namespace RamFs

namespace Text

/-- The character comes before all letters, or between the capitals and the small letters. -/
def Steady (c : Char) : Prop :=
  c.toNat < 0x41 ∨ 0x5A < c.toNat ∧ c.toNat < 0x61

instance : DecidablePred Steady := fun c =>
  inferInstanceAs (Decidable (c.toNat < 0x41 ∨ 0x5A < c.toNat ∧ c.toNat < 0x61))

variable {c d : Char} {before after cs : List Char} {run : CaseRun} {code : Nat}

/-! ### Letters and their images -/

theorem first_of_run (h : run ∈ lowercaseRuns) :
    run.first = 0x41 ∧ run.last = 0x5A ∨ 0x61 ≤ run.first := by
  have hall : ∀ run ∈ lowercaseRuns, run.first = 0x41 ∧ run.last = 0x5A ∨ 0x61 ≤ run.first := by
    decide +kernel
  exact hall run h

/-- Lowercase forms begin with the small letters and are characters. -/
theorem image_of_run (h : run ∈ lowercaseRuns) :
    0x61 ≤ run.image ∧ (run.image + (run.last - run.first) < 0xD800 ∨
      0xDFFF < run.image ∧ run.image + (run.last - run.first) < 0x110000) := by
  have hall : ∀ run ∈ lowercaseRuns, 0x61 ≤ run.image ∧
      (run.image + (run.last - run.first) < 0xD800 ∨
        0xDFFF < run.image ∧ run.image + (run.last - run.first) < 0x110000) := by
    decide +kernel
  exact hall run h

theorem image?_of_steady (hc : Steady c) (h : run ∈ lowercaseRuns) : run.image? c.toNat = none := by
  refine if_neg fun ⟨hfirst, hlast, _⟩ => ?_
  rcases hc with hc | hc <;> rcases first_of_run h with ⟨_, _⟩ | _ <;> omega

/-- The lowercase form of a run's letter is in the range that starts with the run's image. -/
theorem mem_range_of_image {image : Nat} (himage : run.image? code = some image) :
    run.image ≤ image ∧ image ≤ run.image + (run.last - run.first) := by
  obtain ⟨⟨_, hlast, _⟩, hcode⟩ := Option.ite_none_right_eq_some.1 himage
  obtain rfl := Option.some.inj hcode
  exact ⟨Nat.le_add_right _ _, Nat.add_le_add_left (Nat.sub_le_sub_right hlast _) _⟩

theorem toNat_of_image (h : run ∈ lowercaseRuns) {image : Nat}
    (himage : run.image? code = some image) : (Char.ofNat image).toNat = image := by
  obtain ⟨_, hchar⟩ := image_of_run h
  obtain ⟨hfirst, hlast⟩ := mem_range_of_image himage
  have hvalid : image.isValidChar := by
    unfold Nat.isValidChar
    omega
  rw [Char.ofNat, dif_pos hvalid]
  rfl

theorem le_toNat_of_image (h : run ∈ lowercaseRuns) {image : Nat}
    (himage : run.image? code = some image) : 0x61 ≤ (Char.ofNat image).toNat := by
  rw [toNat_of_image h himage]
  exact Nat.le_trans (image_of_run h).1 (mem_range_of_image himage).1

theorem isUppercase_of_steady (hc : Steady c) : isUppercase c = false := by
  have hcapitals : ∀ range ∈ unpairedCapitals, 0x61 ≤ range.first := by decide +kernel
  unfold isUppercase
  rw [Bool.or_eq_false_iff, Bool.and_eq_false_iff]
  refine ⟨List.any_eq_false.2 fun range hrange => ?_, .inl (List.any_eq_false.2 fun run hrun => ?_)⟩
  · have hfirst := hcapitals range hrange
    unfold CodeRange.contains
    rw [Bool.and_eq_true, decide_eq_true_eq, decide_eq_true_eq]
    rcases hc with hc | hc <;> omega
  · rw [image?_of_steady hc hrun]
    exact Bool.false_ne_true

/-! ### Lowercase forms of texts -/

/-- A character of no run is its own lowercase form, but for the dotted capital I. -/
theorem lowerAt_of_no_image (hnone : ∀ run ∈ lowercaseRuns, run.image? c.toNat = none)
    (hdotted : c ≠ 'İ') : lowerAt before c after = [c] := by
  have hcode : lowerCode c.toNat = c.toNat := by
    unfold lowerCode
    rw [List.findSome?_eq_none_iff.2 hnone, Option.getD_none]
  have hsigma : c ≠ 'Σ' := by
    rintro rfl
    exact absurd hnone (by decide +kernel)
  unfold lowerAt
  rw [if_neg hsigma, if_neg hdotted, hcode, Char.ofNat_toNat]

theorem lowerAt_of_steady (hc : Steady c) : lowerAt before c after = [c] := by
  refine lowerAt_of_no_image (fun run hrun => image?_of_steady hc hrun) ?_
  rintro rfl
  exact absurd hc (by decide)

theorem eq_of_mem_lowerAt (hd : Steady d) (h : d ∈ lowerAt before c after) : d = c := by
  have hother : ∀ {e : Char}, ¬Steady e → d ∉ [e] := by
    intro e he hmem
    exact he (List.mem_singleton.1 hmem ▸ hd)
  unfold lowerAt at h
  split at h
  case isTrue =>
    split at h
    case isTrue => exact absurd h (hother (by decide))
    case isFalse => exact absurd h (hother (by decide))
  case isFalse =>
    split at h
    case isTrue =>
      rcases List.mem_cons.1 h with rfl | h
      · exact absurd hd (by decide)
      · exact absurd h (hother (by decide))
    case isFalse =>
      obtain rfl := List.mem_singleton.1 h
      unfold lowerCode at hd ⊢
      cases hfound : lowercaseRuns.findSome? (·.image? c.toNat) with
      | none => rw [Option.getD_none, Char.ofNat_toNat]
      | some image =>
          obtain ⟨run, hrun, himage⟩ := List.exists_of_findSome?_eq_some hfound
          have hletter := le_toNat_of_image hrun himage
          rw [hfound, Option.getD_some] at hd
          rcases hd with hd | hd <;> omega

theorem lowerAt_ne_nil (before : List Char) (c : Char) (after : List Char) :
    lowerAt before c after ≠ [] := by
  unfold lowerAt
  split
  · exact List.cons_ne_nil _ _
  · split <;> exact List.cons_ne_nil _ _

theorem mem_lowerFrom (hd : Steady d) : d ∈ lowerFrom before cs ↔ d ∈ cs := by
  induction cs generalizing before with
  | nil => exact Iff.rfl
  | cons c rest ih =>
      unfold lowerFrom
      rw [List.mem_append, List.mem_cons, ih]
      refine or_congr_left ⟨eq_of_mem_lowerAt hd, ?_⟩
      rintro rfl
      rw [lowerAt_of_steady hd]
      exact List.mem_singleton_self d

/-- A text whose lowercase form has no character with case is that form. -/
theorem lowerFrom_eq_self (h : ∀ d ∈ lowerFrom before cs, Steady d) : lowerFrom before cs = cs := by
  induction cs generalizing before with
  | nil => rfl
  | cons c rest ih =>
      unfold lowerFrom at h ⊢
      obtain ⟨hhere, hrest⟩ := List.forall_mem_append.1 h
      obtain ⟨d, hd⟩ := List.exists_mem_of_ne_nil _ (lowerAt_ne_nil before c rest)
      have hc : Steady c := eq_of_mem_lowerAt (hhere d hd) hd ▸ hhere d hd
      rw [lowerAt_of_steady hc, ih hrest]
      rfl

end Text

namespace Collation

variable {collation : Collation} {name other : String} {c : Char}

theorem mem_key (collation : Collation) (name : String) (hc : Text.Steady c) :
    c ∈ (collation.key name).toList ↔ c ∈ name.toList := by
  cases collation with
  | sensitive => exact Iff.rfl
  | insensitivePreserving =>
      unfold key
      dsimp only
      split
      case isTrue =>
        unfold Text.lowercase
        rw [String.toList_ofList, Text.mem_lowerFrom hc]
      case isFalse => exact Iff.rfl

theorem key_of_steady (h : ∀ c ∈ name.toList, Text.Steady c) : collation.key name = name := by
  cases collation with
  | sensitive => rfl
  | insensitivePreserving =>
      refine if_neg fun hany => ?_
      obtain ⟨c, hc, hupper⟩ := List.any_eq_true.1 hany
      rw [Text.isUppercase_of_steady (h c hc)] at hupper
      cases hupper

theorem key_eq_self (h : ∀ c ∈ (collation.key name).toList, Text.Steady c) :
    collation.key name = name := by
  cases collation with
  | sensitive => rfl
  | insensitivePreserving =>
      unfold key at h ⊢
      dsimp only at h ⊢
      split at h
      case isTrue hupper =>
        rw [if_pos hupper]
        unfold Text.lowercase at h ⊢
        rw [String.toList_ofList] at h
        rw [Text.lowerFrom_eq_self h, String.ofList_toList]
      case isFalse hupper => exact if_neg hupper

/-- A name without case has one spelling. -/
theorem eq_of_sameName (hsame : collation.sameName name other = true)
    (h : ∀ c ∈ name.toList, Text.Steady c) : name = other := by
  have hkey := sameName_iff.1 hsame
  rw [key_of_steady h] at hkey
  rw [hkey]
  exact key_eq_self (hkey ▸ h)

theorem mem_of_sameName (hc : Text.Steady c) (hsame : collation.sameName name other = true) :
    c ∈ name.toList ↔ c ∈ other.toList := by
  rw [← mem_key collation name hc, ← mem_key collation other hc, sameName_iff.1 hsame]

end Collation

end RamFs
