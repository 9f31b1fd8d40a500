import RamFs.Proofs.Paths.Keys

/-!
Which names are keyed by their lowercase form. A name without an uppercase letter is keyed as it
is, which is the same as its lowercase form unless it has a titlecase letter: such a letter is not
uppercase, but has a lowercase form. So names with the same lowercase form are the same name, except
for those that have titlecase letters and no uppercase ones; each of these is the same as itself
only.
-/

namespace RamFs

namespace Text

variable {c d : Char} {before after cs : List Char} {name : String}

theorem isTitlecase_iff : isTitlecase c = true ↔
    ∃ range ∈ titlecaseLetters, range.first ≤ c.toNat ∧ c.toNat ≤ range.last := by
  unfold isTitlecase CodeRange.contains
  simp only [List.any_eq_true, Bool.and_eq_true, decide_eq_true_eq]

theorem exists_image_of_titlecase (h : isTitlecase c = true) :
    ∃ run ∈ lowercaseRuns, run.image? c.toNat ≠ none := by
  have hall : ∀ range ∈ titlecaseLetters,
      ∀ code ∈ List.range' range.first (range.last + 1 - range.first),
        ∃ run ∈ lowercaseRuns, run.image? code ≠ none := by
    decide +kernel
  obtain ⟨range, hrange, hfirst, hlast⟩ := isTitlecase_iff.1 h
  refine hall range hrange c.toNat (List.mem_range'_1.2 ⟨hfirst, ?_⟩)
  omega

/-- No letter has a titlecase letter for its lowercase form. -/
theorem isTitlecase_of_image {run : CaseRun} {code image : Nat} (h : run ∈ lowercaseRuns)
    (himage : run.image? code = some image) : isTitlecase (Char.ofNat image) = false := by
  have hall : ∀ run ∈ lowercaseRuns, ∀ range ∈ titlecaseLetters,
      range.last < run.image ∨ run.image + (run.last - run.first) < range.first := by
    decide +kernel
  obtain ⟨hfirst, hlast⟩ := mem_range_of_image himage
  rw [← Bool.not_eq_true, isTitlecase_iff, toNat_of_image h himage]
  rintro ⟨range, hrange, hin, hin'⟩
  rcases hall run h range hrange with _ | _ <;> omega

theorem isTitlecase_of_mem_lowerAt (h : d ∈ lowerAt before c after) : isTitlecase d = false := by
  unfold lowerAt at h
  split at h
  case isTrue =>
    obtain rfl := List.mem_singleton.1 h
    split <;> decide +kernel
  case isFalse =>
    split at h
    case isTrue =>
      rcases List.mem_cons.1 h with rfl | h
      · decide +kernel
      · obtain rfl := List.mem_singleton.1 h
        decide +kernel
    case isFalse =>
      obtain rfl := List.mem_singleton.1 h
      unfold lowerCode
      cases hfound : lowercaseRuns.findSome? (·.image? c.toNat) with
      | some image =>
          obtain ⟨run, hrun, himage⟩ := List.exists_of_findSome?_eq_some hfound
          exact isTitlecase_of_image hrun himage
      | none =>
          rw [Option.getD_none, Char.ofNat_toNat, ← Bool.not_eq_true]
          intro htitle
          obtain ⟨run, hrun, himage⟩ := exists_image_of_titlecase htitle
          exact himage (List.findSome?_eq_none_iff.1 hfound run hrun)

theorem isTitlecase_of_mem_lowerFrom (h : d ∈ lowerFrom before cs) : isTitlecase d = false := by
  induction cs generalizing before with
  | nil => cases h
  | cons c rest ih =>
      unfold lowerFrom at h
      rcases List.mem_append.1 h with h | h
      · exact isTitlecase_of_mem_lowerAt h
      · exact ih h

/-- A letter that is neither uppercase nor titlecase is its own lowercase form. -/
theorem lowerAt_of_small (hupper : isUppercase c = false) (htitle : isTitlecase c = false) :
    lowerAt before c after = [c] := by
  refine lowerAt_of_no_image (fun run hrun => ?_) ?_
  · unfold isUppercase at hupper
    rw [htitle, Bool.not_false, Bool.and_true, Bool.or_eq_false_iff] at hupper
    exact Option.not_isSome_iff_eq_none.1 (List.any_eq_false.1 hupper.2 run hrun)
  · rintro rfl
    exact absurd hupper (by decide +kernel)

theorem lowerFrom_of_small (h : ∀ c ∈ cs, isUppercase c = false ∧ isTitlecase c = false) :
    lowerFrom before cs = cs := by
  induction cs generalizing before with
  | nil => rfl
  | cons c rest ih =>
      obtain ⟨⟨hupper, htitle⟩, hrest⟩ := List.forall_mem_cons.1 h
      unfold lowerFrom
      rw [lowerAt_of_small hupper htitle, ih hrest]
      rfl

/-- The name has an uppercase letter, or it has no titlecase letter either. -/
def Folds (name : String) : Prop :=
  (∃ c ∈ name.toList, isUppercase c = true) ∨ ∀ c ∈ name.toList, isTitlecase c = false

instance : DecidablePred Folds := fun name =>
  @instDecidableOr _ _ (List.decidableBEx _ name.toList) (List.decidableBAll _ name.toList)

theorem folds_lowercase (name : String) : Folds (lowercase name) := by
  refine .inr fun c hc => ?_
  unfold lowercase at hc
  rw [String.toList_ofList] at hc
  exact isTitlecase_of_mem_lowerFrom hc

end Text

namespace Collation

open Text

variable {name other : String}

theorem key_of_folds (h : Folds name) : insensitivePreserving.key name = lowercase name := by
  unfold key
  dsimp only
  split
  case isTrue => rfl
  case isFalse hnone =>
    have hsmall : ∀ c ∈ name.toList, isUppercase c = false := by
      simpa only [Bool.not_eq_true, List.any_eq_false] using hnone
    have htitle := h.resolve_left fun ⟨c, hc, hupper⟩ => by
      rw [hsmall c hc] at hupper
      cases hupper
    unfold lowercase
    rw [lowerFrom_of_small fun c hc => ⟨hsmall c hc, htitle c hc⟩, String.ofList_toList]

theorem key_of_not_folds (h : ¬Folds name) : insensitivePreserving.key name = name :=
  if_neg fun hupper => h (.inl (List.any_eq_true.1 hupper))

theorem key_eq_lowercase_iff : insensitivePreserving.key name = lowercase name ↔ Folds name := by
  refine ⟨fun hkey => Decidable.byContradiction fun hnot => ?_, key_of_folds⟩
  rw [key_of_not_folds hnot] at hkey
  exact hnot (hkey ▸ folds_lowercase name)

/-- The key of a name that is not keyed by its lowercase form is that of no other name. -/
theorem eq_of_key_of_not_folds (h : ¬Folds name)
    (hkey : insensitivePreserving.key name = insensitivePreserving.key other) : name = other := by
  rw [key_of_not_folds h] at hkey
  by_cases hother : Folds other
  case pos =>
    rw [key_of_folds hother] at hkey
    exact absurd (hkey ▸ folds_lowercase other) h
  case neg => rw [hkey, key_of_not_folds hother]

end Collation

/-- Keys that ignore case are lowercase forms, and names are the same when their lowercase forms are,
but for the names with titlecase letters and no uppercase ones. Such a name is no lowercase form and
is its own key, so that it is the same as no other. -/
theorem keys_are_lowercase_forms (name other : String) :
    (Collation.insensitivePreserving.key name = Text.lowercase name ↔ Text.Folds name) ∧
      (Collation.insensitivePreserving.sameName name other = true ↔
        Text.lowercase name = Text.lowercase other ∧
          (name = other ∨ Text.Folds name ∧ Text.Folds other)) := by
  refine ⟨Collation.key_eq_lowercase_iff, Collation.sameName_iff.trans ⟨fun hkey => ?_, ?_⟩⟩
  · by_cases hname : Text.Folds name
    case neg =>
      obtain rfl := Collation.eq_of_key_of_not_folds hname hkey
      exact ⟨rfl, .inl rfl⟩
    by_cases hother : Text.Folds other
    case neg =>
      obtain rfl := Collation.eq_of_key_of_not_folds hother hkey.symm
      exact ⟨rfl, .inl rfl⟩
    rw [Collation.key_of_folds hname, Collation.key_of_folds hother] at hkey
    exact ⟨hkey, .inr ⟨hname, hother⟩⟩
  · rintro ⟨hlower, rfl | ⟨hname, hother⟩⟩
    · rfl
    · rw [Collation.key_of_folds hname, Collation.key_of_folds hother, hlower]

/-- A titlecase digraph is not keyed by its lowercase form, and so it is not the same name as its
small letter, though the capital one is. -/
theorem titlecase_digraph_is_its_own_key :
    Collation.insensitivePreserving.key "ǅ" ≠ Text.lowercase "ǅ" ∧
      Text.lowercase "ǅ" = Text.lowercase "ǆ" ∧
      Collation.insensitivePreserving.sameName "ǅ" "ǆ" = false ∧
      Collation.insensitivePreserving.sameName "Ǆ" "ǆ" = true := by
  decide +kernel

end RamFs
