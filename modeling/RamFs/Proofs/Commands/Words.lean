import Mathlib.Data.List.TakeWhile
import RamFs.Command

/-!
Words of a line. The words are the longest stretches without whitespace; taking the next one leaves
the rest of the line untouched from there on, so that a line can be read by words up to a text that
is taken as it stands.
-/

namespace RamFs

namespace Text

/-- What stands between whitespace. -/
def words (cs : List Char) : List String :=
  ((cs.splitOnP isBlank).filter (!·.isEmpty)).map String.ofList

structure IsWord (word : String) : Prop where
  not_empty : word ≠ ""
  not_blank : ∀ c ∈ word.toList, isBlank c = false

instance : DecidablePred IsWord := fun word =>
  decidable_of_iff (word ≠ "" ∧ word.toList.all fun c => !isBlank c) <| by
    rw [List.all_eq_true]
    simp only [Bool.not_eq_true']
    exact ⟨fun ⟨hne, hletter⟩ => ⟨hne, hletter⟩, fun h => ⟨h.not_empty, h.not_blank⟩⟩

variable {cs lead gap rest : List Char} {c : Char} {word : String}

theorem words_nil : words [] = [] := rfl

/-- A line can be cut at any whitespace. -/
theorem words_append_cons (first rest : List Char) (hc : isBlank c = true) :
    words (first ++ c :: rest) = words first ++ words rest := by
  unfold words
  rw [List.splitOnP_append_cons first rest hc, List.filter_append, List.map_append]

theorem words_append_of_blank (hlead : ∀ c ∈ lead, isBlank c = true) (rest : List Char) :
    words (lead ++ rest) = words rest := by
  induction lead with
  | nil => rfl
  | cons c lead ih =>
      obtain ⟨hc, hlead⟩ := List.forall_mem_cons.1 hlead
      exact (words_append_cons [] (lead ++ rest) hc).trans (ih hlead)

theorem words_of_isWord (h : IsWord word) : words word.toList = [word] := by
  have hne : word.toList ≠ [] := fun hnil => h.not_empty (String.toList_eq_nil_iff.1 hnil)
  unfold words
  rw [List.splitOnP_eq_singleton h.not_blank]
  simp [hne]

/-- A word ends with the line or before whitespace. -/
theorem words_word_append (h : IsWord word) (hrest : ∀ c ∈ rest.head?, isBlank c = true) :
    words (word.toList ++ rest) = word :: words rest := by
  cases rest with
  | nil => rw [List.append_nil, words_of_isWord h, words_nil]
  | cons c rest =>
      have hc : isBlank c = true := hrest c rfl
      rw [words_append_cons _ _ hc, words_of_isWord h, ← List.nil_append (c :: rest),
        words_append_cons [] _ hc, words_nil]
      rfl

theorem nextWord?_eq_some :
    nextWord? cs = some (word, rest) ↔ ∃ lead, cs = lead ++ (word.toList ++ rest) ∧
      (∀ c ∈ lead, isBlank c = true) ∧ IsWord word ∧ ∀ c ∈ rest.head?, isBlank c = true := by
  unfold nextWord?
  constructor
  · intro h
    have hsplit := @List.takeWhile_append_dropWhile _ isBlank cs
    have hstop := List.head?_dropWhile_not isBlank cs
    refine ⟨cs.takeWhile isBlank, ?_⟩
    cases hlater : cs.dropWhile isBlank with
    | nil =>
        rw [hlater] at h
        cases h
    | cons c later =>
        rw [hlater] at h hsplit hstop
        have hc : isBlank c = false := by simpa using hstop
        obtain ⟨rfl, rfl⟩ := Prod.mk.inj (Option.some.inj h)
        rw [String.toList_ofList, List.takeWhile_append_dropWhile]
        refine ⟨hsplit.symm, fun d hd => List.mem_takeWhile_imp hd, ⟨?_, fun d hd => ?_⟩, ?_⟩
        · simp [hc]
        · rw [String.toList_ofList] at hd
          simpa using List.mem_takeWhile_imp hd
        · intro d hd
          have hends := List.head?_dropWhile_not (!isBlank ·) (c :: later)
          rw [hd] at hends
          simpa using hends
  · rintro ⟨lead, rfl, hlead, hword, hrest⟩
    obtain ⟨c, later, hcons⟩ := List.exists_cons_of_ne_nil fun hnil =>
      hword.not_empty (String.toList_eq_nil_iff.1 hnil)
    have hc : isBlank c = false := hword.not_blank c (hcons ▸ List.mem_cons_self ..)
    have hdrop : (lead ++ (word.toList ++ rest)).dropWhile isBlank = word.toList ++ rest := by
      rw [List.dropWhile_append_of_pos hlead, hcons, List.cons_append,
        List.dropWhile_cons_of_neg (by rw [hc]; exact Bool.false_ne_true)]
    have hletters : ∀ c ∈ word.toList, (!isBlank c) = true := fun c hc => by
      rw [hword.not_blank c hc]
      rfl
    have hnone : rest.takeWhile (!isBlank ·) = [] ∧ rest.dropWhile (!isBlank ·) = rest := by
      cases rest with
      | nil => exact ⟨rfl, rfl⟩
      | cons d rest =>
          have hd : isBlank d = true := hrest d rfl
          simp [hd]
    rw [hdrop, hcons]
    dsimp only [List.cons_append]
    rw [← List.cons_append, ← hcons, List.takeWhile_append_of_pos hletters,
      List.dropWhile_append_of_pos hletters, hnone.1, hnone.2, List.append_nil,
      String.ofList_toList]

theorem words_of_nextWord? (h : nextWord? cs = some (word, rest)) :
    words cs = word :: words rest := by
  obtain ⟨lead, rfl, hlead, hword, hrest⟩ := nextWord?_eq_some.1 h
  rw [words_append_of_blank hlead, words_word_append hword hrest]

theorem nextWord?_eq_none : nextWord? cs = none ↔ words cs = [] := by
  constructor
  · intro h
    unfold nextWord? at h
    split at h
    case h_1 hnil =>
      have hblank := List.dropWhile_eq_nil_iff.1 hnil
      exact (congrArg words (List.append_nil cs).symm).trans (words_append_of_blank hblank [])
    case h_2 => cases h
  · intro h
    rw [Option.eq_none_iff_forall_ne_some]
    rintro ⟨word, rest⟩ hsome
    cases (words_of_nextWord? hsome).symm.trans h

theorem words_eq_cons {later : List String} :
    words cs = word :: later ↔ ∃ rest, nextWord? cs = some (word, rest) ∧ words rest = later := by
  constructor
  · intro h
    cases hnext : nextWord? cs with
    | none => cases h.symm.trans (nextWord?_eq_none.1 hnext)
    | some next =>
        obtain ⟨first, rest⟩ := next
        obtain ⟨rfl, hlater⟩ := List.cons.inj ((words_of_nextWord? hnext).symm.trans h)
        exact ⟨rest, rfl, hlater⟩
  · rintro ⟨rest, hnext, rfl⟩
    exact words_of_nextWord? hnext

/-! ### Ends of lines -/

/-- What is left does not end in a character to be dropped, and only such were dropped. -/
theorem dropTailWhile_eq_iff {p : Char → Bool} {body : List Char} :
    dropTailWhile p cs = body ↔ ∃ tail, cs = body ++ tail ∧ (∀ c ∈ tail, p c = true) ∧
      ∀ c ∈ body.getLast?, p c = false := by
  unfold dropTailWhile
  constructor
  · rintro rfl
    refine ⟨(cs.reverse.takeWhile p).reverse, ?_, fun c hc => ?_, fun c hc => ?_⟩
    · rw [← List.reverse_append, List.takeWhile_append_dropWhile, List.reverse_reverse]
    · exact List.mem_takeWhile_imp (List.mem_reverse.1 hc)
    · have hstop := List.head?_dropWhile_not p cs.reverse
      rw [List.getLast?_reverse] at hc
      rw [hc] at hstop
      simpa using hstop
  · rintro ⟨tail, rfl, htail, hlast⟩
    have hkept : body.reverse.dropWhile p = body.reverse := by
      cases hreverse : body.reverse with
      | nil => rfl
      | cons c rest =>
          have hc := hlast c (by rw [List.getLast?_eq_head?_reverse, hreverse]; rfl)
          rw [List.dropWhile_cons_of_neg (by rw [hc]; exact Bool.false_ne_true)]
    rw [List.reverse_append,
      List.dropWhile_append_of_pos fun c hc => htail c (List.mem_reverse.1 hc), hkept,
      List.reverse_reverse]

end Text

end RamFs
