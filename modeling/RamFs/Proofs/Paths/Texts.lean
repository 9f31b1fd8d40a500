import RamFs.Path
import RamFs.Proofs.Paths.Keys

/-!
How paths are read and shown. A text is read by the root name that matches farthest, the first of
them on a tie, and the names behind it; a path shows its root name, a separator unless the root
name ends with one, and its names.
-/

namespace RamFs

/-! ### Separators and keys -/

/-- Made of separators only. -/
def OnlySeparators (cs : List Char) : Prop :=
  ∀ c ∈ cs, isSeparator c = true

theorem steady_of_separator {c : Char} (h : isSeparator c = true) : Text.Steady c := by
  unfold isSeparator at h
  rw [Bool.or_eq_true, decide_eq_true_eq, decide_eq_true_eq] at h
  rcases h with rfl | rfl <;> decide

/-- Of two spellings of one name both are made of separators or none is. -/
theorem Collation.separators_of_sameName {collation : Collation} {name other : String}
    (hsame : collation.sameName name other = true) (h : OnlySeparators name.toList) :
    name = other :=
  eq_of_sameName hsame fun c hc => steady_of_separator (h c hc)

/-! ### Root names in a text -/

namespace Path

variable {collation : Collation} {name : String} {input head tail rest : List Char} {size : Nat}

/-- A text spells a name: they are the same name and have the same size. -/
structure Spells (collation : Collation) (name text : String) : Prop where
  same : collation.sameName text name = true
  size : text.utf8ByteSize = name.utf8ByteSize

theorem utf8ByteSize_cons (c : Char) (cs : List Char) :
    (String.ofList (c :: cs)).utf8ByteSize = c.utf8Size + (String.ofList cs).utf8ByteSize := by
  rw [String.ofList_cons, String.utf8ByteSize_append, String.utf8ByteSize_singleton]

theorem splitBytes?_eq_some {count : Nat} :
    splitBytes? count input = some (head, rest) ↔
      input = head ++ rest ∧ (String.ofList head).utf8ByteSize = count := by
  induction count, input using splitBytes?.induct generalizing head with
  | case1 cs =>
      unfold splitBytes?
      constructor
      · rintro ⟨⟩
        exact ⟨rfl, rfl⟩
      · rintro ⟨rfl, hsize⟩
        cases head with
        | nil => rfl
        | cons c head =>
            have := c.utf8Size_pos
            rw [utf8ByteSize_cons] at hsize
            omega
  | case2 n =>
      unfold splitBytes?
      refine ⟨nofun, fun ⟨hinput, hsize⟩ => ?_⟩
      obtain ⟨rfl, rfl⟩ := List.append_eq_nil_iff.1 hinput.symm
      cases hsize
  | case3 n c cs hfits ih =>
      unfold splitBytes?
      rw [if_pos hfits]
      constructor
      · intro h
        obtain ⟨⟨later, rest'⟩, hlater, hhead⟩ := Option.map_eq_some_iff.1 h
        obtain ⟨rfl, rfl⟩ := Prod.mk.inj hhead
        obtain ⟨rfl, hsize⟩ := ih.1 hlater
        refine ⟨rfl, ?_⟩
        rw [utf8ByteSize_cons, hsize]
        omega
      · rintro ⟨hinput, hsize⟩
        cases head with
        | nil => cases hsize
        | cons c' head =>
            obtain ⟨rfl, rfl⟩ := List.cons.inj hinput
            rw [utf8ByteSize_cons] at hsize
            exact Option.map_eq_some_iff.2 ⟨(head, rest), ih.2 ⟨rfl, by omega⟩, rfl⟩
  | case4 n c cs hlarge =>
      unfold splitBytes?
      rw [if_neg hlarge]
      refine ⟨nofun, fun ⟨hinput, hsize⟩ => ?_⟩
      cases head with
      | nil => cases hsize
      | cons c' head =>
          obtain ⟨rfl, rfl⟩ := List.cons.inj hinput
          rw [utf8ByteSize_cons] at hsize
          omega

theorem matchRoot?_of_separators (h : OnlySeparators name.toList) :
    matchRoot? collation name input = some (size, rest) ↔
      ∃ c, isSeparator c = true ∧ input = c :: rest ∧ size = 1 := by
  unfold matchRoot?
  rw [if_pos (List.all_eq_true.2 h)]
  cases input with
  | nil => exact ⟨nofun, fun ⟨_, _, h, _⟩ => nomatch h⟩
  | cons c cs =>
      dsimp only
      split
      case isTrue hc =>
        constructor
        · rintro ⟨⟩
          exact ⟨c, hc, rfl, rfl⟩
        · rintro ⟨_, _, h, rfl⟩
          obtain ⟨rfl, rfl⟩ := List.cons.inj h
          rfl
      case isFalse hc =>
        refine ⟨nofun, fun ⟨_, hc', h, _⟩ => ?_⟩
        obtain ⟨rfl, _⟩ := List.cons.inj h
        exact absurd hc' hc

theorem matchRoot?_eq_some (h : ¬OnlySeparators name.toList) :
    matchRoot? collation name input = some (size, rest) ↔
      ∃ head tail, input = head ++ tail ∧ Spells collation name (String.ofList head) ∧
        (tail = [] ∧ rest = [] ∧ size = name.utf8ByteSize ∨
          ∃ c, isSeparator c = true ∧ tail = c :: rest ∧ size = name.utf8ByteSize + 1) := by
  unfold matchRoot?
  rw [if_neg fun hall => h (List.all_eq_true.1 hall), Option.bind_eq_bind,
    Option.bind_eq_some_iff]
  constructor
  · rintro ⟨⟨head, tail⟩, hsplit, hrest⟩
    obtain ⟨rfl, hsize⟩ := splitBytes?_eq_some.1 hsplit
    dsimp only at hrest
    cases hsame : collation.sameName (String.ofList head) name with
    | false =>
        rw [hsame] at hrest
        cases hrest
    | true =>
        rw [hsame] at hrest
        refine ⟨head, tail, rfl, ⟨hsame, hsize⟩, ?_⟩
        cases tail with
        | nil =>
            obtain ⟨rfl, rfl⟩ := Prod.mk.inj (Option.some.inj hrest)
            exact .inl ⟨rfl, rfl, rfl⟩
        | cons c tail =>
            obtain ⟨hc, hrest⟩ := Option.ite_none_right_eq_some.1 hrest
            obtain ⟨rfl, rfl⟩ := Prod.mk.inj (Option.some.inj hrest)
            exact .inr ⟨c, hc, rfl, rfl⟩
  · rintro ⟨head, tail, rfl, ⟨hsame, hsize⟩, htail⟩
    refine ⟨(head, tail), splitBytes?_eq_some.2 ⟨rfl, hsize⟩, ?_⟩
    dsimp only
    rw [hsame]
    rcases htail with ⟨rfl, rfl, rfl⟩ | ⟨c, hc, rfl, rfl⟩
    · rfl
    · exact if_pos hc

/-- The root name at a place matches so far, and every other one less far, or as far and behind
it. -/
structure Wins (collation : Collation) (input : List Char) (names : List String) (place size : Nat)
    (rest : List Char) : Prop where
  matched : ∃ name, names[place]? = some name ∧
    matchRoot? collation name input = some (size, rest)
  others : ∀ other name size' rest', names[other]? = some name → other ≠ place →
    matchRoot? collation name input = some (size', rest') → size' < size ∨ size' = size ∧ place < other

variable {names : List String} {place base : Nat}

theorem Wins.unique {place' size' : Nat} {rest' : List Char}
    (h : Wins collation input names place size rest)
    (h' : Wins collation input names place' size' rest') :
    place = place' ∧ size = size' ∧ rest = rest' := by
  obtain ⟨name, hname, hmatch⟩ := h.matched
  obtain ⟨name', hname', hmatch'⟩ := h'.matched
  by_cases hplace : place = place'
  · subst hplace
    obtain rfl := Option.some.inj (hname.symm.trans hname')
    obtain ⟨rfl, rfl⟩ := Prod.mk.inj (Option.some.inj (hmatch.symm.trans hmatch'))
    exact ⟨rfl, rfl, rfl⟩
  · have hless := h.others place' name' size' rest' hname' (Ne.symm hplace) hmatch'
    have hless' := h'.others place name size rest hname hplace hmatch
    omega

theorem Wins.behind (h : Wins collation input names place size rest)
    (hname : ∀ size' rest', matchRoot? collation name input = some (size', rest') → size' < size) :
    Wins collation input (name :: names) (place + 1) size rest := by
  refine ⟨h.matched, fun other name' size' rest' hother hne hmatch => ?_⟩
  cases other with
  | zero =>
      obtain rfl := Option.some.inj hother
      exact .inl (hname size' rest' hmatch)
  | succ other =>
      refine (h.others other name' size' rest' hother (fun hsame => hne (congrArg _ hsame))
        hmatch).imp_right fun ⟨hsize, hplace⟩ => ⟨hsize, Nat.succ_lt_succ hplace⟩

theorem wins_first (hmatch : matchRoot? collation name input = some (size, rest))
    (hnames : ∀ other ∈ names, ∀ size' rest',
      matchRoot? collation other input = some (size', rest') → size' ≤ size) :
    Wins collation input (name :: names) 0 size rest := by
  refine ⟨⟨name, rfl, hmatch⟩, fun other name' size' rest' hother hne hmatch' => ?_⟩
  cases other with
  | zero => exact absurd rfl hne
  | succ other =>
      have hle := hnames name' (List.mem_of_getElem? hother) size' rest' hmatch'
      exact (Nat.lt_or_eq_of_le hle).imp_right fun hsize => ⟨hsize, Nat.succ_pos other⟩

theorem longestRoot?_wins (collation : Collation) (input : List Char) (names : List String)
    (base : Nat) : (∀ name ∈ names, matchRoot? collation name input = none) ∧
      longestRoot? collation input base names = none ∨
    ∃ place size rest, Wins collation input names place size rest ∧
      longestRoot? collation input base names = some (base + place, size, rest) := by
  induction names generalizing base with
  | nil => exact .inl ⟨nofun, rfl⟩
  | cons name names ih =>
      unfold longestRoot?
      cases hmatch : matchRoot? collation name input with
      | none =>
          rcases ih (base + 1) with ⟨hnone, hlater⟩ | ⟨place, size, rest, hwins, hlater⟩
          · exact .inl ⟨List.forall_mem_cons.2 ⟨hmatch, hnone⟩, hlater⟩
          · refine .inr ⟨place + 1, size, rest, hwins.behind (by rw [hmatch]; nofun), ?_⟩
            rw [hlater, Nat.add_assoc, Nat.add_comm 1]
      | some own =>
          obtain ⟨size, rest⟩ := own
          rcases ih (base + 1) with ⟨hnone, hlater⟩ | ⟨place, size', rest', hwins, hlater⟩
          · refine .inr ⟨0, size, rest, wins_first hmatch fun other hother _ _ hsome => ?_, ?_⟩
            · rw [hnone other hother] at hsome
              cases hsome
            · rw [hlater]
              rfl
          · rw [hlater]
            dsimp only
            split
            case isTrue hfarther =>
              refine .inr ⟨place + 1, size', rest', hwins.behind fun _ _ hown => ?_, ?_⟩
              · rw [hmatch] at hown
                cases hown
                exact hfarther
              · rw [Nat.add_assoc, Nat.add_comm 1]
            case isFalse hshorter =>
              refine .inr ⟨0, size, rest, wins_first hmatch fun other hother size'' rest'' hsome => ?_,
                rfl⟩
              obtain ⟨at', hat⟩ := List.getElem?_of_mem hother
              obtain ⟨winner, hwinner, hmatched⟩ := hwins.matched
              by_cases hsame : at' = place
              · subst hsame
                obtain rfl := Option.some.inj (hwinner.symm.trans hat)
                cases hmatched.symm.trans hsome
                exact Nat.le_of_not_lt hshorter
              · have hless := hwins.others at' other size'' rest'' hat hsame hsome
                omega

theorem longestRoot?_eq_some {ordinal : Nat} :
    longestRoot? collation input base names = some (ordinal, size, rest) ↔
      ∃ place, ordinal = base + place ∧ Wins collation input names place size rest := by
  rcases longestRoot?_wins collation input names base with
    ⟨hnone, hrun⟩ | ⟨place, size', rest', hwins, hrun⟩
  · rw [hrun]
    refine ⟨nofun, fun ⟨place, _, hwins⟩ => ?_⟩
    obtain ⟨name, hname, hmatch⟩ := hwins.matched
    rw [hnone name (List.mem_of_getElem? hname)] at hmatch
    cases hmatch
  · rw [hrun]
    constructor
    · rintro ⟨⟩
      exact ⟨place, rfl, hwins⟩
    · rintro ⟨place', rfl, hwins'⟩
      obtain ⟨rfl, rfl, rfl⟩ := hwins.unique hwins'
      rfl

/-! ### Names in a text -/

/-- What a name in a path can be. -/
structure IsName (name : String) : Prop where
  not_empty : name ≠ ""
  not_here : name ≠ "."
  not_up : name ≠ ".."
  no_separator : ∀ c ∈ name.toList, isSeparator c = false
  no_nul : name.toList.any (· = '\x00') = false

/-- Names as they are shown. -/
def joined (elements : List String) : List Char :=
  ("/".intercalate elements).toList

variable {elements : List String} {part : String}

theorem joined_cons_cons (part next : String) (elements : List String) :
    joined (part :: next :: elements) = part.toList ++ '/' :: joined (next :: elements) := by
  unfold joined
  rw [String.intercalate_cons_cons, String.toList_append, String.toList_append, List.append_assoc]
  rfl

theorem joined_singleton (part : String) : joined [part] = part.toList := by
  unfold joined
  rw [String.intercalate_singleton]

theorem joined_concat (part : String) (hne : elements ≠ []) :
    joined (elements ++ [part]) = joined elements ++ '/' :: part.toList := by
  induction elements with
  | nil => exact absurd rfl hne
  | cons first rest ih =>
      cases rest with
      | nil =>
          rw [List.singleton_append, joined_cons_cons, joined_singleton, joined_singleton]
      | cons next rest =>
          rw [List.cons_append, List.cons_append, joined_cons_cons, joined_cons_cons,
            ← List.cons_append, ih (List.cons_ne_nil _ _), List.append_assoc, List.cons_append]

/-- What ends with a name does not end with a separator. -/
theorem getLast?_joined (hnames : ∀ part ∈ elements, IsName part) (hne : elements ≠ []) :
    ∃ c, (joined elements).getLast? = some c ∧ isSeparator c = false := by
  obtain ⟨front, name, rfl⟩ : ∃ front name, elements = front ++ [name] :=
    ⟨_, _, (List.dropLast_concat_getLast hne).symm⟩
  have hname := hnames name (List.mem_append_right _ (List.mem_singleton_self _))
  have hchars : name.toList ≠ [] := fun hnil => hname.not_empty (String.toList_eq_nil_iff.1 hnil)
  have hlast := List.getLast?_eq_some_getLast hchars
  refine ⟨_, ?_, hname.no_separator _ (List.getLast_mem hchars)⟩
  cases front with
  | nil => rw [List.nil_append, joined_singleton, hlast]
  | cons part rest =>
      rw [joined_concat name (List.cons_ne_nil _ _), List.append_cons, List.getLast?_append, hlast,
        Option.some_or]

theorem parts_of_name (h : ∀ c ∈ part.toList, isSeparator c = false) :
    parts part.toList = [part] := by
  unfold parts
  rw [List.splitOnP_eq_singleton h, List.map_singleton, String.ofList_toList]

theorem parts_append_cons {part : String} (h : ∀ c ∈ part.toList, isSeparator c = false) {c : Char}
    (hc : isSeparator c = true) (cs : List Char) :
    parts (part.toList ++ c :: cs) = part :: parts cs := by
  unfold parts
  rw [List.splitOnP_append_cons_of_forall_mem h c hc, List.map_cons, String.ofList_toList]

theorem parts_joined (h : ∀ part ∈ elements, IsName part) (hne : elements ≠ []) :
    parts (joined elements) = elements := by
  induction elements with
  | nil => exact absurd rfl hne
  | cons part rest ih =>
      obtain ⟨hpart, hrest⟩ := List.forall_mem_cons.1 h
      cases rest with
      | nil => rw [joined_singleton, parts_of_name hpart.no_separator]
      | cons next rest =>
          rw [joined_cons_cons, parts_append_cons hpart.no_separator rfl,
            ih hrest (List.cons_ne_nil _ _)]

theorem pushAll_names (elements : List String) {names : List String}
    (h : ∀ part ∈ names, IsName part) : pushAll elements names = .ok (elements ++ names) := by
  induction names generalizing elements with
  | nil => rw [List.append_nil]; rfl
  | cons part rest ih =>
      obtain ⟨hpart, hrest⟩ := List.forall_mem_cons.1 h
      have hpush : push elements part = .ok (elements ++ [part]) := by
        unfold push
        rw [if_neg (not_or.2 ⟨hpart.not_empty, hpart.not_here⟩), if_neg hpart.not_up,
          if_neg (by rw [hpart.no_nul]; exact Bool.false_ne_true)]
      unfold pushAll
      rw [hpush]
      exact (ih (elements ++ [part]) hrest).trans (by rw [List.append_assoc]; rfl)

theorem pushAll_empty (elements rest : List String) :
    pushAll elements ("" :: rest) = pushAll elements rest := rfl

/-- Separators in front of the names make no difference. -/
theorem pushAll_joined {separators : List Char} (hseparators : OnlySeparators separators)
    (h : ∀ part ∈ elements, IsName part) :
    pushAll [] (parts (separators ++ joined elements)) = .ok elements := by
  induction separators with
  | nil =>
      cases elements with
      | nil => rfl
      | cons part rest =>
          rw [List.nil_append, parts_joined h (List.cons_ne_nil _ _), pushAll_names [] h]
          rfl
  | cons c rest ih =>
      have hparts : parts (c :: (rest ++ joined elements)) = "" :: parts (rest ++ joined elements) :=
        @parts_append_cons "" nofun c (hseparators c (List.mem_cons_self ..)) _
      rw [List.cons_append, hparts, pushAll_empty]
      exact ih fun d hd => hseparators d (List.mem_cons_of_mem _ hd)

theorem not_separator_of_mem_splitOnP (cs : List Char) :
    ∀ piece ∈ cs.splitOnP isSeparator, ∀ c ∈ piece, isSeparator c = false := by
  induction cs with
  | nil =>
      intro piece hpiece
      obtain rfl := List.mem_singleton.1 hpiece
      exact nofun
  | cons c rest ih =>
      rw [List.splitOnP_cons_eq_if_modifyHead]
      split
      case isTrue => exact List.forall_mem_cons.2 ⟨nofun, ih⟩
      case isFalse hc =>
        obtain ⟨first, later, hsplit⟩ := List.exists_cons_of_ne_nil
          (List.splitOnP_ne_nil isSeparator rest)
        rw [hsplit] at ih ⊢
        obtain ⟨hfirst, hlater⟩ := List.forall_mem_cons.1 ih
        exact List.forall_mem_cons.2
          ⟨List.forall_mem_cons.2 ⟨eq_false_of_ne_true hc, hfirst⟩, hlater⟩

theorem not_separator_of_mem_parts {cs : List Char} (h : part ∈ parts cs) :
    ∀ c ∈ part.toList, isSeparator c = false := by
  unfold parts at h
  obtain ⟨piece, hpiece, rfl⟩ := List.mem_map.1 h
  rw [String.toList_ofList]
  exact not_separator_of_mem_splitOnP cs piece hpiece

theorem push_isName {found : List String} (helements : ∀ part ∈ elements, IsName part)
    (hpart : ∀ c ∈ part.toList, isSeparator c = false) (h : push elements part = .ok found) :
    ∀ part ∈ found, IsName part := by
  unfold push at h
  split at h
  case isTrue =>
    obtain rfl := Except.ok.inj h
    exact helements
  case isFalse hplain =>
    obtain ⟨hempty, hhere⟩ := not_or.1 hplain
    split at h
    case isTrue =>
      obtain rfl := Except.ok.inj h
      exact fun part hmem => helements part (List.dropLast_subset _ hmem)
    case isFalse hup =>
      split at h
      case isTrue => cases h
      case isFalse hnul =>
        obtain rfl := Except.ok.inj h
        have hname : IsName part := ⟨hempty, hhere, hup, hpart, eq_false_of_ne_true hnul⟩
        exact List.forall_mem_append.2 ⟨helements, List.forall_mem_singleton.2 hname⟩

/-- What is read off a text is made of names. -/
theorem pushAll_isName {raw found : List String} (helements : ∀ part ∈ elements, IsName part)
    (hraw : ∀ part ∈ raw, ∀ c ∈ part.toList, isSeparator c = false)
    (h : pushAll elements raw = .ok found) : ∀ part ∈ found, IsName part := by
  induction raw generalizing elements with
  | nil =>
      obtain rfl := Except.ok.inj h
      exact helements
  | cons part rest ih =>
      obtain ⟨hpart, hrest⟩ := List.forall_mem_cons.1 hraw
      unfold pushAll at h
      cases hpush : push elements part with
      | error failure =>
          rw [hpush] at h
          cases h
      | ok pushed =>
          rw [hpush] at h
          exact ih (push_isName helements hpart hpush) hrest h

end Path

end RamFs
