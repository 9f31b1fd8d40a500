import Mathlib.Data.List.Forall2
import Mathlib.Data.List.Nodup
import RamFs.Edit
import RamFs.Proofs.Paths.Joining

/-!
Which root a text selects. Two texts whose parts are pairwise the same name are read alike: both are
refused, or both are under one root, both absolute or both relative, with names that are pairwise
the same. The one exception is a first part that names a root in a spelling of another size, since
so many bytes as the root name has are compared; it is read as a name below the first root.
-/

namespace RamFs

open RamFs.Action

/-- The names are pairwise the same. -/
def Collation.SameNames (collation : Collation) : List String → List String → Prop :=
  List.Forall₂ fun name other => collation.sameName name other = true

theorem Collation.sameName_symm {collation : Collation} {name other : String}
    (h : collation.sameName name other = true) : collation.sameName other name = true :=
  sameName_iff.2 (sameName_iff.1 h).symm

namespace Path

variable {collation : Collation} {elements others raw raw' found later later' names : List String}
  {part part' name first first' : String} {input other rest : List Char} {size place : Nat}

/-! ### Names that are read alike -/

theorem push_alike (helements : collation.SameNames elements others)
    (hpart : collation.sameName part part' = true) (h : push elements part = .ok found) :
    ∃ found', push others part' = .ok found' ∧ collation.SameNames found found' := by
  -- the parts that are no names have one spelling
  have hspelled : ∀ special, (∀ c ∈ special.toList, Text.Steady c) →
      (part = special ↔ part' = special) := by
    intro special hsteady
    constructor
    · rintro rfl
      exact (Collation.eq_of_sameName hpart hsteady).symm
    · rintro rfl
      exact (Collation.eq_of_sameName (Collation.sameName_symm hpart) hsteady).symm
  have hnul : '\x00' ∈ part.toList ↔ '\x00' ∈ part'.toList :=
    Collation.mem_of_sameName (by decide) hpart
  unfold push at h ⊢
  simp only [List.any_eq_true, decide_eq_true_eq, exists_eq_right] at h ⊢
  simp only [hspelled "" (by simp), hspelled "." (by simp [Text.Steady]),
    hspelled ".." (by simp [Text.Steady]), hnul] at h
  split at h
  case isTrue hplain =>
    obtain rfl := Except.ok.inj h
    exact ⟨others, if_pos hplain, helements⟩
  case isFalse hplain =>
    rw [if_neg hplain]
    split at h
    case isTrue hup =>
      obtain rfl := Except.ok.inj h
      refine ⟨others.dropLast, if_pos hup, ?_⟩
      rw [List.dropLast_eq_take, List.dropLast_eq_take, ← helements.length_eq]
      exact List.forall₂_take _ helements
    case isFalse hup =>
      rw [if_neg hup]
      split at h
      case isTrue => cases h
      case isFalse hclean =>
        obtain rfl := Except.ok.inj h
        exact ⟨others ++ [part'], if_neg hclean, List.rel_append helements (.cons hpart .nil)⟩

theorem pushAll_alike (helements : collation.SameNames elements others)
    (hraw : collation.SameNames raw raw') (h : pushAll elements raw = .ok found) :
    ∃ found', pushAll others raw' = .ok found' ∧ collation.SameNames found found' := by
  induction hraw generalizing elements others with
  | nil =>
      obtain rfl := Except.ok.inj h
      exact ⟨others, rfl, helements⟩
  | cons hpart _ ih =>
      unfold pushAll at h ⊢
      obtain ⟨pushed, hpush, h⟩ := exists_of_bind_ok h
      obtain ⟨pushed', hpush', hpushed⟩ := push_alike helements hpart hpush
      rw [hpush']
      exact ih hpushed h

/-- A part with a NUL is among the ones and among the others. -/
theorem nul_mem_of_alike (h : collation.SameNames raw raw') :
    (∃ part ∈ raw, '\x00' ∈ part.toList) ↔ ∃ part ∈ raw', '\x00' ∈ part.toList := by
  induction h with
  | nil => exact Iff.rfl
  | cons hpart _ ih =>
      rw [List.exists_mem_cons_iff, List.exists_mem_cons_iff, ih,
        Collation.mem_of_sameName (by decide) hpart]

/-- Two texts are read as the same path up to the spelling of its names, or both are refused. -/
inductive ReadAlike (collation : Collation) : Except Failure Path → Except Failure Path → Prop where
  | refused : ReadAlike collation (.error .invalidName) (.error .invalidName)
  | found {path other : Path} : path.root = other.root → path.absolute = other.absolute →
      collation.SameNames path.elements other.elements → ReadAlike collation (.ok path) (.ok other)

theorem ReadAlike.absolute_eq {read read' : Except Failure Path}
    (h : ReadAlike collation read read') : read.map Path.absolute = read'.map Path.absolute := by
  cases h with
  | refused => rfl
  | found _ habsolute _ => exact congrArg Except.ok habsolute

/-- The path of the raw parts below a root. -/
def below (root : Nat) (rootName : String) (absolute : Bool) (raw : List String) :
    Except Failure Path := do
  let elements ← pushAll [] raw
  return ⟨root, rootName, elements, absolute⟩

theorem below_eq_error {root : Nat} {rootName : String} {absolute : Bool} {failure : Failure} :
    below root rootName absolute raw = .error failure ↔
      failure = .invalidName ∧ ∃ part ∈ raw, '\x00' ∈ part.toList := by
  rw [← pushAll_eq_error []]
  unfold below
  cases pushAll [] raw with
  | error refusal =>
      exact ⟨fun h => congrArg _ (Except.error.inj h), fun h => congrArg _ (Except.error.inj h)⟩
  | ok found => exact ⟨nofun, nofun⟩

theorem below_alike (h : collation.SameNames raw raw') (root : Nat) (rootName : String)
    (absolute : Bool) :
    ReadAlike collation (below root rootName absolute raw) (below root rootName absolute raw') := by
  cases hread : pushAll [] raw with
  | error failure =>
      obtain ⟨rfl, hnul⟩ := (pushAll_eq_error []).1 hread
      rw [below_eq_error.2 ⟨rfl, hnul⟩, below_eq_error.2 ⟨rfl, (nul_mem_of_alike h).1 hnul⟩]
      exact .refused
  | ok found =>
      obtain ⟨found', hread', hfound⟩ := pushAll_alike .nil h hread
      unfold below
      rw [hread, hread']
      exact .found rfl rfl hfound

/-! ### How far a root name matches -/

theorem splitOnP_cases {p : Char → Bool} {head : List Char} {later : List (List Char)}
    (h : input.splitOnP p = head :: later) :
    later = [] ∧ input = head ∨
      ∃ c rest, p c = true ∧ input = head ++ c :: rest ∧ later = rest.splitOnP p := by
  induction input generalizing head with
  | nil =>
      obtain ⟨rfl, rfl⟩ := List.cons.inj h
      exact .inl ⟨rfl, rfl⟩
  | cons c rest ih =>
      rw [List.splitOnP_cons_eq_if_modifyHead] at h
      split at h
      case isTrue hc =>
        obtain ⟨rfl, rfl⟩ := List.cons.inj h
        exact .inr ⟨c, rest, hc, rfl, rfl⟩
      case isFalse =>
        obtain ⟨piece, pieces, hsplit⟩ := List.exists_cons_of_ne_nil (List.splitOnP_ne_nil p rest)
        rw [hsplit, List.modifyHead_cons] at h
        obtain ⟨rfl, rfl⟩ := List.cons.inj h
        rcases ih hsplit with ⟨rfl, rfl⟩ | ⟨d, more, hd, rfl, rfl⟩
        · exact .inl ⟨rfl, rfl⟩
        · exact .inr ⟨d, more, hd, rfl, rfl⟩

/-- The first part of a text ends with it, or at a separator behind which the others are. -/
theorem parts_cases (h : parts input = first :: later) :
    later = [] ∧ input = first.toList ∨
      ∃ c rest, isSeparator c = true ∧ input = first.toList ++ c :: rest ∧ later = parts rest := by
  unfold parts at h
  obtain ⟨head, pieces, hsplit, rfl, rfl⟩ := List.map_eq_cons_iff.1 h
  rw [String.toList_ofList]
  rcases splitOnP_cases hsplit with ⟨rfl, rfl⟩ | ⟨c, rest, hc, rfl, rfl⟩
  · exact .inl ⟨rfl, rfl⟩
  · exact .inr ⟨c, rest, hc, rfl, rfl⟩

/-- How far a root name matches a text, by the first part of the text and the parts behind it. -/
inductive Reaches (collation : Collation) (name first : String) (later : List String) : Nat → Prop
    where
  | separator : OnlySeparators name.toList → first = "" → later ≠ [] →
      Reaches collation name first later 1
  | whole : ¬OnlySeparators name.toList → Spells collation name first → later = [] →
      Reaches collation name first later name.utf8ByteSize
  | front : ¬OnlySeparators name.toList → Spells collation name first → later ≠ [] →
      Reaches collation name first later (name.utf8ByteSize + 1)

/-- A root name that consists of separators or has none matches by whole parts. -/
theorem reaches_of_matchRoot?
    (hname : OnlySeparators name.toList ∨ ∀ c ∈ name.toList, isSeparator c = false)
    (h : matchRoot? collation name input = some (size, rest))
    (hparts : parts input = first :: later) :
    Reaches collation name first later size ∧ (later = [] ∧ rest = [] ∨ later = parts rest) := by
  by_cases honly : OnlySeparators name.toList
  · obtain ⟨c, hc, rfl, rfl⟩ := (matchRoot?_of_separators honly).1 h
    have hsplit : parts (c :: rest) = "" :: parts rest := @parts_append_cons "" nofun c hc rest
    obtain ⟨rfl, rfl⟩ := List.cons.inj (hsplit.symm.trans hparts)
    have hne : parts rest ≠ [] := fun hnil =>
      List.splitOnP_ne_nil isSeparator rest (List.map_eq_nil_iff.1 hnil)
    exact ⟨.separator honly rfl hne, .inr rfl⟩
  · obtain ⟨head, tail, rfl, hspells, htail⟩ := (matchRoot?_eq_some honly).1 h
    have hhead : ∀ c ∈ (String.ofList head).toList, isSeparator c = false := by
      intro c hc
      by_contra hseparator
      have hsteady := steady_of_separator (Bool.not_eq_false _ ▸ hseparator)
      rw [(hname.resolve_left honly) c ((Collation.mem_of_sameName hsteady hspells.same).1 hc)]
        at hseparator
      exact hseparator rfl
    rw [← String.toList_ofList (l := head)] at hparts
    rcases htail with ⟨rfl, rfl, rfl⟩ | ⟨c, hc, rfl, rfl⟩
    · rw [List.append_nil, parts_of_name hhead] at hparts
      obtain ⟨rfl, rfl⟩ := List.cons.inj hparts
      exact ⟨.whole honly hspells rfl, .inl ⟨rfl, rfl⟩⟩
    · rw [parts_append_cons hhead hc] at hparts
      obtain ⟨rfl, rfl⟩ := List.cons.inj hparts
      have hne : parts rest ≠ [] := fun hnil =>
        List.splitOnP_ne_nil isSeparator rest (List.map_eq_nil_iff.1 hnil)
      exact ⟨.front honly hspells hne, .inr rfl⟩

theorem matchRoot?_of_reaches (h : Reaches collation name first later size)
    (hparts : parts input = first :: later) :
    ∃ rest, matchRoot? collation name input = some (size, rest) := by
  rcases parts_cases hparts with ⟨rfl, rfl⟩ | ⟨c, rest, hc, rfl, rfl⟩
  · cases h with
    | separator _ _ hne => exact absurd rfl hne
    | whole honly hspells _ =>
        rw [← String.ofList_toList (s := first)] at hspells
        exact ⟨[], (matchRoot?_eq_some honly).2
          ⟨first.toList, [], (List.append_nil _).symm, hspells, .inl ⟨rfl, rfl, rfl⟩⟩⟩
    | front _ _ hne => exact absurd rfl hne
  · cases h with
    | separator honly hfirst _ =>
        subst hfirst
        exact ⟨rest, (matchRoot?_of_separators honly).2 ⟨c, hc, rfl, rfl⟩⟩
    | whole _ _ hnil => exact absurd (List.map_eq_nil_iff.1 hnil) (List.splitOnP_ne_nil _ _)
    | front honly hspells _ =>
        rw [← String.ofList_toList (s := first)] at hspells
        exact ⟨rest, (matchRoot?_eq_some honly).2
          ⟨first.toList, c :: rest, rfl, hspells, .inr ⟨c, hc, rfl, rfl⟩⟩⟩

/-! ### Which root is selected -/

variable {roots : List String} {a b : String}

/-- Root names that consist of separators or have none. -/
def Undivided (roots : List String) : Prop :=
  ∀ name ∈ roots, OnlySeparators name.toList ∨ ∀ c ∈ name.toList, isSeparator c = false

/-- Where every root name matches as far, the same root wins. -/
theorem Wins.transfer (hmatch : ∀ name ∈ names, ∀ size,
      (∃ rest, matchRoot? collation name input = some (size, rest)) ↔
        ∃ rest, matchRoot? collation name other = some (size, rest))
    (h : Wins collation input names place size rest) :
    ∃ rest', Wins collation other names place size rest' := by
  obtain ⟨name, hname, hmatched⟩ := h.matched
  obtain ⟨rest', hmatched'⟩ := (hmatch name (List.mem_of_getElem? hname) size).1 ⟨rest, hmatched⟩
  refine ⟨rest', ⟨name, hname, hmatched'⟩, fun rival name' size' rest'' hrival hne hmatched'' => ?_⟩
  obtain ⟨_, hsome⟩ := (hmatch name' (List.mem_of_getElem? hrival) size').2 ⟨rest'', hmatched''⟩
  exact h.others rival name' size' _ hrival hne hsome

theorem parse_of_wins (h : Wins collation a.toList roots place size rest)
    (hlater : later = [] ∧ rest = [] ∨ later = parts rest) :
    parse roots collation a = below place (roots.getD place "") true later := by
  obtain ⟨name, hname, -⟩ := h.matched
  have hread : pushAll [] (parts rest) = pushAll [] later := by
    rcases hlater with ⟨rfl, rfl⟩ | rfl <;> rfl
  have hselected : longestRoot? collation a.toList 0 roots = some (place, size, rest) :=
    longestRoot?_eq_some.2 ⟨place, (Nat.zero_add place).symm, h⟩
  cases roots with
  | nil => cases hname
  | cons top others =>
      have hlt : place < (top :: others).length := (List.getElem?_eq_some_iff.1 hname).1
      unfold parse below
      rw [hselected]
      dsimp only
      rw [hread, List.getD_eq_getElem?_getD, List.getD_eq_getElem?_getD,
        List.getElem?_eq_getElem hlt]
      rfl

theorem parse_of_unmatched (hroots : roots ≠ [])
    (hnone : ∀ name ∈ roots, matchRoot? collation name a.toList = none) :
    parse roots collation a = below 0 (roots.getD 0 "") false (parts a.toList) := by
  have hselected : longestRoot? collation a.toList 0 roots = none := by
    rcases longestRoot?_wins collation a.toList roots 0 with
      ⟨-, hrun⟩ | ⟨place, size, rest, hwins, -⟩
    · exact hrun
    · obtain ⟨name, hname, hmatch⟩ := hwins.matched
      rw [hnone name (List.mem_of_getElem? hname)] at hmatch
      cases hmatch
  cases roots with
  | nil => exact absurd rfl hroots
  | cons top others =>
      unfold parse
      rw [hselected]
      rfl

/-- A text is read by whole parts, below the root that wins or below the first one. -/
theorem parse_cases (collation : Collation) (hroots : roots ≠ []) (hundivided : Undivided roots)
    (hparts : parts a.toList = first :: later) :
    (∃ place size rest, Wins collation a.toList roots place size rest ∧
      parse roots collation a = below place (roots.getD place "") true later) ∨
    (∀ name ∈ roots, matchRoot? collation name a.toList = none) ∧
      parse roots collation a = below 0 (roots.getD 0 "") false (first :: later) := by
  rcases longestRoot?_wins collation a.toList roots 0 with
    ⟨hnone, -⟩ | ⟨place, size, rest, hwins, -⟩
  · exact .inr ⟨hnone, hparts ▸ parse_of_unmatched hroots hnone⟩
  · obtain ⟨name, hname, hmatch⟩ := hwins.matched
    have hkind := hundivided name (List.mem_of_getElem? hname)
    exact .inl ⟨place, size, rest, hwins,
      parse_of_wins hwins (reaches_of_matchRoot? hkind hmatch hparts).2⟩

theorem Reaches.alike (hfirst : collation.sameName first first' = true)
    (hlater : collation.SameNames later later')
    (hspelled : Spells collation name first → Spells collation name first')
    (h : Reaches collation name first later size) : Reaches collation name first' later' size := by
  have hnil : later = [] ↔ later' = [] := by
    rw [← List.length_eq_zero_iff, hlater.length_eq, List.length_eq_zero_iff]
  cases h with
  | separator honly hempty hne =>
      subst hempty
      exact .separator honly (Collation.eq_of_sameName hfirst nofun).symm (mt hnil.2 hne)
  | whole honly hspells hempty => exact .whole honly (hspelled hspells) (hnil.1 hempty)
  | front honly hspells hne => exact .front honly (hspelled hspells) (mt hnil.2 hne)

/-- Texts whose first parts spell the same root names are read alike. -/
theorem parse_alike (hroots : roots ≠ []) (hundivided : Undivided roots)
    (ha : parts a.toList = first :: later) (hb : parts b.toList = first' :: later')
    (hfirst : collation.sameName first first' = true) (hlater : collation.SameNames later later')
    (hspelled : ∀ name ∈ roots, Spells collation name first ↔ Spells collation name first') :
    ReadAlike collation (parse roots collation a) (parse roots collation b) := by
  have hmatch : ∀ name ∈ roots, ∀ size,
      (∃ rest, matchRoot? collation name a.toList = some (size, rest)) ↔
        ∃ rest, matchRoot? collation name b.toList = some (size, rest) := by
    intro name hname size
    constructor
    · rintro ⟨rest, hmatch⟩
      have hreaches := (reaches_of_matchRoot? (hundivided name hname) hmatch ha).1
      exact matchRoot?_of_reaches (hreaches.alike hfirst hlater (hspelled name hname).1) hb
    · rintro ⟨rest, hmatch⟩
      have hreaches := (reaches_of_matchRoot? (hundivided name hname) hmatch hb).1
      have hlater' : collation.SameNames later' later :=
        hlater.flip.imp fun _ _ hsame => Collation.sameName_symm hsame
      exact matchRoot?_of_reaches (hreaches.alike (Collation.sameName_symm hfirst) hlater'
        (hspelled name hname).2) ha
  rcases parse_cases collation hroots hundivided ha with
    ⟨place, size, rest, hwins, hread⟩ | ⟨hnone, hread⟩
  · obtain ⟨rest', hwins'⟩ := hwins.transfer hmatch
    obtain ⟨name, hname, hmatched⟩ := hwins'.matched
    have hkind := hundivided name (List.mem_of_getElem? hname)
    rw [hread, parse_of_wins hwins' (reaches_of_matchRoot? hkind hmatched hb).2]
    exact below_alike hlater _ _ _
  · have hnone' : ∀ name ∈ roots, matchRoot? collation name b.toList = none := by
      intro name hname
      rw [Option.eq_none_iff_forall_ne_some]
      rintro ⟨size, rest⟩ hsome
      obtain ⟨_, hmatch⟩ := (hmatch name hname size).2 ⟨rest, hsome⟩
      rw [hnone name hname] at hmatch
      cases hmatch
    rw [hread, parse_of_unmatched hroots hnone', hb]
    exact below_alike (.cons hfirst hlater) _ _ _

/-! ### A root name in another size -/

theorem below_of_clean (hnul : ¬∃ part ∈ raw, '\x00' ∈ part.toList) (root : Nat) (rootName : String)
    (absolute : Bool) :
    ∃ path, below root rootName absolute raw = .ok path ∧ path.absolute = absolute := by
  cases hread : pushAll [] raw with
  | error failure => exact absurd ((pushAll_eq_error []).1 hread).2 hnul
  | ok found =>
      unfold below
      rw [hread]
      exact ⟨_, rfl, rfl⟩

/-- A name that has no separator and some character is not made of separators. -/
theorem named_of_undivided (hfirst : ∀ c ∈ first.toList, isSeparator c = false)
    (hsame : collation.sameName first name = true) (hname : name ≠ "") :
    ¬OnlySeparators name.toList := by
  intro honly
  obtain rfl := Collation.separators_of_sameName (Collation.sameName_symm hsame) honly
  have hne : name.toList ≠ [] := fun hnil => hname (String.toList_eq_nil_iff.1 hnil)
  obtain ⟨c, hc⟩ := List.exists_mem_of_ne_nil _ hne
  cases (hfirst c hc).symm.trans (honly c hc)

/-- A text that begins with a root name is absolute, unless it is refused. -/
theorem absolute_of_spells (hnames : RootNames collation roots) (hundivided : Undivided roots)
    (hparts : parts a.toList = first :: later) (hname : name ∈ roots)
    (hspells : Spells collation name first) (hnul : ¬∃ part ∈ later, '\x00' ∈ part.toList) :
    ∃ path, parse roots collation a = .ok path ∧ path.absolute = true := by
  have hmem : first ∈ parts a.toList := hparts ▸ List.mem_cons_self ..
  have hnamed := named_of_undivided (not_separator_of_mem_parts hmem) hspells.same
    (ne_of_mem_of_not_mem hname hnames.not_empty)
  rcases parse_cases collation (List.ne_nil_of_mem hname) hundivided hparts with
    ⟨place, size, rest, -, hread⟩ | ⟨hnone, -⟩
  · rw [hread]
    exact below_of_clean hnul _ _ _
  · obtain ⟨size, hreaches⟩ : ∃ size, Reaches collation name first later size := by
      by_cases hlater : later = []
      · exact ⟨_, .whole hnamed hspells hlater⟩
      · exact ⟨_, .front hnamed hspells hlater⟩
    obtain ⟨rest, hmatch⟩ := matchRoot?_of_reaches hreaches hparts
    rw [hnone name hname] at hmatch
    cases hmatch

/-- A text that begins with a root name in another size is relative, unless it is refused. -/
theorem relative_of_not_spells (hnames : RootNames collation roots) (hundivided : Undivided roots)
    (hparts : parts a.toList = first :: later) (hname : name ∈ roots)
    (hsame : collation.sameName first name = true) (hother : ¬Spells collation name first)
    {path : Path} (hread : parse roots collation a = .ok path) : path.absolute = false := by
  rcases parse_cases collation (List.ne_nil_of_mem hname) hundivided hparts with
    ⟨place, size, rest, hwins, -⟩ | ⟨-, hbelow⟩
  · -- no other root has the name, and one made of separators begins no name
    obtain ⟨rival, hrival, hmatch⟩ := hwins.matched
    have hmem := List.mem_of_getElem? hrival
    have hspells : Spells collation rival first := by
      cases (reaches_of_matchRoot? (hundivided rival hmem) hmatch hparts).1 with
      | separator _ hempty _ =>
          subst hempty
          exact absurd (Collation.eq_of_sameName hsame nofun ▸ hname) hnames.not_empty
      | whole _ hspells _ => exact hspells
      | front _ hspells _ => exact hspells
    have hkey : collation.key rival = collation.key name :=
      (Collation.sameName_iff.1 hspells.same).symm.trans (Collation.sameName_iff.1 hsame)
    obtain rfl := List.inj_on_of_nodup_map hnames.distinct hmem hname hkey
    exact absurd hspells hother
  · rw [hbelow] at hread
    unfold below at hread
    obtain ⟨elements, -, hread⟩ := exists_of_bind_ok hread
    cases hread
    rfl

/-- Texts that are both absolute, or both relative, spell the same root names. -/
theorem spells_of_absolute_eq (hnames : RootNames collation roots)
    (hundivided : Undivided roots) (ha : parts a.toList = first :: later)
    (hb : parts b.toList = first' :: later') (hname : name ∈ roots)
    (hfirst : collation.sameName first first' = true)
    (hnul : ¬∃ part ∈ later, '\x00' ∈ part.toList)
    (hsame : (parse roots collation a).map Path.absolute =
      (parse roots collation b).map Path.absolute)
    (hspells : Spells collation name first) : Spells collation name first' := by
  by_contra hother
  have hsame' : collation.sameName first' name = true := Collation.sameName_iff.2
    ((Collation.sameName_iff.1 hfirst).symm.trans (Collation.sameName_iff.1 hspells.same))
  obtain ⟨path, hread, habsolute⟩ := absolute_of_spells hnames hundivided ha hname hspells hnul
  rw [hread] at hsame
  cases hread' : parse roots collation b with
  | error failure =>
      rw [hread'] at hsame
      cases hsame
  | ok path' =>
      rw [hread'] at hsame
      have hrelative := relative_of_not_spells hnames hundivided hb hname hsame' hother hread'
      rw [← Except.ok.inj hsame, habsolute] at hrelative
      cases hrelative

/-- A NUL behind the first part is refused below every root. -/
theorem parse_of_nul (hroots : roots ≠ []) (hundivided : Undivided roots)
    (hparts : parts a.toList = first :: later) (hnul : ∃ part ∈ later, '\x00' ∈ part.toList) :
    parse roots collation a = .error .invalidName := by
  rcases parse_cases collation hroots hundivided hparts with
    ⟨_, _, _, -, hread⟩ | ⟨-, hread⟩
  · rw [hread]
    exact below_eq_error.2 ⟨rfl, hnul⟩
  · rw [hread]
    exact below_eq_error.2 ⟨rfl, List.exists_mem_cons_of_exists hnul⟩

/-- The first part of the text is the root name, in a spelling of its size. -/
def LeadsWith (collation : Collation) (name text : String) : Prop :=
  ∃ first later, parts text.toList = first :: later ∧ Spells collation name first

theorem leadsWith_iff (hparts : parts a.toList = first :: later) :
    LeadsWith collation name a ↔ Spells collation name first := by
  constructor
  · rintro ⟨_, _, hsplit, hspells⟩
    obtain ⟨rfl, rfl⟩ := List.cons.inj (hsplit.symm.trans hparts)
    exact hspells
  · exact fun hspells => ⟨first, later, hparts, hspells⟩

end Path

/-- Two texts whose parts are pairwise the same name are read alike exactly where their first parts
spell the same root names in the size of those, or where both are refused for what is behind the
first parts. -/
theorem root_selection_respects_collation {config : Config} (haccepted : config.checkRoots = .ok ())
    (hundivided : Path.Undivided config.roots) {a b : String}
    (hsame : config.collation.SameNames (Path.parts a.toList) (Path.parts b.toList)) :
    Path.ReadAlike config.collation (Path.parse config.roots config.collation a)
        (Path.parse config.roots config.collation b) ↔
      (∀ name ∈ config.roots, Path.LeadsWith config.collation name a ↔
        Path.LeadsWith config.collation name b) ∨
      ∃ part ∈ (Path.parts a.toList).tail, '\x00' ∈ part.toList := by
  obtain ⟨hroots, hnames⟩ := Config.checkRoots_eq_ok.1 haccepted
  have hparts : ∀ text : String, ∃ first later, Path.parts text.toList = first :: later :=
    fun text => List.exists_cons_of_ne_nil fun hnil =>
      List.splitOnP_ne_nil isSeparator text.toList (List.map_eq_nil_iff.1 hnil)
  obtain ⟨first, later, ha⟩ := hparts a
  obtain ⟨first', later', hb⟩ := hparts b
  rw [ha, hb] at hsame
  obtain ⟨hfirst, hlater⟩ := List.forall₂_cons.1 hsame
  simp only [Path.leadsWith_iff ha, Path.leadsWith_iff hb, ha, List.tail_cons]
  constructor
  · intro halike
    by_cases hnul : ∃ part ∈ later, '\x00' ∈ part.toList
    · exact .inr hnul
    · refine .inl fun name hname => ⟨?_, ?_⟩
      · exact Path.spells_of_absolute_eq hnames hundivided ha hb hname hfirst hnul
          halike.absolute_eq
      · exact Path.spells_of_absolute_eq hnames hundivided hb ha hname
          (Collation.sameName_symm hfirst) (mt (Path.nul_mem_of_alike hlater).2 hnul)
          halike.absolute_eq.symm
  · rintro (hspelled | hnul)
    · exact Path.parse_alike hroots hundivided ha hb hfirst hlater hspelled
    · rw [Path.parse_of_nul hroots hundivided ha hnul, Path.parse_of_nul hroots hundivided hb
        ((Path.nul_mem_of_alike hlater).1 hnul)]
      exact .refused

/-- Drives are selected in capitals and in small letters, behind either separator. -/
theorem drives_are_read_alike :
    (Config.windows ["C:", "D:"]).checkRoots = .ok () ∧ Path.Undivided ["C:", "D:"] ∧
    Collation.insensitivePreserving.SameNames (Path.parts "d:\\Users".toList)
      (Path.parts "D:/USERS".toList) ∧
    Path.ReadAlike .insensitivePreserving
      (Path.parse ["C:", "D:"] .insensitivePreserving "d:\\Users")
      (Path.parse ["C:", "D:"] .insensitivePreserving "D:/USERS") := by
  have haccepted : (Config.windows ["C:", "D:"]).checkRoots = .ok () := by decide +kernel
  have hundivided : Path.Undivided ["C:", "D:"] := by
    simp only [Path.Undivided, List.forall_mem_cons]
    exact ⟨.inr (by simp [isSeparator]), .inr (by simp [isSeparator]), List.forall_mem_nil _⟩
  have ha : Path.parts "d:\\Users".toList = ["d:", "Users"] := by decide +kernel
  have hb : Path.parts "D:/USERS".toList = ["D:", "USERS"] := by decide +kernel
  have hsame : Collation.insensitivePreserving.SameNames (Path.parts "d:\\Users".toList)
      (Path.parts "D:/USERS".toList) := by
    rw [ha, hb]
    exact .cons (by decide +kernel) (.cons (by decide +kernel) .nil)
  refine ⟨haccepted, hundivided, hsame,
    (root_selection_respects_collation haccepted hundivided hsame).2 (.inl fun name _ => ?_)⟩
  rw [Path.leadsWith_iff ha, Path.leadsWith_iff hb]
  -- both first parts are as long as they are in the other case
  have hspelled : ∀ {first other : String}, first.utf8ByteSize = other.utf8ByteSize →
      Collation.insensitivePreserving.sameName other first = true →
      Path.Spells .insensitivePreserving name first →
      Path.Spells .insensitivePreserving name other := fun hsize hfirst hspells =>
    ⟨Collation.sameName_iff.2 ((Collation.sameName_iff.1 hfirst).trans
      (Collation.sameName_iff.1 hspells.same)), hsize.symm.trans hspells.size⟩
  exact ⟨hspelled rfl (by decide +kernel), hspelled rfl (by decide +kernel)⟩

/-- The Kelvin sign is a capital k, and two bytes longer: a root that is named with a letter is not
selected in this spelling, though the collation takes it for the same name. -/
theorem kelvin_spelling_selects_no_root :
    Config.checkRoots { collation := .insensitivePreserving, roots := ["k:"] } = .ok () ∧
    Path.Undivided ["k:"] ∧
    Collation.insensitivePreserving.SameNames (Path.parts "k:/x".toList)
      (Path.parts "\u212A:/x".toList) ∧
    Path.parse ["k:"] .insensitivePreserving "k:/x" = .ok ⟨0, "k:", ["x"], true⟩ ∧
    Path.parse ["k:"] .insensitivePreserving "\u212A:/x" =
      .ok ⟨0, "k:", ["\u212A:", "x"], false⟩ ∧
    ¬Path.ReadAlike .insensitivePreserving (Path.parse ["k:"] .insensitivePreserving "k:/x")
      (Path.parse ["k:"] .insensitivePreserving "\u212A:/x") := by
  have ha : Path.parse ["k:"] .insensitivePreserving "k:/x" = .ok ⟨0, "k:", ["x"], true⟩ := by
    decide +kernel
  have hb : Path.parse ["k:"] .insensitivePreserving "\u212A:/x" =
      .ok ⟨0, "k:", ["\u212A:", "x"], false⟩ := by
    decide +kernel
  have hsame : Collation.insensitivePreserving.SameNames (Path.parts "k:/x".toList)
      (Path.parts "\u212A:/x".toList) := by
    have hparts : Path.parts "k:/x".toList = ["k:", "x"] ∧
        Path.parts "\u212A:/x".toList = ["\u212A:", "x"] := by decide +kernel
    rw [hparts.1, hparts.2]
    exact .cons (by decide +kernel) (.cons (by decide +kernel) .nil)
  have hundivided : Path.Undivided ["k:"] :=
    List.forall_mem_singleton.2 (.inr (by simp [isSeparator]))
  refine ⟨by decide +kernel, hundivided, hsame, ha, hb, ?_⟩
  rw [ha, hb]
  intro halike
  cases halike.absolute_eq

end RamFs
