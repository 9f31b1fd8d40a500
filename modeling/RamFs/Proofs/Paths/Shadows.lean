import RamFs.Proofs.Paths.Texts

/-!
When the text of a path is read as that path. The root name of the path matches its text; another
root name matches it farther where that root is named like the path or like one of the paths on
the way to it, and as far in two cases that only the order of the roots decides.
-/

namespace RamFs

/-- Root names that a volume can have. -/
structure RootNames (collation : Collation) (roots : List String) : Prop where
  not_empty : "" ∉ roots
  distinct : (roots.map collation.key).Nodup

namespace Path

variable {collation : Collation} {path : Path} {name : String} {elements : List String}
  {head tail : List Char} {ordinal : Nat}

/-! ### The text of a path -/

/-- The root name and the separator behind it, as they are shown. -/
def front (path : Path) : List Char :=
  if path.rootName.toList.getLast?.any isSeparator then path.rootName.toList
  else path.rootName.toList ++ ['/']

theorem toList_text (habsolute : path.absolute = true) :
    path.text.toList = path.front ++ joined path.elements := by
  unfold text front joined
  rw [if_neg (by rw [habsolute]; exact Bool.false_ne_true)]
  split
  case isTrue => exact String.toList_append
  case isFalse =>
    rw [String.toList_append, String.toList_append]
    rfl

/-- Where names are shown, a part that ends or is followed by a separator ends behind a name. -/
theorem joined_boundary (hnames : ∀ part ∈ elements, IsName part)
    (hsplit : joined elements = head ++ tail) (htail : ∀ c ∈ tail.head?, isSeparator c = true) :
    elements = [] ∧ head = [] ∧ tail = [] ∨
      ∃ count, 0 < count ∧ count ≤ elements.length ∧ head = joined (elements.take count) := by
  induction elements generalizing head with
  | nil => exact .inl ⟨rfl, List.append_eq_nil_iff.1 hsplit.symm⟩
  | cons part rest ih =>
      obtain ⟨hpart, hrest⟩ := List.forall_mem_cons.1 hnames
      -- a part that ends before the first name does goes on with a character of that name
      have hinside : ∀ more, part.toList = head ++ more → (∀ c ∈ more.head?, isSeparator c = true) →
          head = part.toList := by
        intro more hmore hbehind
        cases more with
        | nil => rw [hmore, List.append_nil]
        | cons c more =>
            have hc := hpart.no_separator c (by rw [hmore]; exact List.mem_append_right _ (.head _))
            rw [hbehind c rfl] at hc
            cases hc
      refine .inr ?_
      cases rest with
      | nil =>
          rw [joined_singleton] at hsplit
          exact ⟨1, Nat.one_pos, Nat.le_refl _,
            (hinside tail hsplit htail).trans (joined_singleton part).symm⟩
      | cons next rest =>
          rw [joined_cons_cons] at hsplit
          rcases List.append_eq_append_iff.1 hsplit with ⟨more, rfl, hmore⟩ | ⟨more, hmore, rfl⟩
          · cases more with
            | nil =>
                refine ⟨1, Nat.one_pos, Nat.succ_le_succ (Nat.zero_le _), ?_⟩
                rw [List.append_nil]
                exact (joined_singleton part).symm
            | cons c more =>
                obtain ⟨rfl, hjoined⟩ := List.cons.inj hmore
                rcases ih hrest hjoined with ⟨hnil, _⟩ | ⟨count, hpos, hcount, rfl⟩
                · cases hnil
                · obtain ⟨count, rfl⟩ := Nat.exists_eq_add_of_lt hpos
                  rw [Nat.zero_add]
                  refine ⟨count + 2, Nat.succ_pos _, Nat.succ_le_succ (by omega), ?_⟩
                  rw [List.take_succ_cons, List.take_succ_cons, List.take_succ_cons,
                    joined_cons_cons]
          · refine ⟨1, Nat.one_pos, Nat.succ_le_succ (Nat.zero_le _), ?_⟩
            refine (hinside more hmore ?_).trans (joined_singleton part).symm
            cases more with
            | nil => exact nofun
            | cons c more => exact htail

theorem joined_take {count : Nat} (hpos : 0 < count) (elements : List String) :
    ∃ tail, joined elements = joined (elements.take count) ++ tail ∧
      ∀ c ∈ tail.head?, isSeparator c = true := by
  induction elements generalizing count with
  | nil => exact ⟨[], by rw [List.take_nil]; rfl, nofun⟩
  | cons part rest ih =>
      obtain ⟨count, rfl⟩ := Nat.exists_eq_add_of_lt hpos
      rw [Nat.zero_add, List.take_succ_cons]
      cases rest with
      | nil => exact ⟨[], by rw [List.take_nil, List.append_nil], nofun⟩
      | cons next rest =>
          cases count with
          | zero =>
              refine ⟨'/' :: joined (next :: rest), ?_, ?_⟩
              · rw [List.take_zero, joined_singleton, joined_cons_cons]
              · intro c hc
                obtain rfl := Option.some.inj hc
                rfl
          | succ count =>
              obtain ⟨tail, htail, hends⟩ := ih (Nat.succ_pos count)
              refine ⟨tail, ?_, hends⟩
              rw [joined_cons_cons, htail, List.take_succ_cons, joined_cons_cons, List.append_assoc]
              rfl

/-! ### Shadows -/

/-- Another root is found where the path is looked for by its text. -/
inductive ShadowedBy (collation : Collation) (path : Path) (ordinal : Nat) (name : String) : Prop
    where
  /-- The root is named like the path or like a path on the way to it. -/
  | ancestor (count : Nat) (hpos : 0 < count) (hcount : count ≤ path.elements.length)
      (hspells : Spells collation name (path.withElements (path.elements.take count)).text)
  /-- All root names made of separators stand for one and the same root, the first of them. -/
  | separators (hbefore : ordinal < path.root) (hname : OnlySeparators name.toList)
      (hroot : OnlySeparators path.rootName.toList)
  /-- An earlier root directory is shown like this one, up to a separator at its end. -/
  | root (hbefore : ordinal < path.root) (htop : path.elements = []) (shown : String)
      (hshown : path.text = shown ∨ ∃ c, isSeparator c = true ∧ path.text = shown.push c)
      (hspells : Spells collation name shown)

/-- Some other root is. -/
def Shadowed (collation : Collation) (roots : List String) (path : Path) : Prop :=
  ∃ ordinal name, roots[ordinal]? = some name ∧ ordinal ≠ path.root ∧
    path.ShadowedBy collation ordinal name

/-- A separator that is no part of the root name stands before the names, or the root name is made
of separators, or there are no names. -/
def Delimited (path : Path) : Prop :=
  path.elements = [] ∨ OnlySeparators path.rootName.toList ∨
    path.rootName.toList.getLast?.any isSeparator = false

/-- How far the root name matches the text. -/
def reach (path : Path) : Nat :=
  if path.rootName.toList.all isSeparator then 1 else (String.ofList path.front).utf8ByteSize

/-- The path leads down by names from a root that there is. -/
structure Lies (roots : List String) (path : Path) : Prop where
  root : roots[path.root]? = some path.rootName
  absolute : path.absolute = true
  names : ∀ part ∈ path.elements, IsName part

variable {roots : List String} {size : Nat} {rest : List Char}

theorem size_append (head tail : List Char) :
    (String.ofList (head ++ tail)).utf8ByteSize =
      (String.ofList head).utf8ByteSize + (String.ofList tail).utf8ByteSize := by
  rw [String.ofList_append, String.utf8ByteSize_append]

theorem size_pos {cs : List Char} (h : cs ≠ []) : 0 < (String.ofList cs).utf8ByteSize := by
  cases cs with
  | nil => exact absurd rfl h
  | cons c cs =>
      rw [utf8ByteSize_cons]
      exact Nat.add_pos_left c.utf8Size_pos _

theorem size_separator {c : Char} (h : isSeparator c = true) :
    (String.ofList [c]).utf8ByteSize = 1 := by
  unfold isSeparator at h
  rw [Bool.or_eq_true, decide_eq_true_eq, decide_eq_true_eq] at h
  rcases h with rfl | rfl <;> rfl

theorem front_of_separators (hroot : path.rootName ≠ "")
    (h : OnlySeparators path.rootName.toList) : path.front = path.rootName.toList := by
  have hne : path.rootName.toList ≠ [] := fun hnil => hroot (String.toList_eq_nil_iff.1 hnil)
  refine if_pos ?_
  rw [List.getLast?_eq_some_getLast hne]
  exact h _ (List.getLast_mem hne)

theorem reach_of_separators (h : OnlySeparators path.rootName.toList) : path.reach = 1 :=
  if_pos (List.all_eq_true.2 h)

theorem reach_of_not_separators (h : ¬OnlySeparators path.rootName.toList) :
    path.reach = (String.ofList path.front).utf8ByteSize :=
  if_neg fun hall => h (List.all_eq_true.1 hall)

theorem Spells.refl (collation : Collation) (name : String) : Spells collation name name :=
  ⟨Collation.sameName_iff.2 rfl, rfl⟩

/-- The root name of a path matches its text and leaves its names. -/
theorem matchRoot?_own (collation : Collation) (hroot : path.rootName ≠ "") (h : path.Lies roots)
    (hdelimited : path.Delimited) :
    ∃ rest, matchRoot? collation path.rootName path.text.toList = some (path.reach, rest) ∧
      pushAll [] (parts rest) = .ok path.elements := by
  rw [toList_text h.absolute]
  by_cases hseparators : OnlySeparators path.rootName.toList
  · rw [front_of_separators hroot hseparators, reach_of_separators hseparators]
    cases hname : path.rootName.toList with
    | nil => exact absurd (String.toList_eq_nil_iff.1 hname) hroot
    | cons c cs =>
        rw [hname] at hseparators
        refine ⟨cs ++ joined path.elements, (matchRoot?_of_separators (hname ▸ hseparators)).2
          ⟨c, hseparators c (.head _), rfl, rfl⟩, ?_⟩
        exact pushAll_joined (fun d hd => hseparators d (.tail _ hd)) h.names
  · rw [reach_of_not_separators hseparators]
    have hself : Spells collation path.rootName (String.ofList path.rootName.toList) := by
      rw [String.ofList_toList]
      exact .refl collation _
    cases hlast : path.rootName.toList.getLast?.any isSeparator with
    | false =>
        have hfront : path.front = path.rootName.toList ++ ['/'] :=
          if_neg (by rw [hlast]; exact Bool.false_ne_true)
        refine ⟨joined path.elements, (matchRoot?_eq_some hseparators).2
          ⟨_, '/' :: joined path.elements, ?_, hself, .inr ⟨'/', rfl, rfl, ?_⟩⟩, ?_⟩
        · rw [hfront, List.append_assoc]
          rfl
        · rw [hfront, size_append, String.ofList_toList]
          rfl
        · exact @pushAll_joined _ [] nofun h.names
    | true =>
        have hfront : path.front = path.rootName.toList := if_pos hlast
        have htop : path.elements = [] := by
          rcases hdelimited with htop | honly | hunended
          · exact htop
          · exact absurd honly hseparators
          · rw [hlast] at hunended
            cases hunended
        refine ⟨[], (matchRoot?_eq_some hseparators).2
          ⟨_, [], ?_, hself, .inl ⟨rfl, rfl, ?_⟩⟩, ?_⟩
        · rw [hfront, htop]
          rfl
        · rw [hfront, String.ofList_toList]
        · rw [htop]
          rfl

/-! ### Matches of other roots -/

theorem front_eq_append (path : Path) :
    ∃ cs c, path.front = cs ++ [c] ∧ isSeparator c = true := by
  unfold front
  split
  case isTrue hlast =>
    obtain ⟨c, hc, hseparator⟩ := (Option.any_eq_true _ _).1 hlast
    obtain ⟨cs, hcs⟩ := List.getLast?_eq_some_iff.1 hc
    exact ⟨cs, c, hcs, hseparator⟩
  case isFalse => exact ⟨_, '/', rfl, rfl⟩

theorem separators_of_front (h : OnlySeparators path.front) :
    OnlySeparators path.rootName.toList := by
  refine fun d hd => h d ?_
  unfold front
  split
  · exact hd
  · exact List.mem_append_left _ hd

/-- Any other root name reaches farther than one made of separators. -/
theorem one_lt_reach (h : ¬OnlySeparators path.rootName.toList) : 1 < path.reach := by
  obtain ⟨cs, c, hfront, hc⟩ := path.front_eq_append
  rw [reach_of_not_separators h, hfront, size_append, size_separator hc]
  have hne : cs ≠ [] := by
    rintro rfl
    refine h (separators_of_front ?_)
    rw [hfront]
    exact fun d hd => List.mem_singleton.1 hd ▸ hc
  exact Nat.succ_lt_succ (size_pos hne)

/-- Another root name that ends among the names of the path, or where they would begin. -/
theorem shadowedBy_of_behind {more : List Char} (hroot : path.rootName ≠ "") (h : path.Lies roots)
    (hother : collation.sameName path.rootName name = false)
    (hspells : Spells collation name (String.ofList (path.front ++ more)))
    (hmore : joined path.elements = more ++ tail) (htail : ∀ c ∈ tail.head?, isSeparator c = true)
    (hbeats : tail = [] →
      path.reach < name.utf8ByteSize ∨ name.utf8ByteSize = path.reach ∧ ordinal < path.root) :
    path.ShadowedBy collation ordinal name := by
  rcases joined_boundary h.names hmore htail with ⟨htop, rfl, hend⟩ | ⟨count, hpos, hcount, rfl⟩
  · have hshown : path.text = String.ofList (path.front ++ []) := by
      rw [← String.toList_inj, toList_text h.absolute, htop, String.toList_ofList]
      rfl
    have hseparators : ¬OnlySeparators path.rootName.toList := by
      intro hseparators
      have hsame := hspells.same
      rw [List.append_nil, front_of_separators hroot hseparators, String.ofList_toList, hother]
        at hsame
      cases hsame
    have hsize : path.reach = name.utf8ByteSize := by
      rw [reach_of_not_separators hseparators, ← List.append_nil path.front]
      exact hspells.size
    have hbefore := hbeats hend
    exact .root (by omega) htop path.text (.inl rfl) (hshown ▸ hspells)
  · refine .ancestor count hpos hcount ?_
    rw [← String.ofList_toList (s := (path.withElements _).text), toList_text rfl]
    exact hspells

/-- Another root name that ends within what the path shows before its names. -/
theorem shadowedBy_of_inside {c : Char} {more : List Char} (hroot : path.rootName ≠ "")
    (h : path.Lies roots) (hdelimited : path.Delimited)
    (hother : collation.sameName path.rootName name = false)
    (hname : ¬OnlySeparators name.toList) (hspells : Spells collation name (String.ofList head))
    (hfront : path.front = head ++ c :: more) (hc : isSeparator c = true)
    (hbeats : path.reach < name.utf8ByteSize + 1 ∨
      name.utf8ByteSize + 1 = path.reach ∧ ordinal < path.root) :
    path.ShadowedBy collation ordinal name := by
  have hseparators : ¬OnlySeparators path.rootName.toList := by
    intro hseparators
    rw [front_of_separators hroot hseparators] at hfront
    have hhead : OnlySeparators (String.ofList head).toList := by
      rw [String.toList_ofList]
      exact fun d hd => hseparators d (hfront ▸ List.mem_append_left _ hd)
    exact hname (Collation.separators_of_sameName hspells.same hhead ▸ hhead)
  -- nothing but the separator can be left of what the path shows before its names
  have hsize : (String.ofList head).utf8ByteSize = name.utf8ByteSize := hspells.size
  have hreach : path.reach = (String.ofList head).utf8ByteSize + 1 +
      (String.ofList more).utf8ByteSize := by
    rw [reach_of_not_separators hseparators, hfront, size_append, ← List.singleton_append,
      size_append, size_separator hc, Nat.add_assoc]
  obtain rfl : more = [] := Classical.byContradiction fun hmore => by
    have := size_pos hmore
    omega
  have hbefore : ordinal < path.root := by omega
  cases hlast : path.rootName.toList.getLast?.any isSeparator with
  | false =>
      have hself : path.rootName = String.ofList head := by
        unfold front at hfront
        rw [hlast, if_neg Bool.false_ne_true] at hfront
        rw [← String.toList_inj, String.toList_ofList]
        exact List.append_inj_left' hfront rfl
      have hsame := hspells.same
      rw [← hself, hother] at hsame
      cases hsame
  | true =>
      have htop : path.elements = [] :=
        hdelimited.elim id fun hends => hends.elim (absurd · hseparators) (by rw [hlast]; nofun)
      refine .root hbefore htop (String.ofList head) (.inr ⟨c, hc, ?_⟩) hspells
      rw [← String.toList_inj, toList_text h.absolute, htop, hfront, String.toList_push,
        String.toList_ofList]
      exact List.append_nil _

/-- What matches the text farther, or as far and before the root of the path, is a shadow. -/
theorem shadowedBy_of_match (hroot : path.rootName ≠ "") (h : path.Lies roots)
    (hdelimited : path.Delimited) (hother : collation.sameName path.rootName name = false)
    (hmatch : matchRoot? collation name path.text.toList = some (size, rest))
    (hbeats : path.reach < size ∨ size = path.reach ∧ ordinal < path.root) :
    path.ShadowedBy collation ordinal name := by
  by_cases hname : OnlySeparators name.toList
  · -- such a root name reaches no farther than one separator
    obtain ⟨_, _, _, rfl⟩ := (matchRoot?_of_separators hname).1 hmatch
    by_cases hseparators : OnlySeparators path.rootName.toList
    · rw [reach_of_separators hseparators] at hbeats
      exact .separators (by omega) hname hseparators
    · have := one_lt_reach hseparators
      omega
  · obtain ⟨head, tail, hsplit, hspells, hbehind⟩ := (matchRoot?_eq_some hname).1 hmatch
    rw [toList_text h.absolute] at hsplit
    have hends : ∀ {more}, joined path.elements = more ++ tail → head = path.front ++ more →
        path.ShadowedBy collation ordinal name := by
      rintro more hmore rfl
      refine shadowedBy_of_behind hroot h hother hspells hmore ?_ ?_
      · rcases hbehind with ⟨rfl, _⟩ | ⟨c, hc, rfl, _⟩
        · exact nofun
        · exact fun d hd => Option.some.inj hd ▸ hc
      · rintro rfl
        rcases hbehind with ⟨_, _, rfl⟩ | ⟨_, _, hnil, _⟩
        · exact hbeats
        · cases hnil
    rcases List.append_eq_append_iff.1 hsplit with ⟨more, hhead, hmore⟩ | ⟨more, hfront, hmore⟩
    · exact hends hmore hhead
    · cases more with
      | nil => exact @hends [] hmore.symm (by rw [List.append_nil, hfront, List.append_nil])
      | cons c more =>
          subst hmore
          rcases hbehind with ⟨hnil, _⟩ | ⟨d, hd, hcons, rfl⟩
          · cases hnil
          · obtain ⟨rfl, _⟩ := List.cons.inj hcons
            exact shadowedBy_of_inside hroot h hdelimited hother hname hspells hfront hd hbeats

theorem separators_name_of_spells {shown : String} (h : Spells collation name shown)
    (hname : OnlySeparators name.toList) : shown = name := by
  have hsame : collation.sameName name shown = true :=
    Collation.sameName_iff.2 (Collation.sameName_iff.1 h.same).symm
  exact (Collation.separators_of_sameName hsame hname).symm

theorem reach_le_front (path : Path) :
    path.reach ≤ (String.ofList path.front).utf8ByteSize := by
  obtain ⟨cs, c, hfront, hc⟩ := path.front_eq_append
  unfold reach
  split
  case isTrue =>
    rw [hfront, size_append, size_separator hc]
    exact Nat.le_add_left ..
  case isFalse => exact Nat.le_refl _

theorem exists_not_separator_joined (hnames : ∀ part ∈ elements, IsName part)
    (hne : elements ≠ []) : ∃ c ∈ joined elements, isSeparator c = false := by
  cases elements with
  | nil => exact absurd rfl hne
  | cons part rest =>
      have hpart := hnames part (.head _)
      obtain ⟨c, cs, hcs⟩ := List.exists_cons_of_ne_nil
        fun hnil => hpart.not_empty (String.toList_eq_nil_iff.1 hnil)
      refine ⟨c, ?_, hpart.no_separator c (hcs ▸ .head _)⟩
      cases rest with
      | nil => exact joined_singleton part ▸ hcs ▸ .head _
      | cons next rest =>
          rw [joined_cons_cons, hcs]
          exact .head _

/-- The name of a path on the way is found in front of what follows it. -/
theorem match_of_ancestor {count : Nat} (h : path.Lies roots) (hpos : 0 < count)
    (hcount : count ≤ path.elements.length)
    (hspells : Spells collation name (path.withElements (path.elements.take count)).text) :
    ∃ size rest, matchRoot? collation name path.text.toList = some (size, rest) ∧
      path.reach < size := by
  have hshown : (path.withElements (path.elements.take count)).text =
      String.ofList (path.front ++ joined (path.elements.take count)) := by
    rw [← String.toList_inj, toList_text rfl, String.toList_ofList]
    rfl
  have hne : path.elements.take count ≠ [] := by
    intro hnil
    have hlength := congrArg List.length hnil
    rw [List.length_take, List.length_nil] at hlength
    omega
  obtain ⟨c, hc, hletter⟩ := exists_not_separator_joined
    (fun part hmem => h.names part (List.mem_of_mem_take hmem)) hne
  rw [hshown] at hspells
  have hname : ¬OnlySeparators name.toList := by
    intro hname
    have hsame := separators_name_of_spells hspells hname
    rw [← hsame, String.toList_ofList] at hname
    rw [hname c (List.mem_append_right _ hc)] at hletter
    cases hletter
  have hfar : path.reach < name.utf8ByteSize := by
    rw [← hspells.size, size_append]
    have := path.reach_le_front
    have := size_pos (List.ne_nil_of_mem hc)
    omega
  obtain ⟨tail, htail, hends⟩ := joined_take hpos path.elements
  have htext : path.text.toList = path.front ++ joined (path.elements.take count) ++ tail := by
    rw [toList_text h.absolute, htail, List.append_assoc]
  cases tail with
  | nil =>
      exact ⟨_, [], (matchRoot?_eq_some hname).2 ⟨_, [], htext, hspells, .inl ⟨rfl, rfl, rfl⟩⟩, hfar⟩
  | cons d tail =>
      exact ⟨_, tail, (matchRoot?_eq_some hname).2
        ⟨_, d :: tail, htext, hspells, .inr ⟨d, hends d rfl, rfl, rfl⟩⟩, Nat.lt_succ_of_lt hfar⟩

/-- A root name made of separators matches wherever one does. -/
theorem match_of_separators (hroot : path.rootName ≠ "") (h : path.Lies roots)
    (hseparators : OnlySeparators path.rootName.toList) (hname : OnlySeparators name.toList) :
    ∃ rest, matchRoot? collation name path.text.toList = some (path.reach, rest) := by
  rw [toList_text h.absolute, front_of_separators hroot hseparators,
    reach_of_separators hseparators]
  cases hcs : path.rootName.toList with
  | nil => exact absurd (String.toList_eq_nil_iff.1 hcs) hroot
  | cons c cs =>
      rw [hcs] at hseparators
      exact ⟨_, (matchRoot?_of_separators hname).2 ⟨c, hseparators c (.head _), rfl, rfl⟩⟩

/-- All that a root directory shows, or all but a separator, is matched as far as its own name. -/
theorem match_of_root {shown : String} (hroot : path.rootName ≠ "") (h : path.Lies roots)
    (hother : collation.sameName path.rootName name = false) (htop : path.elements = [])
    (hshown : path.text = shown ∨ ∃ c, isSeparator c = true ∧ path.text = shown.push c)
    (hspells : Spells collation name shown) :
    ∃ rest, matchRoot? collation name path.text.toList = some (path.reach, rest) := by
  have htext : path.text.toList = path.front := by
    rw [toList_text h.absolute, htop]
    exact List.append_nil _
  have hdiffers : shown ≠ path.rootName := by
    rintro rfl
    rw [hspells.same] at hother
    cases hother
  by_cases hseparators : OnlySeparators path.rootName.toList
  · refine match_of_separators hroot h hseparators ?_
    rw [front_of_separators hroot hseparators, String.toList_inj] at htext
    rcases hshown with hself | ⟨c, _, hpush⟩
    · exact absurd (hself.symm.trans htext) hdiffers
    · have honly : OnlySeparators shown.toList := by
        rw [← htext, hpush, String.toList_push] at hseparators
        exact fun d hd => hseparators d (List.mem_append_left _ hd)
      exact Collation.separators_of_sameName hspells.same honly ▸ honly
  · rw [reach_of_not_separators hseparators, htext]
    rcases hshown with rfl | ⟨c, hc, hpush⟩
    · have hname : ¬OnlySeparators name.toList := by
        intro hname
        rw [← separators_name_of_spells hspells hname, htext] at hname
        exact hseparators (separators_of_front hname)
      refine ⟨[], (matchRoot?_eq_some hname).2 ⟨path.front, [], ?_, ?_, .inl ⟨rfl, rfl, ?_⟩⟩⟩
      · rw [List.append_nil]
      · rw [← htext, String.ofList_toList]
        exact hspells
      · rw [← htext, String.ofList_toList, hspells.size]
    · have hfront : path.front = shown.toList ++ [c] := by
        rw [← htext, hpush, String.toList_push]
      have hname : ¬OnlySeparators name.toList := by
        intro hname
        rw [← separators_name_of_spells hspells hname] at hname
        refine hseparators (separators_of_front fun d hd => ?_)
        rw [hfront] at hd
        rcases List.mem_append.1 hd with hshown | hend
        · exact hname d hshown
        · exact List.mem_singleton.1 hend ▸ hc
      rw [← String.ofList_toList (s := shown)] at hspells
      refine ⟨[], (matchRoot?_eq_some hname).2 ⟨shown.toList, [c], hfront, hspells,
        .inr ⟨c, hc, rfl, ?_⟩⟩⟩
      rw [hfront, size_append, size_separator hc, hspells.size]

theorem match_of_shadowedBy (hroot : path.rootName ≠ "") (h : path.Lies roots)
    (hother : collation.sameName path.rootName name = false)
    (hshadow : path.ShadowedBy collation ordinal name) :
    ∃ size rest, matchRoot? collation name path.text.toList = some (size, rest) ∧
      (path.reach < size ∨ size = path.reach ∧ ordinal < path.root) := by
  cases hshadow with
  | ancestor count hpos hcount hspells =>
      obtain ⟨size, rest, hmatch, hfar⟩ := match_of_ancestor h hpos hcount hspells
      exact ⟨size, rest, hmatch, .inl hfar⟩
  | separators hbefore hname hseparators =>
      obtain ⟨rest, hmatch⟩ := match_of_separators hroot h hseparators hname
      exact ⟨_, rest, hmatch, .inr ⟨rfl, hbefore⟩⟩
  | root hbefore htop shown hshown hspells =>
      obtain ⟨rest, hmatch⟩ := match_of_root hroot h hother htop hshown hspells
      exact ⟨_, rest, hmatch, .inr ⟨rfl, hbefore⟩⟩

/-! ### Reading the text -/

theorem not_sameName_of_ne (hroots : RootNames collation roots) (h : path.Lies roots)
    (hname : roots[ordinal]? = some name) (hne : ordinal ≠ path.root) :
    collation.sameName path.rootName name = false := by
  refine eq_false_of_ne_true fun hsame => hne ?_
  have hkeys : (roots.map collation.key)[ordinal]? = (roots.map collation.key)[path.root]? := by
    rw [List.getElem?_map, List.getElem?_map, hname, h.root]
    exact congrArg some (Collation.sameName_iff.1 hsame).symm
  refine (List.getElem?_inj ?_ hroots.distinct).1 hkeys
  rw [List.length_map]
  exact (List.getElem?_eq_some_iff.1 hname).1

theorem Lies.rootName_ne (h : path.Lies roots) (hroots : RootNames collation roots) :
    path.rootName ≠ "" :=
  fun hempty => hroots.not_empty (hempty ▸ List.mem_of_getElem? h.root)

/-- The root of the path is found by its text where no other root is. -/
theorem wins_iff (hroots : RootNames collation roots) (h : path.Lies roots)
    (hdelimited : path.Delimited)
    (hown : matchRoot? collation path.rootName path.text.toList = some (path.reach, rest)) :
    Wins collation path.text.toList roots path.root path.reach rest ↔
      ¬path.Shadowed collation roots := by
  have hroot := h.rootName_ne hroots
  constructor
  · rintro hwins ⟨ordinal, name, hname, hne, hshadow⟩
    obtain ⟨size, rest', hmatch, hbeats⟩ :=
      match_of_shadowedBy hroot h (not_sameName_of_ne hroots h hname hne) hshadow
    have := hwins.others ordinal name size rest' hname hne hmatch
    omega
  · intro hclear
    refine ⟨⟨path.rootName, h.root, hown⟩, fun ordinal name size rest' hname hne hmatch => ?_⟩
    refine Classical.byContradiction fun hbeaten => hclear ⟨ordinal, name, hname, hne, ?_⟩
    refine shadowedBy_of_match hroot h hdelimited (not_sameName_of_ne hroots h hname hne) hmatch ?_
    omega

/-- The text of a path is read as that path exactly where no other root shadows it. -/
theorem parse_text_iff (hroots : RootNames collation roots) (h : path.Lies roots)
    (hdelimited : path.Delimited) :
    parse roots collation path.text = .ok path ↔ ¬path.Shadowed collation roots := by
  obtain ⟨rest, hown, hnames⟩ := matchRoot?_own collation (h.rootName_ne hroots) h hdelimited
  rw [← wins_iff hroots h hdelimited hown]
  cases roots with
  | nil => cases h.root
  | cons first others =>
      unfold parse
      dsimp only
      constructor
      · intro hparse
        split at hparse
        case h_1 ordinal size rest' hlongest =>
          obtain ⟨place, hplace, hwins⟩ := longestRoot?_eq_some.1 hlongest
          cases hread : pushAll [] (parts rest') with
          | error failure =>
              rw [hread] at hparse
              cases hparse
          | ok elements =>
              rw [hread] at hparse
              obtain rfl : place = path.root :=
                (hplace.trans (Nat.zero_add _)).symm.trans (congrArg root (Except.ok.inj hparse))
              obtain ⟨name, hname, hmatch⟩ := hwins.matched
              obtain rfl := Option.some.inj (hname.symm.trans h.root)
              obtain ⟨rfl, rfl⟩ := Prod.mk.inj (Option.some.inj (hmatch.symm.trans hown))
              exact hwins
        case h_2 =>
          cases hread : pushAll [] (parts path.text.toList) with
          | error failure =>
              rw [hread] at hparse
              cases hparse
          | ok elements =>
              rw [hread] at hparse
              have habsolute := congrArg absolute (Except.ok.inj hparse)
              rw [h.absolute] at habsolute
              cases habsolute
      · intro hwins
        rw [longestRoot?_eq_some.2 ⟨path.root, (Nat.zero_add _).symm, hwins⟩]
        dsimp only
        rw [hnames, List.getD_eq_getElem?_getD, h.root]
        exact congrArg Except.ok (congrArg (Path.mk _ _ _) h.absolute.symm)

end Path

end RamFs
