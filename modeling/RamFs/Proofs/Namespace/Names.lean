import RamFs.Directory

/-!
The names of one directory. The bindings stand in strictly ascending order of their keys, which
inserting and erasing keep up; a lookup therefore finds the only binding under a key.
-/

namespace RamFs.Directory

variable {names names' : Directory} {collation : Collation} {binding new other : Binding}
  {bindings : List Binding} {name : String}

/-- The keys ascend strictly, so that none occurs twice. -/
def Ordered (names : Directory) : Prop :=
  names.bindings.Pairwise fun first second => first.key < second.key

/-! ### Lookup -/

theorem find?_mem (hfind : names.find? collation name = some binding) :
    binding ∈ names.bindings :=
  List.mem_of_find?_eq_some hfind

theorem find?_key (hfind : names.find? collation name = some binding) :
    binding.key = collation.key name := by
  simpa using List.find?_some hfind

theorem find?_eq_none :
    names.find? collation name = none ↔
      ∀ binding ∈ names.bindings, binding.key ≠ collation.key name := by
  unfold find? lookup?
  simp

theorem Ordered.eq_of_key (hnames : names.Ordered) (hbinding : binding ∈ names.bindings)
    (hother : other ∈ names.bindings) (hkey : binding.key = other.key) : binding = other := by
  have hlt := List.pairwise_iff_getElem.1 hnames
  obtain ⟨i, hi, rfl⟩ := List.getElem_of_mem hbinding
  obtain ⟨j, hj, rfl⟩ := List.getElem_of_mem hother
  rcases Nat.lt_trichotomy i j with hij | rfl | hji
  · exact absurd hkey (String.ne_of_lt (hlt i j hi hj hij))
  · rfl
  · exact absurd hkey.symm (String.ne_of_lt (hlt j i hj hi hji))

theorem Ordered.find?_eq_some (hnames : names.Ordered) (hbinding : binding ∈ names.bindings)
    (hkey : binding.key = collation.key name) : names.find? collation name = some binding := by
  cases hfind : names.find? collation name with
  | none => exact absurd hkey (find?_eq_none.1 hfind binding hbinding)
  | some found =>
      rw [hnames.eq_of_key (find?_mem hfind) hbinding ((find?_key hfind).trans hkey.symm)]

/-! ### Insertion -/

@[simp]
theorem mem_insertOrdered :
    binding ∈ insertOrdered new bindings ↔ binding = new ∨ binding ∈ bindings := by
  induction bindings with
  | nil => simp [insertOrdered]
  | cons first rest ih =>
      unfold insertOrdered
      split
      · simp
      · rw [List.mem_cons, ih, List.mem_cons]
        exact or_left_comm

theorem pairwise_insertOrdered (hfree : ∀ binding ∈ bindings, binding.key ≠ new.key)
    (hordered : bindings.Pairwise fun first second => first.key < second.key) :
    (insertOrdered new bindings).Pairwise fun first second => first.key < second.key := by
  induction bindings with
  | nil => simp [insertOrdered]
  | cons first rest ih =>
      obtain ⟨hfirst, hrest⟩ := List.pairwise_cons.1 hordered
      unfold insertOrdered
      split
      case isTrue hlt =>
        refine List.pairwise_cons.2 ⟨fun binding hbinding => ?_, hordered⟩
        rcases List.mem_cons.1 hbinding with rfl | hbinding
        · exact hlt
        · exact String.lt_trans hlt (hfirst binding hbinding)
      case isFalse hge =>
        have hafter : first.key < new.key := by
          rcases Std.lt_trichotomy first.key new.key with hlt | heq | hgt
          · exact hlt
          · exact absurd heq (hfree first (List.mem_cons_self ..))
          · exact absurd hgt hge
        refine List.pairwise_cons.2 ⟨fun binding hbinding => ?_, ih ?_ hrest⟩
        · rcases mem_insertOrdered.1 hbinding with rfl | hbinding
          · exact hafter
          · exact hfirst binding hbinding
        · exact fun binding hbinding => hfree binding (List.mem_cons_of_mem _ hbinding)

theorem insert_eq_ok {kind : Kind} {entry : EntryId} :
    names.insert collation name kind entry = .ok names' ↔
      names.find? collation name = none ∧
        names' = ⟨insertOrdered ⟨collation.key name, name, kind, entry⟩ names.bindings⟩ := by
  unfold insert find?
  dsimp only
  cases names.lookup? (collation.key name) with
  | none =>
      simp only [Option.isSome_none, Bool.false_eq_true, if_false, true_and, Except.ok.injEq]
      exact eq_comm
  | some found => simp

theorem Ordered.insert {kind : Kind} {entry : EntryId} (hnames : names.Ordered)
    (hinsert : names.insert collation name kind entry = .ok names') : names'.Ordered := by
  obtain ⟨hfree, rfl⟩ := insert_eq_ok.1 hinsert
  exact pairwise_insertOrdered (find?_eq_none.1 hfree) hnames

/-- A name that was inserted is found. -/
theorem find?_inserted {kind : Kind} {entry : EntryId}
    (hinsert : names.insert collation name kind entry = .ok names') :
    names'.find? collation name = some ⟨collation.key name, name, kind, entry⟩ := by
  obtain ⟨hfree, rfl⟩ := insert_eq_ok.1 hinsert
  cases hfind : find? ⟨insertOrdered ⟨collation.key name, name, kind, entry⟩ names.bindings⟩
      collation name with
  | none => exact absurd rfl (find?_eq_none.1 hfind _ (mem_insertOrdered.2 (.inl rfl)))
  | some found =>
      rcases mem_insertOrdered.1 (find?_mem hfind) with rfl | hold
      · rfl
      · exact absurd (find?_key hfind) (find?_eq_none.1 hfree found hold)

/-- What was found before a name was inserted is still found. -/
theorem find?_insert {collation' : Collation} {name' : String} {kind : Kind} {entry : EntryId}
    (hinsert : names.insert collation name kind entry = .ok names')
    (hfind : names.find? collation' name' = some binding) :
    names'.find? collation' name' = some binding := by
  obtain ⟨hfree, rfl⟩ := insert_eq_ok.1 hinsert
  have hkey : collation.key name ≠ collation'.key name' := by
    intro hkey
    have hbinding := (find?_key hfind).trans hkey.symm
    exact find?_eq_none.1 hfree binding (find?_mem hfind) hbinding
  unfold find? lookup? at hfind ⊢
  dsimp only at hfind ⊢
  generalize names.bindings = bindings at hfind
  induction bindings with
  | nil => cases hfind
  | cons first rest ih =>
      unfold insertOrdered
      split
      · rw [List.find?_cons_of_neg (by simpa using hkey)]
        exact hfind
      · by_cases hfirst : first.key = collation'.key name'
        · rw [List.find?_cons_of_pos (by simpa using hfirst)] at hfind ⊢
          exact hfind
        · rw [List.find?_cons_of_neg (by simpa using hfirst)] at hfind ⊢
          exact ih hfind

/-! ### Erasure -/

@[simp]
theorem mem_erase :
    binding ∈ (names.erase collation name).bindings ↔
      binding ∈ names.bindings ∧ binding.key ≠ collation.key name := by
  unfold erase
  simp

theorem Ordered.erase (hnames : names.Ordered) : (names.erase collation name).Ordered :=
  List.Pairwise.filter _ hnames

theorem find?_erase : (names.erase collation name).find? collation name = none :=
  find?_eq_none.2 fun _ hbinding => (mem_erase.1 hbinding).2

end RamFs.Directory
