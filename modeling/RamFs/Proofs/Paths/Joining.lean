import RamFs.Proofs.Paths.Tidy

/-!
Texts joined onto paths. Whatever path is read, joined or cut at its last name, it is made of names.
To join one text and then another is to join both with a separator between them, also where the
second one climbs out of the first. A NUL character is all that is refused, and it is refused
wherever it stands.
-/

namespace RamFs

open RamFs.Action

namespace Path

variable {elements raw : List String} {path : Path} {failure : Failure}

/-! ### What is refused -/

theorem push_eq_error {part : String} :
    push elements part = .error failure ↔ failure = .invalidName ∧ '\x00' ∈ part.toList := by
  unfold push
  split
  case isTrue hplain =>
    refine ⟨nofun, fun ⟨_, hnul⟩ => ?_⟩
    rcases hplain with rfl | rfl <;> exact absurd hnul (by decide)
  case isFalse =>
    split
    case isTrue hup =>
      refine ⟨nofun, fun ⟨_, hnul⟩ => ?_⟩
      exact absurd (hup ▸ hnul) (by decide)
    case isFalse =>
      simp only [List.any_eq_true, decide_eq_true_eq, exists_eq_right]
      split
      case isTrue hnul => exact ⟨fun h => ⟨(Except.error.inj h).symm, hnul⟩, fun h => h.1 ▸ rfl⟩
      case isFalse hnul => exact ⟨nofun, fun h => absurd h.2 hnul⟩

/-- A part with a NUL is refused even where a later part would drop it. -/
theorem pushAll_eq_error (elements : List String) :
    pushAll elements raw = .error failure ↔
      failure = .invalidName ∧ ∃ part ∈ raw, '\x00' ∈ part.toList := by
  induction raw generalizing elements with
  | nil => exact ⟨nofun, fun ⟨_, _, hmem, _⟩ => nomatch hmem⟩
  | cons part rest ih =>
      unfold pushAll
      rw [List.exists_mem_cons_iff]
      cases hpush : push elements part with
      | error refusal =>
          obtain ⟨rfl, hnul⟩ := push_eq_error.1 hpush
          exact ⟨fun h => ⟨(Except.error.inj h).symm, .inl hnul⟩, fun h => h.1 ▸ rfl⟩
      | ok pushed =>
          have hnul : '\x00' ∉ part.toList := by
            intro hnul
            cases hpush.symm.trans (push_eq_error.2 ⟨rfl, hnul⟩)
          rw [ok_bind, ih, or_iff_right hnul]

theorem mem_parts_iff {cs : List Char} {c : Char} (hc : isSeparator c = false) :
    (∃ part ∈ parts cs, c ∈ part.toList) ↔ c ∈ cs := by
  unfold parts
  simp only [List.mem_map, exists_exists_and_eq_and, String.toList_ofList]
  induction cs with
  | nil => simp
  | cons d rest ih =>
      rw [List.splitOnP_cons_eq_if_modifyHead]
      split
      case isTrue hd =>
        have hne : c ≠ d := by
          rintro rfl
          rw [hc] at hd
          cases hd
        rw [List.exists_mem_cons_iff, ih, List.mem_cons, or_iff_right List.not_mem_nil,
          or_iff_right hne]
      case isFalse =>
        obtain ⟨first, later, hsplit⟩ := List.exists_cons_of_ne_nil
          (List.splitOnP_ne_nil isSeparator rest)
        rw [hsplit, List.exists_mem_cons_iff] at ih
        rw [hsplit, List.modifyHead_cons, List.exists_mem_cons_iff, List.mem_cons, List.mem_cons,
          or_assoc, ih]

theorem join_eq_error {text : String} :
    path.join text = .error failure ↔ failure = .invalidName ∧ '\x00' ∈ text.toList := by
  rw [← mem_parts_iff (c := '\x00') rfl, ← pushAll_eq_error path.elements]
  unfold join
  cases pushAll path.elements (parts text.toList) with
  | error refusal =>
      exact ⟨fun h => congrArg _ (Except.error.inj h), fun h => congrArg _ (Except.error.inj h)⟩
  | ok found => exact ⟨nofun, nofun⟩

/-! ### One text after another -/

theorem parts_append (first rest : List Char) {c : Char} (hc : isSeparator c = true) :
    parts (first ++ c :: rest) = parts first ++ parts rest := by
  unfold parts
  rw [List.splitOnP_append_cons first rest hc, List.map_append]

theorem pushAll_append (elements first rest : List String) :
    pushAll elements (first ++ rest) =
      pushAll elements first >>= fun found => pushAll found rest := by
  induction first generalizing elements with
  | nil => rfl
  | cons part first ih =>
      rw [List.cons_append, pushAll, pushAll]
      cases push elements part with
      | error refusal => rfl
      | ok pushed => exact ih pushed

theorem join_join (path : Path) (first rest : String) :
    (path.join first >>= fun joined => joined.join rest) = path.join (first ++ "/" ++ rest) := by
  have hparts : parts (first ++ "/" ++ rest).toList = parts first.toList ++ parts rest.toList := by
    rw [String.toList_append, String.toList_append, List.append_assoc]
    exact parts_append _ _ rfl
  unfold join
  rw [hparts, pushAll_append]
  cases pushAll path.elements (parts first.toList) with
  | error refusal => rfl
  | ok found => rfl

/-- A path with one name more, and without it again, is the path below its root. -/
theorem parent?_join {name : String} (path : Path) (hname : IsName name) :
    ∃ child, path.join name = .ok child ∧
      child.parent? = some (path.withElements path.elements) := by
  have hread : pushAll path.elements (parts name.toList) = .ok (path.elements ++ [name]) := by
    rw [parts_of_name hname.no_separator]
    exact pushAll_names _ (List.forall_mem_singleton.2 hname)
  refine ⟨path.withElements (path.elements ++ [name]), ?_, ?_⟩
  · unfold join
    rw [hread]
    rfl
  · simp [parent?, isRoot, withElements]

/-! ### Normal paths -/

/-- Paths that are made from texts: read, joined with one, or cut at their last name. -/
inductive Made (roots : List String) (collation : Collation) : Path → Prop where
  | parsed {text : String} {path : Path} : parse roots collation text = .ok path →
      Made roots collation path
  | joined {path joined : Path} {text : String} : Made roots collation path →
      path.join text = .ok joined → Made roots collation joined
  | parent {path parent : Path} : Made roots collation path → path.parent? = some parent →
      Made roots collation parent

variable {roots : List String} {collation : Collation}

theorem Made.isName (h : Made roots collation path) : ∀ name ∈ path.elements, IsName name := by
  induction h with
  | parsed hparse => exact parse_isName hparse
  | joined _ hjoin ih =>
      unfold join at hjoin
      obtain ⟨found, hread, hjoin⟩ := exists_of_bind_ok hjoin
      cases hjoin
      exact pushAll_parts_isName _ ih hread
  | parent _ hparent ih =>
      unfold parent? at hparent
      obtain ⟨_, hparent⟩ := Option.ite_none_left_eq_some.1 hparent
      cases hparent
      exact fun name hmem => ih name (List.dropLast_subset _ hmem)

end Path

/-- Every path that is made from texts is made of names. Joining two texts one after the other is
joining them with a separator between them, and is refused exactly for a part with a NUL. One name
that is joined comes off again. -/
theorem paths_join_like_texts {roots : List String} {collation : Collation} {path : Path}
    (h : Path.Made roots collation path) :
    (∀ name ∈ path.elements, Path.IsName name) ∧
    (∀ first rest, (path.join first >>= fun joined => joined.join rest) =
      path.join (first ++ "/" ++ rest)) ∧
    (∀ text failure, path.join text = .error failure ↔
      failure = .invalidName ∧ ∃ part ∈ Path.parts text.toList, '\x00' ∈ part.toList) ∧
    ∀ name, Path.IsName name → ∃ child parent, path.join name = .ok child ∧
      child.parent? = some parent ∧ parent.root = path.root ∧ parent.rootName = path.rootName ∧
      parent.elements = path.elements := by
  refine ⟨h.isName, path.join_join, fun text failure => ?_, fun name hname => ?_⟩
  · rw [Path.join_eq_error, Path.mem_parts_iff rfl]
  · obtain ⟨child, hchild, hparent⟩ := path.parent?_join hname
    exact ⟨child, _, hchild, hparent, rfl, rfl, rfl⟩

/-- The second text climbs out of the first one, and on to a name that it leaves again. -/
theorem climbing_texts_join :
    Path.parse ["/"] .sensitive "/a/b" = .ok ⟨0, "/", ["a", "b"], true⟩ ∧
    (Path.join ⟨0, "/", ["a", "b"], true⟩ "c\\." >>= fun joined => joined.join "../../d") =
      .ok ⟨0, "/", ["a", "d"], true⟩ ∧
    Path.join ⟨0, "/", ["a", "b"], true⟩ "c\x00/.." = .error .invalidName := by
  have hparse : Path.parse ["/"] .sensitive "/a/b" = .ok ⟨0, "/", ["a", "b"], true⟩ := by
    decide +kernel
  obtain ⟨-, hjoin, hrefused, -⟩ := paths_join_like_texts (.parsed hparse)
  refine ⟨hparse, (hjoin _ _).trans (by decide +kernel), (hrefused _ _).2 ⟨rfl, ?_⟩⟩
  exact ⟨"c\x00", by decide +kernel, by decide⟩

end RamFs
