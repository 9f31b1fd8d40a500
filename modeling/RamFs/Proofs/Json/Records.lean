import RamFs.Proofs.Json.Reading

/-!
Records given as objects. The members may stand in any order and some may be left out; a member
of another name is skipped, whatever its value is. What a record holds in the end depends on the
names of the members that were read.
-/

namespace RamFs.Json.Scan

variable {ρ : Type} {fields : List (RecordField ρ)} {field : RecordField ρ} {record : ρ}
  {update : ρ → ρ} {only : List String → ρ} {members : List (String × Json)} {name : String}
  {value : Json} {seen done : List String} {before after space text rest : List Char} {fuel : Nat}

/-! ### Members of an object -/

theorem hasMember_end (first : Bool) (hspace : IsSpace space) (rest : List Char) :
    hasMember first (space ++ '}' :: rest) = .ok (false, '}' :: rest) := by
  unfold hasMember
  rw [bind_ok (peek_cons hspace rfl _)]
  rfl

theorem hasMember_quote (hbefore : IsSpace before) (rest : List Char) :
    hasMember true (before ++ '"' :: rest) = .ok (true, rest) := by
  unfold hasMember
  rw [bind_ok (peek_cons hbefore rfl _)]
  rfl

/-- Behind a comma a member is read like a first one. -/
theorem hasMember_comma (hafter : IsSpace after) (h : Writes (.members members) text)
    (hne : members ≠ []) (rest : List Char) :
    hasMember false (after ++ ',' :: (text ++ rest)) = hasMember true (text ++ rest) := by
  obtain ⟨before, more, hbefore, rfl⟩ : ∃ before more, IsSpace before ∧
      text = before ++ '"' :: more := by
    cases h with
    | noMember => exact absurd rfl hne
    | lastMember hbefore hmember | nextMember hbefore hmember =>
        cases hmember
        exact ⟨_, _, hbefore, rfl⟩
  rw [List.append_assoc, List.cons_append, hasMember_quote hbefore]
  unfold hasMember
  rw [bind_ok (peek_cons hafter rfl _)]
  change (advance >>= _) (',' :: _) = _
  rw [bind_ok (advance_cons _ _), bind_ok (peek_cons hbefore rfl _)]
  rfl

theorem colon_space (hspace : IsSpace space) (rest : List Char) :
    colon (space ++ ':' :: rest) = .ok ((), rest) := by
  unfold colon
  rw [bind_ok (peek_cons hspace rfl _)]
  rfl

theorem fieldMembers_end (first : Bool) (hspace : IsSpace space) (rest : List Char) :
    fieldMembers fields (fuel + 1) seen first record (space ++ '}' :: rest) =
      .ok (record, '}' :: rest) := by
  unfold fieldMembers
  rw [bind_ok (hasMember_end first hspace rest)]
  rfl

theorem fieldMembers_comma (hafter : IsSpace after) (h : Writes (.members members) text)
    (hne : members ≠ []) (rest : List Char) :
    fieldMembers fields fuel seen false record (after ++ ',' :: (text ++ rest)) =
      fieldMembers fields fuel seen true record (text ++ rest) := by
  cases fuel with
  | zero => rfl
  | succ fuel =>
      unfold fieldMembers
      exact bind_eq_of_eq (hasMember_comma hafter h hne rest) _

/-- A member of another name changes nothing. -/
theorem fieldMembers_other (hbefore : IsSpace before) (h : Writes (.member name value) text)
    (hstops : Stops rest) (hother : fields.find? (·.name == name) = none) :
    fieldMembers fields (fuel + 1) seen true record (before ++ (text ++ rest)) =
      fieldMembers fields fuel seen false record rest := by
  cases h with
  | member hname hspace hspace' hvalue =>
      have hskip := skipValue_writes hspace' hvalue hstops
      simp only [List.cons_append, List.append_assoc]
      conv => lhs; unfold fieldMembers
      rw [bind_ok (hasMember_quote hbefore _)]
      change (stringBody >>= _) _ = _
      rw [bind_ok (stringBody_quoted hname _), hother]
      change (colon >>= _) _ = _
      rw [bind_ok (colon_space hspace _), bind_ok hskip]

/-- A member of a field's name changes the record as its value says. -/
theorem fieldMembers_field (hbefore : IsSpace before) (h : Writes (.member name value) text)
    (hstops : Stops rest) (hfield : fields.find? (·.name == name) = some field)
    (hread : Reads field.read value update) (hseen : name ∉ seen) :
    fieldMembers fields (fuel + 1) seen true record (before ++ (text ++ rest)) =
      fieldMembers fields fuel (name :: seen) false (update record) rest := by
  cases h with
  | member hname hspace hspace' hvalue =>
      have hseen : ¬seen.contains name = true := mt List.contains_iff_mem.1 hseen
      simp only [List.cons_append, List.append_assoc]
      conv => lhs; unfold fieldMembers
      rw [bind_ok (hasMember_quote hbefore _)]
      change (stringBody >>= _) _ = _
      rw [bind_ok (stringBody_quoted hname _), hfield]
      dsimp only
      rw [if_neg hseen, bind_ok (colon_space hspace _), bind_ok (hread hspace' hvalue hstops)]

/-! ### Whole records -/

/-- Where `only names` is the record once the members of these names have been read: the value is
one of the field, and reading it takes the record one name further. -/
def RecordField.Sets (field : RecordField ρ) (only : List String → ρ) (value : Json) : Prop :=
  ∃ update, Reads field.read value update ∧
    ∀ names, update (only names) = only (names ++ [field.name])

theorem sets_of {α : Type} {scan : Scan α} {set : α → ρ → ρ} {result : α}
    (hread : Reads scan value result)
    (hset : ∀ names, set result (only names) = only (names ++ [name])) :
    (RecordField.of name scan set).Sets only value :=
  ⟨set result, hread.map set, hset⟩

/-- The members of an object are values of the fields, each field has one at most, and a member of
another name leaves the record as it is. -/
structure Fits (fields : List (RecordField ρ)) (members : List (String × Json))
    (only : List String → ρ) : Prop where
  sets : ∀ field ∈ fields, ∀ value, (field.name, value) ∈ members → field.Sets only value
  skips : ∀ name, (∀ field ∈ fields, field.name ≠ name) →
    ∀ names, only (names ++ [name]) = only names
  once : ((members.map Prod.fst).filter (· ∈ fields.map (·.name))).Nodup

theorem Fits.tail (h : Fits fields ((name, value) :: members) only) :
    Fits fields members only where
  sets field hfield value hvalue := h.sets field hfield value (List.mem_cons_of_mem _ hvalue)
  skips := h.skips
  once := h.once.sublist ((List.sublist_cons_self name _).filter _)

theorem Fits.fresh (h : Fits fields ((name, value) :: members) only)
    (hname : name ∈ fields.map (·.name)) : name ∉ members.map Prod.fst := by
  have honce := h.once
  rw [List.map_cons, List.filter_cons, if_pos (decide_eq_true hname), List.nodup_cons] at honce
  exact fun hmem => honce.1 (List.mem_filter.2 ⟨hmem, decide_eq_true hname⟩)

/-- Any member takes the record one name further. -/
theorem fieldMembers_member (hfits : Fits fields ((name, value) :: members) only)
    (hbefore : IsSpace before) (h : Writes (.member name value) text) (hstops : Stops rest)
    (hseen : ∀ seenName ∈ seen, seenName ∉ name :: members.map Prod.fst) (done : List String)
    (fuel : Nat) :
    ∃ seen', (∀ seenName ∈ seen', seenName ∉ members.map Prod.fst) ∧
      fieldMembers fields (fuel + 1) seen true (only done) (before ++ (text ++ rest)) =
        fieldMembers fields fuel seen' false (only (done ++ [name])) rest := by
  have hlater : ∀ seenName ∈ seen, seenName ∉ members.map Prod.fst := fun seenName hmem hlater =>
    hseen seenName hmem (List.mem_cons_of_mem name hlater)
  cases hfind : fields.find? (·.name == name) with
  | none =>
      have hname : ∀ field ∈ fields, field.name ≠ name := by simpa using hfind
      refine ⟨seen, hlater, ?_⟩
      rw [fieldMembers_other hbefore h hstops hfind, hfits.skips name hname]
  | some field =>
      have hfield : field ∈ fields := List.mem_of_find?_eq_some hfind
      obtain rfl : field.name = name := by simpa using List.find?_some hfind
      obtain ⟨update, hread, hupdate⟩ := hfits.sets field hfield value List.mem_cons_self
      have hfresh := hfits.fresh (List.mem_map_of_mem hfield)
      have hnew : field.name ∉ seen := fun hmem => hseen _ hmem List.mem_cons_self
      refine ⟨field.name :: seen, List.forall_mem_cons.2 ⟨hfresh, hlater⟩, ?_⟩
      rw [fieldMembers_field hbefore h hstops hfind hread hnew, hupdate]

theorem fieldMembers_writes (hfits : Fits fields members only) (h : Writes (.members members) text)
    (hseen : ∀ name ∈ seen, name ∉ members.map Prod.fst) (hfuel : text.length < fuel)
    (done : List String) (rest : List Char) :
    fieldMembers fields fuel seen true (only done) (text ++ '}' :: rest) =
      .ok (only (done ++ members.map Prod.fst), '}' :: rest) := by
  -- the names seen so far are none of those still to come
  induction members generalizing text fuel seen done with
  | nil =>
      obtain ⟨fuel, rfl⟩ := Nat.exists_eq_add_one_of_ne_zero (Nat.ne_zero_of_lt hfuel)
      cases h with
      | noMember hspace =>
          rw [List.map_nil, List.append_nil]
          exact fieldMembers_end true hspace rest
  | cons member members ih =>
      obtain ⟨fuel, rfl⟩ := Nat.exists_eq_add_one_of_ne_zero (Nat.ne_zero_of_lt hfuel)
      cases h with
      | @lastMember name value before text after hbefore hmember hafter =>
          have hstops : Stops (after ++ '}' :: rest) := stops_space hafter (stops_cons (by decide))
          obtain ⟨seen', -, hstep⟩ :=
            fieldMembers_member hfits hbefore hmember hstops hseen done fuel
          -- the member takes characters, so that one step is left for the end of the object
          obtain ⟨fuel, rfl⟩ : ∃ n, fuel = n + 1 :=
            Nat.exists_eq_add_one_of_ne_zero (by cases hmember; simp at hfuel; omega)
          rw [List.append_assoc, List.append_assoc, hstep, fieldMembers_end false hafter]
          rfl
      | @nextMember name value _ before text after more hbefore hmember hafter hne hmore =>
          have hstops : Stops (after ++ ',' :: (more ++ '}' :: rest)) :=
            stops_space hafter (stops_cons (by decide))
          obtain ⟨seen', hseen', hstep⟩ :=
            fieldMembers_member hfits hbefore hmember hstops hseen done fuel
          have hfuel' : more.length < fuel := by
            simp only [List.length_append, List.length_cons] at hfuel
            omega
          rw [List.append_assoc, List.append_assoc, List.append_assoc, List.cons_append, hstep,
            fieldMembers_comma hafter hmore hne, ih hfits.tail hmore hseen' hfuel',
            List.append_assoc]
          rfl

theorem Fits.recordFrom (h : Fits fields members only) :
    Reads (recordFrom fields (only [])) (.object members) (only (members.map Prod.fst)) := by
  intro before text rest hbefore htext _
  obtain _ | _ | _ | _ | _ | _ | @⟨_, text, hmembers⟩ := htext
  have hfuel : text.length < (text ++ '}' :: rest).length + 1 := by
    rw [List.length_append]
    omega
  have hread := fieldMembers_writes h hmembers (List.forall_mem_nil _) hfuel [] rest
  rw [List.cons_append, List.append_assoc]
  unfold Scan.recordFrom
  rw [bind_ok (peek_cons hbefore rfl _)]
  change (advance >>= _) ('{' :: _) = _
  rw [bind_ok (advance_cons _ _), List.singleton_append, bind_ok (get_all _), bind_ok hread,
    bind_ok (closing_cons rfl rest)]
  rfl

end RamFs.Json.Scan
