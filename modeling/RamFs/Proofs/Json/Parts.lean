import RamFs.Proofs.Json.Records

/-!
Parts of a value. A part of an object leaves out some of the members, and takes others only in
part; how they are arranged and what stands between them does not matter. A record that has a field
for each member is read from any part, member by member.
-/

namespace RamFs

namespace Json

/-- The value itself, or an object with some of its members or with parts of them. They may stand in
another order, each once, and members of other names may stand among them. -/
inductive PartOf : Json → Json → Prop where
  | same {value : Json} : PartOf value value
  | object {part whole : List (String × Json)} :
      (∀ name value given, (name, value) ∈ whole → (name, given) ∈ part → PartOf given value) →
      ((part.map Prod.fst).filter (· ∈ whole.map Prod.fst)).Nodup →
      PartOf (.object part) (.object whole)

/-- The names of an object's members. -/
def names : Json → List String
  | .object members => members.map Prod.fst
  | _ => []

/-- The member of that name, null if there is none. -/
def member (name : String) : Json → Json
  | .object members => (members.lookup name).getD .null
  | _ => .null

variable {name : String} {value given part : Json} {members whole : List (String × Json)}

/-- A name that stands among the members once is looked up by any of them. -/
theorem lookup_of_mem {known : String → Bool} (hknown : known name = true)
    (honce : ((members.map Prod.fst).filter known).Nodup) (hgiven : (name, given) ∈ members) :
    members.lookup name = some given := by
  induction members with
  | nil => cases hgiven
  | cons first members ih =>
      obtain ⟨other, value⟩ := first
      rcases List.mem_cons.1 hgiven with hsame | hlater
      · cases hsame
        exact List.lookup_cons_self
      · have hname : name ∈ (members.map Prod.fst).filter known :=
          List.mem_filter.2 ⟨List.mem_map.2 ⟨_, hlater, rfl⟩, hknown⟩
        have hother : name ≠ other := by
          rintro rfl
          rw [List.map_cons, List.filter_cons_of_pos hknown] at honce
          exact (List.nodup_cons.1 honce).1 hname
        rw [List.lookup_cons, beq_false_of_ne hother]
        exact ih (honce.sublist ((List.sublist_cons_self other _).filter known)) hlater

theorem member_of_mem (hname : name ∈ whole.map Prod.fst)
    (honce : ((members.map Prod.fst).filter (· ∈ whole.map Prod.fst)).Nodup)
    (hgiven : (name, given) ∈ members) : member name (.object members) = given := by
  change (members.lookup name).getD .null = given
  rw [lookup_of_mem (decide_eq_true hname) honce hgiven]
  rfl

theorem PartOf.eq_object (h : PartOf part (.object whole)) (hwhole : (whole.map Prod.fst).Nodup) :
    ∃ members, part = .object members ∧
      (∀ name value given, (name, value) ∈ whole → (name, given) ∈ members → PartOf given value) ∧
      ((members.map Prod.fst).filter (· ∈ whole.map Prod.fst)).Nodup := by
  cases h with
  | same =>
      have honce : ((whole.map Prod.fst).filter (· ∈ whole.map Prod.fst)).Nodup :=
        hwhole.sublist List.filter_sublist
      refine ⟨whole, rfl, ?_, honce⟩
      intro name value given hvalue hgiven
      have hname : name ∈ whole.map Prod.fst := List.mem_map.2 ⟨_, hvalue, rfl⟩
      have hsame : value = given :=
        (member_of_mem hname honce hvalue).symm.trans (member_of_mem hname honce hgiven)
      exact hsame ▸ .same
  | object hparts honce => exact ⟨_, rfl, hparts, honce⟩

theorem PartOf.eq (h : PartOf part value) (hvalue : ∀ members, value ≠ .object members) :
    part = value := by
  cases h with
  | same => rfl
  | object => exact absurd rfl (hvalue _)

namespace Scan

variable {ρ α : Type}

theorem exists_mem_zip {fields : List (RecordField ρ)} {field : RecordField ρ}
    (hnames : whole.map Prod.fst = fields.map (·.name)) (hfield : field ∈ fields) :
    ∃ value, (field, (field.name, value)) ∈ fields.zip whole := by
  induction fields generalizing whole with
  | nil => cases hfield
  | cons first fields ih =>
      cases whole with
      | nil => cases hnames
      | cons member whole =>
          obtain ⟨other, value⟩ := member
          obtain ⟨rfl, hlater⟩ := List.cons.inj hnames
          rcases List.mem_cons.1 hfield with rfl | hfield
          · exact ⟨value, .head _⟩
          · obtain ⟨value, hvalue⟩ := ih hlater hfield
            exact ⟨value, .tail _ hvalue⟩

/-- A record is read from a part of an object that has one member for each field. -/
theorem reads_part (fields : List (RecordField ρ)) (only : List String → ρ)
    (hnames : whole.map Prod.fst = fields.map (·.name)) (hdistinct : (fields.map (·.name)).Nodup)
    (hpart : PartOf part (.object whole))
    (hsets : ∀ place ∈ fields.zip whole, PartOf (part.member place.1.name) place.2.2 →
      place.1.Sets only (part.member place.1.name))
    (hskips : ∀ name, (∀ field ∈ fields, field.name ≠ name) →
      ∀ names, only (names ++ [name]) = only names) :
    Reads (recordFrom fields (only [])) part (only part.names) := by
  obtain ⟨members, rfl, hparts, honce⟩ := hpart.eq_object (hnames ▸ hdistinct)
  have hfits : Fits fields members only := by
    refine ⟨?_, hskips, hnames ▸ honce⟩
    intro field hfield given hgiven
    obtain ⟨value, hplace⟩ := exists_mem_zip hnames hfield
    have hvalue : (field.name, value) ∈ whole := (List.of_mem_zip hplace).2
    have hset := hsets _ hplace
    rw [member_of_mem (List.mem_map_of_mem hvalue) honce hgiven] at hset
    exact hset (hparts _ _ _ hvalue hgiven)
  exact hfits.recordFrom

/-- A field whose value is no object is given as a whole or not at all. -/
theorem sets_scalar {only : List String → ρ} {scan : Scan α} {set : α → ρ → ρ} {result : α}
    (h : PartOf part value) (hvalue : ∀ members, value ≠ .object members)
    (hread : Reads scan value result)
    (hset : ∀ names, set result (only names) = only (names ++ [name])) :
    (RecordField.of name scan set).Sets only part :=
  sets_of (h.eq hvalue ▸ hread) hset

end Scan

end Json

end RamFs
