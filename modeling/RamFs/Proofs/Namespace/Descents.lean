import RamFs.Proofs.Namespace.Walks

/-!
Passes down a known route. A route can be cut at every entry it passes, and whatever it passes on
the way is a directory. A pass over names with the keys of the bindings on a route goes down that
route, however the names are spelled, and the rest of its names decides the rest of the pass.
-/

namespace RamFs

open RamFs.Action

namespace Namespace

variable {n : Namespace} {top entry other directory : EntryId} {binding : Binding}
  {front bindings rest : List Binding} {names : Directory}

/-! ### Routes cut in two -/

theorem Leads.eq_top (h : n.Leads top [] entry) : entry = top := by
  generalize hnil : ([] : List Binding) = bindings at h
  cases h with
  | top => rfl
  | step => simp at hnil

theorem Leads.split (h : n.Leads top (front ++ rest) entry) :
    ∃ here, n.Leads top front here ∧ n.Leads here rest entry := by
  generalize hwhole : front ++ rest = bindings at h
  induction h generalizing rest with
  | top =>
      obtain ⟨rfl, rfl⟩ := List.append_eq_nil_iff.1 hwhole
      exact ⟨top, .top, .top⟩
  | @step before directory binding hbefore hbinds ih =>
      rcases List.eq_nil_or_concat' rest with rfl | ⟨later, last, rfl⟩
      · rw [List.append_nil] at hwhole
        subst hwhole
        exact ⟨binding.entry, hbefore.step hbinds, .top⟩
      · rw [← List.append_assoc] at hwhole
        obtain ⟨hfront, hlast⟩ := List.append_inj' hwhole rfl
        obtain rfl : last = binding := by simpa using hlast
        obtain ⟨here, hhere, hlater⟩ := ih hfront
        exact ⟨here, hhere, hlater.step hbinds⟩

/-- The last step of a route. -/
theorem Leads.last (h : n.Leads top (front ++ [binding]) entry) :
    ∃ directory, n.Leads top front directory ∧ n.Binds directory binding ∧
      binding.entry = entry := by
  generalize hwhole : front ++ [binding] = bindings at h
  cases h with
  | top => simp at hwhole
  | @step before directory last hbefore hbinds =>
      obtain ⟨rfl, hlast⟩ := List.append_inj' hwhole rfl
      obtain rfl : binding = last := by simpa using hlast
      exact ⟨directory, hbefore, hbinds, rfl⟩

/-- The first step of a route. -/
theorem Leads.head (h : n.Leads top (binding :: rest) entry) :
    n.Binds top binding ∧ n.Leads binding.entry rest entry := by
  replace h : n.Leads top ([binding] ++ rest) entry := h
  obtain ⟨here, hfirst, hrest⟩ := h.split
  replace hfirst : n.Leads top ([] ++ [binding]) here := hfirst
  obtain ⟨directory, htop, hbinds, rfl⟩ := hfirst.last
  obtain rfl := htop.eq_top
  exact ⟨hbinds, hrest⟩

/-- Where the beginning of a route ends, there the route passes. -/
theorem Leads.passes_at {count : Nat} (h : n.Leads top (bindings.take count) entry)
    (hcount : count ≤ bindings.length) :
    (top :: bindings.map Binding.entry)[count]? = some entry := by
  cases count with
  | zero =>
      rw [List.take_zero] at h
      rw [h.eq_top]
      rfl
  | succ count =>
      rw [List.take_succ_eq_append_getElem hcount] at h
      obtain ⟨_, _, _, hentry⟩ := h.last
      rw [List.getElem?_cons_succ, List.getElem?_map, List.getElem?_eq_getElem hcount,
        Option.map_some, hentry]

/-- What stands on a route before its end is a directory. -/
theorem Leads.passes_directory (h : n.Leads top (front ++ binding :: rest) entry) :
    ∃ here names, n.Leads top front here ∧ n.node? here = some (.directory names) ∧
      binding ∈ names.bindings := by
  obtain ⟨here, hfront, hrest⟩ := h.split
  obtain ⟨⟨names, hnode, hmem⟩, _⟩ := hrest.head
  exact ⟨here, names, hfront, hnode, hmem⟩

end Namespace

namespace World

variable {world : World} {collation : Collation} {goal : Goal} {followLinks : Bool}
  {top here : EntryId} {route : List EntryId} {walked given names : List String}
  {bindings : List Binding}

theorem linkTarget?_of_directory {id : EntryId} {names : Directory}
    (h : world.namespace.node? id = some (.directory names)) : world.linkTarget? id = none := by
  rw [linkTarget?_eq, h]

/-- A route whose end is no link passes none. -/
theorem linkTarget?_of_leads {entry : EntryId} (hleads : world.namespace.Leads top bindings entry)
    (hend : world.linkTarget? entry = none) :
    ∀ binding ∈ bindings, world.linkTarget? binding.entry = none := by
  induction hleads with
  | top => exact nofun
  | step _ hbinds ih =>
      obtain ⟨names, hnode, _⟩ := hbinds
      intro passed hpassed
      rcases List.mem_append.1 hpassed with hbefore | hlast
      · exact ih (linkTarget?_of_directory hnode) passed hbefore
      · obtain rfl := List.mem_singleton.1 hlast
        exact hend

/-- A pass over names with the keys of the bindings on a route goes down that route. -/
theorem pass_down (hordered : ∀ {directory names},
      world.namespace.node? directory = some (.directory names) → names.Ordered)
    (hleads : world.namespace.Leads top bindings here)
    (hkeys : given.map collation.key = bindings.map Binding.key)
    (hlinks : ∀ binding ∈ bindings, world.linkTarget? binding.entry = none)
    (hgoal : goal = .parent → names ≠ []) :
    world.pass collation goal followLinks top route walked (given ++ names) =
      world.pass collation goal followLinks here (route ++ bindings.map Binding.entry)
        (walked ++ bindings.map Binding.name) names := by
  induction hleads generalizing given names with
  | top =>
      obtain rfl : given = [] := by simpa using hkeys
      simp
  | @step before directory binding _ hbinds ih =>
      obtain ⟨given, last, rfl, hgiven, hlast⟩ : ∃ front last, given = front ++ [last] ∧
          front.map collation.key = before.map Binding.key ∧
          binding.key = collation.key last := by
        rw [List.map_append] at hkeys
        obtain ⟨front, tail, rfl, hfront, htail⟩ := List.map_eq_append_iff.1 hkeys
        obtain ⟨last, rfl, hlast⟩ : ∃ last, tail = [last] ∧ collation.key last = binding.key := by
          simpa [List.map_eq_cons_iff] using htail
        exact ⟨front, last, rfl, hfront, hlast.symm⟩
      obtain ⟨directoryNames, hnode, hmem⟩ := hbinds
      -- the pass down the front goes on with the last name, which is found in the directory
      rw [List.append_assoc, List.singleton_append,
        ih hgiven (fun passed hpassed => hlinks passed (List.mem_append_left _ hpassed))
          (fun _ => List.cons_ne_nil _ _),
        pass_cons hgoal, directory_eq_ok.2 hnode, ok_bind,
        (hordered hnode).find?_eq_some hmem hlast]
      dsimp only
      rw [hlinks binding (List.mem_append_right _ (List.mem_singleton_self _))]
      simp

/-- A pass over no names to an entry is there. -/
theorem pass_nil : world.pass collation goal followLinks here route walked [] =
    .ok (.arrived here route walked) := by
  unfold World.pass
  rfl

end World

end RamFs
