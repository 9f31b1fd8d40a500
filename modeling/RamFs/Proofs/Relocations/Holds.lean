import RamFs.Proofs.Namespace.Decisions
import RamFs.Proofs.Namespace.Descents

/-!
What a relocation holds. A route is held with its directory for writing and everything above for
reading. The directory of the slot that comes later in the order stands nowhere above that of the
first one, so that it is not held for reading when it is asked for; both directories end up held
for writing, and nothing is held but the two routes.
-/

namespace RamFs

open RamFs.Action

namespace Holds

variable {holds : Holds} {entry other : EntryId} {access : Access} {init : List EntryId}

theorem covers_eq_false : holds.covers entry = false ↔ holds.lookup entry = none := by
  unfold covers
  cases holds.lookup entry <;> simp

/-! ### One entry -/

/-- Holding an entry more: what it covers, and what it holds for writing. -/
structure Gains (holds : Holds) (entries : List EntryId) (written : EntryId → Prop)
    (after : Holds) : Prop where
  covers : ∀ other, after.covers other = true ↔ holds.covers other = true ∨ other ∈ entries
  written : ∀ other, after.lookup other = some .write ↔
    holds.lookup other = some .write ∨ written other

theorem Gains.trans {middle after : Holds} {entries entries' : List EntryId}
    {written written' : EntryId → Prop} (h : holds.Gains entries written middle)
    (h' : middle.Gains entries' written' after) :
    holds.Gains (entries ++ entries') (fun other => written other ∨ written' other) after where
  covers other := by rw [h'.covers, h.covers, List.mem_append, or_assoc]
  written other := by rw [h'.written, h.written, or_assoc]

theorem lookup_acquired (hfree : holds.lookup entry = none) :
    (holds ++ [(entry, access)]).lookup other =
      if other = entry then some access else holds.lookup other := by
  rw [List.lookup_append]
  by_cases hother : other = entry
  · subst hother
    simp [hfree]
  · rw [if_neg hother]
    simp [List.lookup_cons, beq_false_of_ne hother]

theorem acquire_of_free (hfree : holds.lookup entry = none) :
    holds.acquire entry access = .ok (holds ++ [(entry, access)]) := by
  unfold acquire
  rw [hfree]

/-- Only an entry that is held for reading is refused, and only for writing. -/
theorem acquire_gains (holds : Holds) (entry : EntryId) (access : Access)
    (h : access = .write → holds.lookup entry ≠ some .read) :
    ∃ after, holds.acquire entry access = .ok after ∧
      holds.Gains [entry] (fun other => access = .write ∧ other = entry) after := by
  cases hheld : holds.lookup entry with
  | none =>
      refine ⟨_, acquire_of_free hheld, ?_, ?_⟩
      · intro other
        unfold Holds.covers
        rw [lookup_acquired hheld]
        by_cases hother : other = entry <;> simp [hother]
      · intro other
        rw [lookup_acquired hheld]
        by_cases hother : other = entry
        · subst hother
          simp [hheld]
        · simp [hother]
  | some held =>
      have hsame : holds.acquire entry access = .ok holds := by
        unfold acquire
        rw [hheld]
        dsimp only
        rw [if_neg]
        rintro ⟨hwrite, rfl⟩
        exact h hwrite hheld
      refine ⟨holds, hsame, ?_, ?_⟩
      · intro other
        refine ⟨.inl, fun hother => hother.elim id fun hmem => ?_⟩
        rw [List.mem_singleton.1 hmem]
        unfold Holds.covers
        rw [hheld]
        rfl
      · intro other
        refine ⟨.inl, fun hother => hother.elim id ?_⟩
        rintro ⟨hwrite, rfl⟩
        cases held with
        | read => exact absurd hheld (h hwrite)
        | write => exact hheld

/-! ### One route -/

/-- A route can be held if its end is not held for reading already and stands nowhere else on
it. -/
theorem acquireRoute_gains (hend : holds.lookup entry ≠ some .read) (hinit : entry ∉ init) :
    ∃ after, holds.acquireRoute (init ++ [entry]) = .ok after ∧
      holds.Gains (init ++ [entry]) (· = entry) after := by
  induction init generalizing holds with
  | nil =>
      obtain ⟨after, hrun, hgains⟩ := acquire_gains holds entry .write fun _ => hend
      refine ⟨after, hrun, hgains.covers, fun other => ?_⟩
      rw [hgains.written]
      simp
  | cons first rest ih =>
      obtain ⟨middle, hrun, hgains⟩ := acquire_gains holds first .read nofun
      have hfirst : entry ≠ first := fun hsame => hinit (hsame ▸ List.mem_cons_self)
      have hlater : middle.lookup entry ≠ some .read := by
        intro hread
        have hcovers : middle.covers entry = true := by
          unfold Holds.covers
          rw [hread]
          rfl
        rcases (hgains.covers entry).1 hcovers with hheld | hmem
        · -- held before, and not for reading, so for writing still
          obtain ⟨held, hheld⟩ := Option.isSome_iff_exists.1 hheld
          cases held with
          | read => exact hend hheld
          | write =>
              rw [(hgains.written entry).2 (.inl hheld)] at hread
              cases hread
        · exact hfirst (List.mem_singleton.1 hmem)
      obtain ⟨after, hrest, hgains'⟩ := ih hlater fun hmem => hinit (List.mem_cons_of_mem _ hmem)
      obtain ⟨next, later, hlist⟩ := List.exists_cons_of_ne_nil
        (List.append_ne_nil_of_right_ne_nil rest (List.cons_ne_nil entry []))
      refine ⟨after, ?_, ?_⟩
      · rw [List.cons_append, hlist]
        unfold acquireRoute
        rw [hrun, ok_bind, ← hlist, hrest]
      · have hboth := hgains.trans hgains'
        refine ⟨hboth.covers, fun other => ?_⟩
        rw [hboth.written]
        simp

end Holds

namespace Namespace

variable {n : Namespace} {id : VolumeId} {ordinal : Nat} {top entry other : EntryId}
  {bindings : List Binding}

theorem Leads.route_concat (h : n.Leads top bindings entry) :
    ∃ above, top :: bindings.map Binding.entry = above ++ [entry] ∧
      ∀ passed ∈ above, ∃ front rest, rest ≠ [] ∧ bindings = front ++ rest ∧
        n.Leads top front passed ∧ n.Leads passed rest entry := by
  induction h with
  | top => exact ⟨[], rfl, nofun⟩
  | @step before directory binding hbefore hbinds ih =>
      obtain ⟨above, hroute, habove⟩ := ih
      refine ⟨above ++ [directory], ?_, ?_⟩
      · rw [List.map_append, ← List.cons_append, hroute]
        rfl
      · intro passed hpassed
        rcases List.mem_append.1 hpassed with hpassed | hlast
        · obtain ⟨front, rest, _, rfl, hfront, hrest⟩ := habove passed hpassed
          exact ⟨front, rest ++ [binding], by simp, by simp, hfront, hrest.step hbinds⟩
        · obtain rfl := List.mem_singleton.1 hlast
          exact ⟨before, [binding], by simp, rfl, hbefore, .step (.top) hbinds⟩

end Namespace

/-! ### Two slots -/

namespace Slot

variable {n : Namespace} {collation : Collation} {a b src dst first second : Slot}
  {top top' entry : EntryId} {bindings bindings' : List Binding}

/-- Whatever is on the slot's route, the rest of the route leads from it to the directory. -/
theorem Stays.passes (h : src.Stays n top bindings) (hentry : entry ∈ src.route) :
    n.InTree src.volume entry ∧ ∃ rest, n.Leads entry rest src.directory := by
  obtain ⟨above, hroute, habove⟩ := h.leads.route_concat
  rw [h.route, hroute] at hentry
  rcases List.mem_append.1 hentry with hpassed | hend
  · obtain ⟨front, rest, _, _, hfront, hrest⟩ := habove entry hpassed
    exact ⟨⟨_, top, front, h.root, hfront⟩, rest, hrest⟩
  · obtain rfl := List.mem_singleton.1 hend
    exact ⟨h.inTree, [], .top⟩

/-- A proper beginning of a list of names comes before the list. -/
theorem compareLex_prefix (collation : Collation) (front : List String) (rest : List String)
    (hrest : rest ≠ []) :
    List.compareLex collation.compare front (front ++ rest) = .lt ∧
      List.compareLex collation.compare (front ++ rest) front = .gt := by
  induction front with
  | nil =>
      obtain ⟨name, later, rfl⟩ := List.exists_cons_of_ne_nil hrest
      exact ⟨rfl, rfl⟩
  | cons name front ih =>
      have hsame : collation.compare name name = .eq := by
        unfold Collation.compare
        exact Std.ReflCmp.compare_self
      rw [List.cons_append, List.compareLex_cons_cons, List.compareLex_cons_cons, hsame]
      exact ih

/-- A directory above that of another slot comes first. -/
theorem order_of_above {front rest : List Binding} (hn : n.Sound) (ha : a.Stays n top bindings)
    (hb : b.Stays n top' bindings') (hsplit : bindings' = front ++ rest) (hrest : rest ≠ [])
    (habove : n.Leads top' front a.directory) :
    a.order collation b = .lt ∧ b.order collation a = .gt := by
  obtain ⟨hvolume, hordinal, -, rfl⟩ := hn.route_unique ha.root hb.root ha.leads habove
  have hnames : b.parent.elements = a.parent.elements ++ rest.map Binding.name := by
    rw [hb.elements, ha.elements, hsplit, List.map_append]
  obtain ⟨hlt, hgt⟩ := compareLex_prefix collation a.parent.elements
    (rest.map Binding.name) (by simpa using hrest)
  unfold Slot.order
  rw [hvolume, hordinal, hnames, hlt, hgt]
  simp

/-- Two routes are held one after the other if the second directory is not above the first. -/
theorem hold_in_order (hn : n.Sound) (hfirst : first.Stays n top bindings)
    (hsecond : second.Stays n top' bindings')
    (hclear : ∀ front rest, bindings = front ++ rest → rest ≠ [] →
      ¬n.Leads top front second.directory) :
    ∃ holds, (Holds.acquireRoute [] first.route >>= fun holds =>
        Holds.acquireRoute holds second.route) = .ok holds ∧
      Holds.Gains [] (first.route ++ second.route)
        (fun entry => entry = first.directory ∨ entry = second.directory) holds := by
  obtain ⟨above, hroute, habove⟩ := hfirst.leads.route_concat
  obtain ⟨above', hroute', habove'⟩ := hsecond.leads.route_concat
  have hloop : ∀ {top : EntryId} {bindings : List Binding} {slot : Slot} {above : List EntryId},
      slot.Stays n top bindings → (∀ passed ∈ above, ∃ front rest, rest ≠ [] ∧
        bindings = front ++ rest ∧ n.Leads top front passed ∧
        n.Leads passed rest slot.directory) → slot.directory ∉ above := by
    intro top bindings slot above hslot habove hmem
    obtain ⟨_, rest, hrest, _, _, hback⟩ := habove _ hmem
    exact hrest (hn.acyclic hslot.inTree hback)
  obtain ⟨middle, hrun, hgains⟩ : ∃ middle, Holds.acquireRoute [] (above ++ [first.directory]) =
      .ok middle ∧ Holds.Gains [] (above ++ [first.directory]) (· = first.directory) middle :=
    Holds.acquireRoute_gains nofun (hloop hfirst habove)
  have hfree : middle.lookup second.directory ≠ some .read := by
    intro hread
    have hcovers : Holds.covers middle second.directory = true := by
      unfold Holds.covers
      rw [hread]
      rfl
    rcases (hgains.covers _).1 hcovers with hnone | hmem
    · cases hnone
    rcases List.mem_append.1 hmem with hmem | hend
    · obtain ⟨front, rest, hrest, hsplit, hfront, _⟩ := habove _ hmem
      exact hclear front rest hsplit hrest hfront
    · rw [(hgains.written _).2 (.inr (List.mem_singleton.1 hend))] at hread
      cases hread
  obtain ⟨holds, hrun', hgains'⟩ := Holds.acquireRoute_gains hfree (hloop hsecond habove')
  refine ⟨holds, ?_, ?_⟩
  · rw [hfirst.route, hsecond.route, hroute, hroute', hrun, ok_bind, hrun']
  · rw [hfirst.route, hsecond.route, hroute, hroute']
    exact hgains.trans hgains'

/-- Both directories are had for writing, whichever of them is asked for first. -/
theorem holdBoth_gains (hn : n.Sound) (hsrc : src.Stays n top bindings)
    (hdst : dst.Stays n top' bindings') (collation : Collation) :
    ∃ holds, Slot.holdBoth collation src dst = .ok holds ∧
      (∀ entry, Holds.covers holds entry = true ↔ entry ∈ src.route ∨ entry ∈ dst.route) ∧
      ∀ entry, holds.lookup entry = some .write ↔
        entry = src.directory ∨ entry = dst.directory := by
  unfold Slot.holdBoth
  by_cases horder : src.order collation dst = .gt
  · rw [if_pos horder]
    obtain ⟨holds, hrun, hgains⟩ := hold_in_order hn hdst hsrc fun front rest hsplit hrest habove => by
      rw [(order_of_above hn hsrc hdst hsplit hrest habove).1] at horder
      cases horder
    refine ⟨holds, hrun, fun entry => ?_, fun entry => ?_⟩
    · rw [hgains.covers, List.mem_append]
      simp [Holds.covers, or_comm]
    · rw [hgains.written]
      simp [or_comm]
  · rw [if_neg horder]
    obtain ⟨holds, hrun, hgains⟩ := hold_in_order hn hsrc hdst fun front rest hsplit hrest habove =>
      horder (order_of_above hn hdst hsrc hsplit hrest habove).2
    refine ⟨holds, hrun, fun entry => ?_, fun entry => ?_⟩
    · rw [hgains.covers, List.mem_append]
      simp [Holds.covers]
    · rw [hgains.written]
      simp

end Slot

end RamFs
