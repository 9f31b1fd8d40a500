import Mathlib.Data.Set.Card
import RamFs.Proofs.Calls
import RamFs.Proofs.Namespace.Opening

/-!
How long searches go on. A walk makes one pass after the other, and a file to create is looked
for in one directory after the other, each time from where a link leads. A link can make the
names that are left longer than they were, so that nothing about a path bounds a search. What
bounds it is that it stops at a link it has followed before, in a tree that does not change
meanwhile: it makes one pass more, at most, than there are links in the tree of its volume.

`Search` is that loop without any bound of its own, with the links it has seen. The main
statement says that the loop ends, how it ends and after how many passes.
-/

namespace RamFs

open RamFs.Action

/-! ### Searches -/

/-- What one pass of a search comes to: its end, or a link and where the search goes on if it
may follow the link. -/
inductive Stage (σ α : Type) where
  | ended (outcome : Except Failure α)
  | link (entry : EntryId) (next : Except Failure σ)

section Search

variable {σ α : Type} {look : σ → Stage σ α} {seen : List EntryId} {place next : σ} {entry : EntryId}
  {passes passes' : Nat} {outcome outcome' : Except Failure α}

/-- What a search does after a pass: it has its outcome, or it has followed one link more. -/
def Stage.settle (seen : List EntryId) : Stage σ α → Except Failure α ⊕ EntryId × σ
  | ended outcome => .inl outcome
  | link entry next =>
    if entry ∈ seen then .inl (.error .linkLoop)
    else
      match next with
      | .error failure => .inl (.error failure)
      | .ok place => .inr (entry, place)

/-- With some links seen, so many passes lead from a place to an outcome. -/
inductive Search (look : σ → Stage σ α) : List EntryId → σ → Nat → Except Failure α → Prop where
  | last {seen : List EntryId} {place : σ} {outcome : Except Failure α} :
      (look place).settle seen = .inl outcome → Search look seen place 1 outcome
  | again {seen : List EntryId} {place next : σ} {entry : EntryId} {passes : Nat}
      {outcome : Except Failure α} :
      (look place).settle seen = .inr (entry, next) →
      Search look (entry :: seen) next passes outcome → Search look seen place (passes + 1) outcome

theorem settle_eq_inr (h : (look place).settle seen = .inr (entry, next)) :
    look place = .link entry (.ok next) ∧ entry ∉ seen := by
  unfold Stage.settle at h
  split at h
  case h_1 => cases h
  case h_2 met place' hstage =>
    rcases ite_eq_iff.1 h with ⟨_, h⟩ | ⟨hfresh, h⟩
    · cases h
    split at h
    case h_1 => cases h
    case h_2 =>
      cases h
      exact ⟨hstage, hfresh⟩

theorem settle_of_ok {outcome : Except Failure σ} (hfresh : entry ∉ seen)
    (houtcome : outcome = .ok next) :
    (Stage.link entry outcome : Stage σ α).settle seen = .inr (entry, next) := by
  subst houtcome
  exact if_neg hfresh

theorem settle_of_error {outcome : Except Failure σ} {failure : Failure} (hfresh : entry ∉ seen)
    (houtcome : outcome = .error failure) :
    (Stage.link entry outcome : Stage σ α).settle seen = .inl (.error failure) := by
  subst houtcome
  exact if_neg hfresh

/-- A search has one course and so one outcome. -/
theorem Search.unique (h : Search look seen place passes outcome)
    (h' : Search look seen place passes' outcome') : passes = passes' ∧ outcome = outcome' := by
  induction h generalizing passes' with
  | last hstage =>
      cases h' with
      | last hstage' => exact ⟨rfl, Sum.inl.inj (hstage.symm.trans hstage')⟩
      | again hstage' => cases hstage.symm.trans hstage'
  | again hstage _ ih =>
      cases h' with
      | last hstage' => cases hstage.symm.trans hstage'
      | again hstage' hlater =>
          cases hstage.symm.trans hstage'
          obtain ⟨rfl, houtcome⟩ := ih hlater
          exact ⟨rfl, houtcome⟩

theorem Search.pos (h : Search look seen place passes outcome) : 0 < passes := by
  cases h with
  | last => exact Nat.one_pos
  | again => exact Nat.succ_pos _

/-- Every pass but the last uses up a link that was not seen before. -/
theorem Search.passes_le {links : Set EntryId} (hlinks : links.Finite)
    (hlook : ∀ place entry next, look place = .link entry next → entry ∈ links)
    (h : Search look seen place passes outcome) (hnodup : seen.Nodup)
    (hseen : ∀ entry ∈ seen, entry ∈ links) : passes + seen.length ≤ links.ncard + 1 := by
  induction h with
  | @last seen _ _ _ =>
      have hcount : seen.length ≤ links.ncard := by
        rw [← List.toFinset_card_of_nodup hnodup, ← Set.ncard_coe_finset]
        exact Set.ncard_le_ncard (fun entry hentry => hseen entry (by simpa using hentry)) hlinks
      omega
  | again hstage _ ih =>
      obtain ⟨hlink, hfresh⟩ := settle_eq_inr hstage
      have hmore := ih (List.nodup_cons.2 ⟨hfresh, hnodup⟩)
        (List.forall_mem_cons.2 ⟨hlook _ _ _ hlink, hseen⟩)
      rw [List.length_cons] at hmore
      omega

end Search

/-- The symbolic links in the tree of a volume. -/
def Namespace.linksIn (n : Namespace) (id : VolumeId) : Set EntryId :=
  { entry | n.InTree id entry ∧ ∃ target, n.node? entry = some (.symlink target) }

namespace World

variable {world : World} {id : VolumeId} {volume : Volume} {collation : Collation} {goal : Goal}
  {followLinks createNew : Bool} {here link : EntryId} {route seen unseen : List EntryId}
  {walked walked' names rest : List String} {root : Nat} {path : Path} {target : String}

/-! ### Links -/

theorem node?_of_linkTarget? (h : world.linkTarget? link = some target) :
    world.namespace.node? link = some (.symlink target) := by
  rw [linkTarget?_eq] at h
  split at h
  case h_1 found hnode => rw [hnode, Option.some.inj h]
  case h_2 => cases h

theorem mem_links : link ∈ world.links ↔ (world.linkTarget? link).isSome = true := by
  unfold World.links
  simp only [List.mem_filter, List.mem_map, List.mem_range, and_iff_right_iff_imp]
  intro hlink
  obtain ⟨target, htarget⟩ := Option.isSome_iff_exists.1 hlink
  obtain ⟨entry, hentry, -⟩ := Option.bind_eq_some_iff.1 htarget
  exact ⟨link.index, (Array.getElem?_eq_some_iff.1 hentry).1, rfl⟩

theorem nodup_links : world.links.Nodup := by
  unfold World.links
  refine List.Nodup.filter _ (List.Nodup.map (fun first second h => ?_) List.nodup_range)
  exact congrArg EntryId.index h

theorem finite_linksIn : (world.namespace.linksIn id).Finite := by
  refine (List.finite_toSet world.links).subset ?_
  rintro entry ⟨-, target, hnode⟩
  rw [Set.mem_ofPred_eq, mem_links, linkTarget?_eq, hnode]
  rfl

theorem pass_detour (h : world.pass collation goal followLinks here route walked names =
    .ok (.detour link target walked' rest)) :
    world.linkTarget? link = some target ∧ ∃ bindings, world.namespace.Leads here bindings link := by
  induction names generalizing here route walked with
  | nil =>
      unfold World.pass at h
      cases h
  | cons name later ih =>
      by_cases hend : goal = .parent ∧ later = []
      · obtain ⟨rfl, rfl⟩ := hend
        rw [pass_last_of_parent] at h
        obtain ⟨_, _, h⟩ := exists_of_bind_ok h
        cases h
      have hgoal : goal = .parent → later ≠ [] := fun hparent hlater => hend ⟨hparent, hlater⟩
      rw [pass_cons hgoal] at h
      obtain ⟨directory, hdirectory, h⟩ := exists_of_bind_ok h
      split at h
      case h_1 => cases h
      case h_2 binding hfind =>
      have hfirst : world.namespace.Leads here [binding] binding.entry :=
        Namespace.Leads.step .top ⟨directory, directory_eq_ok.1 hdirectory, Directory.find?_mem hfind⟩
      split at h
      case h_1 =>
        obtain ⟨htarget, bindings, hleads⟩ := ih h
        exact ⟨htarget, binding :: bindings, hfirst.append hleads⟩
      case h_2 found hfound =>
        rcases ite_eq_iff.1 h with ⟨_, h⟩ | ⟨_, h⟩
        · cases h
          exact ⟨hfound, [binding], hfirst⟩
        · rcases ite_eq_iff.1 h with ⟨_, h⟩ | ⟨_, h⟩ <;> cases h

/-- A link that stops a pass is one of the links in the tree that the pass goes down. -/
theorem passFrom_detour (hvolume : world.volume id = .ok volume)
    (h : world.passFrom volume goal followLinks root names = .ok (.detour link target walked rest)) :
    link ∈ world.namespace.linksIn id := by
  obtain ⟨-, top, htop, hpass⟩ := passFrom_eq_ok.1 h
  obtain ⟨htarget, bindings, hleads⟩ := pass_detour hpass
  exact ⟨⟨root, top, bindings, ⟨volume.ground, ground?_of_volume hvolume, htop⟩, hleads⟩,
    target, node?_of_linkTarget? htarget⟩

/-! ### Stages -/

/-- One pass of a walk. -/
def walkStage (world : World) (volume : Volume) (goal : Goal) (followLinks : Bool)
    (course : Nat × List String) : Stage (Nat × List String) Visit :=
  match world.passFrom volume goal followLinks course.1 course.2 with
  | .error failure => .ended (.error failure)
  | .ok (.arrived entry route walked) => .ended (.ok ⟨entry, route, volume.pathOf course.1 walked⟩)
  | .ok (.detour link target walked rest) => .link link (volume.spliceLink target course.1 walked rest)

/-- One look for a name to create. -/
def createStage (world : World) (volume : Volume) (createNew : Bool) (path : Path) :
    Stage Path OpenTarget :=
  match createTrail.lookup world volume path with
  | .error failure => .ended (.error failure)
  | .ok (parent, none) => .ended (.ok (.vacant parent.entry parent.path))
  | .ok (parent, some binding) =>
    if createNew then .ended (.error .alreadyExists)
    else
      match world.linkTarget? binding.entry with
      | none => .ended (.ok (.existing binding.entry parent.path))
      | some target => .link binding.entry (volume.linkDestination parent.path target)

/-- One look for a file to open. Only a file that may have to be created is looked for more than
once. -/
def openStage (world : World) (volume : Volume) (options : OpenOptions) (path : Path) :
    Stage Path OpenTarget :=
  if options.creates then world.createStage volume options.createNew path
  else .ended do
    let found ← world.walk volume path (.entry true) true
    return .existing found.entry found.path

/-- The links that are still unseen are those that were not seen. -/
def Splits (world : World) (seen unseen : List EntryId) : Prop :=
  unseen.Nodup ∧ ∀ link ∈ world.links, link ∈ unseen ↔ link ∉ seen

theorem splits_links : world.Splits [] world.links :=
  ⟨nodup_links, fun _ hlink => ⟨fun _ => List.not_mem_nil, fun _ => hlink⟩⟩

theorem Splits.mem_iff (h : world.Splits seen unseen) (hlink : link ∈ world.namespace.linksIn id) :
    link ∈ unseen ↔ link ∉ seen := by
  obtain ⟨-, target, hnode⟩ := hlink
  refine h.2 link (mem_links.2 ?_)
  rw [linkTarget?_eq, hnode]
  rfl

theorem Splits.follow (h : world.Splits seen unseen) :
    world.Splits (link :: seen) (unseen.erase link) := by
  refine ⟨h.1.erase link, fun other hother => ?_⟩
  rw [h.1.mem_erase_iff, h.2 other hother, List.mem_cons, not_or]

theorem walkStage_link {course : Nat × List String} {next : Except Failure (Nat × List String)}
    (hvolume : world.volume id = .ok volume)
    (h : world.walkStage volume goal followLinks course = .link link next) :
    link ∈ world.namespace.linksIn id := by
  unfold walkStage at h
  split at h
  case h_1 => cases h
  case h_2 => cases h
  case h_3 found target walked rest hpass =>
    cases h
    exact passFrom_detour hvolume hpass

theorem createStage_link {next : Except Failure Path} (hvolume : world.volume id = .ok volume)
    (h : world.createStage volume createNew path = .link link next) :
    link ∈ world.namespace.linksIn id := by
  unfold createStage at h
  split at h
  case h_1 => cases h
  case h_2 => cases h
  case h_3 parent binding hlookup =>
    rcases ite_eq_iff.1 h with ⟨_, h⟩ | ⟨_, h⟩
    · cases h
    split at h
    case h_1 => cases h
    case h_2 target htarget =>
      cases h
      obtain ⟨htree, _, names, _, hnames, hfind⟩ :=
        createTrail_lookup (ground?_of_volume hvolume) hlookup
      exact ⟨htree.step ⟨names, hnames, Directory.find?_mem hfind⟩, target,
        node?_of_linkTarget? htarget⟩

theorem openStage_link {options : OpenOptions} {next : Except Failure Path}
    (hvolume : world.volume id = .ok volume)
    (h : world.openStage volume options path = .link link next) :
    link ∈ world.namespace.linksIn id := by
  unfold openStage at h
  split at h
  · exact createStage_link hvolume h
  · cases h

/-! ### Searches end -/

theorem walkStage_of_detour (hpass : world.passFrom volume goal followLinks root names =
    .ok (.detour link target walked rest)) :
    world.walkStage volume goal followLinks (root, names) =
      .link link (volume.spliceLink target root walked rest) := by
  unfold walkStage
  rw [hpass]

/-- The passes of a walk are a search, whatever links it has seen already. -/
theorem trail_search (hvolume : world.volume id = .ok volume) :
    ∀ {seen : List EntryId}, world.Splits seen unseen →
      ∃ passes, Search (world.walkStage volume goal followLinks) seen (root, names) passes
        (world.trail volume goal followLinks unseen root names).outcome := by
  fun_induction World.trail world volume goal followLinks unseen root names with
  | case1 unseen root names failure hpass =>
      intro seen _
      exact ⟨1, .last (by unfold walkStage; rw [hpass]; rfl)⟩
  | case2 unseen root names entry route walked hpass =>
      intro seen _
      exact ⟨1, .last (by unfold walkStage; rw [hpass]; rfl)⟩
  | case3 unseen root names link target walked rest hpass hlink failure hsplice =>
      intro seen h
      have hfresh := (h.mem_iff (passFrom_detour hvolume hpass)).1 hlink
      exact ⟨1, .last (walkStage_of_detour hpass ▸ settle_of_error hfresh hsplice)⟩
  | case4 unseen root names link target walked rest hpass hlink root' names' hsplice later =>
      rename_i ih
      intro seen h
      have hfresh := (h.mem_iff (passFrom_detour hvolume hpass)).1 hlink
      obtain ⟨passes, hlater⟩ := ih h.follow
      exact ⟨passes + 1, .again (walkStage_of_detour hpass ▸ settle_of_ok hfresh hsplice) hlater⟩
  | case5 unseen root names link target walked rest hpass hlink =>
      intro seen h
      have hseen := mt (h.mem_iff (passFrom_detour hvolume hpass)).2 hlink
      exact ⟨1, .last (walkStage_of_detour hpass ▸ if_pos (not_not.1 hseen))⟩

theorem createStage_of_link {parent : Visit} {binding : Binding}
    (hlookup : createTrail.lookup world volume path = .ok (parent, some binding))
    (hnew : ¬createNew = true) (htarget : world.linkTarget? binding.entry = some target) :
    world.createStage volume createNew path =
      .link binding.entry (volume.linkDestination parent.path target) := by
  unfold createStage
  rw [hlookup]
  dsimp only
  rw [if_neg hnew, htarget]

/-- So are the looks for a name to create. -/
theorem createTrail_search (hvolume : world.volume id = .ok volume) :
    ∀ {seen : List EntryId}, world.Splits seen unseen →
      ∃ passes, Search (world.createStage volume createNew) seen path passes
        (world.createTrail volume createNew unseen path).outcome := by
  fun_induction World.createTrail world volume createNew unseen path with
  | case1 unseen path failure hlookup =>
      intro seen _
      exact ⟨1, .last (by unfold createStage; rw [hlookup]; rfl)⟩
  | case2 unseen path parent hlookup =>
      intro seen _
      exact ⟨1, .last (by unfold createStage; rw [hlookup]; rfl)⟩
  | case3 unseen path parent binding hlookup hnew =>
      intro seen _
      refine ⟨1, .last ?_⟩
      unfold createStage
      rw [hlookup]
      dsimp only
      rw [if_pos hnew]
      rfl
  | case4 unseen path parent binding hlookup hnew htarget =>
      intro seen _
      refine ⟨1, .last ?_⟩
      unfold createStage
      rw [hlookup]
      dsimp only
      rw [if_neg hnew, htarget]
      rfl
  | case5 unseen path parent binding hlookup hnew target htarget hlink failure hdestination =>
      intro seen h
      have hstage := createStage_of_link hlookup hnew htarget
      have hfresh := (h.mem_iff (createStage_link hvolume hstage)).1 hlink
      exact ⟨1, .last (hstage ▸ settle_of_error hfresh hdestination)⟩
  | case6 unseen path parent binding hlookup hnew target htarget hlink destination hdestination
      later =>
      rename_i ih
      intro seen h
      have hstage := createStage_of_link hlookup hnew htarget
      have hfresh := (h.mem_iff (createStage_link hvolume hstage)).1 hlink
      obtain ⟨passes, hlater⟩ := ih h.follow
      exact ⟨passes + 1, .again (hstage ▸ settle_of_ok hfresh hdestination) hlater⟩
  | case7 unseen path parent binding hlookup hnew target htarget hlink =>
      intro seen h
      have hstage := createStage_of_link hlookup hnew htarget
      have hseen := mt (h.mem_iff (createStage_link hvolume hstage)).2 hlink
      exact ⟨1, .last (hstage ▸ if_pos (not_not.1 hseen))⟩

theorem openTrail_search (hvolume : world.volume id = .ok volume) (options : OpenOptions) :
    ∃ passes, Search (world.openStage volume options) [] path passes
      (world.openTrail volume path options).outcome := by
  unfold openStage openTrail
  by_cases hcreates : options.creates = true
  · simp only [if_pos hcreates]
    exact createTrail_search hvolume splits_links
  · simp only [if_neg hcreates]
    exact ⟨1, .last rfl⟩

end World

/-! ### How long they take -/

/-- A search that meets only links of a volume's tree has one course, which is short. -/
theorem Search.within {world : World} {id : VolumeId} {σ α : Type} {look : σ → Stage σ α}
    {place : σ} {passes : Nat} {outcome : Except Failure α}
    (h : Search look [] place passes outcome)
    (hlook : ∀ {place entry next}, look place = .link entry next →
      entry ∈ world.namespace.linksIn id) :
    ∃ restarts ≤ (world.namespace.linksIn id).ncard, ∀ count result,
      Search look [] place count result ↔ count = restarts + 1 ∧ result = outcome := by
  have hbound := h.passes_le World.finite_linksIn (fun _ _ _ => hlook) List.nodup_nil
    fun _ hentry => absurd hentry List.not_mem_nil
  have hpos := h.pos
  rw [List.length_nil] at hbound
  refine ⟨passes - 1, by omega, fun count result => ⟨fun hother => ?_, ?_⟩⟩
  · obtain ⟨rfl, rfl⟩ := hother.unique h
    exact ⟨by omega, rfl⟩
  · rintro ⟨rfl, rfl⟩
    rwa [Nat.sub_add_cancel hpos]

/-- Every walk ends, and so does every look for a file to open, though nothing but the links seen
before stops either. A walk makes at most one pass more than there are links in the tree of the
volume, and to open a file is begun anew at most as often as there are links. -/
theorem searches_end {world : World} {id : VolumeId} {volume : Volume}
    (hvolume : world.volume id = .ok volume) :
    (∀ (path : Path) (goal : Goal) (followLinks : Bool),
      ∃ restarts ≤ (world.namespace.linksIn id).ncard, ∀ passes outcome,
        Search (world.walkStage volume goal followLinks) [] (path.root, path.elements) passes
            outcome ↔
          passes = restarts + 1 ∧ outcome = world.walk volume path goal followLinks) ∧
    (∀ (path : Path) (options : OpenOptions),
      ∃ recursions ≤ (world.namespace.linksIn id).ncard, ∀ looks outcome,
        Search (world.openStage volume options) [] path looks outcome ↔
          looks = recursions + 1 ∧ outcome = (world.openTrail volume path options).outcome) ∧
    (world.namespace.linksIn id).Finite := by
  refine ⟨fun path goal followLinks => ?_, fun path options => ?_, World.finite_linksIn⟩
  · obtain ⟨passes, hsearch⟩ := World.trail_search hvolume World.splits_links
    exact hsearch.within (World.walkStage_link hvolume)
  · obtain ⟨passes, hsearch⟩ := World.openTrail_search hvolume options
    exact hsearch.within (World.openStage_link hvolume)

/-- A volume with two links that lead to each other and leave one name more to walk each time. -/
def World.coiled : World :=
  List.foldl Call.perform {} [.newVolume {}, .onPath ⟨0⟩ (.createSymlink "/a" "b/x"),
    .onPath ⟨0⟩ (.createSymlink "/b" "a/y")]

theorem coiled_walk_ends : ∃ volume, World.coiled.volume ⟨0⟩ = .ok volume ∧
    ∃ restarts ≤ (World.coiled.namespace.linksIn ⟨0⟩).ncard, ∀ passes outcome,
      Search (World.coiled.walkStage volume (.entry true) true) [] (0, ["a"]) passes outcome ↔
        passes = restarts + 1 ∧ outcome = .error .linkLoop := by
  have hvolume : World.coiled.volume ⟨0⟩ = .ok ⟨{}, [⟨0⟩], 0, 1⟩ := by decide +kernel
  have hloop : World.coiled.walk ⟨{}, [⟨0⟩], 0, 1⟩ ⟨0, "/", ["a"], true⟩ (.entry true) true =
      .error .linkLoop := by decide +kernel
  obtain ⟨restarts, hbound, hcourse⟩ :=
    (searches_end hvolume).1 ⟨0, "/", ["a"], true⟩ (.entry true) true
  rw [hloop] at hcourse
  exact ⟨_, hvolume, restarts, hbound, hcourse⟩

end RamFs
