import Mathlib.Algebra.BigOperators.Group.Finset.Basic
import RamFs.Proofs.Namespace.Reachable

/-!
Open handles are counted twice: by every file that is open, and by every volume. What a volume
counts is a matter of the roster alone, so that only opening, closing and making volumes have a
say in it; that both counts agree then follows from where open files are.
-/

namespace RamFs

open RamFs.Action

variable {world : World} {volumes : Array Volume} {leases leases' : List Lease} {id : VolumeId}
  {volume : Volume} {entry : EntryId} {file : FileNode}

/-! ### Places taken on a volume -/

/-- Every volume that is owned counts the handles open on it, and these are no more than it may
have. -/
def Roster.Counted (roster : Roster) : Prop :=
  ∀ (id : VolumeId) (volume : Volume), roster.volumes[id.index]? = some volume →
    volume.isLive = true →
    volume.openHandles = roster.leases.countP (·.volume = id) ∧
      volume.openHandles ≤ volume.config.limits.maxOpenHandles.toNat

namespace Roster

/-- Only the volume that changes has to be looked at again. -/
theorem Counted.modify {change : Volume → Volume} (h : Counted ⟨volumes, leases⟩)
    (hothers : ∀ other, other ≠ id →
      leases'.countP (·.volume = other) = leases.countP (·.volume = other))
    (hself : ∀ volume, volumes[id.index]? = some volume → (change volume).isLive = true →
      (change volume).openHandles = leases'.countP (·.volume = id) ∧
        (change volume).openHandles ≤ (change volume).config.limits.maxOpenHandles.toNat) :
    Counted ⟨volumes.modify id.index change, leases'⟩ := by
  intro other found hfound hlive
  dsimp only at hfound ⊢
  rw [Array.getElem?_modify] at hfound
  split at hfound
  case isTrue hindex =>
    obtain ⟨volume, hvolume, rfl⟩ := Option.map_eq_some_iff.1 hfound
    obtain rfl : id = other := congrArg VolumeId.mk hindex
    exact hself volume hvolume hlive
  case isFalse hindex =>
    rw [hothers other fun hsame => hindex (congrArg VolumeId.index hsame.symm)]
    exact h other found hfound hlive

theorem Counted.takePlace (h : Counted ⟨volumes, leases⟩)
    (hvolume : volumes[id.index]? = some volume)
    (hroom : volume.openHandles < volume.config.limits.maxOpenHandles.toNat) (entry : EntryId) :
    Counted ⟨volumes.modify id.index Volume.takePlace, leases ++ [⟨id, entry⟩]⟩ := by
  refine h.modify (fun other hne => ?_) fun found hfound hlive => ?_
  · simp [List.countP_append, hne.symm]
  · obtain rfl : volume = found := Option.some.inj (hvolume.symm.trans hfound)
    refine ⟨?_, hroom⟩
    have hcount : volume.openHandles = leases.countP (·.volume = id) :=
      (h id volume hvolume hlive).1
    simp [List.countP_append, Volume.takePlace, hcount]

theorem Counted.freePlace (h : Counted ⟨volumes, leases⟩)
    (hleases : leases.Perm (⟨id, entry⟩ :: leases')) :
    Counted ⟨volumes.modify id.index Volume.freePlace, leases'⟩ := by
  refine h.modify (fun other hne => ?_) fun found hfound hlive => ?_
  · rw [hleases.countP_eq]
    simp [hne.symm]
  · obtain ⟨hcount, hbound⟩ := h id found hfound hlive
    dsimp only at hcount
    rw [hleases.countP_eq, List.countP_cons_of_pos (by simp)] at hcount
    refine ⟨?_, Nat.le_trans (Nat.sub_le ..) hbound⟩
    change found.openHandles - 1 = _
    rw [hcount, Nat.add_sub_cancel]

/-- A handle that is closed on a volume without owners changes no count that matters. -/
theorem Counted.abandon (h : Counted ⟨volumes, leases⟩) (hvolume : volumes[id.index]? = some volume)
    (hdead : volume.isLive = false) (hleases : leases.Perm (⟨id, entry⟩ :: leases')) :
    Counted ⟨volumes, leases'⟩ := by
  intro other found hfound hlive
  have hne : id ≠ other := by
    rintro rfl
    rw [Option.some.inj (hvolume.symm.trans hfound), hlive] at hdead
    cases hdead
  obtain ⟨hcount, hbound⟩ := h other found hfound hlive
  dsimp only at hcount
  rw [hleases.countP_eq, List.countP_cons_of_neg (by simpa using hne)] at hcount
  exact ⟨hcount, hbound⟩

theorem Counted.push (h : Counted ⟨volumes, leases⟩) (hnone : volume.openHandles = 0)
    (hleases : ∀ lease ∈ leases, lease.volume.index < volumes.size) :
    Counted ⟨volumes.push volume, leases⟩ := by
  intro other found hfound hlive
  dsimp only at hfound ⊢
  rw [Array.getElem?_push] at hfound
  split at hfound
  case isFalse => exact h other found hfound hlive
  case isTrue hindex =>
    obtain rfl := Option.some.inj hfound
    have hzero : leases.countP (·.volume = other) = 0 := by
      rw [List.countP_eq_zero]
      intro lease hlease hsame
      have hlt := hleases lease hlease
      rw [of_decide_eq_true hsame, hindex] at hlt
      exact Nat.lt_irrefl _ hlt
    rw [hzero, hnone]
    exact ⟨rfl, Nat.zero_le _⟩

/-- Owners may come and go, but no volume comes to life again. -/
theorem Counted.setOwners {owners : Volume → Nat} (h : Counted ⟨volumes, leases⟩)
    (howners : ∀ volume, 0 < owners volume → 0 < volume.owners) :
    Counted ⟨volumes.modify id.index fun volume => { volume with owners := owners volume },
      leases⟩ := by
  refine h.modify (fun _ _ => rfl) fun volume hvolume hlive => ?_
  exact h id volume hvolume (decide_eq_true (howners volume (of_decide_eq_true hlive)))

end Roster

/-! ### One call -/

theorem VolumeId.openFile_counted {handle : HandleId} {after : World} {text : String}
    {options : OpenOptions} {opening : Opening} (hc : world.roster.Counted)
    (h : opening.Takes world id text options handle after) : after.roster.Counted := by
  rw [h.roster_after]
  exact hc.takePlace (World.volume_eq_ok h.volume) h.room _

theorem HandleId.close_counted (hn : world.namespace.Sound) (hc : world.roster.Counted)
    (id : HandleId) : (id.close world).2.roster.Counted := by
  cases hhandle : world.handle id with
  | error failure =>
      unfold HandleId.close
      rw [bind_apply, ask_apply, hhandle]
      exact hc
  | ok handle =>
      cases hopen : handle.isOpen with
      | false =>
          unfold HandleId.close
          rw [bind_ask_ok hhandle, hopen]
          exact hc
      | true =>
          obtain ⟨volume, file, closed, hcloses, hrun⟩ := close_closes hn hhandle hopen
          obtain ⟨leases, hperm, hclosed⟩ := hcloses.names
          have hcounted : closed.roster.Counted := by
            unfold World.roster
            rw [hcloses.volumes, hclosed]
            split
            case isTrue => exact hc.freePlace hperm
            case isFalse hdead =>
              exact hc.abandon (World.volume_eq_ok hcloses.known) (by simpa using hdead) hperm
          rw [hrun]
          split
          case isFalse => exact hcounted
          case isTrue =>
          have hkeeps : World.roster _ = closed.roster :=
            deleteAbandoned_keeps handle.volume handle.path handle.entry closed
          rw [hkeeps]
          exact hcounted

theorem VolumeId.session_counted {α : Type} {work : HandleId → Action α}
    (hn : world.namespace.Sound) (hc : world.roster.Counted) (id : VolumeId) (path : String)
    (options : OpenOptions) (hwork : ∀ handle, Keeps World.skeleton (work handle)) :
    (id.session path options work world).2.roster.Counted := by
  rcases session_cases hn id path options hwork with
    ⟨failure, _, hrun⟩ | ⟨handle, opened, closed, opening, htakes, hclose, hrun⟩
  · rw [hrun]
    exact hc
  · have hworked := hwork handle opened
    have hsound : (work handle opened).2.namespace.Sound := by
      rw [World.namespace_of_skeleton hworked]
      exact (htakes.expands_after hn).evolves.sound
    have hcounted : (work handle opened).2.roster.Counted := by
      rw [World.roster_of_skeleton hworked]
      exact openFile_counted hc htakes
    have hclosed := HandleId.close_counted hsound hcounted handle
    rw [hclose] at hclosed
    rw [hrun]
    exact hclosed

/-- Of all calls on paths, only opening takes a place on a volume. -/
theorem PathCall.act_keeps {δ : Type} {view : World → δ} [Aloof view] (id : VolumeId)
    {call : PathCall} (hopen : ∀ path options, call ≠ .openFile path options) :
    Keeps view (call.act id) := by
  have hquery : ∀ {α : Type} {query : World → Except Failure α} {next : α → Action Unit},
      (∀ answer, Keeps view (next answer)) → Keeps view (Action.ask query >>= next) :=
    fun h => (keeps_ask _).bind h
  have hparse : ∀ {α : Type} {outcome : Except Failure α} {next : α → Action Unit},
      (∀ answer, Keeps view (next answer)) → Keeps view ((liftM outcome : Action α) >>= next) :=
    fun h => (keeps_lift _).bind h
  cases call with
  | createDirectory path request =>
      exact hquery fun _ => VolumeId.createEntry_keeps (keeps_pure _) _ _ _
  | createFile path request =>
      exact hquery fun _ => VolumeId.createEntry_keeps (VolumeId.newFile_keeps _) _ _ _
  | createSymlink link target =>
      exact hquery fun _ => hparse fun _ => VolumeId.createEntry_keeps (keeps_pure _) _ _ _
  | createHardLink link existing =>
      exact hquery fun _ => hparse fun _ => hparse fun _ => Relocation.run_keeps _ _ _ _ _
  | delete path => exact hquery fun _ => hparse fun _ => VolumeId.deleteEntry_keeps _ _ _
  | copy source targetId target options =>
      exact hquery fun _ => hparse fun _ => hquery fun _ => hparse fun _ =>
        Relocation.run_keeps _ _ _ _ _
  | move source targetId target options =>
      exact hquery fun _ => hparse fun _ => hquery fun _ => hparse fun _ =>
        Relocation.run_keeps _ _ _ _ _
  | setTimes path times => exact hquery fun _ => VolumeId.modifyAt_keeps _ _ _
  | setMode path mode => exact VolumeId.modifyAt_keeps _ _ _
  | setOwner path uid gid => exact VolumeId.modifyAt_keeps _ _ _
  | truncate path size => exact VolumeId.truncate_keeps _ _ _
  | openFile path options => exact absurd rfl (hopen path options)

theorem PathCall.act_counted (hn : world.namespace.Sound) (hc : world.roster.Counted)
    (id : VolumeId) (call : PathCall) : (call.act id world).2.roster.Counted := by
  by_cases hopening : ∃ path options, call = .openFile path options
  · obtain ⟨path, options, rfl⟩ := hopening
    have hopen := id.openFile_transacts hn path options
    change ((id.openFile path options >>= fun _ => pure () : Action Unit)
      world).2.roster.Counted
    rw [bind_apply]
    rcases hrun : id.openFile path options world with ⟨failure | handle, opened⟩
    · rw [hopen.unchanged hrun]
      exact hc
    · obtain ⟨opening, htakes⟩ := hopen.post_of_ok hrun
      exact VolumeId.openFile_counted hc htakes
  · have hroster : World.roster _ = world.roster :=
      act_keeps id (fun path options h => hopening ⟨path, options, h⟩) world
    rw [hroster]
    exact hc

theorem Call.perform_counted (hn : world.namespace.Sound) (hc : world.roster.Counted)
    (call : Call) : (call.perform world).roster.Counted := by
  cases call with
  | setClock now => exact hc
  | newVolume config =>
      have hnew := newVolume_transacts hn config
      change (RamFs.newVolume config world).2.roster.Counted
      rcases hrun : RamFs.newVolume config world with ⟨failure | made, after⟩
      · rw [hnew.unchanged hrun]
        exact hc
      · obtain ⟨_, volume, hnone, hroster⟩ := hnew.post_of_ok hrun
        dsimp only
        rw [hroster]
        refine hc.push hnone fun lease hlease => ?_
        obtain ⟨_, _, _, _, ⟨ground, hground, _⟩, _⟩ := hn.held hlease
        obtain ⟨known, hknown, _⟩ := World.volume_of_ground? hground
        exact (Array.getElem?_eq_some_iff.1 (World.volume_eq_ok hknown)).1
  | share id =>
      refine hc.setOwners fun volume howners => ?_
      split at howners
      case isTrue hlive => exact of_decide_eq_true hlive
      case isFalse => exact absurd howners (Nat.lt_irrefl 0)
  | drop id =>
      exact hc.setOwners fun volume howners => Nat.lt_of_lt_of_le howners (Nat.sub_le ..)
  | onPath id call => exact call.act_counted hn hc id
  | readAll id path =>
      exact id.session_counted hn hc path .reading fun handle =>
        handle.readToEnd_keeps.throughStream
  | writeAll id path contents =>
      exact id.session_counted hn hc path { OpenOptions.creating with truncate := true }
        fun handle => (handle.writeAll_keeps contents).throughStream
  | onHandle id call =>
      by_cases hclose : call = .close
      · subst hclose
        exact HandleId.close_counted hn hc id
      · have hkeeps : (call.perform id world).skeleton = world.skeleton :=
          HandleCall.perform_keeps id hclose
        change (call.perform id world).roster.Counted
        rw [World.roster_of_skeleton hkeeps]
        exact hc
  | releaseLock grant =>
      change (grant.release world).2.roster.Counted
      rw [World.roster_of_skeleton (grant.release_keeps world)]
      exact hc

theorem Reachable.counted (h : Reachable world) : world.roster.Counted := by
  induction h with
  | start =>
      intro id volume hvolume
      cases hvolume
  | step call hworld ih => exact call.perform_counted hworld.sound ih

/-! ### Both counts -/

namespace World

/-- Handles opened on a volume and not closed since. -/
def handlesOf (world : World) (id : VolumeId) : Nat :=
  world.handles.countP fun handle => handle.isOpen && handle.volume = id

/-- Handles opened on an entry and not closed since. -/
def handlesOn (world : World) (entry : EntryId) : Nat :=
  world.handles.countP fun handle => handle.isOpen && handle.entry = entry

/-- What an entry counts of handles; only files count any. -/
def countAt (world : World) (entry : EntryId) : Nat :=
  match world.namespace.node? entry with
  | some (.file file) => file.openHandles
  | _ => 0

open scoped Classical in
/-- What all the files in the tree of a volume count together. -/
noncomputable def countBelow (world : World) (id : VolumeId) : Nat :=
  ∑ index ∈ (Finset.range world.entries.size).filter fun index =>
    world.namespace.InTree id ⟨index⟩, world.countAt ⟨index⟩

theorem countP_leases (check : Lease → Bool) :
    world.namespace.leases.countP check =
      world.handles.countP fun handle => handle.isOpen && check ⟨handle.volume, handle.entry⟩ := by
  change (world.handles.toList.filterMap Handle.lease?).countP check = _
  rw [List.countP_filterMap, ← Array.countP_toList]
  refine congrFun (congrArg List.countP (funext fun handle => ?_)) _
  unfold Handle.lease?
  cases handle.isOpen <;> rfl

theorem countAt_eq (hn : world.namespace.Sound) (entry : EntryId) :
    world.countAt entry = world.namespace.opens entry := by
  unfold countAt
  split
  case h_1 file hfile => exact hn.counted hfile
  case h_2 hnone =>
    refine (Namespace.opens_eq_zero.2 ?_).symm
    rintro lease hlease rfl
    obtain ⟨file, hfile⟩ := hn.leased hlease
    exact hnone file hfile

theorem sum_countP (leases : List Lease) (indices : Finset Nat) :
    ∑ index ∈ indices, leases.countP (·.entry = ⟨index⟩) =
      leases.countP (·.entry.index ∈ indices) := by
  induction leases with
  | nil => simp
  | cons lease rest ih =>
      have hone : ∑ index ∈ indices, (if lease.entry = ⟨index⟩ then 1 else 0) =
          if lease.entry.index ∈ indices then 1 else 0 := by
        rw [← Finset.sum_ite_eq indices lease.entry.index fun _ => 1]
        refine Finset.sum_congr rfl fun index _ => ?_
        congr 1
        exact propext ⟨fun h => congrArg EntryId.index h, fun h => congrArg EntryId.mk h⟩
      simp only [List.countP_cons, decide_eq_true_eq]
      rw [Finset.sum_add_distrib, ih, hone]

/-- A handle is open on a volume exactly when its file is in the tree of that volume. -/
theorem countBelow_eq (hn : world.namespace.Sound) (id : VolumeId) :
    world.countBelow id = world.handlesOf id := by
  unfold countBelow handlesOf
  rw [← countP_leases (·.volume = id)]
  simp only [countAt_eq hn]
  refine (sum_countP _ _).trans (List.countP_congr fun lease hlease => ?_)
  simp only [decide_eq_true_eq, Finset.mem_filter, Finset.mem_range]
  have hheld := (hn.held hlease).2
  constructor
  · exact fun h => hn.inTree_unique hheld h.2
  · rintro rfl
    obtain ⟨file, hfile⟩ := hn.leased hlease
    obtain ⟨entry, hentry, _⟩ := entry_of_node? hfile
    exact ⟨(Array.getElem?_eq_some_iff.1 (entry_eq_ok hentry)).1, hheld⟩

/-- The counts of open handles are right, as many handles as there may be, and no count ever goes
below zero or past what 32 bits hold. -/
structure HandlesCounted (world : World) : Prop where
  /-- A volume counts the handles that are open on it. -/
  volume_count : ∀ {id volume}, world.volume id = .ok volume → volume.isLive = true →
    volume.openHandles = world.handlesOf id
  /-- So do, together, the files in its tree. -/
  tree_count : ∀ {id volume}, world.volume id = .ok volume → volume.isLive = true →
    volume.openHandles = world.countBelow id
  bounded : ∀ {id volume}, world.volume id = .ok volume → volume.isLive = true →
    volume.openHandles ≤ volume.config.limits.maxOpenHandles.toNat
  /-- A file in use counts the handles that are open on it. -/
  file_count : ∀ {entry file count}, world.namespace.node? entry = some (.file file) →
    file.state = .live count → count = world.handlesOn entry
  /-- As long as there is a place left on the volume, one handle more can be counted. -/
  no_overflow : ∀ {id volume entry file}, world.volume id = .ok volume → volume.isLive = true →
    volume.openHandles < volume.config.limits.maxOpenHandles.toNat →
    world.namespace.InTree id entry → world.namespace.node? entry = some (.file file) →
    file.openHandles + 1 < 2 ^ 32
  /-- A handle that is yet to be closed is among those that its file counts. -/
  file_floor : ∀ {id handle}, world.handle id = .ok handle → handle.isOpen = true →
    ∃ file count, world.namespace.node? handle.entry = some (.file file) ∧
      file.state = .live (count + 1)
  /-- It is also among those that its volume counts. -/
  volume_floor : ∀ {id handle volume}, world.handle id = .ok handle → handle.isOpen = true →
    world.volume handle.volume = .ok volume → volume.isLive = true → 0 < volume.openHandles
  /-- A place that is given back was taken before, when opening fails and at every link that is
  followed to create a file. -/
  given_back : ∀ {id volume}, world.volume id = .ok volume →
    volume.openHandles < volume.config.limits.maxOpenHandles.toNat →
    id.releaseHandle (world.modifyVolume id Volume.takePlace) = (.ok (), world) ∧
    ∀ path options, id.openTarget volume path options (world.modifyVolume id Volume.takePlace) =
      (((world.modifyVolume id Volume.takePlace).openTrail volume path options).outcome,
        world.modifyVolume id Volume.takePlace)

end World

/-- However many files have been opened and closed in whatever order, every count of open handles
is the number of handles that it stands for. -/
theorem handles_are_counted (h : Reachable world) : world.HandlesCounted := by
  have hn := h.sound
  have hvolumes : ∀ {id volume}, world.volume id = .ok volume → volume.isLive = true →
      volume.openHandles = world.handlesOf id ∧
        volume.openHandles ≤ volume.config.limits.maxOpenHandles.toNat := by
    intro id volume hvolume hlive
    unfold World.handlesOf
    rw [← World.countP_leases (·.volume = id)]
    exact h.counted id volume (World.volume_eq_ok hvolume) hlive
  have hfiles : ∀ {entry file}, world.namespace.node? entry = some (.file file) →
      file.openHandles = world.handlesOn entry := by
    intro entry file hfile
    unfold World.handlesOn
    rw [← World.countP_leases (·.entry = entry)]
    exact hn.counted hfile
  have hopen : ∀ {id handle}, world.handle id = .ok handle → handle.isOpen = true →
      handle ∈ world.handles ∧ world.namespace.Names handle.volume handle.entry ∧
        ∃ file, world.namespace.node? handle.entry = some (.file file) := by
    intro id handle hhandle hisOpen
    have hlease := World.lease_of_handle hhandle hisOpen
    exact ⟨Array.mem_toList_iff.1 (List.mem_of_getElem? (World.handle_eq_ok hhandle)),
      hn.held hlease, hn.leased hlease⟩
  constructor
  case volume_count => exact fun hvolume hlive => (hvolumes hvolume hlive).1
  case tree_count =>
    intro id volume hvolume hlive
    rw [World.countBelow_eq hn]
    exact (hvolumes hvolume hlive).1
  case bounded => exact fun hvolume hlive => (hvolumes hvolume hlive).2
  case file_count =>
    intro entry file count hfile hstate
    rw [← hfiles hfile, FileNode.openHandles, hstate]
  case no_overflow =>
    intro id volume entry file hvolume hlive hroom htree hfile
    -- the handles open on the file are open on its volume
    have hle : world.handlesOn entry ≤ world.handlesOf id := by
      unfold World.handlesOn World.handlesOf
      rw [← World.countP_leases (·.entry = entry), ← World.countP_leases (·.volume = id)]
      refine List.countP_mono_left fun lease hlease hentry => ?_
      have hheld := (hn.held hlease).2
      rw [of_decide_eq_true hentry] at hheld
      exact decide_eq_true (hn.inTree_unique hheld htree)
    have hcount := (hvolumes hvolume hlive).1
    have hmax := volume.config.limits.maxOpenHandles.toNat_lt
    rw [hfiles hfile]
    omega
  case file_floor =>
    intro id handle hhandle hisOpen
    obtain ⟨hmem, hnames, file, hfile⟩ := hopen hhandle hisOpen
    have hpos : 0 < file.openHandles := by
      rw [hfiles hfile]
      exact Array.countP_pos_iff.2 ⟨handle, hmem, by simp [hisOpen]⟩
    unfold FileNode.openHandles at hpos
    split at hpos
    case h_1 count hstate =>
      obtain ⟨before, rfl⟩ := Nat.exists_eq_succ_of_ne_zero hpos.ne'
      exact ⟨file, before, hfile, hstate⟩
    case h_2 => exact absurd hpos (Nat.lt_irrefl 0)
  case volume_floor =>
    intro id handle volume hhandle hisOpen hvolume hlive
    obtain ⟨hmem, _⟩ := hopen hhandle hisOpen
    rw [(hvolumes hvolume hlive).1]
    exact Array.countP_pos_iff.2 ⟨handle, hmem, by simp [hisOpen]⟩
  case given_back =>
    intro id volume hvolume hroom
    exact ⟨id.releaseHandle_taken world, VolumeId.openTarget_taken hvolume hroom⟩

/-- The one open handle of the sample is counted by its file and by its volume. -/
theorem sample_handle_counted : ∃ volume, World.sample.volume ⟨0⟩ = .ok volume ∧
    volume.openHandles = World.sample.handlesOf ⟨0⟩ ∧
    volume.openHandles = World.sample.countBelow ⟨0⟩ ∧ World.sample.handlesOf ⟨0⟩ = 1 := by
  have hcounted := handles_are_counted World.reachable_sample
  obtain ⟨volume, hvolume, hlive⟩ := World.owned_of_ground? World.sample_ground Nat.one_pos
  exact ⟨volume, hvolume, hcounted.volume_count hvolume hlive,
    hcounted.tree_count hvolume hlive, by decide +kernel⟩

end RamFs
