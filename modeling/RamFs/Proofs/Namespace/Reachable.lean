import RamFs.Proofs.Calls
import RamFs.Proofs.Namespace.Closing
import RamFs.Proofs.Namespace.Relocations

/-!
What holds of every world that calls can reach, on any number of volumes and through any number
of handles. One call leads from a sound namespace to a sound one and loses at most entries that
nothing depends on, which is all that has to be known of the calls: the empty world is sound, so
every reachable one is.
-/

namespace RamFs

open RamFs.Action

variable {world : World}

/-! ### One call -/

/-- A failed call has left the world as it was, and so loses nothing either. -/
theorem advances_of_transacts {α : Type} {action : Action α} (hn : world.namespace.Sound)
    (h : Transacts action world fun _ after =>
      world.Advances (world.namespace.Spent after.namespace) after) :
    world.Advances (world.namespace.Spent (action world).2.namespace) (action world).2 := by
  rcases hrun : action world with ⟨failure | value, after⟩
  · rw [h.unchanged hrun]
    exact (World.Advances.refl hn).weaken nofun
  · exact h.post_of_ok hrun

theorem PathCall.act_transacts (hn : world.namespace.Sound) (id : VolumeId) (call : PathCall) :
    Transacts (call.act id) world fun _ after =>
      world.Advances (world.namespace.Spent after.namespace) after := by
  have hexpands : ∀ {action : Action Unit},
      Transacts action world (fun _ after => world.Expands after) →
      Transacts action world fun _ after =>
        world.Advances (world.namespace.Spent after.namespace) after :=
    fun h => h.mono fun _ _ hexpands => hexpands.weaken nofun
  cases call with
  | createDirectory path request => exact hexpands (id.createDirectory_transacts hn path request)
  | createFile path request => exact hexpands (id.createFile_transacts hn path request)
  | createSymlink link target => exact hexpands (id.createSymlink_transacts hn link target)
  | createHardLink link existing => exact id.createHardLink_transacts hn link existing
  | delete path => exact id.delete_transacts hn path
  | copy source targetId target options => exact id.copy_transacts hn source targetId target options
  | move source targetId target options => exact id.move_transacts hn source targetId target options
  | setTimes path times => exact hexpands (id.setTimes_transacts hn path times)
  | setMode path mode => exact hexpands (id.modifyAt_transacts hn path fun _ => rfl)
  | setOwner path uid gid => exact hexpands (id.modifyAt_transacts hn path fun _ => rfl)
  | truncate path size => exact hexpands (id.truncate_transacts hn path size)
  | openFile path options =>
      refine hexpands ((id.openFile_transacts hn path options).map.mono ?_)
      rintro _ after ⟨_, _, opening, h⟩
      exact h.expands_after hn

/-- Calls on a handle that neither close it nor ask for a lock show in contents, times and cursors
only. -/
theorem HandleCall.perform_keeps_locks {δ : Type} {view : World → δ} [Hollow view] (id : HandleId)
    {call : HandleCall} (hstays : call ≠ .close)
    (hlocks : ∀ offset length cancelled, call ≠ .lock offset length cancelled) :
    view (call.perform id world) = view world := by
  cases call with
  | read count => exact id.read_keeps count world
  | readAt offset count => exact id.readAt_keeps offset count world
  | readToEnd => exact id.readToEnd_keeps world
  | write bytes => exact id.write_keeps bytes world
  | writeAt offset bytes => exact id.writeAt_keeps offset bytes world
  | writeAll bytes => exact id.writeAll_keeps bytes world
  | truncate size => exact id.truncate_keeps size world
  | setPosition position => exact id.setPosition_keeps position world
  | seek origin distance => exact id.seek_keeps origin distance world
  | size => exact id.size_keeps world
  | sync => exact id.sync_keeps world
  | metadata => exact id.metadata_keeps world
  | lock offset length cancelled => exact absurd rfl (hlocks offset length cancelled)
  | transferTo offset count sink => exact id.transferTo_keeps offset count sink world
  | transferFrom offset count source => exact id.transferFrom_keeps offset count source world
  | transferToHandle offset count other => exact id.transferToHandle_keeps offset count other world
  | transferFromHandle offset count other =>
      exact id.transferFromHandle_keeps offset count other world
  | close => exact absurd rfl hstays

/-- As long as a handle stays open, calls on it show in contents, times, cursors and locks only. -/
theorem HandleCall.perform_keeps {δ : Type} {view : World → δ} [Blind view] (id : HandleId)
    {call : HandleCall} (hstays : call ≠ .close) : view (call.perform id world) = view world := by
  by_cases hlock : ∃ offset length cancelled, call = .lock offset length cancelled
  · obtain ⟨offset, length, cancelled, rfl⟩ := hlock
    exact id.lock_keeps offset length cancelled world
  · exact perform_keeps_locks id hstays fun offset length cancelled h =>
      hlock ⟨offset, length, cancelled, h⟩

theorem HandleCall.perform_advances (hn : world.namespace.Sound) (id : HandleId)
    (call : HandleCall) :
    world.Advances (world.namespace.Spent (call.perform id world).namespace)
      (call.perform id world) := by
  by_cases hclose : call = .close
  · subst hclose
    exact (id.close_advances hn).weaken fun _ hlost => hlost.spent
  · have hkeeps : (call.perform id world).skeleton = world.skeleton :=
      HandleCall.perform_keeps id hclose
    exact (World.Advances.of_same hn (World.namespace_of_skeleton hkeeps)
      (World.tally_of_skeleton hkeeps)).weaken nofun

namespace Call

/-- The call takes the last owner from a volume. -/
def EndsVolume (world : World) : Call → Prop
  | drop id => ∃ volume, world.volume id = .ok volume ∧ volume.owners = 1
  | _ => False

theorem perform_advances (hn : world.namespace.Sound) (call : Call)
    (hkept : ¬call.EndsVolume world) :
    world.Advances (world.namespace.Spent (call.perform world).namespace)
      (call.perform world) := by
  cases call with
  | setClock now =>
      have hsame : world.Expands { world with clock := now } := .of_same hn rfl rfl
      exact hsame.weaken nofun
  | newVolume config =>
      exact advances_of_transacts hn <|
        (newVolume_transacts hn config).mono fun _ _ h => h.1.weaken nofun
  | share id => exact (id.share_expands hn).weaken nofun
  | drop id =>
      refine (id.drop_expands hn fun volume hvolume hlast => ?_).weaken nofun
      exact hkept ⟨volume, hvolume, hlast⟩
  | onPath id call => exact advances_of_transacts hn (call.act_transacts hn id)
  | readAll id path =>
      have hsession := id.session_advances hn path .reading
        fun handle => handle.readToEnd_keeps.throughStream
      exact hsession.weaken fun _ hlost => hlost.spent
  | writeAll id path contents =>
      have hsession := id.session_advances hn path { OpenOptions.creating with truncate := true }
        fun handle => (handle.writeAll_keeps contents).throughStream
      exact hsession.weaken fun _ hlost => hlost.spent
  | onHandle id call => exact call.perform_advances hn id
  | releaseLock grant =>
      have hkeeps := grant.release_keeps world
      exact (World.Advances.of_same hn (World.namespace_of_skeleton hkeeps)
        (World.tally_of_skeleton hkeeps)).weaken nofun

theorem perform_evolves (hn : world.namespace.Sound) (call : Call)
    (hkept : ¬call.EndsVolume world) :
    world.namespace.Evolves (world.namespace.Spent (call.perform world).namespace)
      (call.perform world).namespace :=
  (call.perform_advances hn hkept).evolves

theorem perform_sound (hn : world.namespace.Sound) (call : Call) :
    (call.perform world).namespace.Sound := by
  by_cases hends : call.EndsVolume world
  · cases call with
    | drop id => exact id.drop_sound hn
    | _ => exact hends.elim
  · exact (call.perform_evolves hn hends).sound

theorem perform_booked (hn : world.namespace.Sound) (hb : world.Booked) (call : Call) :
    (call.perform world).Booked := by
  by_cases hends : call.EndsVolume world
  · cases call with
    | drop id => exact id.drop_booked hb
    | _ => exact hends.elim
  · exact (call.perform_advances hn hends).booked hb

end Call

/-! ### Every reachable world -/

theorem sound_empty : ({} : World).namespace.Sound := by
  have hnode : ∀ entry, ({} : World).namespace.node? entry = none := by simp [World.namespace]
  have hground : ∀ id, ({} : World).namespace.ground? id = none := by simp [World.namespace]
  have hroots : ∀ {id ordinal top}, ¬({} : World).namespace.IsRoot id ordinal top := by
    rintro id ordinal top ⟨ground, h, _⟩
    rw [hground] at h
    cases h
  have hbinds : ∀ {directory binding}, ¬({} : World).namespace.Binds directory binding := by
    rintro directory binding ⟨names, h, _⟩
    rw [hnode] at h
    cases h
  constructor
  case toWellFormed =>
    constructor
    case root_directory => exact fun h => absurd h hroots
    case root_once => exact fun h => absurd h hroots
    case root_unbound => exact fun h => absurd h hroots
    case bound_once => exact fun h => absurd h hbinds
    case bound_kind => exact fun h => absurd h hbinds
    case bound_live => exact fun ⟨_, _, h, _⟩ => absurd h hbinds
    case leased => exact fun h => absurd h (List.not_mem_nil)
    all_goals
      intro _ _ h
      rw [hnode] at h
      cases h
  case keyed => exact fun h => absurd h hbinds
  case held => exact fun h => absurd h (List.not_mem_nil)

theorem Reachable.sound (h : Reachable world) : world.namespace.Sound := by
  induction h with
  | start => exact sound_empty
  | step call _ ih => exact call.perform_sound ih

theorem booked_empty : ({} : World).Booked where
  counted := by
    intro inode links h
    cases h
  placed := by
    rintro inode entry ⟨file, hfile, _⟩
    cases hfile
  together := by
    rintro inode entry entry' id id' ⟨file, hfile, _⟩
    cases hfile

theorem Reachable.booked (h : Reachable world) : world.Booked := by
  induction h with
  | start => exact booked_empty
  | step call hworld ih => exact call.perform_booked hworld.sound ih

theorem Reachable.run (h : Reachable world) (calls : List Call) :
    Reachable (calls.foldl Call.perform world) := by
  induction calls generalizing world with
  | nil => exact h
  | cons call rest ih => exact ih (h.step call)

namespace World

/-- A volume with a directory and, in the directory, a file that is open and goes with its last
handle. -/
def sample : World :=
  List.foldl Call.perform {} [.newVolume {}, .onPath ⟨0⟩ (.createDirectory "/box" {}),
    .onPath ⟨0⟩ (.createFile "/box/note" {}),
    .onPath ⟨0⟩ (.openFile "/box/note" { deleteOnClose := true })]

theorem reachable_sample : Reachable sample := Reachable.start.run _

theorem sample_handle : sample.handle ⟨0⟩ = .ok
    { volume := ⟨0⟩, entry := ⟨2⟩, inode := ⟨0⟩, path := ⟨0, "/", ["box", "note"], true⟩
      options := { deleteOnClose := true } } := by
  decide +kernel

theorem sample_ground : sample.namespace.ground? ⟨0⟩ = some ⟨.sensitive, [⟨0⟩], 1⟩ := by
  decide +kernel

theorem sample_box : sample.namespace.Binds ⟨0⟩ ⟨"box", "box", .directory, ⟨1⟩⟩ :=
  ⟨⟨[_]⟩, by decide +kernel, List.mem_singleton_self _⟩

theorem sample_note : sample.namespace.Binds ⟨1⟩ ⟨"note", "note", .file, ⟨2⟩⟩ :=
  ⟨⟨[_]⟩, by decide +kernel, List.mem_singleton_self _⟩

theorem sample_tree : sample.namespace.InTree ⟨0⟩ ⟨2⟩ :=
  ⟨0, ⟨0⟩, _, ⟨_, sample_ground, rfl⟩, .step (.step .top sample_box) sample_note⟩

end World

/-! ### Failed calls -/

/-- A call that fails has changed nothing at all. A copy, move or link is in all worlds a
decision, which only asks, and what is done with it; in a reachable world nothing that is done
with a decision can fail. -/
theorem failed_call_changes_nothing (h : Reachable world) :
    (∀ (id : VolumeId) (call : PathCall) (failure : Failure) (after : World),
      call.act id world = (.error failure, after) → after = world) ∧
    ∀ (op : Relocation) (sourceId : VolumeId) (source : Path) (targetId : VolumeId)
      (target : Path),
      op.run sourceId source targetId target =
        Action.ask (op.decision sourceId source targetId target) >>= op.carryOut ∧
      ∀ decision, op.decision sourceId source targetId target world = .ok decision →
        ∃ after, op.carryOut decision world = (.ok (), after) := by
  constructor
  · intro id call failure after hrun
    exact (call.act_transacts h.sound id).unchanged hrun
  · intro op sourceId source targetId target
    refine ⟨op.run_eq .., fun decision hdecision => ?_⟩
    obtain ⟨after, hrun, _⟩ := Relocation.carryOut_of_decision h.sound hdecision
    exact ⟨after, hrun⟩

theorem sample_delete_refused :
    PathCall.act ⟨0⟩ (.delete "/box/note") World.sample = (.error .stillOpen, World.sample) ∧
      ∃ decision after,
        (Relocation.move {}).decision ⟨0⟩ ⟨0, "/", ["box"], true⟩ ⟨0⟩ ⟨0, "/", ["case"], true⟩
          World.sample = .ok decision ∧
        (Relocation.move {}).carryOut decision World.sample = (.ok (), after) := by
  obtain ⟨hfailed, hrelocation⟩ := failed_call_changes_nothing World.reachable_sample
  have hrefused : (PathCall.act ⟨0⟩ (.delete "/box/note") World.sample).1 =
      .error .stillOpen := by decide +kernel
  refine ⟨Prod.ext hrefused (hfailed ⟨0⟩ _ .stillOpen _ (Prod.ext hrefused rfl)), ?_⟩
  cases hdecision : (Relocation.move {}).decision ⟨0⟩ ⟨0, "/", ["box"], true⟩ ⟨0⟩
      ⟨0, "/", ["case"], true⟩ World.sample with
  | error failure =>
      have hasked : ((Relocation.move {}).decision ⟨0⟩ ⟨0, "/", ["box"], true⟩ ⟨0⟩
          ⟨0, "/", ["case"], true⟩ World.sample).toBool = true := by decide +kernel
      rw [hdecision] at hasked
      cases hasked
  | ok decision =>
      obtain ⟨after, hrun⟩ := (hrelocation ..).2 decision hdecision
      exact ⟨decision, after, rfl, hrun⟩

/-! ### Trees -/

/-- A way down to an entry: a root of a volume and the bindings from there. -/
structure Route where
  volume : VolumeId
  ordinal : Nat
  top : EntryId
  bindings : List Binding

namespace Namespace

variable {n : Namespace}

def ReachedBy (n : Namespace) (entry : EntryId) (route : Route) : Prop :=
  n.IsRoot route.volume route.ordinal route.top ∧ n.Leads route.top route.bindings entry

/-- Entries form trees below the roots, and directories know what they hold. -/
structure Forest (n : Namespace) : Prop where
  /-- No root has a name. -/
  root_unbound : ∀ {id ordinal top}, n.IsRoot id ordinal top → ¬n.Bound top
  /-- Every other entry of a tree has one name in one directory. -/
  one_name : ∀ {id entry}, n.InTree id entry → (∀ ordinal, ¬n.IsRoot id ordinal entry) →
    ∃! place : EntryId × Binding, n.Binds place.1 place.2 ∧ place.2.entry = entry
  /-- Only one root of one volume leads to an entry, and in one way. -/
  one_route : ∀ {id entry}, n.InTree id entry → ∃! route, n.ReachedBy entry route
  /-- No entry lies below itself. -/
  acyclic : ∀ {id entry bindings}, n.InTree id entry → n.Leads entry bindings entry →
    bindings = []
  /-- What is not in a tree holds no names. -/
  rooted : ∀ {directory binding}, n.Binds directory binding → ∃ id, n.InTree id directory
  /-- A binding stands under the key that its volume has for its name. -/
  keyed : ∀ {id ground directory binding}, n.ground? id = some ground →
    n.InTree id directory → n.Binds directory binding →
    binding.key = ground.collation.key binding.name
  /-- No two names in a directory are the same name to its volume. -/
  distinct : ∀ {id ground directory names}, n.ground? id = some ground →
    n.InTree id directory → n.node? directory = some (.directory names) →
    names.bindings.Pairwise fun first second =>
      ground.collation.sameName first.name second.name = false
  /-- A binding knows the kind of its entry. -/
  kind : ∀ {directory binding}, n.Binds directory binding →
    ∃ node, n.node? binding.entry = some node ∧ node.kind = binding.kind
  /-- Every file in a tree is in use. -/
  live : ∀ {id entry file}, n.InTree id entry → n.node? entry = some (.file file) →
    ∃ count, file.state = .live count

theorem Sound.keyed_in {id : VolumeId} {ground : Ground} {directory : EntryId} {binding : Binding}
    (hn : n.Sound) (hground : n.ground? id = some ground) (htree : n.InTree id directory)
    (hbinds : n.Binds directory binding) :
    binding.key = ground.collation.key binding.name := by
  obtain ⟨id', ground', hground', htree', hkey⟩ := hn.keyed hbinds
  obtain rfl := hn.inTree_unique htree htree'
  obtain rfl : ground = ground' := Option.some.inj (hground.symm.trans hground')
  exact hkey

theorem Sound.forest (hn : n.Sound) : n.Forest := by
  have hbound : ∀ {id entry}, n.InTree id entry →
      (∃ ordinal, n.IsRoot id ordinal entry) ∨ n.Bound entry := by
    rintro id entry ⟨ordinal, top, bindings, hroot, hleads⟩
    exact hleads.eq_or_bound.imp (fun ⟨_, htop⟩ => ⟨ordinal, htop ▸ hroot⟩) fun hbound => hbound
  constructor
  case root_unbound => exact hn.root_unbound
  case one_name =>
    intro id entry htree hroots
    obtain ⟨directory, binding, hbinds, hentry⟩ :=
      (hbound htree).resolve_left fun ⟨ordinal, hroot⟩ => hroots ordinal hroot
    refine ⟨(directory, binding), ⟨hbinds, hentry⟩, ?_⟩
    rintro ⟨directory', binding'⟩ ⟨hbinds', hentry'⟩
    obtain ⟨hdirectory, hbinding⟩ := hn.bound_once hbinds' hbinds (hentry'.trans hentry.symm)
    exact Prod.ext hdirectory hbinding
  case one_route =>
    rintro id entry ⟨ordinal, top, bindings, hroot, hleads⟩
    refine ⟨⟨id, ordinal, top, bindings⟩, ⟨hroot, hleads⟩, ?_⟩
    rintro ⟨id', ordinal', top', bindings'⟩ ⟨hroot', hleads'⟩
    obtain ⟨hid, hordinal, htop, hbindings⟩ := hn.route_unique hroot' hroot hleads' hleads
    exact (Route.mk.injEq ..).mpr ⟨hid, hordinal, htop, hbindings⟩
  case acyclic => exact hn.acyclic
  case rooted =>
    intro directory binding hbinds
    obtain ⟨id, _, _, htree, _⟩ := hn.keyed hbinds
    exact ⟨id, htree⟩
  case keyed => exact hn.keyed_in
  case distinct =>
    intro id ground directory names hground htree hnode
    apply (hn.ordered hnode).imp_of_mem
    intro first second hfirst hsecond hlt
    rw [hn.keyed_in hground htree ⟨names, hnode, hfirst⟩,
      hn.keyed_in hground htree ⟨names, hnode, hsecond⟩] at hlt
    rw [← Bool.not_eq_true, Collation.sameName_iff]
    exact String.ne_of_lt hlt
  case kind => exact hn.bound_kind
  case live =>
    intro id entry file htree hfile
    cases hstate : file.state with
    | live count => exact ⟨count, rfl⟩
    | pendingDeletion =>
        rcases hbound htree with ⟨ordinal, hroot⟩ | hbound
        · obtain ⟨names, hnames⟩ := hn.root_directory hroot
          rw [hfile] at hnames
          cases hnames
        · exact absurd hstate (hn.bound_live hbound hfile)

end Namespace

/-- However many calls have been made on however many volumes, entries form trees below their
roots, and every directory keeps its names in order. -/
theorem reachable_forest (h : Reachable world) : world.namespace.Forest :=
  h.sound.forest

theorem sample_one_name : ∃! place : EntryId × Binding,
    World.sample.namespace.Binds place.1 place.2 ∧ place.2.entry = ⟨2⟩ := by
  apply (reachable_forest World.reachable_sample).one_name World.sample_tree
  rintro ordinal ⟨ground, hground, hroot⟩
  obtain rfl := Option.some.inj (World.sample_ground.symm.trans hground)
  cases ordinal with
  | zero => cases hroot
  | succ ordinal => cases hroot

/-! ### Losses -/

namespace World

/-- The entry has a name in a volume that somebody owns. -/
def Named (world : World) (entry : EntryId) : Prop :=
  ∃ id volume, world.volume id = .ok volume ∧ volume.isLive = true ∧
    world.namespace.Names id entry

theorem Named.evolves {after : World} {lost : EntryId → Prop} {entry : EntryId}
    (h : world.Named entry) (hevolves : world.namespace.Evolves lost after.namespace) :
    after.Named entry ∨ lost entry := by
  obtain ⟨id, volume, hvolume, hlive, hnames⟩ := h
  obtain ⟨ground, hground, _, _, howners⟩ := hevolves.ground (ground?_of_volume hvolume)
  obtain ⟨volume', hvolume', rfl⟩ := volume_of_ground? hground
  refine (hevolves.named hnames).imp_left fun hnames' => ⟨id, volume', hvolume', ?_, hnames'⟩
  exact decide_eq_true (howners (of_decide_eq_true hlive))

theorem not_bound_of_all {entry : EntryId} (h : ∀ parent ∈ world.entries.toList,
    ∀ names ∈ parent.directory.toOption, ∀ binding ∈ names.bindings, binding.entry ≠ entry) :
    ¬world.namespace.Bound entry := by
  rintro ⟨directory, binding, ⟨names, hnode, hmem⟩, hentry⟩
  obtain ⟨parent, hparent, hdirectory⟩ := Option.map_eq_some_iff.1 hnode
  have hmade : parent ∈ world.entries.toList :=
    Array.mem_toList_iff.2 (Array.mem_of_getElem? hparent)
  refine h parent hmade names ?_ binding hmem hentry
  unfold Entry.directory
  rw [hdirectory]
  rfl

theorem lease_of_handle {id : HandleId} {handle : Handle} (hhandle : world.handle id = .ok handle)
    (hopen : handle.isOpen = true) : ⟨handle.volume, handle.entry⟩ ∈ world.namespace.leases := by
  refine List.mem_filterMap.2 ⟨handle, List.mem_of_getElem? (handle_eq_ok hhandle), ?_⟩
  unfold Handle.lease?
  rw [if_pos hopen]

end World

/-- Nothing in use is ever lost. An entry that loses its name in a call, other than by the end of
a volume, is a link, was a directory without names or is a file with no handle open on it. So
the entry of an open handle keeps one name, in the volume it was opened on. -/
theorem nothing_in_use_is_lost (h : Reachable world) :
    (∀ call : Call, ¬call.EndsVolume world → ∀ entry, world.Named entry →
      ¬(call.perform world).Named entry →
      world.namespace.Spent (call.perform world).namespace entry) ∧
    ∀ (id : HandleId) (handle : Handle), world.handle id = .ok handle → handle.isOpen = true →
      ∃! place : EntryId × Binding, world.namespace.InTree handle.volume place.1 ∧
        world.namespace.Binds place.1 place.2 ∧ place.2.entry = handle.entry := by
  constructor
  · intro call hkept entry hnamed hgone
    exact (hnamed.evolves (call.perform_evolves h.sound hkept)).resolve_left hgone
  · intro id handle hhandle hopen
    obtain ⟨⟨directory, binding, hbinds, hentry⟩, htree⟩ :=
      h.sound.held (World.lease_of_handle hhandle hopen)
    obtain ⟨id', _, _, htree', _⟩ := h.sound.keyed hbinds
    obtain rfl := h.sound.inTree_unique htree (hentry ▸ htree'.step hbinds)
    refine ⟨(directory, binding), ⟨htree', hbinds, hentry⟩, ?_⟩
    rintro ⟨directory', binding'⟩ ⟨_, hbinds', hentry'⟩
    obtain ⟨hdirectory, hbinding⟩ := h.sound.bound_once hbinds' hbinds (hentry'.trans hentry.symm)
    exact Prod.ext hdirectory hbinding

theorem sample_close_loses_note :
    World.sample.namespace.Spent
        (Call.perform World.sample (.onHandle ⟨0⟩ .close)).namespace ⟨2⟩ ∧
      ∃! place : EntryId × Binding, World.sample.namespace.InTree ⟨0⟩ place.1 ∧
        World.sample.namespace.Binds place.1 place.2 ∧ place.2.entry = ⟨2⟩ := by
  obtain ⟨hlost, hheld⟩ := nothing_in_use_is_lost World.reachable_sample
  obtain ⟨volume, hvolume, hground⟩ := World.volume_of_ground? World.sample_ground
  constructor
  · refine hlost (.onHandle ⟨0⟩ .close) not_false ⟨2⟩ ⟨⟨0⟩, volume, hvolume, ?_, ?_⟩ ?_
    · have howners : volume.owners = 1 := congrArg Ground.owners hground
      exact decide_eq_true (howners ▸ Nat.one_pos)
    · exact ⟨World.sample_note.bound, World.sample_tree⟩
    · rintro ⟨_, _, _, _, hbound, _⟩
      exact World.not_bound_of_all (by decide +kernel) hbound
  · exact hheld ⟨0⟩ _ World.sample_handle rfl

end RamFs
