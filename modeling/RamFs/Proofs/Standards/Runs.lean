import RamFs.Proofs.Namespace.Reachable
import RamFs.Proofs.Standards.Handles
import RamFs.Proofs.Standards.Relocations

/-!
What a standard asks holds in every world that calls lead to, as long as copies and moves carry
over to another volume only what conforms there. The registry is not the same for the whole run:
before each call, what is still to be made is assigned to the volume that the call may make it for.
-/

namespace RamFs

open RamFs.Action

/-- The worlds to which those calls lead from an empty one that are allowed where they are made. -/
inductive ReachableBy (allowed : World → Call → Prop) : World → Prop where
  | start : ReachableBy allowed {}
  | step {world : World} (call : Call) : allowed world call → ReachableBy allowed world →
      ReachableBy allowed (call.perform world)

namespace ReachableBy

variable {allowed : World → Call → Prop} {world : World}

theorem reachable (h : ReachableBy allowed world) : Reachable world := by
  induction h with
  | start => exact .start
  | step call _ _ ih => exact ih.step call

theorem run (h : ReachableBy allowed world) (calls : List Call)
    (hcalls : ∀ world, ∀ call ∈ calls, allowed world call) :
    ReachableBy allowed (calls.foldl Call.perform world) := by
  induction calls generalizing world with
  | nil => exact h
  | cons call rest ih =>
      have hrest := fun world => (List.forall_mem_cons.1 (hcalls world)).2
      exact ih (h.step call (hcalls world call (List.mem_cons_self ..))) hrest

end ReachableBy

/-- Where the call copies or moves something from one volume to another, its kind and the
configurations of the two volumes are so related. -/
def Call.Between (related : Relocation → Kind → Config → Config → Prop) (world : World) :
    Call → Prop
  | onPath id (.copy path targetId _ options) => ∀ source target binding,
      world.volume id = .ok source → world.volume targetId = .ok target →
      world.binding id path = .ok binding →
      related (.copy options) binding.kind source.config target.config
  | onPath id (.move path targetId _ options) => ∀ source target binding,
      world.volume id = .ok source → world.volume targetId = .ok target →
      world.binding id path = .ok binding →
      related (.move options) binding.kind source.config target.config
  | _ => True

theorem Call.Between.mono {related wider : Relocation → Kind → Config → Config → Prop}
    {world : World} {call : Call} (h : call.Between related world)
    (himp : ∀ {op kind source target},
      related op kind source target → wider op kind source target) :
    call.Between wider world := by
  cases call with
  | onPath id call =>
      cases call with
      | copy path targetId _ options =>
          intro source target binding hsource htarget hbinding
          exact himp (h source target binding hsource htarget hbinding)
      | move path targetId _ options =>
          intro source target binding hsource htarget hbinding
          exact himp (h source target binding hsource htarget hbinding)
      | _ => trivial
  | _ => trivial

variable {s : Standard} {r : Registry} {world : World}

/-! ### What is still to be made -/

namespace Registry

/-- What is still to be made in the world falls under the configuration. -/
def assign (r : Registry) (world : World) (config : Config) : Registry where
  entry id := if id.index < world.entries.size then r.entry id else config
  inode id := if id.index < world.inodes.size then r.inode id else config
  volume id := if id.index < world.volumes.size then r.volume id else config
  made := config

variable {config config' : Config}

theorem assign_entry {id : EntryId} {node : Node} (h : world.namespace.node? id = some node) :
    (r.assign world config).entry id = r.entry id := by
  obtain ⟨entry, hentry, _⟩ := World.entry_of_node? h
  exact if_pos (Array.getElem?_eq_some_iff.1 (World.entry_eq_ok hentry)).1

theorem assign_volume {id : VolumeId} {ground : Ground} (h : world.namespace.ground? id = some ground) :
    (r.assign world config).volume id = r.volume id := by
  obtain ⟨volume, hvolume, _⟩ := World.volume_of_ground? h
  exact if_pos (Array.getElem?_eq_some_iff.1 (World.volume_eq_ok hvolume)).1

theorem assign_volume_of_missing {id : VolumeId} {failure : Failure}
    (h : world.volume id = .error failure) : (r.assign world config).volume id = config := by
  unfold World.volume at h
  split at h
  case h_1 => cases h
  case h_2 hnone => exact if_neg (Nat.not_lt.2 (Array.getElem?_eq_none_iff.1 hnone))

theorem assign_volume_self (id : VolumeId) :
    (r.assign world (r.volume id)).volume id = r.volume id :=
  ite_self _

/-- What is bound and what is used by files has been made already. -/
theorem Holds.assign {id : EntryId} {node : Node} (h : r.Holds config' node)
    (hn : world.namespace.Sound) (hnode : world.namespace.node? id = some node) :
    (r.assign world config).Holds config' node := by
  cases node with
  | symlink target => trivial
  | file file => exact (if_pos (hn.backed hnode)).trans h
  | directory names =>
      intro binding hmem
      obtain ⟨bound, hbound, _⟩ := hn.bound_kind ⟨names, hnode, hmem⟩
      exact (assign_entry hbound).trans (h binding hmem)

end Registry

/-- Another configuration for what is still to be made changes nothing for what there is: a root, a
bound entry, the inode of a file and what an open handle is on have all been made. -/
theorem Complies.assign (h : Complies s r world) (hn : world.namespace.Sound) (config : Config) :
    Complies s (r.assign world config) world where
  entries := by
    intro i entry hentry
    have hnode : world.namespace.node? ⟨i⟩ = some entry.node :=
      congrArg (Option.map Entry.node) hentry
    have hadmits : r.Admits s (r.entry ⟨i⟩) entry := h.entries i entry hentry
    rw [Registry.assign_entry hnode]
    exact ⟨hadmits.times, hadmits.node.assign hn hnode⟩
  inodes := by
    intro i inode hinode
    have hmade : (r.assign world config).inode ⟨i⟩ = r.inode ⟨i⟩ :=
      if_pos (Array.getElem?_eq_some_iff.1 hinode).1
    rw [hmade]
    exact h.inodes i inode hinode
  volumes := by
    intro i volume hvolume
    have hground : world.namespace.ground? ⟨i⟩ = some volume.ground :=
      congrArg (Option.map Volume.ground) hvolume
    have hgrounds : r.Grounds ⟨i⟩ volume := h.volumes i volume hvolume
    refine ⟨hgrounds.config.trans (Registry.assign_volume hground).symm, fun top htop => ?_⟩
    obtain ⟨ordinal, hordinal⟩ := List.mem_iff_getElem?.1 htop
    obtain ⟨names, hnames⟩ := hn.root_directory ⟨volume.ground, hground, hordinal⟩
    rw [Registry.assign_volume hground, Registry.assign_entry hnames]
    exact hgrounds.roots top htop
  handles := by
    intro i handle hhandle hopen
    have hfound : world.handle ⟨i⟩ = .ok handle := by simp only [World.handle, hhandle]
    have hlease := World.lease_of_handle hfound hopen
    obtain ⟨file, hfile⟩ := hn.leased hlease
    obtain ⟨_, _, _, _, ⟨ground, hground, _⟩, _⟩ := hn.held hlease
    exact ((Registry.assign_volume hground).trans (h.handles i handle hhandle hopen)).trans
      (Registry.assign_entry hfile).symm
  new_entries := fun i hi => if_neg (Nat.not_lt.2 hi)
  new_inodes := fun i hi => if_neg (Nat.not_lt.2 hi)
  new_volumes := fun i hi => if_neg (Nat.not_lt.2 hi)

/-! ### One call -/

theorem newVolume_complies {config : Config} (hmade : r.made = config) :
    Maintains (Complies s r) (newVolume config) := by
  unfold newVolume
  refine (maintains_lift fun _ _ => trivial).bind fun _ _ => maintains_get_bind fun world => ?_
  have hnow : s.time r.made (world.now ⟨config, [], 0, 1⟩) := hmade ▸ s.time_now config world.clock
  have hempty : r.Holds r.made (.directory {}) := fun _ hmem => nomatch hmem
  refine (Maintains.mapM (fun _ => VolumeId.addEntry_complies hempty hnow) _).bind
    fun roots hroots => ?_
  exact maintains_add fun _ h => ⟨h.addVolume hmade.symm hroots, trivial⟩

theorem HandleCall.perform_complies (id : HandleId) (call : HandleCall) (h : Complies s r world) :
    Complies s r (call.perform id world) := by
  cases call with
  | read count => exact (id.read_complies count world h).1
  | readAt offset count => exact (id.readAt_complies offset count world h).1
  | readToEnd => exact (id.readToEnd_complies world h).1
  | write bytes => exact (id.write_complies bytes world h).1
  | writeAt offset bytes => exact (id.writeAt_complies offset bytes world h).1
  | writeAll bytes => exact (id.writeAll_complies bytes world h).1
  | truncate size => exact (id.truncate_complies size world h).1
  | setPosition position => exact (id.setPosition_complies position world h).1
  | seek origin distance => exact (id.seek_complies origin distance world h).1
  | size => exact (id.size_complies world h).1
  | sync => exact (id.sync_complies world h).1
  | metadata => exact (id.metadata_complies world h).1
  | lock offset length cancelled => exact (id.lock_complies offset length cancelled world h).1
  | transferTo offset count sink => exact id.transferTo_complies offset count sink world h
  | transferFrom offset count source => exact id.transferFrom_complies offset count source world h
  | transferToHandle offset count other =>
      exact (id.transferToHandle_complies offset count other world h).1
  | transferFromHandle offset count other =>
      exact (id.transferFromHandle_complies offset count other world h).1
  | close => exact (id.close_complies world h).1

namespace World

/-- The world complies with some registry. -/
def Conforms (s : Standard) (world : World) : Prop :=
  ∃ r, Complies s r world

namespace Conforms

variable {α : Type} {action : Action α}

/-- An action on one volume makes things for this volume only. -/
theorem act (h : world.Conforms s) (hn : world.namespace.Sound) (id : VolumeId)
    (haction : ∀ {r}, Complies s r world → r.made = r.volume id → Complies s r (action world).2) :
    (action world).2.Conforms s := by
  obtain ⟨r, h⟩ := h
  exact ⟨_, haction (h.assign hn (r.volume id)) (Registry.assign_volume_self id).symm⟩

/-- A copy or a move to another volume makes things for that one. Where one of the two does not
exist, it is no matter how it is configured. -/
theorem relocate (h : world.Conforms s) (hn : world.namespace.Sound) {op : Relocation}
    {sourceId targetId : VolumeId} {path : String}
    (hcarries : ∀ source target binding, world.volume sourceId = .ok source →
      world.volume targetId = .ok target → world.binding sourceId path = .ok binding →
      s.Carries op binding.kind source.config target.config)
    (haction : ∀ {r}, Complies s r world → r.made = r.volume targetId →
      (∀ binding, world.binding sourceId path = .ok binding →
        s.Carries op binding.kind (r.volume sourceId) (r.volume targetId)) →
      Complies s r (action world).2) :
    (action world).2.Conforms s := by
  obtain ⟨r, h⟩ := h
  have hconforms : ∀ config, (r.assign world config).volume targetId = config →
      (∀ binding, world.binding sourceId path = .ok binding →
        s.Carries op binding.kind ((r.assign world config).volume sourceId) config) →
      (action world).2.Conforms s := by
    intro config htarget hcarries
    exact ⟨_, haction (h.assign hn config) htarget.symm (htarget.symm ▸ hcarries)⟩
  -- the second volume decides what is made, and where it is missing the first one serves as well
  cases htarget : world.volume targetId with
  | error failure =>
      refine hconforms (r.volume sourceId) (Registry.assign_volume_of_missing htarget) ?_
      rw [Registry.assign_volume_self]
      exact fun binding _ => .refl s op binding.kind _
  | ok target =>
      refine hconforms (r.volume targetId) (Registry.assign_volume_self targetId) ?_
      intro binding hbinding
      cases hsource : world.volume sourceId with
      | error failure =>
          rw [Registry.assign_volume_of_missing hsource]
          exact .refl s op binding.kind _
      | ok source =>
          rw [Registry.assign_volume (ground?_of_volume hsource), ← (h.grounds hsource).config,
            ← (h.grounds htarget).config]
          exact hcarries source target binding hsource htarget hbinding

end Conforms

end World

theorem PathCall.act_conforms (h : world.Conforms s) (hn : world.namespace.Sound) (id : VolumeId)
    (call : PathCall) (hbetween : (Call.onPath id call).Between s.Carries world) :
    (call.act id world).2.Conforms s := by
  cases call with
  | createDirectory path request =>
      exact h.act hn id fun h hmade => (id.createDirectory_complies hmade path request world h).1
  | createFile path request =>
      exact h.act hn id fun h hmade => (id.createFile_complies hmade path request world h).1
  | createSymlink link target =>
      exact h.act hn id fun h hmade => (id.createSymlink_complies hmade link target world h).1
  | createHardLink link existing =>
      exact h.act hn id fun h hmade => VolumeId.createHardLink_complies h hn hmade link existing
  | delete path => exact h.act hn id fun h _ => (id.delete_complies path world h).1
  | copy path targetId target options =>
      exact h.relocate hn hbetween fun h hmade => VolumeId.relocate_complies h hn hmade
  | move path targetId target options =>
      exact h.relocate hn hbetween fun h hmade => VolumeId.relocate_complies h hn hmade
  | setTimes path times =>
      exact h.act hn id fun h _ => (id.setTimes_complies path times world h).1
  | setMode path mode => exact h.act hn id fun h _ => (id.setMode_complies path mode world h).1
  | setOwner path uid gid =>
      exact h.act hn id fun h _ => (id.setOwner_complies path uid gid world h).1
  | truncate path size =>
      exact h.act hn id fun h _ => (id.truncate_complies path size world h).1
  | openFile path options =>
      refine h.act hn id fun {r} h hmade => ?_
      have hopen : Maintains (Complies s r) ((PathCall.openFile path options).act id) :=
        (id.openFile_complies hmade path options).bind fun _ _ => maintains_pure trivial
      exact (hopen world h).1

theorem Call.perform_conforms (h : world.Conforms s) (hn : world.namespace.Sound) (call : Call)
    (hbetween : call.Between s.Carries world) : (call.perform world).Conforms s := by
  cases call with
  | setClock now =>
      obtain ⟨r, h⟩ := h
      exact ⟨r, { h with }⟩
  | newVolume config =>
      obtain ⟨r, h⟩ := h
      exact ⟨_, (newVolume_complies rfl world (h.assign hn config)).1⟩
  | share id =>
      obtain ⟨r, h⟩ := h
      exact ⟨r, h.modifyVolume (fun _ => rfl) fun _ => rfl⟩
  | drop id =>
      obtain ⟨r, h⟩ := h
      exact ⟨r, h.modifyVolume (fun _ => rfl) fun _ => rfl⟩
  | onPath id call => exact call.act_conforms h hn id hbetween
  | readAll id path =>
      refine h.act hn id fun h hmade => (VolumeId.session_complies hmade path _ ?_ world h).1
      exact fun handle => handle.readToEnd_complies.throughStream
  | writeAll id path contents =>
      refine h.act hn id fun h hmade => (VolumeId.session_complies hmade path _ ?_ world h).1
      exact fun handle => (handle.writeAll_complies contents).throughStream
  | onHandle id call =>
      obtain ⟨r, h⟩ := h
      exact ⟨r, call.perform_complies id h⟩
  | releaseLock grant =>
      obtain ⟨r, h⟩ := h
      exact ⟨r, (grant.release_complies world h).1⟩

/-! ### Every reachable world -/

theorem conforms_empty (s : Standard) : ({} : World).Conforms s := by
  refine ⟨⟨fun _ => {}, fun _ => {}, fun _ => {}, {}⟩, ?_⟩
  have hempty : ∀ {α : Type} {holds : Nat → α → Prop}, Each #[] holds := nofun
  exact ⟨hempty, hempty, hempty, hempty, fun _ _ => rfl, fun _ _ => rfl, fun _ _ => rfl⟩

theorem ReachableBy.conforms {related : Relocation → Kind → Config → Config → Prop}
    (h : ReachableBy (Call.Between related) world)
    (hcarries : ∀ {op kind source target},
      related op kind source target → s.Carries op kind source target) :
    world.Conforms s := by
  induction h with
  | start => exact conforms_empty s
  | step call hbetween hbefore ih =>
      -- the new registry is made from the one before, which takes a sound namespace
      exact call.perform_conforms ih hbefore.reachable.sound (hbetween.mono hcarries)

/-- What no relocation can violate holds in every reachable world. -/
theorem Reachable.conforms (h : Reachable world)
    (hcarries : ∀ op kind source target, s.Carries op kind source target) : world.Conforms s := by
  induction h with
  | start => exact conforms_empty s
  | step call hbefore ih =>
      refine call.perform_conforms ih hbefore.sound ?_
      cases call with
      | onPath id call =>
          cases call with
          | copy => exact fun _ _ _ _ _ _ => hcarries ..
          | move => exact fun _ _ _ _ _ _ => hcarries ..
          | _ => trivial
      | _ => trivial

/-! ### Trees -/

theorem Complies.inTree {id : VolumeId} {volume : Volume} {entry : EntryId}
    (h : Complies s r world) (hvolume : world.volume id = .ok volume)
    (htree : world.namespace.InTree id entry) : r.entry entry = volume.config := by
  obtain ⟨ordinal, top, bindings, ⟨ground, hground, hroot⟩, hleads⟩ := htree
  obtain rfl : volume.ground = ground :=
    Option.some.inj ((World.ground?_of_volume hvolume).symm.trans hground)
  have hgrounds := h.grounds hvolume
  rw [h.leads hleads, hgrounds.config]
  exact hgrounds.roots top (List.mem_of_getElem? hroot)

namespace World.Conforms

variable {id : VolumeId} {volume : Volume} {entry : EntryId} {found : Entry}

theorem times (h : world.Conforms s) (hvolume : world.volume id = .ok volume)
    (htree : world.namespace.InTree id entry) (hentry : world.entry entry = .ok found) :
    s.Times volume.config found.times := by
  obtain ⟨r, h⟩ := h
  rw [← h.inTree hvolume htree]
  exact (h.admits hentry).times

theorem store {file : FileNode} {inode : Inode} (h : world.Conforms s)
    (hvolume : world.volume id = .ok volume) (htree : world.namespace.InTree id entry)
    (hfile : world.namespace.node? entry = some (.file file))
    (hinode : world.inode file.inode = .ok inode) : s.store volume.config inode.store := by
  obtain ⟨r, h⟩ := h
  obtain ⟨found, hentry, hnode⟩ := World.entry_of_node? hfile
  have hused : r.inode file.inode = r.entry entry := by
    have hadmits := (h.admits hentry).node
    rwa [hnode] at hadmits
  rw [← h.inTree hvolume htree, ← hused]
  exact h.stored hinode

end World.Conforms

end RamFs
