import RamFs.Proofs.Namespace.LastNames
import RamFs.Proofs.Sessions.Scripts
import RamFs.Proofs.Sharing.Edits

/-!
Names that go with a handle. Closing the last handle on a file that is to go looks the last name of
the handle's path up again, whatever has become of the path in the meantime. The name goes only if
it is still bound to the file that the handle was opened on, and nothing else ever does.
-/

namespace RamFs

open RamFs.Action

variable {world : World} {id : VolumeId} {handleId : HandleId} {handle : Handle} {volume : Volume}
  {path : Path} {ending : Ending} {entry : EntryId} {file : FileNode} {closed : World}

/-! ### Deleting what is expected -/

namespace VolumeId

/-- An entry that is deleted is what the last name of the path is bound to. -/
theorem ends_of_deleteEntry {after : World} (hvolume : world.volume id = .ok volume)
    (hrun : id.deleteEntry path (some entry) world = (.ok (), after)) :
    ∃ ending, world.Ends volume path ending ∧ ending.binding.entry = entry := by
  unfold VolumeId.deleteEntry at hrun
  split at hrun
  case isTrue =>
    obtain ⟨_, _, hthrow, _⟩ := ran_of_bind_ok hrun
    cases hthrow
  case isFalse =>
  obtain ⟨found, hfound, hrun⟩ := asked_of_bind_ok hrun
  obtain rfl := Except.ok.inj (hvolume.symm.trans hfound)
  obtain ⟨parent, hparent, hrun⟩ := asked_of_bind_ok hrun
  cases hname : parent.path.fileName? with
  | none =>
      rw [hname] at hrun
      cases hrun
  | some name =>
  rw [hname] at hrun
  obtain ⟨names, hnames, hrun⟩ := asked_of_bind_ok hrun
  cases hfind : names.find? volume.collation name with
  | none =>
      rw [hfind] at hrun
      cases hrun
  | some binding =>
  rw [hfind] at hrun
  dsimp only at hrun
  split at hrun
  case isTrue =>
    obtain ⟨_, _, hthrow, _⟩ := ran_of_bind_ok hrun
    cases hthrow
  case isFalse hexpected =>
  refine ⟨⟨parent, names, name, binding⟩, ⟨hparent, hname, hnames, hfind⟩, ?_⟩
  exact (show entry = binding.entry by simpa using hexpected).symm

/-- A file that is not open is deleted under the last name of the path. -/
theorem deleteEntry_ends (hn : world.namespace.Sound) (hvolume : world.volume id = .ok volume)
    (hends : world.Ends volume path ending)
    (hfile : world.namespace.node? ending.binding.entry = some (.file file))
    (hidle : file.state = .live 0) :
    ∃ after, id.deleteEntry path (some ending.binding.entry) world = (.ok (), after) ∧
      after.namespace = (world.namespace.setNode ending.parent.entry
        (.directory (ending.names.erase volume.collation ending.name))).retire
          ending.binding.entry ∧
      after.tally = world.namespace.forget world.tally ending.binding.entry := by
  have hnode := World.directory_eq_ok.1 hends.names
  obtain ⟨found, hfound, hkind⟩ := World.entry_of_node? hfile
  have hremovable : found.checkRemovable = .ok () := by
    unfold Entry.checkRemovable FileNode.openHandles
    rw [hkind]
    dsimp only
    rw [hidle]
    rfl
  obtain ⟨middle, after, hmark, hunbind, hafter, htally, _⟩ :=
    mark_unbind hn hnode hends.found hfile hidle
  obtain ⟨last, htouch, hlast, hcount⟩ :=
    touchModified_names after ending.parent.entry (after.now volume)
  refine ⟨last, ?_, hlast.trans hafter, hcount.trans htally⟩
  unfold VolumeId.deleteEntry
  rw [if_neg (Bool.eq_false_iff.1 (World.walk_parent_not_root hends.parent))]
  dsimp only
  rw [bind_ask_ok hvolume, bind_ask_ok hends.parent, hends.name]
  dsimp only
  rw [bind_ask_ok hends.names, hends.found]
  dsimp only
  rw [if_neg (by simp), bind_ask_ok hfound, bind_lift_ok hremovable, bind_ok hmark, bind_ok hunbind,
    bind_ok (get_apply _), htouch]

end VolumeId

/-! ### Handles -/

/-- The handle once it is closed. -/
def Handle.shut (handle : Handle) : Handle :=
  { handle with isOpen := false, locks := [] }

namespace World

theorem mem_leases {lease : Lease} :
    lease ∈ world.namespace.leases ↔ ∃ id, world.holder? id = some lease := by
  constructor
  · intro h
    obtain ⟨held, hmem, hlease⟩ := List.mem_filterMap.1 h
    obtain ⟨index, hindex⟩ := List.mem_iff_getElem?.1 hmem
    refine ⟨⟨index⟩, ?_⟩
    unfold holder?
    rw [← Array.getElem?_toList, hindex]
    exact hlease
  · rintro ⟨id, h⟩
    obtain ⟨held, hheld, hlease⟩ := Option.bind_eq_some_iff.1 h
    rw [← Array.getElem?_toList] at hheld
    exact List.mem_filterMap.2 ⟨held, List.mem_of_getElem? hheld, hlease⟩

/-- An entry counts no handle if and only if every handle on it is closed. -/
theorem opens_eq_zero_iff : world.namespace.opens entry = 0 ↔
    ∀ other found, world.handle other = .ok found → found.isOpen = true → found.entry ≠ entry := by
  rw [Namespace.opens_eq_zero]
  constructor
  · intro h other found hfound hopen
    exact h _ (mem_leases.2 ⟨other, holder_eq_some.2 ⟨found, hfound, hopen, rfl⟩⟩)
  · intro h lease hlease
    obtain ⟨other, hholder⟩ := mem_leases.1 hlease
    obtain ⟨found, hfound, hopen, rfl⟩ := holder_eq_some.1 hholder
    exact h other found hfound hopen

theorem handle_shut (hhandles : closed.handles = (world.modifyHandle handleId Handle.shut).handles)
    (other : HandleId) : closed.handle other =
      (world.handle other).map fun held => if other = handleId then held.shut else held := by
  rw [← handle_modifyHandle]
  unfold World.handle
  rw [hhandles]

/-- With one handle closed, an entry counts none if no other handle on it is open. -/
theorem opens_without
    (hhandles : closed.handles = (world.modifyHandle handleId Handle.shut).handles) :
    closed.namespace.opens entry = 0 ↔ ∀ other found, world.handle other = .ok found →
      found.isOpen = true → found.entry = entry → other = handleId := by
  rw [opens_eq_zero_iff]
  constructor
  · intro h other found hfound hopen hentry
    by_contra hne
    refine h other found ?_ hopen hentry
    rw [handle_shut hhandles, hfound]
    exact congrArg Except.ok (if_neg hne)
  · intro h other found hfound hopen hentry
    rw [handle_shut hhandles] at hfound
    cases hheld : world.handle other with
    | error failure =>
        rw [hheld] at hfound
        cases hfound
    | ok held =>
        rw [hheld] at hfound
        obtain rfl := Except.ok.inj hfound
        dsimp only at hopen hentry
        by_cases hsame : other = handleId
        · rw [if_pos hsame] at hopen
          cases hopen
        · rw [if_neg hsame] at hopen hentry
          exact hsame (h other held hheld hopen hentry)

end World

namespace HandleId

/-- Closing an open handle closes no other. -/
theorem close_handles (hhandle : world.handle handleId = .ok handle)
    (hopen : handle.isOpen = true) :
    (handleId.close world).2.handles = (world.modifyHandle handleId Handle.shut).handles := by
  have hlocks : ∀ lock, Keeps World.handles (Grant.mk handle.inode lock).release :=
    fun lock => keeps_modify fun _ => rfl
  unfold HandleId.close
  rw [bind_ask_ok hhandle, if_pos hopen, bind_ok (modify_apply ..)]
  exact Keeps.bind (Keeps.forM hlocks _) (fun _ => leave_keeps handle (keeps_modify fun _ => rfl))
    (world.modifyHandle handleId Handle.shut)

/-- Closing a handle again does nothing. -/
theorem close_again (hhandle : world.handle handleId = .ok handle) (hopen : handle.isOpen = true)
    (hrun : handleId.close world = (.ok (), closed)) :
    handleId.close closed = (.ok (), closed) := by
  have hhandles := close_handles hhandle hopen
  rw [hrun] at hhandles
  have hshut : closed.handle handleId = .ok handle.shut := by
    rw [World.handle_shut hhandles, hhandle]
    exact congrArg Except.ok (if_pos rfl)
  unfold HandleId.close
  rw [bind_ask_ok hshut]
  rfl

/-! ### Before and after -/

namespace Closes

variable {middle : World}

theorem volume_after (h : Closes world handle volume file middle) (hlive : volume.isLive = true) :
    middle.volume handle.volume = .ok volume.freePlace := by
  have hvolumes := h.volumes
  rw [if_pos hlive] at hvolumes
  unfold World.volume
  rw [hvolumes, Array.getElem?_modify, if_pos rfl, World.volume_eq_ok h.known]
  rfl

theorem node_of_ne (h : Closes world handle volume file middle) {other : EntryId}
    (hne : other ≠ handle.entry) :
    middle.namespace.node? other = world.namespace.node? other := by
  obtain ⟨leases, -, hmiddle⟩ := h.names
  rw [hmiddle]
  exact Namespace.node?_setNode_of_ne hne

theorem binds (h : Closes world handle volume file middle) {directory : EntryId}
    {binding : Binding} :
    middle.namespace.Binds directory binding ↔ world.namespace.Binds directory binding := by
  obtain ⟨leases, -, hmiddle⟩ := h.names
  rw [hmiddle]
  exact Namespace.binds_setFile h.node

/-- Walks go the same way when only the number of handles on a file has changed. -/
theorem guides (h : Closes world handle volume file middle) :
    world.GuidesAlike volume middle volume.freePlace where
  directory := by
    funext other
    rw [World.directory_eq, World.directory_eq]
    by_cases hentry : other = handle.entry
    · rw [hentry, h.node, h.node_after]
    · rw [h.node_of_ne hentry]
  linkTarget? := by
    funext other
    rw [World.linkTarget?_eq, World.linkTarget?_eq]
    by_cases hentry : other = handle.entry
    · rw [hentry, h.node, h.node_after]
    · rw [h.node_of_ne hentry]
  config := rfl
  roots := rfl

end Closes

end HandleId

/-! ### What goes with a handle -/

namespace World

/-- The name under which a handle was opened is to go when the handle is closed. -/
structure Forsakes (world : World) (id : HandleId) (handle : Handle) (volume : Volume) :
    Prop where
  /-- No other handle is open on the entry. -/
  last : ∀ other found, world.handle other = .ok found → found.isOpen = true →
    found.entry = handle.entry → other = id
  marked : ∃ file, world.namespace.node? handle.entry = some (.file file) ∧
    file.deleteOnClose = true
  /-- The path of the handle leads to the entry. A link at the end leads to itself. -/
  named : ∃ visit, world.walk volume handle.path (.entry false) true = .ok visit ∧
    visit.entry = handle.entry

theorem binds_iff {directory : EntryId} {binding : Binding} :
    world.namespace.Binds directory binding ↔
      ∃ names, world.directory directory = .ok names ∧ binding ∈ names.bindings := by
  unfold Namespace.Binds
  simp only [directory_eq_ok]

theorem Ends.binds (h : world.Ends volume path ending) :
    world.namespace.Binds ending.parent.entry ending.binding :=
  binds_iff.2 ⟨ending.names, h.names, Directory.find?_mem h.found⟩

/-- The last name of the handle's path goes, and its inode counts one name less. -/
structure Sheds (world : World) (handle : Handle) (volume : Volume) (ending : Ending)
    (closed : World) : Prop where
  ends : world.Ends volume handle.path ending
  entry : ending.binding.entry = handle.entry
  binds : ∀ directory binding, closed.namespace.Binds directory binding ↔
    world.namespace.Binds directory binding ∧
      ¬(directory = ending.parent.entry ∧ binding = ending.binding)
  links : ∃ links, world.tally handle.inode = some (links + 1) ∧
    closed.tally = Function.update world.tally handle.inode (some links)

end World

namespace HandleId

variable {middle : World}

/-- What is asked when a file has been closed is what is to be so before. -/
theorem Closes.forsakes (h : Closes world handle volume file middle)
    (hn : world.namespace.Sound)
    (hhandles : middle.handles = (world.modifyHandle handleId Handle.shut).handles) :
    world.Forsakes handleId handle volume ↔ file.release.isAbandoned = true ∧
      ∃ ending, middle.Ends volume.freePlace handle.path ending ∧
        ending.binding.entry = handle.entry := by
  have hcounted : file.release.openHandles = middle.namespace.opens handle.entry :=
    (h.expands hn).evolves.sound.counted h.node_after
  have habandoned : file.release.isAbandoned = true ↔
      middle.namespace.opens handle.entry = 0 ∧ file.deleteOnClose = true := by
    unfold FileNode.isAbandoned
    rw [Bool.and_eq_true, decide_eq_true_iff, hcounted, file.deleteOnClose_release]
  have hends : ∀ {ending}, middle.Ends volume.freePlace handle.path ending ↔
      world.Ends volume handle.path ending := h.guides.ends
  simp only [hends]
  rw [habandoned, World.opens_without hhandles, ← World.walk_ends hn h.known h.node]
  constructor
  · rintro ⟨hlast, ⟨found, hfound, hmarked⟩, hnamed⟩
    obtain rfl : file = found := Node.file.inj (Option.some.inj (h.node.symm.trans hfound))
    exact ⟨⟨hlast, hmarked⟩, hnamed⟩
  · rintro ⟨⟨hlast, hmarked⟩, hnamed⟩
    exact ⟨hlast, ⟨file, h.node, hmarked⟩, hnamed⟩

theorem Closes.idle (h : Closes world handle volume file middle) (hn : world.namespace.Sound)
    (habandoned : file.release.isAbandoned = true) : file.release.state = .live 0 := by
  rw [FileNode.state_release (hn.bound_live h.named.1 h.node)]
  exact congrArg FileState.live (of_decide_eq_true (Bool.and_eq_true_iff.1 habandoned).1)

/-- The inode that the handle knows counts the name of the file, and is the one that forgets it. -/
theorem Closes.forgets (h : Closes world handle volume file middle) (hreach : Reachable world)
    (hhandle : world.handle handleId = .ok handle) :
    ∃ links, world.tally handle.inode = some (links + 1) ∧
      middle.namespace.forget middle.tally handle.entry =
        Function.update world.tally handle.inode (some links) := by
  have hn := hreach.sound
  obtain ⟨known, hknown, hinode⟩ := World.inodeOf?_eq_some.1 (hreach.tidy.tracks hhandle).inode
  obtain rfl : file = known := Node.file.inj (Option.some.inj (h.node.symm.trans hknown))
  obtain ⟨stored, hstored⟩ := World.inode_of_lt (hn.backed h.node)
  have hlinks := World.tally_of_inode hstored
  have hpos := Namespace.Booked.counted_pos hreach.booked
    ⟨file, h.node, rfl, hn.bound_live h.named.1 h.node⟩ hlinks
  rw [hinode] at hlinks
  refine ⟨stored.links - 1, hlinks.trans (congrArg some (Nat.sub_add_cancel hpos).symm), ?_⟩
  rw [Namespace.forget, h.node_after]
  dsimp only
  rw [file.inode_release, hinode, h.tally, hlinks]
  rfl

/-- Where all of it is so, the name is deleted. -/
theorem Closes.deletes (h : Closes world handle volume file middle) (hreach : Reachable world)
    (hhandle : world.handle handleId = .ok handle) (hlive : volume.isLive = true)
    (habandoned : file.release.isAbandoned = true)
    (hends : middle.Ends volume.freePlace handle.path ending)
    (hentry : ending.binding.entry = handle.entry) :
    ∃ closed, handle.volume.deleteEntry handle.path (some handle.entry) middle =
        (.ok (), closed) ∧ world.Sheds handle volume ending closed := by
  have hn := hreach.sound
  have hmiddle := (h.expands hn).evolves.sound
  have hafter : middle.namespace.node? ending.binding.entry = some (.file file.release) :=
    hentry ▸ h.node_after
  obtain ⟨closed, hrun, hnames, htally⟩ :=
    VolumeId.deleteEntry_ends hmiddle (h.volume_after hlive) hends hafter (h.idle hn habandoned)
  refine ⟨closed, hentry ▸ hrun, ?_⟩
  constructor
  case ends => exact h.guides.ends.1 hends
  case entry => exact hentry
  case binds =>
    intro directory binding
    rw [hnames, Namespace.binds_retire, Namespace.binds_detach hmiddle.toWellFormed
      (World.directory_eq_ok.1 hends.names) hends.found, h.binds]
    -- an entry has no other name
    refine and_congr_right fun hbinds => not_congr ⟨fun hsame => ?_, fun hsame => ?_⟩
    · exact hn.bound_once hbinds (h.binds.1 hends.binds) hsame
    · rw [hsame.2]
  case links =>
    obtain ⟨links, hlinks, hforgets⟩ := h.forgets hreach hhandle
    exact ⟨links, hlinks, htally.trans (hentry ▸ hforgets)⟩

/-- Where something is not so, nothing is deleted. -/
theorem Closes.spares (h : Closes world handle volume file middle) (hn : world.namespace.Sound)
    (hlive : volume.isLive = true) (hkept : ¬∃ ending,
      middle.Ends volume.freePlace handle.path ending ∧ ending.binding.entry = handle.entry) :
    (tryCatch (handle.volume.deleteEntry handle.path (some handle.entry)) fun _ => pure () :
      Action Unit) middle = (.ok (), middle) := by
  have hdelete := VolumeId.deleteEntry_transacts (h.expands hn).evolves.sound handle.volume
    handle.path (some handle.entry)
  rw [tryCatch_apply]
  rcases hrun : handle.volume.deleteEntry handle.path (some handle.entry) middle with
    ⟨failure | _, after⟩
  · obtain rfl := hdelete.unchanged hrun
    rfl
  · exact absurd (VolumeId.ends_of_deleteEntry (h.volume_after hlive) hrun) hkept

/-- Closing an open handle sheds its name or leaves all names alone. -/
theorem close_cases (h : Reachable world) (hhandle : world.handle handleId = .ok handle)
    (hopen : handle.isOpen = true) (hvolume : world.volume handle.volume = .ok volume)
    (hlive : volume.isLive = true) :
    ∃ closed, handleId.close world = (.ok (), closed) ∧
      (world.Forsakes handleId handle volume ∧ (∃ ending, world.Sheds handle volume ending closed) ∨
        ¬world.Forsakes handleId handle volume ∧ closed.directory = world.directory ∧
          closed.tally = world.tally) := by
  have hn := h.sound
  have hhandles := close_handles hhandle hopen
  obtain ⟨known, file, middle, hcloses, hrun⟩ := close_closes hn hhandle hopen
  obtain rfl := Except.ok.inj (hvolume.symm.trans hcloses.known)
  rw [hlive, Bool.true_and] at hrun
  have hmiddle : middle.handles = (world.modifyHandle handleId Handle.shut).handles := by
    rw [← hhandles, hrun]
    split
    case isTrue => exact (deleteAbandoned_keeps _ _ _ middle).symm
    case isFalse => rfl
  have hforsakes := hcloses.forsakes hn hmiddle
  by_cases habandoned : file.release.isAbandoned = true
  · rw [if_pos habandoned] at hrun
    by_cases hends : ∃ ending, middle.Ends volume.freePlace handle.path ending ∧
        ending.binding.entry = handle.entry
    · obtain ⟨ending, hends, hentry⟩ := hends
      obtain ⟨closed, hdeleted, hsheds⟩ :=
        hcloses.deletes h hhandle hlive habandoned hends hentry
      refine ⟨closed, ?_, .inl ⟨hforsakes.2 ⟨habandoned, ending, hends, hentry⟩, ending, hsheds⟩⟩
      rw [hrun, tryCatch_apply, hdeleted]
    · refine ⟨middle, hrun.trans (hcloses.spares hn hlive hends), .inr ⟨fun hall => ?_, ?_, ?_⟩⟩
      · exact hends (hforsakes.1 hall).2
      · exact hcloses.guides.directory
      · exact hcloses.tally
  · rw [if_neg habandoned] at hrun
    refine ⟨middle, hrun, .inr ⟨fun hall => habandoned (hforsakes.1 hall).1, ?_, hcloses.tally⟩⟩
    exact hcloses.guides.directory

end HandleId

/-- A handle takes its name with it, or nothing. When an open handle is closed or given up in a live
volume, a name goes if and only if no other handle is open on the entry, the entry is marked to go
when it is closed, and the last name of the handle's path, looked up without following a link at the
end, still leads to the entry. Then exactly that name goes, and the inode counts one name less. In
every other case all directories and all counts are what they were, whatever the path leads to by
now. Closing the handle again does nothing. -/
theorem close_removes_the_right_name (h : Reachable world)
    (hhandle : world.handle handleId = .ok handle) (hopen : handle.isOpen = true)
    (hvolume : world.volume handle.volume = .ok volume) (hlive : volume.isLive = true) :
    ∃ closed, handleId.close world = (.ok (), closed) ∧ handleId.close closed = (.ok (), closed) ∧
      ((∃ directory binding, world.namespace.Binds directory binding ∧
        ¬closed.namespace.Binds directory binding) ↔ world.Forsakes handleId handle volume) ∧
      (world.Forsakes handleId handle volume → ∃ ending, world.Sheds handle volume ending closed) ∧
      (¬world.Forsakes handleId handle volume →
        closed.directory = world.directory ∧ closed.tally = world.tally) ∧
      closed.volumes = world.volumes.modify handle.volume.index Volume.freePlace := by
  obtain ⟨closed, hrun, hcases⟩ := HandleId.close_cases h hhandle hopen hvolume hlive
  have hvolumes := HandleId.close_volumes h.sound hhandle hopen hvolume hlive
  rw [hrun] at hvolumes
  refine ⟨closed, hrun, HandleId.close_again hhandle hopen hrun, ?_, ?_, ?_, hvolumes⟩
  · constructor
    · rintro ⟨directory, binding, hbinds, hgone⟩
      obtain ⟨hforsakes, -⟩ | ⟨-, hsame, -⟩ := hcases
      · exact hforsakes
      · rw [World.binds_iff, hsame, ← World.binds_iff] at hgone
        exact absurd hbinds hgone
    · intro hforsakes
      obtain ⟨-, ending, hsheds⟩ | ⟨hnot, -⟩ := hcases
      · refine ⟨ending.parent.entry, ending.binding, hsheds.ends.binds, fun hkept => ?_⟩
        exact ((hsheds.binds _ _).1 hkept).2 ⟨rfl, rfl⟩
      · exact absurd hforsakes hnot
  · intro hforsakes
    exact (hcases.resolve_right fun hkept => hkept.1 hforsakes).2
  · intro hnot
    exact (hcases.resolve_left fun hshed => hnot hshed.1).2

namespace World

/-- A volume with a file that is to go and has one handle left, on a path that leads to the file
through a link by now; and with another such file whose path leads to a file made later. -/
def deserted : World :=
  List.foldl Call.perform {} [.newVolume {}, .onPath ⟨0⟩ (.createDirectory "/box" {}),
    .onPath ⟨0⟩ (.createFile "/box/note" {}),
    .onPath ⟨0⟩ (.openFile "/box/note" { deleteOnClose := true }),
    .onPath ⟨0⟩ (.openFile "/box/note" .reading), .onHandle ⟨0⟩ .close,
    .onPath ⟨0⟩ (.move "/box" ⟨0⟩ "/case" {}), .onPath ⟨0⟩ (.createSymlink "/box" "case"),
    .onPath ⟨0⟩ (.createFile "/memo" {}),
    .onPath ⟨0⟩ (.openFile "/memo" { deleteOnClose := true }),
    .onPath ⟨0⟩ (.move "/memo" ⟨0⟩ "/kept" {}), .onPath ⟨0⟩ (.createFile "/memo" {})]

theorem deserted_volume : deserted.volume ⟨0⟩ =
    .ok { config := {}, roots := [⟨0⟩], openHandles := 2 } := by
  decide +kernel

theorem deserted_note : deserted.handle ⟨1⟩ = .ok
    { volume := ⟨0⟩, entry := ⟨2⟩, inode := ⟨0⟩, path := ⟨0, "/", ["box", "note"], true⟩
      options := .reading } := by
  decide +kernel

theorem deserted_memo : deserted.handle ⟨2⟩ = .ok
    { volume := ⟨0⟩, entry := ⟨4⟩, inode := ⟨1⟩, path := ⟨0, "/", ["memo"], true⟩
      options := { deleteOnClose := true } } := by
  decide +kernel

end World

/-- The handle that did not ask for it takes the name of the first file with it. The other file
keeps its name, and so does the file that has come to its place. -/
theorem deserted_loses_one_name :
    (∃ closed, HandleId.close ⟨1⟩ World.deserted = (.ok (), closed) ∧
      ∃ directory binding, World.deserted.namespace.Binds directory binding ∧
        ¬closed.namespace.Binds directory binding) ∧
    ∃ closed, HandleId.close ⟨2⟩ World.deserted = (.ok (), closed) ∧
      closed.directory = World.deserted.directory := by
  have hreach : Reachable World.deserted := Reachable.start.run _
  obtain ⟨closed, hclose, -, hnote, -⟩ := close_removes_the_right_name hreach World.deserted_note
    rfl World.deserted_volume rfl
  obtain ⟨closed', hclose', -, -, -, hmemo, -⟩ := close_removes_the_right_name hreach
    World.deserted_memo rfl World.deserted_volume rfl
  have hlast : (World.deserted.modifyHandle ⟨1⟩ Handle.shut).namespace.opens ⟨2⟩ = 0 := by
    decide +kernel
  refine ⟨⟨closed, hclose, hnote.2 ⟨?_, ?_, ?_⟩⟩, closed', hclose', (hmemo fun h => ?_).1⟩
  · exact (World.opens_without rfl).1 hlast
  · exact ⟨{ inode := ⟨0⟩, state := .live 1, deleteOnClose := true }, by decide +kernel, rfl⟩
  · exact ⟨⟨⟨2⟩, [⟨0⟩, ⟨1⟩, ⟨2⟩], ⟨0, "/", ["case", "note"], true⟩⟩, by decide +kernel, rfl⟩
  · obtain ⟨visit, hwalk, hentry⟩ := h.named
    have hlater : World.deserted.walk { config := {}, roots := [⟨0⟩], openHandles := 2 }
        ⟨0, "/", ["memo"], true⟩ (.entry false) true =
          .ok ⟨⟨5⟩, [⟨0⟩, ⟨5⟩], ⟨0, "/", ["memo"], true⟩⟩ := by
      decide +kernel
    rw [hlater] at hwalk
    cases hwalk
    cases hentry

end RamFs
