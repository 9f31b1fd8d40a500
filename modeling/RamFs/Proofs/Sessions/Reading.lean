import RamFs.Proofs.Namespace.Reachable

/-!
Files read as a whole. A session opens a file, works on it and closes it. As long as the work
leaves the namespace alone and the file does not go with its last handle, closing undoes what
opening did, so that reading leaves nothing behind but times. A file is taken away by a reader
only if it was left to go with a handle that is closed already.
-/

namespace RamFs

open RamFs.Action

variable {world opened worked closed : World} {id : VolumeId} {text : String}
  {options : OpenOptions} {opening : Opening} {handle : HandleId}

/-- A file that is opened once more and then closed is as it was before. -/
theorem FileNode.release_opened {file : FileNode} (hlive : file.state ≠ .pendingDeletion) :
    FileNode.release { file with state := .live (file.openHandles + 1) } = file := by
  obtain ⟨inode, state, wish⟩ := file
  cases state with
  | live count => rfl
  | pendingDeletion => exact absurd rfl hlive

/-- The file that there is to open at the path, if there is one, is not abandoned already: should it
go with its last handle, then a handle on it is open. -/
def World.SparesAt (world : World) (id : VolumeId) (path : String) (options : OpenOptions) : Prop :=
  ∀ volume parsed entry resolved file, world.volume id = .ok volume →
    volume.parse path = .ok parsed →
    (world.openTrail volume parsed options).outcome = .ok (.existing entry resolved) →
    world.namespace.node? entry = some (.file file) → file.isAbandoned = false

/-- Where no file is abandoned, none is at any path. -/
theorem World.spares_of_all
    (h : ∀ found ∈ world.entries, found.file.toOption.all (!·.isAbandoned) = true)
    (id : VolumeId) (path : String) (options : OpenOptions) : world.SparesAt id path options := by
  intro volume parsed entry resolved file _ _ _ hnode
  obtain ⟨found, hfound, hfile⟩ := Option.map_eq_some_iff.1 hnode
  have hall := h found (Array.mem_of_getElem? hfound)
  rw [Entry.file_eq_ok.2 hfile] at hall
  exact (Bool.not_eq_true' _).mp hall

namespace Opening

/-- A file made for the opening was never open before, and one that was there is spared. -/
theorem Takes.spared (h : opening.Takes world id text options handle opened)
    (hspares : world.SparesAt id text options) : opening.file.isAbandoned = false := by
  have hsame := VolumeId.namespace_takePlace id world
  have hfound := h.found
  rw [World.openTrail_congr (congrArg Namespace.node? hsame)] at hfound
  have hyields := h.yields
  cases htarget : opening.target with
  | existing entry path =>
      rw [htarget] at hfound hyields
      obtain ⟨hentry, _, hmade⟩ := hyields
      have hnode := h.node
      rw [hmade, hsame, hentry] at hnode
      exact hspares _ _ _ _ _ h.volume h.parsed hfound hnode
  | vacant directory path =>
      rw [htarget] at hyields
      obtain ⟨_, hnew, _⟩ := hyields
      rw [hnew]
      exact Bool.and_false _

theorem Takes.volumes_worked (h : opening.Takes world id text options handle opened)
    (hworked : worked.skeleton = opened.skeleton) :
    worked.volumes = (world.modifyVolume id Volume.takePlace).volumes :=
  (congrArg Skeleton.volumes hworked).trans (congrArg Roster.volumes h.roster_after)

/-- Closing the handle after work that the namespace does not show takes the file back to what it
was. -/
theorem Takes.closes (h : opening.Takes world id text options handle opened)
    (hn : world.namespace.Sound) (hwish : options.deleteOnClose = false)
    (hkept : opening.file.isAbandoned = false) (hworked : worked.skeleton = opened.skeleton)
    (hclose : handle.close worked = (.ok (), closed)) :
    ∃ held file, held.volume = id ∧ held.entry = opening.entry ∧ file.release = opening.file ∧
      HandleId.Closes worked held opening.volume.takePlace file closed := by
  have hnames := World.namespace_of_skeleton hworked
  have hsound : worked.namespace.Sound := by
    rw [hnames]
    exact (h.expands_after hn).evolves.sound
  have hholder : worked.holder? handle = some ⟨id, opening.entry⟩ := by
    rw [World.holder_of_skeleton hworked]
    exact h.holder
  obtain ⟨held, hheld, hopen, hlease⟩ := World.holder_eq_some.1 hholder
  obtain ⟨rfl, hentry⟩ := Lease.mk.inj hlease
  obtain ⟨volume, file, after, hcloses, hrun⟩ := HandleId.close_closes hsound hheld hopen
  -- the handle is all that opening left at the file
  have hreleased : file.release = opening.file := by
    have hnode := hcloses.node
    rw [← hentry, hnames, h.opens.names] at hnode
    obtain rfl := Node.file.inj (Option.some.inj (Namespace.node?_setNode_self.symm.trans hnode))
    rw [hwish, Bool.or_false]
    exact FileNode.release_opened (h.expands.evolves.sound.bound_live h.named.1 h.node)
  rw [hreleased, hkept, Bool.and_false, if_neg nofun] at hrun
  obtain rfl : after = closed := congrArg Prod.snd (hrun.symm.trans hclose)
  have hvolume : worked.volume held.volume = .ok opening.volume.takePlace := by
    unfold World.volume
    rw [h.volumes_worked hworked]
    exact World.volume_modifyVolume h.volume
  obtain rfl := Except.ok.inj (hcloses.known.symm.trans hvolume)
  exact ⟨held, file, rfl, hentry.symm, hreleased, hcloses⟩

/-- What closing the handle leaves of a session: the world in which the file was opened, with
the contents that the work left. -/
structure Leaves (opening : Opening) (world worked closed : World) : Prop where
  nodes : closed.namespace.node? = opening.made.namespace.node?
  leases : closed.namespace.leases.Perm world.namespace.leases
  volumes : closed.volumes = world.volumes
  tally : closed.tally = opening.made.tally
  stores : closed.stores = worked.stores

/-- A session leaves the file that it opened, unless that file goes with its last handle. -/
theorem Takes.leaves (h : opening.Takes world id text options handle opened)
    (hn : world.namespace.Sound) (hlive : opening.volume.isLive = true)
    (hwish : options.deleteOnClose = false) (hkept : opening.file.isAbandoned = false)
    (hworked : worked.skeleton = opened.skeleton)
    (hclose : handle.close worked = (.ok (), closed)) : opening.Leaves world worked closed := by
  obtain ⟨held, file, rfl, hentry, hreleased, hcloses⟩ :=
    h.closes hn hwish hkept hworked hclose
  obtain ⟨leases, hperm, hclosed⟩ := hcloses.names
  rw [hentry] at hperm hclosed
  have hnames := World.namespace_of_skeleton hworked
  constructor
  case nodes =>
    rw [hclosed, hnames, h.opens.names, hreleased]
    funext other
    by_cases hother : other = opening.entry
    · rw [hother, h.node]
      exact Namespace.node?_setNode_self
    · exact (Namespace.node?_setNode_of_ne hother).trans (Namespace.node?_setNode_of_ne hother)
  case leases =>
    have hleases : worked.namespace.leases =
        world.namespace.leases ++ [⟨held.volume, opening.entry⟩] := by
      rw [hnames]
      exact congrArg Roster.leases h.roster_after
    rw [hclosed]
    refine List.Perm.cons_inv (a := ⟨held.volume, opening.entry⟩) ?_
    exact hperm.symm.trans (hleases ▸ List.perm_append_singleton _ _)
  case volumes =>
    have howned : opening.volume.takePlace.isLive = true := hlive
    have hundo : (world.modifyVolume held.volume Volume.takePlace).modifyVolume held.volume
        Volume.freePlace = world := World.modifyVolume_undo fun _ => rfl
    rw [hcloses.volumes, if_pos howned, h.volumes_worked hworked]
    exact congrArg World.volumes hundo
  case tally => rw [hcloses.tally, World.tally_of_skeleton hworked, h.opens.tally]
  case stores => exact hcloses.stores

end Opening

/-! ### Reading -/

namespace HandleId

/-- Reading leaves all inodes alone. -/
theorem readToEnd_keeps_inodes (id : HandleId) : Keeps World.inodes id.readToEnd := by
  have hchecked : ∀ check, Keeps World.inodes (id.checked check) := fun _ =>
    (keeps_ask _).bind fun _ => (keeps_lift _).bind fun _ => (keeps_ask _).bind fun _ =>
      keeps_pure _
  have hstamp : ∀ handle : Handle, Keeps World.inodes (handle.stamp Entry.touchAccessed) :=
    fun _ => (keeps_ask _).bind fun _ => keeps_modify fun _ => rfl
  have hread : ∀ offset count, Keeps World.inodes (id.readAt offset count) := fun _ _ =>
    (hchecked _).bind fun _ => (hstamp _).bind fun _ => keeps_pure _
  have hcursor : ∀ position, Keeps World.inodes (id.setCursor position) := fun _ =>
    keeps_modify fun _ => rfl
  exact (hchecked _).bind fun _ => (keeps_ask _).bind fun _ => (hread _ _).bind fun _ =>
    (hcursor _).bind fun _ => keeps_pure _

end HandleId

/-- The worlds hold the same, but for the attributes of their entries: directories bind the same
names to the same entries, links have the same targets, files the same inodes, handles and wishes,
and inodes the same contents and numbers of links. -/
structure World.Alike (world after : World) : Prop where
  nodes : after.namespace.node? = world.namespace.node?
  stores : after.stores = world.stores
  tally : after.tally = world.tally
  /-- With the number of handles open on each. -/
  volumes : after.volumes = world.volumes
  leases : after.namespace.leases.Perm world.namespace.leases

/-- An opening that makes no file opens what a walk finds. -/
theorem Opening.Takes.visited (h : opening.Takes world id text options handle opened)
    (hfind : options.creates = false) :
    opening.made = world.modifyVolume id Volume.takePlace ∧
      ∃ visit, world.visit id text true = .ok (opening.volume, visit) ∧
        visit.entry = opening.entry := by
  have hfound := h.found
  unfold World.openTrail at hfound
  rw [hfind, if_neg nofun] at hfound
  dsimp only at hfound
  obtain ⟨visit, hwalk, htarget⟩ := exists_of_bind_ok hfound
  have hyields := h.yields
  rw [← Except.ok.inj htarget] at hyields
  obtain ⟨hentry, _, hmade⟩ := hyields
  rw [World.walk_congr (congrArg Namespace.node? (VolumeId.namespace_takePlace id world))] at hwalk
  refine ⟨hmade, visit, ?_, hentry.symm⟩
  rw [World.visit_eq h.volume h.parsed, hwalk]
  rfl

/-- Reading never deletes, unless the file at the path was abandoned already: whether it succeeds
or fails, names, contents, link counts and open handles are what they were. -/
theorem reading_changes_nothing (h : Reachable world) {volume : Volume}
    (hvolume : world.volume id = .ok volume) (hlive : volume.isLive = true) {path : String}
    (hspares : world.SparesAt id path .reading) : world.Alike (id.readAll path world).2 := by
  have hn := h.sound
  have hwork : ∀ handle : HandleId, Keeps World.skeleton handle.readToEnd.throughStream :=
    fun handle => handle.readToEnd_keeps.throughStream
  rw [VolumeId.readAll_eq]
  rcases VolumeId.session_cases hn id path .reading hwork with
    ⟨failure, _, hrun⟩ | ⟨handle, opened, closed, opening, htakes, hclose, hrun⟩
  · rw [hrun]
    exact ⟨rfl, rfl, rfl, rfl, .refl _⟩
  · obtain ⟨hmade, _⟩ := htakes.visited rfl
    obtain rfl : volume = opening.volume := Except.ok.inj (hvolume.symm.trans htakes.volume)
    have hleaves := htakes.leaves hn hlive rfl (htakes.spared hspares) (hwork handle opened) hclose
    have hstores : (handle.readToEnd.throughStream opened).2.stores = opened.stores :=
      congrArg (Array.map Inode.store) (handle.readToEnd_keeps_inodes opened)
    rw [hrun]
    refine ⟨?_, ?_, ?_, hleaves.volumes, hleaves.leases⟩
    · rw [hleaves.nodes, hmade, VolumeId.namespace_takePlace]
    · rw [hleaves.stores, hstores, htakes.opens.stores, hmade]
      rfl
    · rw [hleaves.tally, hmade]
      rfl

/-- A file that goes with its last handle stays while another handle reads it. -/
theorem sample_read_changes_nothing :
    (VolumeId.readAll ⟨0⟩ "/box/note" World.sample).1 = .ok [] ∧
      World.sample.Alike (VolumeId.readAll ⟨0⟩ "/box/note" World.sample).2 := by
  obtain ⟨volume, hvolume, hlive⟩ := World.owned_of_ground? World.sample_ground Nat.one_pos
  exact ⟨by decide +kernel, reading_changes_nothing World.reachable_sample hvolume hlive
    (World.spares_of_all (by decide +kernel) _ _ _)⟩

/-- A volume whose only file was opened to go with its last handle and then moved. Closing the
handle did not find it where it was opened. -/
def World.strayed : World :=
  List.foldl Call.perform {} [.newVolume {}, .writeAll ⟨0⟩ "/f" [1],
    .onPath ⟨0⟩ (.openFile "/f" { deleteOnClose := true }),
    .onPath ⟨0⟩ (.move "/f" ⟨0⟩ "/g" {}), .onHandle ⟨1⟩ .close]

/-- The first reader takes such a file away, though no handle is open. -/
theorem strayed_read_deletes :
    Reachable World.strayed ∧ (∀ handle ∈ World.strayed.handles, handle.isOpen = false) ∧
      World.strayed.directory ⟨0⟩ = .ok ⟨[⟨"g", "g", .file, ⟨1⟩⟩]⟩ ∧
      (VolumeId.readAll ⟨0⟩ "/g" World.strayed).1 = .ok [1] ∧
      (VolumeId.readAll ⟨0⟩ "/g" World.strayed).2.directory ⟨0⟩ = .ok {} :=
  ⟨Reachable.start.run _, by decide +kernel, by decide +kernel, by decide +kernel,
    by decide +kernel⟩

end RamFs
