import RamFs.Handle.Open
import RamFs.Proofs.Namespace.Edits
import RamFs.Proofs.Namespace.Skeleton

/-!
Opening a file. The file to open is in the tree of the volume, or its name is free in a
directory of that tree; where a file has to be made, opening it cannot fail any more. A place
that was taken among the open handles is given back when opening fails, and a link that gives it
up takes it again.
-/

namespace RamFs

open RamFs.Action

variable {world : World} {id : VolumeId} {volume : Volume} {path : Path} {entry : EntryId}
  {file : FileNode} {options : OpenOptions}

/-! ### What there is to open -/

/-- The target lies in the tree of the volume: an entry, or a name that is free in a directory. -/
def World.OpenTarget.Fits (n : Namespace) (id : VolumeId) (volume : Volume) :
    World.OpenTarget → Prop
  | .existing entry _ => n.InTree id entry
  | .vacant directory path => n.InTree id directory ∧ ∃ name names,
      path.fileName? = some name ∧ n.node? directory = some (.directory names) ∧
        names.find? volume.collation name = none

namespace World

variable {createNew : Bool} {unseen : List EntryId} {target : OpenTarget} {parent : Visit}

theorem createTrail_lookup {bound : Option Binding}
    (hground : world.namespace.ground? id = some volume.ground)
    (h : createTrail.lookup world volume path = .ok (parent, bound)) :
    world.namespace.InTree id parent.entry ∧ ∃ name names, parent.path.fileName? = some name ∧
      world.namespace.node? parent.entry = some (.directory names) ∧
      names.find? volume.collation name = bound := by
  unfold createTrail.lookup at h
  obtain ⟨found, hfound, h⟩ := exists_of_bind_ok h
  obtain ⟨name, harrives, hname⟩ := walk_parent_arrives hground hfound
  rw [hname] at h
  obtain ⟨names, hnames, h⟩ := exists_of_bind_ok h
  cases h
  exact ⟨harrives.inTree, name, names, hname, directory_eq_ok.1 hnames, rfl⟩

theorem createTrail_fits (hground : world.namespace.ground? id = some volume.ground)
    (h : (world.createTrail volume createNew unseen path).outcome = .ok target) :
    target.Fits world.namespace id volume := by
  fun_induction World.createTrail world volume createNew unseen path with
  | case1 => cases h
  | case2 unseen path parent hlookup =>
      cases h
      exact createTrail_lookup hground hlookup
  | case3 => cases h
  | case4 unseen path parent binding hlookup =>
      cases h
      obtain ⟨htree, name, names, _, hnames, hfind⟩ := createTrail_lookup hground hlookup
      exact htree.step ⟨names, hnames, Directory.find?_mem hfind⟩
  | case5 => cases h
  | case6 _ _ _ _ _ _ _ _ _ _ _ _ ih => exact ih h
  | case7 => cases h

theorem openTrail_fits (hground : world.namespace.ground? id = some volume.ground)
    (h : (world.openTrail volume path options).outcome = .ok target) :
    target.Fits world.namespace id volume := by
  unfold World.openTrail at h
  split at h
  · exact createTrail_fits hground h
  · obtain ⟨found, hfound, h⟩ := exists_of_bind_ok h
    cases h
    exact (walk_entry_arrives hground hfound).inTree

variable {after : World}

theorem createTrail_congr (h : after.namespace.node? = world.namespace.node?) (volume : Volume)
    (createNew : Bool) (unseen : List EntryId) (path : Path) :
    after.createTrail volume createNew unseen path =
      world.createTrail volume createNew unseen path := by
  have hlookup : ∀ path, createTrail.lookup after volume path =
      createTrail.lookup world volume path := by
    intro path
    unfold createTrail.lookup
    simp only [walk_congr h, directory_eq, h]
  induction hlength : unseen.length using Nat.strongRecOn generalizing unseen path with
  | _ length ih =>
  unfold World.createTrail
  rw [hlookup, linkTarget?_congr h]
  split
  case h_1 => rfl
  case h_2 => rfl
  case h_3 parent binding _ =>
    split
    case isTrue => rfl
    case isFalse =>
      split
      case h_1 => rfl
      case h_2 =>
        split
        case isFalse => rfl
        case isTrue hlink =>
          split
          case h_1 => rfl
          case h_2 =>
            rw [ih (unseen.erase binding.entry).length (hlength ▸ length_erase_lt hlink) _ _ rfl]

/-- What is found to open depends on nothing but the nodes. -/
theorem openTrail_congr (h : after.namespace.node? = world.namespace.node?) (volume : Volume)
    (path : Path) (options : OpenOptions) :
    after.openTrail volume path options = world.openTrail volume path options := by
  unfold World.openTrail
  rw [createTrail_congr h, links_congr (linkTarget?_congr h), walk_congr h]

end World

namespace VolumeId

/-! ### Places among the open handles -/

theorem reserveHandle_room (hvolume : world.volume id = .ok volume)
    (hroom : volume.openHandles < volume.config.limits.maxOpenHandles.toNat) :
    id.reserveHandle world = (.ok (), world.modifyVolume id Volume.takePlace) := by
  unfold reserveHandle
  rw [bind_ask_ok hvolume, if_neg (Nat.not_le.2 hroom)]
  rfl

/-- A place that was taken can be given back, which leaves no trace. -/
theorem releaseHandle_taken (id : VolumeId) (world : World) :
    id.releaseHandle (world.modifyVolume id Volume.takePlace) = (.ok (), world) :=
  congrArg (Prod.mk _) (World.modifyVolume_undo fun _ => rfl)

theorem namespace_takePlace (id : VolumeId) (world : World) :
    (world.modifyVolume id Volume.takePlace).namespace = world.namespace :=
  World.namespace_modifyVolume_same fun _ => rfl

/-- With a place taken, an action that is all or nothing stays so. -/
theorem reserving_transacts {α : Type} {action : Action α} {post : α → World → Prop}
    (h : ∀ volume, world.volume id = .ok volume →
      volume.openHandles < volume.config.limits.maxOpenHandles.toNat →
      Transacts action (world.modifyVolume id Volume.takePlace) post) :
    Transacts (id.reserving action) world post := by
  unfold reserving
  cases hvolume : world.volume id with
  | error failure =>
      have hreserve : id.reserveHandle world = (.error failure, world) := by
        unfold reserveHandle
        rw [bind_apply, ask_apply, hvolume]
      exact .bind_of_same hreserve nofun
  | ok volume =>
      by_cases hroom : volume.openHandles < volume.config.limits.maxOpenHandles.toNat
      · have haction := h volume hvolume hroom
        unfold Transacts at haction ⊢
        rw [bind_ok (reserveHandle_room hvolume hroom), tryCatch_apply]
        rcases hrun : action (world.modifyVolume id Volume.takePlace) with ⟨failure | value, after⟩
        · rw [hrun] at haction
          obtain rfl : after = _ := haction
          dsimp only
          rw [bind_ok (releaseHandle_taken id world), throw_apply]
        · rw [hrun] at haction
          exact haction
      · have hreserve : id.reserveHandle world = (.error .tooManyOpenFiles, world) := by
          unfold reserveHandle
          rw [bind_ask_ok hvolume, if_pos (Nat.not_lt.1 hroom)]
          rfl
        exact .bind_of_same hreserve nofun

/-- Links on the way take the place up again each time they have given it up. -/
theorem openTarget_taken (hvolume : world.volume id = .ok volume)
    (hroom : volume.openHandles < volume.config.limits.maxOpenHandles.toNat) (path : Path)
    (options : OpenOptions) :
    id.openTarget volume path options (world.modifyVolume id Volume.takePlace) =
      (((world.modifyVolume id Volume.takePlace).openTrail volume path options).outcome,
        world.modifyVolume id Volume.takePlace) := by
  have hlinks : ∀ links : List EntryId, (links.forM fun _ => do
      id.releaseHandle
      id.reserveHandle : Action Unit) (world.modifyVolume id Volume.takePlace) =
        (.ok (), world.modifyVolume id Volume.takePlace) := by
    intro links
    induction links with
    | nil => rfl
    | cons link rest ih =>
        have hagain : (do
            id.releaseHandle
            id.reserveHandle : Action Unit) (world.modifyVolume id Volume.takePlace) =
              (.ok (), world.modifyVolume id Volume.takePlace) := by
          rw [bind_ok (releaseHandle_taken id world), reserveHandle_room hvolume hroom]
        exact (bind_ok hagain).trans ih
  unfold openTarget
  rw [bind_ok (get_apply _), bind_ok (hlinks _), lift_apply]

end VolumeId

/-! ### Opening -/

namespace World

/-- From one world to another in which one handle more is open on a file, which is remembered to
go with its last handle if either wish is there and is emptied if that is asked for. -/
structure Opens (world : World) (id : VolumeId) (entry : EntryId) (file : FileNode)
    (options : OpenOptions) (resolved : Path) (handle : HandleId) (after : World) : Prop where
  names : after.namespace =
    { world.namespace.setNode entry (.file
        { file with
          state := .live (file.openHandles + 1)
          deleteOnClose := file.deleteOnClose || options.deleteOnClose }) with
      leases := world.namespace.leases ++ [⟨id, entry⟩] }
  volumes : after.volumes = world.volumes
  tally : after.tally = world.tally
  handle : after.handle handle = .ok
    { volume := id, entry, inode := file.inode, path := resolved, options }
  stores : after.stores =
    if options.truncate && options.write then world.stores.modify file.inode.index (·.truncate 0)
    else world.stores

theorem Opens.expands {resolved : Path} {handle : HandleId} {after : World}
    (h : world.Opens id entry file options resolved handle after) (hn : world.namespace.Sound)
    (hnode : world.namespace.node? entry = some (.file file))
    (hnames : world.namespace.Names id entry) : world.Expands after := by
  have hlive := hn.bound_live hnames.1 hnode
  have hgrows : world.namespace.Grows after.namespace := by
    rw [h.names]
    cases hstate : file.state with
    | live count =>
        rw [FileNode.openHandles, hstate]
        exact hn.openFile hnode hstate rfl rfl hnames
    | pendingDeletion => exact absurd hstate hlive
  refine ⟨hgrows, fun hb => ?_⟩
  have husers : ∀ inode, after.namespace.users inode = world.namespace.users inode := by
    intro inode
    rw [h.names]
    exact Namespace.users_setFile hnode rfl hlive FileState.noConfusion
  have hbound : ∀ {other}, after.namespace.Bound other → world.namespace.Bound other := by
    rw [h.names]
    rintro other ⟨directory, binding, hbinding, hentry⟩
    exact ⟨directory, binding, (Namespace.binds_setFile hnode).1 hbinding, hentry⟩
  unfold World.Booked
  rw [h.tally]
  exact Namespace.Booked.grows hb hn hgrows husers hbound

end World

namespace VolumeId

/-- An entry that is a file in use can be opened. -/
theorem openEntry_opens (id : VolumeId) (hnode : world.namespace.node? entry = some (.file file))
    (hlive : file.state ≠ .pendingDeletion) (volume : Volume) (options : OpenOptions)
    (resolved : Path) :
    ∃ handle after, id.openEntry volume options entry resolved world = (.ok handle, after) ∧
      world.Opens id entry file options resolved handle after := by
  obtain ⟨found, hfound, hkind⟩ := World.entry_of_node? hnode
  have hfile : found.file = .ok file := Entry.file_eq_ok.2 hkind
  have hacquire : file.acquire = .ok { file with state := .live (file.openHandles + 1) } :=
    FileNode.acquire_eq_ok.2 ⟨hlive, rfl⟩
  unfold openEntry
  rw [bind_ask_ok hfound, bind_lift_ok hfile, bind_lift_ok hacquire]
  dsimp only
  rw [bind_ok (modify_apply ..)]
  generalize hopened : FileNode.mk file.inode (.live (file.openHandles + 1))
    (file.deleteOnClose || options.deleteOnClose) = opened
  have hnames : (world.modifyEntry entry (·.withFile opened)).namespace =
      world.namespace.setNode entry (.file opened) := World.namespace_modifyEntry _ hfound
  -- the handle comes last, and is all that is new in the list of handles
  have hfinish : ∀ {middle : World},
      middle.namespace = world.namespace.setNode entry (.file opened) →
      middle.volumes = world.volumes → middle.tally = world.tally →
      (middle.stores = if options.truncate && options.write then
        world.stores.modify file.inode.index (·.truncate 0) else world.stores) →
      ∃ handle after, (Action.add (·.addHandle
        { volume := id, entry, inode := file.inode, path := resolved, options }) :
        Action HandleId) middle = (.ok handle, after) ∧
      world.Opens id entry file options resolved handle after := by
    intro middle hnames hvolumes htally hstores
    rw [add_apply]
    refine ⟨_, _, rfl, ?_, hvolumes, htally, ?_, hstores⟩
    · rw [World.namespace_addHandle ⟨id, entry⟩ rfl, hnames, ← hopened]
      rfl
    · unfold World.handle World.addHandle
      rw [Array.getElem?_push_size]
  split
  case isTrue htruncate =>
    rw [bind_ok (modify_apply ..), bind_ok (get_apply _)]
    unfold Action.touchModified
    rw [bind_ok (modify_apply ..)]
    refine hfinish ?_ rfl (World.tally_modifyInode_same fun _ => rfl) ?_
    · refine (World.namespace_modifyEntry_same fun _ => ?_).trans ?_
      · rfl
      · rw [World.namespace_modifyInode, hnames]
    · have hstores : ((world.modifyEntry entry (·.withFile opened)).modifyInode file.inode
          (·.truncate 0)).stores = world.stores.modify file.inode.index (·.truncate 0) :=
        World.stores_modifyInode (·.truncate 0) fun _ => rfl
      rw [if_pos htruncate]
      exact hstores
  case isFalse htruncate => exact hfinish hnames rfl rfl (if_neg htruncate).symm

end VolumeId

/-! ### Whole openings -/

namespace World

/-- What a target comes to: the file that is there, or a new one under the free name. -/
def OpenTarget.Yields (world : World) (id : VolumeId) (volume : Volume) (entry : EntryId)
    (resolved : Path) (file : FileNode) (made : World) : OpenTarget → Prop
  | .existing found path => entry = found ∧ resolved = path ∧ made = world
  | .vacant directory path => resolved = path ∧ file = { inode := file.inode } ∧ ∃ name names,
      path.fileName? = some name ∧ world.namespace.node? directory = some (.directory names) ∧
      Placed world id directory names volume.collation name .file entry (.file file) made

end World

/-- How a file came to be opened. -/
structure Opening where
  volume : Volume
  path : Path
  target : World.OpenTarget
  entry : EntryId
  /-- The path without links. -/
  resolved : Path
  file : FileNode
  /-- The world when the file is there. -/
  made : World

/-- The opening leads from one world to another, with a new handle. -/
structure Opening.Takes (opening : Opening) (world : World) (id : VolumeId) (text : String)
    (options : OpenOptions) (handle : HandleId) (after : World) : Prop where
  volume : world.volume id = .ok opening.volume
  parsed : opening.volume.parse text = .ok opening.path
  room : opening.volume.openHandles < opening.volume.config.limits.maxOpenHandles.toNat
  found : ((world.modifyVolume id Volume.takePlace).openTrail opening.volume opening.path
    options).outcome = .ok opening.target
  yields : opening.target.Yields (world.modifyVolume id Volume.takePlace) id opening.volume
    opening.entry opening.resolved opening.file opening.made
  expands : (world.modifyVolume id Volume.takePlace).Expands opening.made
  roster : opening.made.roster = (world.modifyVolume id Volume.takePlace).roster
  node : opening.made.namespace.node? opening.entry = some (.file opening.file)
  named : opening.made.namespace.Names id opening.entry
  opens : opening.made.Opens id opening.entry opening.file options opening.resolved handle after

namespace Opening

variable {opening : Opening} {text : String} {handle : HandleId} {after : World}

theorem Takes.expands_after (h : opening.Takes world id text options handle after)
    (hn : world.namespace.Sound) : world.Expands after := by
  have htaken : world.Expands (world.modifyVolume id Volume.takePlace) :=
    .of_same hn (VolumeId.namespace_takePlace id world) rfl
  exact World.Expands.trans (World.Expands.trans htaken h.expands)
    (h.opens.expands h.expands.evolves.sound h.node h.named)

theorem Takes.holder (h : opening.Takes world id text options handle after) :
    after.holder? handle = some ⟨id, opening.entry⟩ :=
  World.holder_eq_some.2 ⟨_, h.opens.handle, rfl, rfl⟩

/-- One handle more is open on the volume, which had room for it. -/
theorem Takes.roster_after (h : opening.Takes world id text options handle after) :
    after.roster = ⟨world.volumes.modify id.index Volume.takePlace,
      world.namespace.leases ++ [⟨id, opening.entry⟩]⟩ := by
  have hvolumes : opening.made.volumes = world.volumes.modify id.index Volume.takePlace :=
    congrArg Roster.volumes h.roster
  have hleases : opening.made.namespace.leases = world.namespace.leases := by
    rw [← VolumeId.namespace_takePlace id world]
    exact congrArg Roster.leases h.roster
  unfold World.roster
  rw [h.opens.volumes, h.opens.names, hvolumes]
  dsimp only
  rw [hleases]

theorem Takes.volume_after (h : opening.Takes world id text options handle after) :
    after.volume id = .ok opening.volume.takePlace := by
  have hvolumes : after.volumes = world.volumes.modify id.index Volume.takePlace :=
    congrArg Roster.volumes h.roster_after
  unfold World.volume
  rw [hvolumes]
  exact World.volume_modifyVolume h.volume

end Opening

namespace VolumeId

theorem entryToOpen_keeps {δ : Type} {view : World → δ} [Aloof view] (volume : Volume)
    (target : World.OpenTarget) : Keeps view (entryToOpen volume target) := by
  cases target with
  | existing entry path => exact keeps_pure _
  | vacant directory path =>
      unfold entryToOpen
      dsimp only
      split
      · refine keeps_get.bind fun _ => (newFile_keeps volume).bind fun _ =>
          .bind (keeps_add fun _ => Aloof.new_entry) fun _ => ?_
        exact .bind (bind_keeps _ _ _ _ _ _) fun _ => keeps_pure _
      · exact keeps_throw _

theorem openEntry_transacts (hn : world.namespace.Sound) (htree : world.namespace.InTree id entry)
    (volume : Volume) (options : OpenOptions) (resolved : Path) :
    Transacts (id.openEntry volume options entry resolved) world fun handle after =>
      ∃ file, world.namespace.node? entry = some (.file file) ∧ world.namespace.Names id entry ∧
        world.Opens id entry file options resolved handle after := by
  by_cases hlive : ∃ file, world.namespace.node? entry = some (.file file) ∧
      file.state ≠ .pendingDeletion
  · obtain ⟨file, hnode, hstate⟩ := hlive
    obtain ⟨handle, after, hrun, hopens⟩ :=
      openEntry_opens id hnode hstate volume options resolved
    exact .of_ok hrun ⟨file, hnode, hn.names_of_file htree hnode, hopens⟩
  · unfold openEntry
    refine transacts_ask_bind fun found hfound => transacts_lift_bind fun file hfile =>
      transacts_lift_bind fun opened hopened => absurd ?_ hlive
    have hnode := World.node?_of_entry hfound
    rw [Entry.file_eq_ok.1 hfile] at hnode
    exact ⟨file, hnode, (FileNode.acquire_eq_ok.1 hopened).1⟩

/-- Where its name is free, a file can be made. -/
theorem entryToOpen_vacant {directory : EntryId} {resolved : Path} (hn : world.namespace.Sound)
    (hground : world.namespace.ground? id = some volume.ground)
    (hfits : (World.OpenTarget.vacant directory resolved).Fits world.namespace id volume) :
    ∃ entry file made, entryToOpen volume (.vacant directory resolved) world =
        (.ok (entry, resolved), made) ∧ file = { inode := ⟨world.inodes.size⟩ } ∧
      ∃ name names, resolved.fileName? = some name ∧
        world.namespace.node? directory = some (.directory names) ∧
        Placed world id directory names volume.collation name .file entry (.file file) made := by
  obtain ⟨htree, name, names, hname, hnode, hfree⟩ := hfits
  obtain ⟨node, middle, made, hnew, hbind, hplaced⟩ :=
    supply_named hn (supplies_inode (.new volume.config.limits.maxFileBlocks.toNat) rfl) hground
      htree hnode hfree (.at (world.now volume)) (volume.ownership {} .file) (world.now volume)
  cases node with
  | directory names => exact absurd hplaced.node_kind nofun
  | symlink target => exact absurd hplaced.node_kind nofun
  | file file =>
      have hfile : Node.file { inode := ⟨world.inodes.size⟩ } = .file file :=
        Except.ok.inj (congrArg Prod.fst hnew)
      obtain rfl := Node.file.inj hfile
      refine ⟨_, _, made, ?_, rfl, name, names, hname, hnode, hplaced⟩
      have hbind' : Action.bind directory volume.collation name .file _ _ _ = _ := hbind
      unfold entryToOpen
      dsimp only
      rw [hname]
      dsimp only
      rw [bind_ok (get_apply _)]
      unfold newFile
      rw [bind_ok hnew, bind_ok (add_apply ..), bind_ok hbind', pure_apply]

/-- An opening, and the two steps that it took. A file that is made has an inode of its own. -/
theorem openFile_makes (hn : world.namespace.Sound) (id : VolumeId) (text : String)
    (options : OpenOptions) :
    Transacts (id.openFile text options) world fun handle after =>
      ∃ opening : Opening, opening.Takes world id text options handle after ∧
        entryToOpen opening.volume opening.target (world.modifyVolume id Volume.takePlace) =
          (.ok (opening.entry, opening.resolved), opening.made) ∧
        id.openEntry opening.volume options opening.entry opening.resolved opening.made =
          (.ok handle, after) ∧
        ∀ directory path, opening.target = .vacant directory path →
          opening.file.inode = ⟨world.inodes.size⟩ := by
  unfold openFile
  dsimp only
  split
  · exact transacts_throw
  split
  · exact transacts_throw
  refine transacts_ask_bind fun volume hvolume => transacts_lift_bind fun path hpath => ?_
  refine reserving_transacts fun found hfound hroom => ?_
  obtain rfl : volume = found := Except.ok.inj (hvolume.symm.trans hfound)
  refine .bind_of_same (openTarget_taken hvolume hroom path options) fun target htarget => ?_
  have hground : (world.modifyVolume id Volume.takePlace).namespace.ground? id =
      some volume.ground := by
    rw [namespace_takePlace]
    exact World.ground?_of_volume hvolume
  have hfits := World.openTrail_fits hground htarget
  rw [← namespace_takePlace id world] at hn
  cases target with
  | existing entry resolved =>
      refine (openEntry_transacts hn hfits volume options resolved).ran.mono ?_
      rintro handle after ⟨hrun, file, hnode, hnamed, hopens⟩
      exact ⟨⟨volume, path, _, entry, resolved, file, _⟩, ⟨hvolume, hpath, hroom, htarget,
        ⟨rfl, rfl, rfl⟩, .refl hn, rfl, hnode, hnamed, hopens⟩, rfl, hrun, nofun⟩
  | vacant directory resolved =>
      obtain ⟨entry, file, made, hmake, hnew, name, names, hname, hnode, hplaced⟩ :=
        entryToOpen_vacant hn hground hfits
      have hlive : file.state ≠ .pendingDeletion := by rw [hnew]; exact nofun
      apply Transacts.bind_of_ok hmake
      obtain ⟨handle, after, hrun, hopens⟩ := openEntry_opens id hplaced.made hlive volume options
        resolved
      have hroster : World.roster _ = _ := entryToOpen_keeps volume (.vacant directory resolved)
        (world.modifyVolume id Volume.takePlace)
      rw [hmake] at hroster
      exact ⟨handle, after, hrun, ⟨volume, path, _, entry, resolved, file, made⟩,
        ⟨hvolume, hpath, hroom, htarget, ⟨rfl, hnew ▸ rfl, name, names, hname, hnode, hplaced⟩,
          hplaced.advances, hroster, hplaced.made, hplaced.named, hopens⟩, hmake, hrun,
        fun _ _ _ => congrArg FileNode.inode hnew⟩

theorem openFile_transacts (hn : world.namespace.Sound) (id : VolumeId) (text : String)
    (options : OpenOptions) :
    Transacts (id.openFile text options) world fun handle after =>
      ∃ opening : Opening, opening.Takes world id text options handle after :=
  (openFile_makes hn id text options).mono fun _ _ ⟨opening, htakes, _⟩ => ⟨opening, htakes⟩

/-- A file in use that is there to open can be opened where there is room. -/
theorem openFile_existing {text : String} {resolved : Path}
    (hwrites : (options.creates && !options.write) = false)
    (hkeeps : (options.append && options.truncate) = false)
    (hvolume : world.volume id = .ok volume) (hparse : volume.parse text = .ok path)
    (hroom : volume.openHandles < volume.config.limits.maxOpenHandles.toNat)
    (htarget : (world.openTrail volume path options).outcome = .ok (.existing entry resolved))
    (hnode : world.namespace.node? entry = some (.file file))
    (hlive : file.state ≠ .pendingDeletion) :
    ∃ handle opened, id.openFile text options world = (.ok handle, opened) ∧
      (world.modifyVolume id Volume.takePlace).Opens id entry file options resolved handle
        opened := by
  have hsame := namespace_takePlace id world
  rw [← World.openTrail_congr (congrArg Namespace.node? hsame)] at htarget
  have hfind : id.openTarget volume path options (world.modifyVolume id Volume.takePlace) =
      (.ok (.existing entry resolved), world.modifyVolume id Volume.takePlace) :=
    htarget ▸ openTarget_taken hvolume hroom path options
  rw [← hsame] at hnode
  obtain ⟨handle, opened, hopen, hopens⟩ := openEntry_opens id hnode hlive volume options resolved
  refine ⟨handle, opened, ?_, hopens⟩
  unfold openFile
  dsimp only
  rw [hwrites, hkeeps, if_neg nofun, if_neg nofun, bind_ask_ok hvolume, bind_lift_ok hparse]
  unfold reserving
  rw [bind_ok (reserveHandle_room hvolume hroom), tryCatch_apply, bind_ok hfind]
  have hmake : entryToOpen volume (.existing entry resolved)
      (world.modifyVolume id Volume.takePlace) =
        (.ok (entry, resolved), world.modifyVolume id Volume.takePlace) := rfl
  rw [bind_ok hmake, hopen]

/-- A file that a walk finds can be opened for reading where there is room. -/
theorem openFile_found {text : String} {visit : Visit} (hvolume : world.volume id = .ok volume)
    (hparse : volume.parse text = .ok path)
    (hroom : volume.openHandles < volume.config.limits.maxOpenHandles.toNat)
    (hwalk : world.walk volume path (.entry true) true = .ok visit)
    (hnode : world.namespace.node? visit.entry = some (.file file))
    (hlive : file.state ≠ .pendingDeletion) :
    ∃ handle opened, id.openFile text .reading world = (.ok handle, opened) := by
  have htarget : (world.openTrail volume path .reading).outcome =
      .ok (.existing visit.entry visit.path) := by
    unfold World.openTrail
    rw [if_neg nofun]
    dsimp only
    rw [hwalk]
    rfl
  obtain ⟨handle, opened, hopen, _⟩ :=
    openFile_existing rfl rfl hvolume hparse hroom htarget hnode hlive
  exact ⟨handle, opened, hopen⟩

end VolumeId

end RamFs
