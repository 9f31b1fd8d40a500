import RamFs.Proofs.Accounts.Handles
import RamFs.Proofs.Namespace.Canonical
import RamFs.Proofs.Sessions.Creating
import RamFs.Proofs.Sharing.Additions

/-!
What opening a file does to a world. It takes one place among the open handles, and the file counts
one handle more. The file was there, or it is made under the name that the handle's path ends with,
in a directory that was there. Only an inode that is opened to be truncated loses its bytes, and
links, other entries and other handles are as they were.
-/

namespace RamFs

open RamFs.Action

variable {world made after : World} {id : VolumeId} {volume : Volume} {options : OpenOptions}
  {handle : HandleId} {held : Handle} {entry directory : EntryId} {file : FileNode} {found : Entry}
  {text : String} {opening : Opening}

/-! ### What opening does -/

/-- The options ask for a file to be emptied. -/
def OpenOptions.cuts (options : OpenOptions) : Bool :=
  options.truncate && options.write

/-- The file with one handle more. -/
def FileNode.opened (file : FileNode) (options : OpenOptions) : FileNode :=
  { file with
    state := .live (file.openHandles + 1)
    deleteOnClose := file.deleteOnClose || options.deleteOnClose }

/-- The entry of a file that is opened at some time. -/
def Entry.opened (found : Entry) (file : FileNode) (options : OpenOptions) (now : Time) : Entry :=
  if options.cuts then (found.withFile (file.opened options)).touchModified now
  else found.withFile (file.opened options)

/-- From one world to another in which a file that was there is open. No name is other than it was,
and no entry but that of the file. -/
structure World.OpensOld (world : World) (volume : Volume) (held : Handle) (after : World) : Prop where
  there : world.inodeOf? held.entry = some held.inode
  names : ∀ directory binding, after.namespace.Binds directory binding ↔
    world.namespace.Binds directory binding
  opened : ∃ found file, world.entry held.entry = .ok found ∧ found.node = .file file ∧
    after.entry held.entry = .ok (found.opened file held.options (world.now volume))
  others : ∀ {entry found}, world.entry entry = .ok found → entry ≠ held.entry →
    after.entry entry = .ok found

/-- From one world to another in which a file that was not there is open. There is one name more,
where the path of the handle says, in a directory that was there. -/
structure World.OpensNew (world : World) (volume : Volume) (directory : EntryId) (name : String)
    (held : Handle) (after : World) : Prop where
  fresh : world.entry held.entry = .error .notFound
  size : after.entries.size = world.entries.size + 1
  /-- The file is empty, and its inode is its own. -/
  unshared : ∀ entry, world.inodeOf? entry ≠ some held.inode
  empty : ∃ stored, after.inode held.inode = .ok stored ∧ stored.store.contents = [] ∧
    stored.links = 1
  opened : after.entry held.entry = .ok ⟨.at (world.now volume), volume.ownership {} .file,
    .file ⟨held.inode, .live 1, held.options.deleteOnClose⟩⟩
  /-- The path of the handle without its last name leads to the directory, with no link on it. -/
  parent : ∃ parent, held.path.parent? = some parent ∧ ∀ followLast followLinks, ∃ route,
    world.walk volume parent (.entry followLast) followLinks = .ok ⟨directory, route, parent⟩
  /-- Its last name was free there, and is the only one that is added. -/
  named : held.path.fileName? = some name
  free : ∃ names, world.directory directory = .ok names ∧ names.find? volume.collation name = none
  names : ∀ parent binding, after.namespace.Binds parent binding ↔
    world.namespace.Binds parent binding ∨
      parent = directory ∧ binding = ⟨volume.collation.key name, name, .file, held.entry⟩
  /-- Afterwards the path leads to the file. -/
  found : ∀ followLast followLinks, ∃ route,
    after.walk volume.takePlace held.path (.entry followLast) followLinks =
      .ok ⟨held.entry, route, held.path⟩
  /-- Of what was there before, only the directory is other: it has the name and is stamped. -/
  stamped : ∃ found names, world.entry directory = .ok found ∧
    after.entry directory = .ok ((found.withDirectory names).touchModified (world.now volume))
  others : ∀ {entry found}, world.entry entry = .ok found → entry ≠ directory →
    after.entry entry = .ok found

/-- From one world to another in which a file has been opened, and nothing else has happened. -/
structure World.Opened (world : World) (id : VolumeId) (volume : Volume) (options : OpenOptions)
    (handle : HandleId) (held : Handle) (after : World) : Prop where
  /-- The handle is new, and all others are as they were. -/
  handle : after.handle handle = .ok held
  handles : after.handles = world.handles.push held
  asked : held.volume = id ∧ held.options = options
  /-- It counts for one entry and for one volume. -/
  count : ∀ entry, after.countAt entry = world.countAt entry + if entry = held.entry then 1 else 0
  volumes : ∀ {other found}, world.volume other = .ok found → after.volume other =
    .ok (if other = id then { found with openHandles := found.openHandles + 1 } else found)
  /-- Only the inode of the handle may lose its bytes, and only if that was asked for. -/
  inodes : ∀ {inode stored}, world.inode inode = .ok stored → after.inode inode =
    .ok (if inode = held.inode ∧ options.cuts = true then stored.truncate 0 else stored)
  emptied : options.cuts = true →
    ∃ stored, after.inode held.inode = .ok stored ∧ stored.store.contents = []
  /-- The file was there and did not have to be new, or it was to be created and is new. -/
  file : (options.createNew = false ∧ world.OpensOld volume held after) ∨
    (options.creates = true ∧ ∃ directory name, world.OpensNew volume directory name held after)
  links : after.linkTarget? = world.linkTarget?
  clock : after.clock = world.clock

/-! ### A handle on an entry -/

/-- From one world to another in which an entry has a handle more, on the inode of its file. -/
structure World.Engages (world : World) (volume : Volume) (file : FileNode) (held : Handle)
    (after : World) : Prop where
  clock : after.clock = world.clock
  size : after.entries.size = world.entries.size
  handles : after.handles = world.handles.push held
  own : ∀ {found}, world.entry held.entry = .ok found →
    after.entry held.entry = .ok (found.opened file held.options (world.now volume))
  others : ∀ {other}, other ≠ held.entry → after.entry other = world.entry other
  inode : ∀ {other stored}, world.inode other = .ok stored → after.inode other =
    .ok (if other = file.inode ∧ held.options.cuts = true then stored.truncate 0 else stored)

theorem VolumeId.openEntry_engages {resolved : Path} (hfound : world.entry entry = .ok found)
    (hfile : found.node = .file file)
    (hrun : id.openEntry volume options entry resolved world = (.ok handle, after)) :
    world.Engages volume file { volume := id, entry, inode := file.inode, path := resolved, options }
      after := by
  unfold openEntry at hrun
  obtain ⟨found', hfound', hrun⟩ := asked_of_bind_ok hrun
  obtain rfl := Except.ok.inj (hfound.symm.trans hfound')
  obtain ⟨file', hfile', hrun⟩ := lifted_of_bind_ok hrun
  rw [Entry.file_eq_ok, hfile] at hfile'
  obtain rfl := Node.file.inj hfile'
  obtain ⟨acquired, hacquire, hrun⟩ := lifted_of_bind_ok hrun
  obtain ⟨-, rfl⟩ := FileNode.acquire_eq_ok.1 hacquire
  dsimp only at hrun
  rw [bind_ok (modify_apply ..)] at hrun
  -- the handle comes last and leaves entries and inodes alone
  have hfinish : ∀ {middle : World}, Action.add (·.addHandle
        { volume := id, entry, inode := file.inode, path := resolved, options }) middle =
          (.ok handle, after) →
      middle.clock = world.clock → middle.entries.size = world.entries.size →
      middle.handles = world.handles →
      (∀ {found}, world.entry entry = .ok found →
        middle.entry entry = .ok (found.opened file options (world.now volume))) →
      (∀ {other}, other ≠ entry → middle.entry other = world.entry other) →
      (∀ {other stored}, world.inode other = .ok stored → middle.inode other =
        .ok (if other = file.inode ∧ options.cuts = true then stored.truncate 0 else stored)) →
      world.Engages volume file
        { volume := id, entry, inode := file.inode, path := resolved, options } after := by
    intro middle hadd hclock hsize hhandles hown hothers hinode
    cases hadd
    exact ⟨hclock, hsize, congrArg (Array.push · _) hhandles, hown, hothers, hinode⟩
  split at hrun
  case isTrue hcuts =>
    have hcut : options.cuts = true := hcuts
    rw [bind_ok (modify_apply ..), bind_ok (get_apply _)] at hrun
    unfold Action.touchModified at hrun
    rw [bind_ok (modify_apply ..)] at hrun
    have hopened : ∀ found : Entry, (found.withFile (file.opened options)).touchModified
        (world.now volume) = found.opened file options (world.now volume) :=
      fun _ => (if_pos hcut).symm
    refine hfinish hrun rfl ((Array.size_modify ..).trans (Array.size_modify ..)) rfl
      (fun hfound => ?_) (fun hother => ?_) (fun hstored => ?_)
    · rw [World.entry_modifyEntry_self ((World.entry_modifyInode ..).trans
        (World.entry_modifyEntry_self hfound _))]
      exact congrArg Except.ok (hopened _)
    · rw [World.entry_modifyEntry_of_ne hother, World.entry_modifyInode,
        World.entry_modifyEntry_of_ne hother]
    · refine World.inode_modifyInode.trans ((congrArg (Except.map _) hstored).trans ?_)
      simp only [hcut, and_true]
      rfl
  case isFalse hcuts =>
    have hcut : ¬options.cuts = true := hcuts
    have hopened : ∀ found : Entry, found.withFile (file.opened options) =
        found.opened file options (world.now volume) := fun _ => (if_neg hcut).symm
    refine hfinish hrun rfl (Array.size_modify ..) rfl (fun hfound => ?_)
      (fun hother => World.entry_modifyEntry_of_ne hother _) (fun hstored => ?_)
    · exact (World.entry_modifyEntry_self hfound _).trans (congrArg Except.ok (hopened _))
    · rw [if_neg fun h => hcut h.2]
      exact hstored

/-! ### A file where there was none -/

theorem Inode.contents_truncate_zero (stored : Inode) : (stored.truncate 0).store.contents = [] := by
  rw [← List.length_eq_zero_iff, BlockStore.length_contents]
  unfold Inode.truncate BlockStore.truncate
  dsimp only
  split
  case isTrue h => exact Nat.le_zero.1 h
  case isFalse => rfl

/-- From one world to another with one file more, which is empty and has a name in a directory. -/
structure World.AddsFile (world : World) (volume : Volume) (directory : EntryId) (after : World) :
    Prop where
  clock : after.clock = world.clock
  handles : after.handles = world.handles
  size : after.entries.size = world.entries.size + 1
  own : after.entry ⟨world.entries.size⟩ = .ok ⟨.at (world.now volume), volume.ownership {} .file,
    .file { inode := ⟨world.inodes.size⟩ }⟩
  empty : after.inode ⟨world.inodes.size⟩ =
    .ok (.new volume.config.limits.maxFileBlocks.toNat)
  stamped : ∃ found names, world.entry directory = .ok found ∧
    after.entry directory = .ok ((found.withDirectory names).touchModified (world.now volume))
  others : ∀ {other found}, world.entry other = .ok found → other ≠ directory →
    after.entry other = .ok found
  inode : ∀ {other stored}, world.inode other = .ok stored → after.inode other = .ok stored

theorem VolumeId.entryToOpen_adds {path resolved : Path} {names : Directory}
    (hdirectory : world.directory directory = .ok names)
    (hrun : entryToOpen volume (.vacant directory path) world = (.ok (entry, resolved), made)) :
    entry = ⟨world.entries.size⟩ ∧ world.AddsFile volume directory made := by
  unfold entryToOpen at hrun
  dsimp only at hrun
  cases hname : path.fileName? with
  | none =>
      rw [hname] at hrun
      cases hrun
  | some name =>
      rw [hname] at hrun
      dsimp only at hrun
      rw [bind_ok (get_apply _)] at hrun
      unfold newFile at hrun
      simp only [bind_assoc, pure_bind] at hrun
      rw [bind_ok (add_apply ..), bind_ok (add_apply ..)] at hrun
      obtain ⟨_, middle, hbind, hrun⟩ := ran_of_bind_ok hrun
      cases hrun
      unfold Action.bind at hbind
      obtain ⟨found, hfound, hbind⟩ := asked_of_bind_ok hbind
      obtain ⟨bound, hinsert, hbind⟩ := lifted_of_bind_ok hbind
      cases hbind
      have hsame : world.Enlarges world := .refl
      have henlarges := (hsame.addInode (.new volume.config.limits.maxFileBlocks.toNat)).addEntry
        ⟨.at (world.now volume), volume.ownership {} .file, .file { inode := ⟨world.inodes.size⟩ }⟩
      have hnew : (⟨world.entries.size⟩ : EntryId) ≠ directory := by
        rintro rfl
        rw [World.directory_eq_ok, World.node?_next] at hdirectory
        cases hdirectory
      refine ⟨rfl, rfl, rfl, ?_, ?_, World.inode_added _, ?_, ?_, henlarges.inode⟩
      · exact (Array.size_modify ..).trans (Array.size_push ..)
      · exact (World.entry_modifyEntry_of_ne hnew _).trans (World.entry_added _)
      · obtain ⟨found, hfound, -⟩ := World.entry_of_node? (World.directory_eq_ok.1 hdirectory)
        exact ⟨found, bound, hfound, World.entry_modifyEntry_self (henlarges.entry hfound) _⟩
      · exact fun hfound hother =>
          (World.entry_modifyEntry_of_ne hother _).trans (henlarges.entry hfound)

/-! ### What was found to open -/

namespace World

variable {createNew : Bool} {unseen : List EntryId} {path resolved : Path} {target : OpenTarget}

/-- A file that has to be new is looked for no further than its name. -/
theorem createTrail_new (h : (world.createTrail volume true unseen path).outcome = .ok target) :
    ∃ directory resolved, target = .vacant directory resolved := by
  unfold World.createTrail at h
  split at h
  case h_1 => cases h
  case h_2 parent hlookup => exact ⟨_, _, (Except.ok.inj h).symm⟩
  case h_3 => cases h

theorem openTrail_existing
    (h : (world.openTrail volume path options).outcome = .ok (.existing entry resolved)) :
    options.createNew = false := by
  by_contra hnew
  rw [Bool.not_eq_false] at hnew
  unfold World.openTrail OpenOptions.creates at h
  rw [hnew, Bool.or_true, if_pos rfl] at h
  obtain ⟨_, _, hvacant⟩ := createTrail_new h
  cases hvacant

/-- A name that is free is found only where a file may be created. It is in a directory of the tree,
to which the names before it lead. -/
theorem openTrail_vacant (hground : world.namespace.ground? id = some volume.ground)
    (h : (world.openTrail volume path options).outcome = .ok (.vacant directory resolved)) :
    options.creates = true ∧ ∃ top bindings name, world.namespace.IsRoot id resolved.root top ∧
      world.namespace.Leads top bindings directory ∧
      resolved = volume.pathOf resolved.root (bindings.map Binding.name ++ [name]) := by
  unfold World.openTrail at h
  split at h
  case isTrue hcreates =>
    obtain ⟨top, bindings, _, names, name, hroot, hleads, _, hpath, rfl⟩ :=
      createTrail_spells hground h
    exact ⟨hcreates, top, bindings, name, hroot, hleads, hpath⟩
  case isFalse =>
    obtain ⟨_, _, hfound⟩ := exists_of_bind_ok h
    cases hfound

end World

/-! ### Counts -/

theorem World.Opens.countAt {resolved : Path}
    (h : world.Opens id entry file options resolved handle after)
    (hnode : world.namespace.node? entry = some (.file file)) (other : EntryId) :
    after.countAt other = world.countAt other + if other = entry then 1 else 0 := by
  unfold World.countAt
  rw [h.names]
  dsimp only
  by_cases hsame : other = entry
  · subst hsame
    rw [Namespace.node?_setNode_self, hnode, if_pos rfl]
    rfl
  · rw [Namespace.node?_setNode_of_ne hsame, if_neg hsame, Nat.add_zero]

theorem World.volume_taken (hvolumes : after.volumes = world.volumes.modify id.index Volume.takePlace)
    {other : VolumeId} {found : Volume} (hfound : world.volume other = .ok found) :
    after.volume other = .ok (if other = id then found.takePlace else found) := by
  unfold World.volume
  rw [hvolumes, Array.getElem?_modify, World.volume_eq_ok hfound]
  by_cases hsame : other = id
  · rw [if_pos hsame, if_pos (congrArg VolumeId.index hsame.symm)]
    rfl
  · rw [if_neg hsame, if_neg fun hindex => hsame (congrArg VolumeId.mk hindex.symm)]

/-- A file that nobody has open yet does not count. -/
theorem Action.Placed.countAt {names : Directory} {collation : Collation} {name : String}
    {kind : Kind} {node : Node}
    (h : Placed world id directory names collation name kind entry node made)
    (hnames : world.namespace.node? directory = some (.directory names)) (other : EntryId) :
    made.countAt other = world.countAt other := by
  obtain ⟨names', -, hnames'⟩ := h.bound
  unfold World.countAt
  by_cases hdirectory : other = directory
  · rw [hdirectory, hnames, hnames']
  by_cases hentry : other = entry
  · rw [hentry, h.made, h.fresh]
    have hidle := h.node_idle
    cases node with
    | directory names => rfl
    | symlink target => rfl
    | file file =>
        have hstate : file.state = .live 0 := hidle
        dsimp only
        rw [FileNode.openHandles, hstate]
  · rw [h.same hentry hdirectory]

/-! ### Openings -/

/-- The handle that an opening makes. -/
def Opening.granted (opening : Opening) (id : VolumeId) (options : OpenOptions) : Handle :=
  { volume := id, entry := opening.entry, inode := opening.file.inode, path := opening.resolved,
    options }

/-- Where an opening has made its file: under the last name of the path, which was free in a
directory to which the names before it lead. -/
structure Opening.Makes (world : World) (id : VolumeId) (opening : Opening)
    (directory top : EntryId) (bindings : List Binding) (name : String) (after : World) : Prop where
  root : world.namespace.IsRoot id opening.resolved.root top
  leads : world.namespace.Leads top bindings directory
  path : opening.resolved =
    opening.volume.pathOf opening.resolved.root (bindings.map Binding.name ++ [name])
  named : opening.resolved.fileName? = some name
  free : ∃ names, world.directory directory = .ok names ∧
    names.find? opening.volume.collation name = none
  binds : ∀ parent binding, after.namespace.Binds parent binding ↔
    world.namespace.Binds parent binding ∨ parent = directory ∧
      binding = ⟨opening.volume.collation.key name, name, .file, opening.entry⟩

/-- The names before the last one are a path that leads to the directory as it stands. -/
theorem Opening.Makes.parent {top : EntryId} {bindings : List Binding} {name : String}
    (hn : world.namespace.Sound) (hvolume : world.volume id = .ok opening.volume)
    (h : opening.Makes world id directory top bindings name after) :
    ∃ parent, opening.resolved.parent? = some parent ∧ ∀ followLast followLinks, ∃ route,
      world.walk opening.volume parent (.entry followLast) followLinks =
        .ok ⟨directory, route, parent⟩ := by
  obtain ⟨_, hnames, -⟩ := h.free
  refine ⟨opening.volume.pathOf opening.resolved.root (bindings.map Binding.name), ?_,
    fun followLast followLinks => ?_⟩
  · rw [h.path]
    simp [Path.parent?, Path.isRoot, Path.withElements, Volume.pathOf]
  · have hroot : world.namespace.IsRoot id (opening.volume.pathOf opening.resolved.root
      (bindings.map Binding.name)).root top := h.root
    exact ⟨_, World.walk_down hn (World.ground?_of_volume hvolume) hroot h.leads
      (World.linkTarget?_of_directory (World.directory_eq_ok.1 hnames)) rfl followLast followLinks⟩

namespace Opening.Takes

theorem countAt (h : opening.Takes world id text options handle after) (other : EntryId) :
    after.countAt other = world.countAt other + if other = opening.entry then 1 else 0 := by
  have htaken : (world.modifyVolume id Volume.takePlace).countAt other = world.countAt other := by
    unfold World.countAt
    rw [VolumeId.namespace_takePlace]
  rw [h.opens.countAt h.node, ← htaken]
  congr 1
  have hyields := h.yields
  cases htarget : opening.target with
  | existing found path =>
      rw [htarget] at hyields
      rw [hyields.2.2]
  | vacant directory path =>
      rw [htarget] at hyields
      obtain ⟨_, _, name, names, _, hnames, hplaced⟩ := hyields
      exact hplaced.countAt hnames other

theorem links (h : opening.Takes world id text options handle after) :
    after.linkTarget? = world.linkTarget? := by
  have htaken : (world.modifyVolume id Volume.takePlace).linkTarget? = world.linkTarget? :=
    (World.Retains.of_same (congrArg Namespace.node? (VolumeId.namespace_takePlace id world))).links
  rw [(h.opens.retains h.node).links, ← htaken]
  have hyields := h.yields
  cases htarget : opening.target with
  | existing found path =>
      rw [htarget] at hyields
      rw [hyields.2.2]
  | vacant directory path =>
      rw [htarget] at hyields
      obtain ⟨_, _, name, names, _, hnames, hplaced⟩ := hyields
      exact (hplaced.retains hnames).1.links

/-- The step that makes the handle. -/
theorem engages (h : opening.Takes world id text options handle after)
    (hrun : id.openEntry opening.volume options opening.entry opening.resolved opening.made =
      (.ok handle, after)) :
    opening.made.Engages opening.volume opening.file (opening.granted id options) after := by
  obtain ⟨found, hfound, hfile⟩ := World.entry_of_node? h.node
  exact VolumeId.openEntry_engages hfound hfile hrun

theorem opensOld {entry : EntryId} {path : Path}
    (h : opening.Takes world id text options handle after)
    (hrun : id.openEntry opening.volume options opening.entry opening.resolved opening.made =
      (.ok handle, after))
    (htarget : opening.target = .existing entry path) :
    world.OpensOld opening.volume (opening.granted id options) after := by
  have hengages := h.engages hrun
  have hyields := h.yields
  rw [htarget] at hyields
  obtain ⟨-, -, hmade⟩ := hyields
  have hsame := VolumeId.namespace_takePlace id world
  have hnode := h.node
  rw [hmade, hsame] at hnode
  rw [hmade] at hengages
  obtain ⟨found, hfound, hfile⟩ := World.entry_of_node? hnode
  constructor
  case there => exact World.inodeOf?_eq_some.2 ⟨opening.file, hnode, rfl⟩
  case names =>
    intro directory binding
    rw [h.opens.binds h.node, hmade, hsame]
  case opened => exact ⟨found, opening.file, hfound, hfile, hengages.own hfound⟩
  case others => exact fun hfound hother => (hengages.others hother).trans hfound

/-- The step that makes a file. -/
theorem adds {directory : EntryId} {path : Path}
    (h : opening.Takes world id text options handle after)
    (hmake : VolumeId.entryToOpen opening.volume opening.target
      (world.modifyVolume id Volume.takePlace) = (.ok (opening.entry, opening.resolved), opening.made))
    (htarget : opening.target = .vacant directory path) :
    opening.entry = ⟨world.entries.size⟩ ∧
      world.AddsFile opening.volume directory opening.made := by
  have hyields := h.yields
  rw [htarget] at hmake hyields
  obtain ⟨-, -, name, names, -, hnames, -⟩ := hyields
  obtain ⟨hentry, hadds⟩ := VolumeId.entryToOpen_adds (World.directory_eq_ok.2 hnames) hmake
  exact ⟨hentry, { hadds with }⟩

theorem makes {directory : EntryId} {path : Path}
    (h : opening.Takes world id text options handle after)
    (htarget : opening.target = .vacant directory path) :
    options.creates = true ∧ ∃ top bindings name,
      opening.Makes world id directory top bindings name after := by
  have hyields := h.yields
  have hfound := h.found
  have hsame := VolumeId.namespace_takePlace id world
  rw [htarget] at hyields hfound
  rw [World.openTrail_congr (congrArg Namespace.node? hsame)] at hfound
  obtain ⟨hcreates, top, bindings, name, hroot, hleads, hpath⟩ :=
    World.openTrail_vacant (World.ground?_of_volume h.volume) hfound
  obtain ⟨rfl, -, name', names, hname, hnames, hplaced⟩ := hyields
  obtain rfl : name = name' := by
    rw [hpath] at hname
    simpa [Path.fileName?, Volume.pathOf] using hname
  refine ⟨hcreates, top, bindings, name, hroot, hleads, hpath, hname, ?_, fun parent binding => ?_⟩
  · obtain ⟨_, hinsert, -⟩ := hplaced.bound
    rw [hsame] at hnames
    exact ⟨names, World.directory_eq_ok.2 hnames, (Directory.insert_eq_ok.1 hinsert).1⟩
  · rw [h.opens.binds h.node, hplaced.binds hnames, hsame]

/-- The path leads to the file that was made. -/
theorem finds {directory top : EntryId} {bindings : List Binding} {name : String}
    (hn : world.namespace.Sound) (h : opening.Takes world id text options handle after)
    (hmakes : opening.Makes world id directory top bindings name after)
    (hend : world.namespace.node? opening.entry = none) (followLast followLinks : Bool) :
    ∃ route, after.walk opening.volume.takePlace opening.resolved (.entry followLast) followLinks =
      .ok ⟨opening.entry, route, opening.resolved⟩ := by
  have hevolves := (h.expands_after hn).evolves
  have hleads := (hmakes.leads.mono fun hbinds => (hmakes.binds _ _).2 (.inl hbinds)).step
    ((hmakes.binds _ _).2 (.inr ⟨rfl, rfl⟩))
  have hlast : after.linkTarget? opening.entry = none := by
    rw [h.links, World.linkTarget?_eq, hend]
  have helements : opening.resolved.elements = bindings.map Binding.name ++ [name] :=
    congrArg Path.elements hmakes.path
  have hwalk := World.walk_down hevolves.sound (World.ground?_of_volume h.volume_after)
    (hevolves.isRoot hmakes.root) hleads hlast (helements.trans (by simp)) followLast followLinks
  have hself : opening.volume.takePlace.pathOf opening.resolved.root opening.resolved.elements =
      opening.resolved :=
    (congrArg (opening.volume.pathOf opening.resolved.root) helements).trans hmakes.path.symm
  rw [hself] at hwalk
  exact ⟨_, hwalk⟩

theorem opensNew {directory : EntryId} {path : Path} (hn : world.namespace.Sound)
    (h : opening.Takes world id text options handle after)
    (hmake : VolumeId.entryToOpen opening.volume opening.target
      (world.modifyVolume id Volume.takePlace) = (.ok (opening.entry, opening.resolved), opening.made))
    (hrun : id.openEntry opening.volume options opening.entry opening.resolved opening.made =
      (.ok handle, after))
    (htarget : opening.target = .vacant directory path) :
    options.creates = true ∧ ∃ name,
      world.OpensNew opening.volume directory name (opening.granted id options) after := by
  have hengages := h.engages hrun
  obtain ⟨hcreates, top, bindings, name, hmakes⟩ := h.makes htarget
  obtain ⟨hentry, hadds⟩ := h.adds hmake htarget
  have hfile : opening.file = { inode := ⟨world.inodes.size⟩ } := by
    have hown := World.node?_of_entry hadds.own
    rw [← hentry, h.node] at hown
    exact Node.file.inj (Option.some.inj hown)
  have hinode : (opening.granted id options).inode = ⟨world.inodes.size⟩ :=
    congrArg FileNode.inode hfile
  have hne : ∀ {other found}, world.entry other = .ok found → other ≠ opening.entry := by
    rintro _ found hfound rfl
    rw [hentry, World.entry_next] at hfound
    cases hfound
  refine ⟨hcreates, name, ?_⟩
  constructor
  case fresh => exact (congrArg world.entry hentry).trans World.entry_next
  case size => exact hengages.size.trans hadds.size
  case unshared =>
    rw [hinode]
    exact World.inodeOf?_ne_next hn
  case empty =>
    rw [hinode]
    refine ⟨_, hengages.inode hadds.empty, ?_, ?_⟩
    · split
      · exact Inode.contents_truncate_zero _
      · rfl
    · split <;> rfl
  case opened =>
    have hown : opening.made.entry opening.entry = _ := hentry ▸ hadds.own
    have hnow : opening.made.now opening.volume = world.now opening.volume :=
      congrArg opening.volume.config.resolution.truncate hadds.clock
    refine (hengages.own hown).trans (congrArg Except.ok ?_)
    rw [hfile, hinode, hnow]
    unfold Entry.opened
    split <;> rfl
  case parent => exact hmakes.parent hn h.volume
  case named => exact hmakes.named
  case free => exact hmakes.free
  case names => exact hmakes.binds
  case found => exact h.finds hn hmakes (hentry ▸ World.node?_next)
  case stamped =>
    obtain ⟨found, names, hfound, hstamped⟩ := hadds.stamped
    exact ⟨found, names, hfound, (hengages.others (hne hfound)).trans hstamped⟩
  case others =>
    intro other found hfound hother
    exact (hengages.others (hne hfound)).trans (hadds.others hfound hother)

theorem opened (hn : world.namespace.Sound) (h : opening.Takes world id text options handle after)
    (hmake : VolumeId.entryToOpen opening.volume opening.target
      (world.modifyVolume id Volume.takePlace) = (.ok (opening.entry, opening.resolved), opening.made))
    (hrun : id.openEntry opening.volume options opening.entry opening.resolved opening.made =
      (.ok handle, after)) :
    world.Opened id opening.volume options handle (opening.granted id options) after := by
  have hengages := h.engages hrun
  -- making a file leaves all of this as it was
  obtain ⟨hclock, hhandles, hinode⟩ : opening.made.clock = world.clock ∧
      opening.made.handles = world.handles ∧ ∀ {inode stored}, world.inode inode = .ok stored →
        opening.made.inode inode = .ok stored := by
    cases htarget : opening.target with
    | existing entry path =>
        have hyields := h.yields
        rw [htarget] at hyields
        obtain ⟨-, -, hmade⟩ := hyields
        rw [hmade]
        exact ⟨rfl, rfl, fun hstored => hstored⟩
    | vacant directory path =>
        obtain ⟨-, hadds⟩ := h.adds hmake htarget
        exact ⟨hadds.clock, hadds.handles, hadds.inode⟩
  constructor
  case handle => exact h.opens.handle
  case handles => exact hengages.handles.trans (congrArg (Array.push · _) hhandles)
  case asked => exact ⟨rfl, rfl⟩
  case count => exact h.countAt
  case volumes => exact World.volume_taken (congrArg Roster.volumes h.roster_after)
  case inodes => exact fun hstored => hengages.inode (hinode hstored)
  case emptied =>
    intro hcuts
    obtain ⟨stored, hstored⟩ := World.inode_of_lt (h.expands.evolves.sound.backed h.node)
    have hcut : (opening.granted id options).inode = opening.file.inode ∧
      (opening.granted id options).options.cuts = true := ⟨rfl, hcuts⟩
    refine ⟨_, hengages.inode hstored, ?_⟩
    rw [if_pos hcut]
    exact Inode.contents_truncate_zero stored
  case file =>
    cases htarget : opening.target with
    | existing entry path =>
        have hfound := h.found
        rw [htarget] at hfound
        exact .inl ⟨World.openTrail_existing hfound, h.opensOld hrun htarget⟩
    | vacant directory path =>
        obtain ⟨hcreates, name, hnew⟩ := h.opensNew hn hmake hrun htarget
        exact .inr ⟨hcreates, directory, name, hnew⟩
  case links => exact h.links
  case clock => exact hengages.clock.trans hclock

end Opening.Takes

/-- Opening a file changes only what it says. There is at most one name more, for an empty file that
was to be created and that is where the path of the handle says; links and all other entries are as
they were; only the file that is opened may lose its bytes; and one entry and one volume count one
handle more. -/
theorem open_changes_only_what_it_says (h : Reachable world) :
    ∀ id text options handle after, VolumeId.openFile id text options world = (.ok handle, after) →
      ∃ volume held, world.volume id = .ok volume ∧
        world.Opened id volume options handle held after := by
  intro id text options handle after hrun
  obtain ⟨opening, htakes, hmake, hengage, -⟩ :=
    (id.openFile_makes h.sound text options).post_of_ok hrun
  exact ⟨opening.volume, opening.granted id options, htakes.volume,
    htakes.opened h.sound hmake hengage⟩

/-- A volume where one link leads out of a directory to another link, which leads back to a name in
the directory that is free. -/
def World.dangling : World :=
  List.foldl Call.perform {} [.newVolume {}, .onPath ⟨0⟩ (.createDirectory "/d" {}),
    .onPath ⟨0⟩ (.createSymlink "/d/l" "../m"), .onPath ⟨0⟩ (.createSymlink "/m" "d/new")]

/-- Through both links a file is made, where the second one points. -/
theorem dangling_open_adds_file :
    Reachable World.dangling ∧ ∃ volume held after directory,
      VolumeId.openFile ⟨0⟩ "/d/l" .creating World.dangling = (.ok ⟨0⟩, after) ∧
      World.dangling.Opened ⟨0⟩ volume .creating ⟨0⟩ held after ∧
      held.path = ⟨0, "/", ["d", "new"], true⟩ ∧
      World.dangling.OpensNew volume directory "new" held after := by
  have hreach : Reachable World.dangling := Reachable.start.run _
  have hok : (VolumeId.openFile ⟨0⟩ "/d/l" .creating World.dangling).1 = .ok ⟨0⟩ := by
    decide +kernel
  have hhandle : (VolumeId.openFile ⟨0⟩ "/d/l" .creating World.dangling).2.handle ⟨0⟩ =
      .ok ⟨⟨0⟩, ⟨4⟩, ⟨0⟩, ⟨0, "/", ["d", "new"], true⟩, .creating, 0, [], true⟩ := by
    decide +kernel
  obtain ⟨volume, held, -, hopened⟩ :=
    open_changes_only_what_it_says hreach ⟨0⟩ "/d/l" .creating ⟨0⟩ _ (Prod.ext hok rfl)
  obtain rfl := Except.ok.inj (hhandle.symm.trans hopened.handle)
  rcases hopened.file with ⟨-, hold⟩ | ⟨-, directory, name, hnew⟩
  · have hnone : World.dangling.inodeOf? ⟨4⟩ = none := by decide +kernel
    cases hnone.symm.trans hold.there
  · obtain rfl : "new" = name := Option.some.inj hnew.named
    exact ⟨hreach, volume, _, _, directory, Prod.ext hok rfl, hopened, rfl, hnew⟩

end RamFs
