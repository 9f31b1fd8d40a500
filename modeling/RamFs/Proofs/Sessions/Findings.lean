import RamFs.Proofs.Cursors.Appends
import RamFs.Proofs.Namespace.Plain

/-!
Files that stay where a path leads. What was written as a whole on a volume without links is found
again by every walk, and each session on it leaves it there: one that appends puts its bytes behind
those that are there, and one that reads gets all of them.
-/

namespace RamFs

open RamFs.Action

/-- The file to which a walk of a path comes. -/
structure Finding where
  volume : Volume
  path : Path
  visit : Visit
  file : FileNode

/-- The path leads to the file, which can be opened and does not go when it is closed. -/
structure Finding.Stands (finding : Finding) (world : World) (id : VolumeId) (text : String) :
    Prop where
  volume : world.volume id = .ok finding.volume
  live : finding.volume.isLive = true
  room : finding.volume.openHandles < finding.volume.config.limits.maxOpenHandles.toNat
  parsed : finding.volume.parse text = .ok finding.path
  walk : world.walk finding.volume finding.path (.entry true) true = .ok finding.visit
  node : world.namespace.node? finding.visit.entry = some (.file finding.file)
  spared : finding.file.isAbandoned = false

variable {world after opened : World} {id : VolumeId} {volume : Volume} {text : String}
  {bytes : Bytes} {options : OpenOptions} {opening : Opening} {handle : HandleId}
  {finding : Finding} {file : FlatFile} {config : Config}

/-- Only names and volumes matter. -/
theorem Finding.Stands.later (h : finding.Stands world id text)
    (hnodes : after.namespace.node? = world.namespace.node?)
    (hvolumes : after.volumes = world.volumes) : finding.Stands after id text where
  volume := by
    unfold World.volume
    rw [hvolumes]
    exact h.volume
  live := h.live
  room := h.room
  parsed := h.parsed
  walk := World.walk_congr hnodes _ _ _ _ ▸ h.walk
  node := hnodes ▸ h.node
  spared := h.spared

/-! ### Written as a whole -/

/-- What is written to a volume without links is found again where it was written. -/
theorem VolumeId.writeAll_stands (h : Reachable world) (hvolume : world.volume id = .ok volume)
    (hlive : volume.isLive = true) (hplain : world.namespace.linksIn id = ∅)
    (hspares : world.SparesAt id text { OpenOptions.creating with truncate := true })
    (hwrite : id.writeAll text bytes world = (.ok (), after)) :
    ∃ finding : Finding, finding.Stands after id text ∧
      ∃ file, after.flat? finding.file.inode = some file ∧ file.bytes = bytes := by
  have hwork : ∀ handle : HandleId, Keeps World.skeleton (handle.writeAll bytes).throughStream :=
    fun handle => (handle.writeAll_keeps bytes).throughStream
  rw [writeAll_eq] at hwrite
  rcases session_cases h.sound id text _ hwork with
    ⟨failure, _, hrun⟩ | ⟨handle, opened, closed, opening, htakes, hclose, hrun⟩
  · cases hrun.symm.trans hwrite
  obtain ⟨hdone, rfl⟩ := Prod.mk.inj (hrun.symm.trans hwrite)
  obtain rfl := Except.ok.inj (hvolume.symm.trans htakes.volume)
  have hspared := htakes.spared hspares
  have hleaves := htakes.leaves h.sound hlive rfl hspared (hwork handle opened) hclose
  obtain ⟨store, hstore, rfl⟩ := htakes.written rfl rfl (throughStream_ok hdone)
  have hvolume' : closed.volume id = .ok opening.volume := by
    unfold World.volume
    rw [hleaves.volumes]
    exact hvolume
  have hlinks : closed.namespace.linksIn id ⊆ world.namespace.linksIn id := by
    have hground := (World.ground?_of_volumes hleaves.volumes).trans htakes.ground_made.symm
    exact (Namespace.linksIn_subset_of_same hleaves.nodes hground).trans (htakes.linksIn_made id)
  obtain ⟨visit, hwalk, hentry⟩ := (htakes.resolves rfl hleaves.nodes).walk hvolume'
    (Set.subset_empty_iff.1 (hplain ▸ hlinks)) closed.links
  refine ⟨⟨opening.volume, opening.path, visit, opening.file⟩,
    ⟨hvolume', hlive, htakes.room, htakes.parsed, hwalk, ?_, hspared⟩, store.flat, ?_, rfl⟩
  · rw [hentry, hleaves.nodes]
    exact htakes.node
  · unfold World.flat?
    rw [hleaves.stores, hstore]
    rfl

/-- What is written as a whole on a new volume is found again. -/
theorem VolumeId.writeAll_new (h : Reachable world)
    (hnew : newVolume config world = (.ok id, opened))
    (hwrite : id.writeAll text bytes opened = (.ok (), after)) :
    ∃ finding : Finding, finding.Stands after id text ∧
      ∃ file, after.flat? finding.file.inode = some file ∧ file.bytes = bytes := by
  obtain ⟨volume, hvolume, hlive, hdirectories⟩ := newVolume_plain h.sound hnew
  have hreach : Reachable opened := by
    have hstep := h.step (.newVolume config)
    change Reachable (newVolume config world).2 at hstep
    rwa [hnew] at hstep
  refine writeAll_stands hreach hvolume hlive ?_ ?_ hwrite
  · refine Set.eq_empty_of_forall_notMem ?_
    rintro link ⟨htree, target, htarget⟩
    obtain ⟨names, hnames⟩ := hdirectories link htree
    cases hnames.symm.trans htarget
  · intro found path entry resolved file hfound _ htrail hfile
    obtain rfl := Except.ok.inj (hvolume.symm.trans hfound)
    obtain ⟨names, hnames⟩ := hdirectories entry
      (World.openTrail_fits (World.ground?_of_volume hvolume) htrail)
    cases hnames.symm.trans hfile

/-! ### Appended -/

/-- A file that is opened to be created is the one that the walk comes to. -/
theorem Finding.Stands.taken (h : finding.Stands world id text) (hn : world.namespace.Sound)
    (hcreate : options.create = true) (hnew : options.createNew = false)
    (htakes : opening.Takes world id text options handle opened) :
    opening.made = world.modifyVolume id Volume.takePlace ∧
      opening.entry = finding.visit.entry ∧ opening.file = finding.file := by
  have hvolume : opening.volume = finding.volume :=
    Except.ok.inj (htakes.volume.symm.trans h.volume)
  have hpath : opening.path = finding.path := by
    have hparsed := htakes.parsed
    rw [hvolume] at hparsed
    exact Except.ok.inj (hparsed.symm.trans h.parsed)
  obtain ⟨resolved, hfound⟩ := World.openTrail_of_walk hn h.volume hcreate hnew h.walk h.node
  have htarget := htakes.found
  rw [World.openTrail_congr (congrArg Namespace.node? (VolumeId.namespace_takePlace id world)),
    hvolume, hpath] at htarget
  have hyields := htakes.yields
  rw [Except.ok.inj (htarget.symm.trans hfound)] at hyields
  obtain ⟨hentry, -, hmade⟩ := hyields
  have hnode := htakes.node
  rw [hmade, VolumeId.namespace_takePlace, hentry, h.node] at hnode
  exact ⟨hmade, hentry, (Node.file.inj (Option.some.inj hnode)).symm⟩

/-- What is appended goes behind the bytes that are there. -/
theorem VolumeId.append_stands (h : Reachable world) (hstands : finding.Stands world id text)
    (hfile : world.flat? finding.file.inode = some file)
    (hrun : id.session text .appending (fun handle => handle.write bytes) world = (.ok (), after)) :
    finding.Stands after id text ∧
      after.flat? finding.file.inode = some { file with bytes := file.bytes ++ bytes } := by
  have hwork : ∀ handle : HandleId, Keeps World.skeleton (handle.write bytes) :=
    fun handle => handle.write_keeps bytes
  rcases hopen : id.openFile text .appending world with ⟨failure | handle, opened⟩
  · obtain rfl := (openFile_transacts h.sound id text .appending).unchanged hopen
    cases (session_failed hopen).symm.trans hrun
  obtain ⟨closed, opening, htakes, hclose, hsession⟩ := session_opened h.sound hwork hopen
  obtain ⟨hdone, rfl⟩ := Prod.mk.inj (hsession.symm.trans hrun)
  obtain ⟨hmade, -, hsame⟩ := hstands.taken h.sound rfl rfl htakes
  have hvolume : opening.volume = finding.volume :=
    Except.ok.inj (htakes.volume.symm.trans hstands.volume)
  have hleaves := htakes.leaves h.sound (hvolume ▸ hstands.live) rfl (hsame ▸ hstands.spared)
    (hwork handle opened) hclose
  have hreach : Reachable opened := by
    have hopened := id.openFile_reachable h text .appending
    rwa [hopen] at hopened
  constructor
  · refine hstands.later ?_ hleaves.volumes
    rw [hleaves.nodes, hmade, namespace_takePlace]
  · have hopened : opened.flat? finding.file.inode = some file := by
      unfold World.flat? at hfile ⊢
      rw [htakes.opens.stores, if_neg nofun, hmade]
      exact hfile
    have happends : opened.Appends handle finding.file.inode :=
      ⟨_, htakes.opens.handle, congrArg FileNode.inode hsame, rfl⟩
    rcases handle.append_cases hreach hopened happends bytes with
      ⟨failure, hrefused⟩ | ⟨held, worked, hwritten, -, hworked, hinode, -⟩
    · rw [hrefused] at hdone
      cases hdone
    · rw [hwritten] at hleaves
      have hbytes := hworked.file
      rw [hinode] at hbytes
      unfold World.flat? at hbytes ⊢
      rw [hleaves.stores]
      exact hbytes

/-! ### Read as a whole -/

theorem VolumeId.readAll_stands (hn : world.namespace.Sound)
    (hstands : finding.Stands world id text)
    (hfile : world.flat? finding.file.inode = some file) :
    (id.readAll text world).1 = .ok file.bytes := by
  obtain ⟨store, hstore, rfl⟩ := Option.map_eq_some_iff.1 hfile
  exact readAll_contents hn hstands.volume hstands.parsed hstands.room hstands.walk hstands.node
    hstore

end RamFs
