import RamFs.Proofs.Contents.Store
import RamFs.Proofs.Namespace.Detours
import RamFs.Proofs.Sessions.Reading

/-!
What a file was given as a whole is what a reader of the path gets. Writing looks for the file
name by name and may make it; a walk of the same path then takes the same detours and arrives at
that file, if it does not meet a link twice and the file is still there.
-/

namespace RamFs

open RamFs.Action

variable {world after opened : World} {id : VolumeId} {volume : Volume} {text : String}
  {options : OpenOptions} {opening : Opening} {handle : HandleId}

/-! ### Through a handle -/

theorem Handle.stamp_run {held : Handle} (change : Entry → Time → Entry)
    (hvolume : world.volume held.volume = .ok volume) :
    held.stamp change world =
      (.ok (), world.modifyEntry held.entry (change · (world.now volume))) := by
  unfold Handle.stamp
  rw [bind_ask_ok hvolume, modify_apply]

namespace HandleId

variable {held : Handle} {inode : Inode} {store : BlockStore}
  {check : Handle → Except Failure Unit}

theorem checked_run (hheld : world.handle handle = .ok held) (hcheck : check held = .ok ())
    (hinode : world.inode held.inode = .ok inode) :
    handle.checked check world = (.ok (held, inode), world) := by
  unfold checked
  rw [bind_ask_ok hheld, bind_lift_ok hcheck, bind_ask_ok hinode, pure_apply]

/-- A handle at the start of its file reads all of it. -/
theorem readToEnd_contents (hheld : world.handle handle = .ok held)
    (hcheck : held.checkReadable = .ok ()) (hstart : held.position = 0)
    (hvolume : world.volume held.volume = .ok volume)
    (hstore : world.stores[held.inode.index]? = some store) :
    (handle.readToEnd world).1 = .ok store.contents := by
  obtain ⟨inode, hinode, rfl⟩ := World.stores_eq_some.1 hstore
  have hchecked := checked_run hheld hcheck hinode
  have hread : handle.readAt 0 inode.size world = (.ok inode.store.contents,
      world.modifyEntry held.entry (·.touchAccessed (world.now volume))) := by
    unfold readAt
    rw [bind_ok hchecked]
    dsimp only
    rw [bind_ok (Handle.stamp_run _ hvolume), pure_apply]
    exact congrArg (fun bytes => (Except.ok bytes, _)) inode.store.read?_all
  unfold readToEnd
  rw [bind_ok hchecked]
  unfold read
  dsimp only
  rw [bind_ask_ok hheld, hstart, bind_ok hread]
  rfl

/-- What is written through a handle at the start of an empty file is all that the file holds. -/
theorem writeAll_contents {bytes : Bytes} (hheld : world.handle handle = .ok held)
    (hcheck : held.checkWritable = .ok ()) (hstart : held.position = 0)
    (hend : held.options.append = false)
    (hstore : world.stores[held.inode.index]? = some store) (hempty : store.size = 0)
    (hrun : handle.writeAll bytes world = (.ok (), after)) :
    ∃ written, after.stores[held.inode.index]? = some written ∧ written.contents = bytes := by
  unfold writeAll at hrun
  split at hrun
  case isTrue hbytes =>
    cases hrun
    refine ⟨store, hstore, ?_⟩
    rw [List.isEmpty_iff.1 hbytes]
    exact List.length_eq_zero_iff.1 (store.length_contents.trans hempty)
  case isFalse hbytes =>
    obtain ⟨inode, hinode, rfl⟩ := World.stores_eq_some.1 hstore
    unfold write at hrun
    rw [bind_ok (checked_run hheld hcheck hinode)] at hrun
    dsimp only at hrun
    rw [hend, if_neg nofun, hstart] at hrun
    cases hwrite : inode.store.write 0 bytes with
    | error failure =>
        rw [bind_apply, hwrite, lift_apply] at hrun
        cases hrun
    | ok written =>
        refine ⟨written, ?_, BlockStore.contents_write_empty hempty hwrite⟩
        rw [bind_lift_ok hwrite] at hrun
        have hput : held.setInode { inode with store := written } world =
            (.ok (), world.modifyInode held.inode fun _ => { inode with store := written }) := rfl
        rw [bind_ok hput] at hrun
        -- the cursor and the times that are left to set are not contents
        have hrest : Keeps World.inodes (handle.setCursor (0 + bytes.length) >>= fun _ =>
            held.stamp Entry.touchModified) := by
          have hcursor : Keeps World.inodes (handle.setCursor (0 + bytes.length)) :=
            keeps_modify fun _ => rfl
          exact hcursor.bind fun _ => (keeps_ask _).bind fun _ => keeps_modify fun _ => rfl
        have hinodes := hrest (world.modifyInode held.inode fun _ =>
          { inode with store := written })
        rw [hrun] at hinodes
        have hstores : after.stores = world.stores.modify held.inode.index fun _ => written :=
          (congrArg (Array.map Inode.store) hinodes).trans
            (World.stores_modifyInode (fun _ => written) fun _ => rfl)
        rw [hstores, Array.getElem?_modify, if_pos rfl, hstore]
        rfl

end HandleId

/-- What is written to a file that was opened to be emptied is all that it holds. -/
theorem Opening.Takes.written {bytes : Bytes} {worked : World}
    (h : opening.Takes world id text options handle opened)
    (hempties : (options.truncate && options.write) = true) (hend : options.append = false)
    (hrun : handle.writeAll bytes opened = (.ok (), worked)) :
    ∃ store, worked.stores[opening.file.inode.index]? = some store ∧ store.contents = bytes := by
  obtain ⟨inode, hinode⟩ := World.inode_of_lt (h.expands.evolves.sound.backed h.node)
  have hemptied : opened.stores[opening.file.inode.index]? = some (inode.store.truncate 0) := by
    rw [h.opens.stores, if_pos hempties, Array.getElem?_modify, if_pos rfl,
      World.stores_eq_some.2 ⟨inode, hinode, rfl⟩]
    rfl
  have hwritable : Handle.checkWritable ⟨id, opening.entry, opening.file.inode, opening.resolved,
      options, 0, [], true⟩ = .ok () := by
    unfold Handle.checkWritable
    dsimp only
    rw [(Bool.and_eq_true_iff.1 hempties).2]
    rfl
  exact HandleId.writeAll_contents h.opens.handle hwritable rfl hend hemptied
    inode.store.size_truncate_zero hrun

/-- The file that a walk finds can be read as a whole. -/
theorem VolumeId.readAll_contents {path : Path} {visit : Visit} {file : FileNode}
    {store : BlockStore} (hn : world.namespace.Sound) (hvolume : world.volume id = .ok volume)
    (hparse : volume.parse text = .ok path)
    (hroom : volume.openHandles < volume.config.limits.maxOpenHandles.toNat)
    (hwalk : world.walk volume path (.entry true) true = .ok visit)
    (hnode : world.namespace.node? visit.entry = some (.file file))
    (hstore : world.stores[file.inode.index]? = some store) :
    (id.readAll text world).1 = .ok store.contents := by
  have htree := (World.walk_entry_arrives (World.ground?_of_volume hvolume) hwalk).inTree
  have hlive := hn.bound_live (hn.names_of_file htree hnode).1 hnode
  obtain ⟨_, _, hopen⟩ := openFile_found hvolume hparse hroom hwalk hnode hlive
  have hwork : ∀ handle : HandleId, Keeps World.skeleton handle.readToEnd.throughStream :=
    fun handle => handle.readToEnd_keeps.throughStream
  rw [readAll_eq]
  rcases session_cases hn id text .reading hwork with
    ⟨failure, hfailed, _⟩ | ⟨handle, opened, closed, opening, htakes, _, hrun⟩
  · cases hopen.symm.trans hfailed
  -- what was opened is what the walk found
  obtain ⟨hmade, found, hvisit, hentry⟩ := htakes.visited rfl
  obtain rfl : found = visit := by
    rw [World.visit_eq hvolume hparse, hwalk] at hvisit
    exact (congrArg Prod.snd (Except.ok.inj hvisit)).symm
  have hfile : opening.file = file := by
    have hopened := htakes.node
    rw [hmade, namespace_takePlace, ← hentry, hnode] at hopened
    exact (Node.file.inj (Option.some.inj hopened)).symm
  have hvolume' : opened.volume id = .ok volume.takePlace := by
    unfold World.volume
    rw [htakes.opens.volumes, hmade]
    exact World.volume_modifyVolume hvolume
  have hstore' : opened.stores[opening.file.inode.index]? = some store := by
    rw [htakes.opens.stores, if_neg nofun, hmade, hfile]
    exact hstore
  have hread := HandleId.readToEnd_contents htakes.opens.handle rfl rfl hvolume' hstore'
  rw [hrun, throughStream_apply, hread]
  rfl

/-! ### To the same file again -/

/-- A file that was made under a free name takes no name away, and its name is found. -/
theorem Action.Placed.retains {directory entry : EntryId} {names : Directory}
    {collation : Collation} {name : String} {file : FileNode}
    (h : Placed world id directory names collation name .file entry (.file file) after)
    (hnames : world.namespace.node? directory = some (.directory names)) :
    world.Retains after ∧ ∃ names', after.directory directory = .ok names' ∧
      names'.find? collation name = some ⟨collation.key name, name, .file, entry⟩ := by
  obtain ⟨names', hinsert, hnames'⟩ := h.bound
  have hcases : ∀ other, (other = entry ∨ other = directory) ∨
      after.namespace.node? other = world.namespace.node? other := by
    intro other
    by_cases hentry : other = entry
    · exact .inl (.inl hentry)
    by_cases hdirectory : other = directory
    · exact .inl (.inr hdirectory)
    exact .inr (h.same hentry hdirectory)
  constructor
  case right =>
    exact ⟨names', World.directory_eq_ok.2 hnames', Directory.find?_inserted hinsert⟩
  case left =>
    constructor
    case found =>
      intro other found hfound
      have hnode := World.directory_eq_ok.1 hfound
      rcases hcases other with (rfl | rfl) | hsame
      · rw [h.fresh] at hnode
        cases hnode
      · obtain rfl := Node.directory.inj (Option.some.inj (hnames.symm.trans hnode))
        exact ⟨names', World.directory_eq_ok.2 hnames', Directory.find?_insert hinsert⟩
      · exact ⟨found, World.directory_eq_ok.2 (hsame.trans hnode), fun hfind => hfind⟩
    case links =>
      funext other
      rw [World.linkTarget?_eq, World.linkTarget?_eq]
      rcases hcases other with (rfl | rfl) | hsame
      · rw [h.made, h.fresh]
      · rw [hnames', hnames]
      · rw [hsame]

namespace Opening

/-- What is opened to be created is what the path leads to, as long as names stay found. -/
theorem Takes.resolves_kept (h : opening.Takes world id text options handle opened)
    (hcreates : options.creates = true) (hkept : opening.made.Retains after)
    (hfile : after.linkTarget? opening.entry = none) :
    after.Resolves opening.volume (opening.path.root, opening.path.elements) opening.entry := by
  have hfound := h.found
  unfold World.openTrail at hfound
  rw [if_pos hcreates] at hfound
  have hyields := h.yields
  cases htarget : opening.target with
  | existing found path =>
      rw [htarget] at hfound hyields
      obtain ⟨hentry, _, hmade⟩ := hyields
      rw [hmade] at hkept
      exact World.createTrail_resolves hkept hfound hentry
  | vacant directory path =>
      rw [htarget] at hfound hyields
      obtain ⟨_, _, name, names, hname, hnames, hplaced⟩ := hyields
      obtain ⟨hretains, names', hnames', hfind⟩ := hplaced.retains hnames
      obtain ⟨names'', hnames'', hfind'⟩ := hkept.found hnames'
      refine World.createTrail_resolves (hretains.trans hkept) hfound ?_
      exact ⟨name, names'', _, hname, hnames'', hfind' hfind, rfl, hfile⟩

/-- What is opened to be created is what the path leads to from then on. -/
theorem Takes.resolves (h : opening.Takes world id text options handle opened)
    (hcreates : options.creates = true)
    (hsame : after.namespace.node? = opening.made.namespace.node?) :
    after.Resolves opening.volume (opening.path.root, opening.path.elements) opening.entry := by
  refine h.resolves_kept hcreates (.of_same hsame) ?_
  rw [World.linkTarget?_eq, hsame, h.node]

end Opening

/-- What is written as a whole is what is read as a whole right afterwards, whatever links the
path goes through, unless the walk of a reader meets a link twice. A file that was there must not
be abandoned already, since it would go as soon as it is written. -/
theorem written_is_read (h : Reachable world) (hvolume : world.volume id = .ok volume)
    (hlive : volume.isLive = true) {path : String} {contents : Bytes}
    (hspares : world.SparesAt id path { OpenOptions.creating with truncate := true })
    (hwrite : id.writeAll path contents world = (.ok (), after))
    (hloop : after.visit id path true ≠ .error .linkLoop) :
    (id.readAll path after).1 = .ok contents := by
  have hn : after.namespace.Sound := by
    have hafter := (h.step (.writeAll id path contents)).sound
    change (id.writeAll path contents world).2.namespace.Sound at hafter
    rwa [hwrite] at hafter
  have hwork : ∀ handle : HandleId, Keeps World.skeleton (handle.writeAll contents).throughStream :=
    fun handle => (handle.writeAll_keeps contents).throughStream
  rw [VolumeId.writeAll_eq] at hwrite
  rcases VolumeId.session_cases h.sound id path _ hwork with
    ⟨failure, _, hrun⟩ | ⟨handle, opened, closed, opening, htakes, hclose, hrun⟩
  · cases hrun.symm.trans hwrite
  obtain ⟨hdone, rfl⟩ := Prod.mk.inj (hrun.symm.trans hwrite)
  obtain rfl : volume = opening.volume := Except.ok.inj (hvolume.symm.trans htakes.volume)
  have hleaves := htakes.leaves h.sound hlive rfl (htakes.spared hspares)
    (hwork handle opened) hclose
  obtain ⟨store, hstore, rfl⟩ := htakes.written rfl rfl (throughStream_ok hdone)
  have hvolume' : closed.volume id = .ok opening.volume := by
    unfold World.volume
    rw [hleaves.volumes]
    exact hvolume
  rcases (htakes.resolves rfl hleaves.nodes).trail closed.links with hlink | ⟨visit, hwalk, hentry⟩
  · refine absurd ?_ hloop
    rw [World.visit_eq hvolume' htakes.parsed]
    exact congrArg _ hlink
  · refine VolumeId.readAll_contents hn hvolume' htakes.parsed htakes.room hwalk ?_
      (hleaves.stores ▸ hstore)
    rw [hentry, hleaves.nodes]
    exact htakes.node

namespace World

/-- A volume with a link to its root and a link that goes through the first one. -/
def entwined : World :=
  List.foldl Call.perform {} [.newVolume {}, .onPath ⟨0⟩ (.createSymlink "/l" "/"),
    .onPath ⟨0⟩ (.createSymlink "/x" "l/y")]

theorem reachable_entwined : Reachable entwined := Reachable.start.run _

theorem entwined_ground : entwined.namespace.ground? ⟨0⟩ = some ⟨.sensitive, [⟨0⟩], 1⟩ := by
  decide +kernel

end World

/-- A file is made where two links lead one after the other, and read through them. -/
theorem entwined_written_is_read :
    (VolumeId.writeAll ⟨0⟩ "/x" [100] World.entwined).1 = .ok () ∧
      (VolumeId.readAll ⟨0⟩ "/x" (VolumeId.writeAll ⟨0⟩ "/x" [100] World.entwined).2).1 =
        .ok [100] := by
  obtain ⟨volume, hvolume, hlive⟩ := World.owned_of_ground? World.entwined_ground Nat.one_pos
  have hwrite : (VolumeId.writeAll ⟨0⟩ "/x" [100] World.entwined).1 = .ok () := by decide +kernel
  exact ⟨hwrite, written_is_read World.reachable_entwined hvolume hlive
    (World.spares_of_all (by decide +kernel) _ _ _) (Prod.ext hwrite rfl) (by decide +kernel)⟩

/-- Through the first link the second one can be written, but not read: the reader meets the
first link again behind the second. -/
theorem entwined_read_fails :
    Reachable World.entwined ∧
      (VolumeId.writeAll ⟨0⟩ "/l/x" [100] World.entwined).1 = .ok () ∧
      (VolumeId.readAll ⟨0⟩ "/l/x" (VolumeId.writeAll ⟨0⟩ "/l/x" [100] World.entwined).2).1 =
        .error .linkLoop :=
  ⟨World.reachable_entwined, by decide +kernel, by decide +kernel⟩

end RamFs
