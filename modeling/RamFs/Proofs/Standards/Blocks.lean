import RamFs.Proofs.Contents.Transfer
import RamFs.Proofs.Standards.Runs

/-!
Ceilings on the blocks of single files. A file is made under the ceiling of its volume and keeps to
it whatever is written. A copy keeps to the ceiling of what it was copied from, so that files stay
below the ceiling of the volume they are in only where copies and moves lead to volumes with
ceilings that are no lower.
-/

namespace RamFs

/-- The ceiling on the blocks of a single file: one at least and no more than any file may use. -/
def Config.fileCeiling (config : Config) : Nat :=
  max 1 (min config.limits.maxFileBlocks.toNat maxBlocks)

/-- Stores of files are in order and have a ceiling that is no higher than that of the volume. -/
def Standard.ceiled : Standard where
  time _ _ := True
  store config store := store.Valid ∧ store.maxBlocks ≤ config.fileCeiling
  time_now _ _ := trivial
  store_new config := ⟨BlockStore.new_valid _, Nat.le_refl _⟩
  store_write := by
    rintro config before written offset bytes ⟨hvalid, hceiling⟩ hwrite
    obtain ⟨hwritten, hsame⟩ := BlockStore.write_valid hvalid hwrite
    exact ⟨hwritten, hsame ▸ hceiling⟩
  store_truncate := by
    rintro config before size ⟨hvalid, hceiling⟩
    obtain ⟨htruncated, hsame, _⟩ := BlockStore.truncate_spec hvalid size
    exact ⟨htruncated, hsame ▸ hceiling⟩
  store_transfer := by
    rintro config before offset count source ⟨hvalid, hceiling⟩
    obtain ⟨hfilled, hsame⟩ := BlockStore.transferFrom_valid hvalid offset count source
    exact ⟨hfilled, hsame ▸ hceiling⟩

/-- If the relocation carries a file over, then to a volume with a ceiling that is no lower. -/
def Relocation.KeepsRoom (_ : Relocation) (kind : Kind) (source target : Config) : Prop :=
  kind = .file → source.fileCeiling ≤ target.fileCeiling

theorem Relocation.KeepsRoom.carries {op : Relocation} {kind : Kind} {source target : Config}
    (h : op.KeepsRoom kind source target) : Standard.ceiled.Carries op kind source target :=
  ⟨fun hfile _ ⟨hvalid, hceiling⟩ => ⟨hvalid, Nat.le_trans hceiling (h hfile)⟩,
    fun _ _ _ => trivial⟩

variable {world : World} {id : VolumeId} {volume : Volume} {entry : EntryId} {file : FileNode}

/-- Stores are in order, under whatever ceiling. -/
def Standard.ordered : Standard where
  time _ _ := True
  store _ store := store.Valid
  time_now _ _ := trivial
  store_new _ := BlockStore.new_valid _
  store_write hvalid hwrite := (BlockStore.write_valid hvalid hwrite).1
  store_truncate size hvalid := (BlockStore.truncate_spec hvalid size).1
  store_transfer offset count source hvalid :=
    (BlockStore.transferFrom_valid hvalid offset count source).1

/-- Every store is in order, also where copies and moves lead to lower ceilings. -/
theorem Reachable.stores_valid {inode : InodeId} {stored : Inode} (h : Reachable world)
    (hinode : world.inode inode = .ok stored) : stored.store.Valid := by
  obtain ⟨r, hcomplies⟩ := h.conforms (s := Standard.ordered) fun _ _ _ _ =>
    ⟨fun _ _ hvalid => hvalid, fun _ _ _ => trivial⟩
  exact hcomplies.stored hinode

/-- However files are made, written, linked, copied and moved, on however many volumes, every
file keeps to the ceiling of its volume, as long as no file is copied or moved to a volume with a
lower one. -/
theorem files_keep_to_ceiling (h : ReachableBy (Call.Between Relocation.KeepsRoom) world)
    (hvolume : world.volume id = .ok volume) (htree : world.namespace.InTree id entry)
    (hfile : world.namespace.node? entry = some (.file file)) :
    ∃ inode, world.inode file.inode = .ok inode ∧
      inode.store.blockCount ≤ volume.config.fileCeiling ∧
      inode.size ≤ volume.config.fileCeiling * blockSize := by
  have hconforms : world.Conforms Standard.ceiled := h.conforms Relocation.KeepsRoom.carries
  obtain ⟨inode, hinode⟩ := World.inode_of_lt (h.reachable.sound.backed hfile)
  obtain ⟨hvalid, hceiling⟩ := hconforms.store hvolume htree hfile hinode
  have hblocks : inode.store.blockCount ≤ volume.config.fileCeiling :=
    Nat.le_trans hvalid.blocks_le hceiling
  refine ⟨inode, hinode, hblocks, Nat.le_trans hvalid.size_le ?_⟩
  rw [Nat.mul_comm]
  exact Nat.mul_le_mul_right blockSize hblocks

namespace World

/-- Two volumes with limits, and a file of two blocks on the first of them. -/
def filled (first second : UInt32) : World :=
  List.foldl Call.perform {} [.newVolume { limits := { maxFileBlocks := first } },
    .newVolume { limits := { maxFileBlocks := second } },
    .writeAll ⟨0⟩ "/f" (List.replicate (blockSize + 1) 1)]

/-- The file is copied to the second volume. -/
def spread (first second : UInt32) : World :=
  Call.perform (filled first second) (.onPath ⟨0⟩ (.copy "/f" ⟨1⟩ "/g" {}))

theorem spread_tree {first second : UInt32}
    (hground : (spread first second).namespace.ground? ⟨1⟩ = some ⟨.sensitive, [⟨1⟩], 1⟩)
    (hnames : (spread first second).namespace.node? ⟨1⟩ =
      some (.directory ⟨[⟨"g", "g", .file, ⟨3⟩⟩]⟩)) :
    (spread first second).namespace.InTree ⟨1⟩ ⟨3⟩ :=
  ⟨0, ⟨1⟩, _, ⟨_, hground, rfl⟩, .step .top ⟨_, hnames, List.mem_singleton_self _⟩⟩

theorem reachable_spread : ReachableBy (Call.Between Relocation.KeepsRoom) (spread 2 3) := by
  have hfilled : ReachableBy (Call.Between Relocation.KeepsRoom) (filled 2 3) :=
    ReachableBy.start.run _ (by simp [Call.Between])
  refine hfilled.step _ fun source target _ hsource htarget _ _ => ?_
  have hfirst : ((filled 2 3).volume ⟨0⟩).map (·.config.fileCeiling) = .ok 2 := by decide +kernel
  have hsecond : ((filled 2 3).volume ⟨1⟩).map (·.config.fileCeiling) = .ok 3 := by decide +kernel
  rw [hsource] at hfirst
  rw [htarget] at hsecond
  have hlow : source.config.fileCeiling = 2 := Except.ok.inj hfirst
  have hhigh : target.config.fileCeiling = 3 := Except.ok.inj hsecond
  omega

end World

theorem spread_keeps_to_ceiling : ∃ volume inode,
    (World.spread 2 3).volume ⟨1⟩ = .ok volume ∧ (World.spread 2 3).inode ⟨1⟩ = .ok inode ∧
    inode.store.blockCount ≤ volume.config.fileCeiling ∧
    inode.size ≤ volume.config.fileCeiling * blockSize := by
  have hground : (World.spread 2 3).namespace.ground? ⟨1⟩ = some ⟨.sensitive, [⟨1⟩], 1⟩ := by
    decide +kernel
  have htree := World.spread_tree hground (by decide +kernel)
  obtain ⟨volume, hvolume, _⟩ := World.volume_of_ground? hground
  have hfile : (World.spread 2 3).namespace.node? ⟨3⟩ = some (.file { inode := ⟨1⟩ }) := by
    decide +kernel
  obtain ⟨inode, hinode, hbounds⟩ :=
    files_keep_to_ceiling World.reachable_spread hvolume htree hfile
  exact ⟨volume, inode, hvolume, hinode, hbounds⟩

/-- A volume of files of one block is given a file of two. -/
theorem spread_above_ceiling :
    Reachable (World.spread 2 1) ∧ (World.spread 2 1).namespace.InTree ⟨1⟩ ⟨3⟩ ∧
    ((World.spread 2 1).volume ⟨1⟩).map (·.config.fileCeiling) = .ok 1 ∧
    (World.spread 2 1).namespace.node? ⟨3⟩ = some (.file { inode := ⟨1⟩ }) ∧
    ((World.spread 2 1).inode ⟨1⟩).map (·.store.blockCount) = .ok 2 ∧
    ((World.spread 2 1).inode ⟨1⟩).map Inode.size = .ok (blockSize + 1) :=
  ⟨(Reachable.start.run _).step _, World.spread_tree (by decide +kernel) (by decide +kernel),
    by decide +kernel, by decide +kernel, by decide +kernel, by decide +kernel⟩

end RamFs
