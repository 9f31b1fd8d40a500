import RamFs.Proofs.Sessions.Abandoned
import RamFs.Proofs.Sessions.Writing
import RamFs.Proofs.Sharing.Spared
import RamFs.Proofs.Standards.Blocks

/-!
Overwriting that fails. Nothing is checked after a file was opened but whether it can hold what it
is given, so a session that fails for any other reason has changed nothing. A file that is too
small has lost its bytes by then, or has its name already, and the failure has passed through a
stream; all other files, and the places among the open handles, are as they were.
-/

namespace RamFs

open RamFs.Action

variable {world after opened : World} {id : VolumeId} {volume : Volume} {path : String}
  {contents : Bytes} {handle : HandleId} {held : Handle} {stored : Inode} {failure : Failure}
  {opening : Opening}

/-- How a file is opened to be given new contents as a whole. -/
def OpenOptions.overwriting : OpenOptions :=
  { creating with truncate := true }

/-- The file at the path can be opened to be overwritten, but may not hold as much. -/
def World.Overflows (world : World) (id : VolumeId) (path : String) (contents : Bytes) : Prop :=
  ∃ handle opened held stored, id.openFile path .overwriting world = (.ok handle, opened) ∧
    opened.handle handle = .ok held ∧ opened.inode held.inode = .ok stored ∧
    ¬BlockStore.Fits stored.store.maxBlocks contents.length

namespace HandleId

/-- At the start of a file a write fails only for want of room, and has written nothing then. -/
theorem writeAll_refused (hheld : world.handle handle = .ok held)
    (hcheck : held.checkWritable = .ok ()) (hstart : held.position = 0)
    (hend : held.options.append = false) (hvolume : world.volume held.volume = .ok volume)
    (hstored : world.inode held.inode = .ok stored) (hvalid : stored.store.Valid)
    (hrun : handle.writeAll contents world = (.error failure, after)) :
    failure = .capacityExceeded ∧ ¬BlockStore.Fits stored.store.maxBlocks contents.length ∧
      after = world := by
  unfold writeAll at hrun
  split at hrun
  case isTrue => cases hrun
  case isFalse =>
  unfold write at hrun
  rw [bind_ok (checked_run hheld hcheck hstored)] at hrun
  dsimp only at hrun
  rw [hend, if_neg nofun, hstart] at hrun
  have hwrite := BlockStore.write_eq hvalid 0 contents
  rw [Nat.zero_add] at hwrite
  cases hoffered : stored.store.write 0 contents with
  | ok store =>
      -- the steps that are left cannot fail
      rw [bind_lift_ok hoffered] at hrun
      unfold Handle.setInode setCursor at hrun
      rw [bind_ok (modify_apply ..), bind_ok (modify_apply ..)] at hrun
      cases hrun.symm.trans (Handle.stamp_run _ hvolume)
  | error refusal =>
      rw [bind_apply, hoffered, lift_apply] at hrun
      cases hrun
      rw [hoffered] at hwrite
      split at hwrite
      case isTrue => cases hwrite
      case isFalse =>
        split at hwrite
        case isTrue => cases hwrite
        case isFalse hfits => exact ⟨Except.error.inj hwrite, hfits, rfl⟩

end HandleId

namespace Opening

/-- Opening a file adds a name only where there was no file. -/
theorem Takes.names {options : OpenOptions} (h : opening.Takes world id path options handle opened)
    {directory : EntryId} {binding : Binding}
    (hbinds : opened.namespace.Binds directory binding) :
    world.namespace.Binds directory binding ∨ world.opened? id path options = none := by
  have hsame := VolumeId.namespace_takePlace id world
  have hyields := h.yields
  have hfound := h.found
  rw [World.openTrail_congr (congrArg Namespace.node? hsame)] at hfound
  cases htarget : opening.target with
  | existing entry path =>
      rw [htarget] at hyields
      obtain ⟨-, -, hmade⟩ := hyields
      rw [h.opens.binds h.node, hmade, hsame] at hbinds
      exact .inl hbinds
  | vacant directory path =>
      rw [htarget] at hfound
      refine .inr ?_
      unfold World.opened?
      rw [h.volume, ok_bind, h.parsed, ok_bind, hfound]

end Opening

namespace VolumeId

/-- A session that overwrites a file fails when the file cannot be opened, or when it is too small.
In the second case it closes the file that it has opened. -/
theorem writeAll_refused (h : Reachable world)
    (hrun : id.writeAll path contents world = (.error failure, after)) :
    (id.openFile path .overwriting world = (.error failure, world) ∧ after = world) ∨
    ∃ handle opened opening, Opening.Takes opening world id path .overwriting handle opened ∧
      Reachable opened ∧ world.Overflows id path contents ∧
      failure = .stream Failure.capacityExceeded.toStreamError ∧
      handle.close opened = (.ok (), after) := by
  have hwork : ∀ handle : HandleId, Keeps World.skeleton (handle.writeAll contents).throughStream :=
    fun handle => (handle.writeAll_keeps contents).throughStream
  rw [writeAll_eq] at hrun
  rcases hopen : id.openFile path .overwriting world with ⟨refusal | handle, opened⟩
  · obtain rfl := (openFile_transacts h.sound id path .overwriting).unchanged hopen
    cases (session_failed hopen).symm.trans hrun
    exact .inl ⟨rfl, rfl⟩
  · obtain ⟨closed, opening, htakes, hclose, hsession⟩ := session_opened h.sound hwork hopen
    obtain ⟨hworked, rfl⟩ := Prod.mk.inj (hsession.symm.trans hrun)
    rw [throughStream_apply] at hworked hclose
    rcases hwritten : handle.writeAll contents opened with ⟨refusal | _, written⟩
    all_goals rw [hwritten] at hworked hclose
    · have hreach : Reachable opened := by
        have hopened := id.openFile_reachable h path .overwriting
        rwa [hopen] at hopened
      obtain ⟨stored, hstored, hvalid⟩ := hreach.file_of_handle htakes.opens.handle
      obtain ⟨rfl, hfits, rfl⟩ := HandleId.writeAll_refused htakes.opens.handle rfl rfl rfl
        htakes.volume_after hstored hvalid hwritten
      refine .inr ⟨handle, _, opening, htakes, hreach, ?_, (Except.error.inj hworked).symm, hclose⟩
      exact ⟨handle, _, _, stored, hopen, htakes.opens.handle, hstored, hfits⟩
    · cases hworked

end VolumeId

/-- Closing a handle adds no name. -/
theorem HandleId.close_binds (h : Reachable world) (hheld : world.handle handle = .ok held)
    (hopen : held.isOpen = true) (hvolume : world.volume held.volume = .ok volume)
    (hlive : volume.isLive = true) (hrun : handle.close world = (.ok (), after))
    {directory : EntryId} {binding : Binding} (hbinds : after.namespace.Binds directory binding) :
    world.namespace.Binds directory binding := by
  obtain ⟨closed, hclose, hcases⟩ := close_cases h hheld hopen hvolume hlive
  obtain rfl : closed = after := congrArg Prod.snd (hclose.symm.trans hrun)
  obtain ⟨-, ending, hsheds⟩ | ⟨-, hsame, -⟩ := hcases
  · exact ((hsheds.binds _ _).1 hbinds).1
  · rwa [World.binds_iff, ← hsame, ← World.binds_iff]

/-- Overwriting a file that fails leaves as many handles open as there were, and when the file may
hold the contents, nothing at all has changed and the failure is that of opening the file. When it
may not hold them, the failure comes out of a stream, no name is added but that of a file that was
not there, and every other file shows what it showed. -/
theorem failed_overwrite_spares_what_fits (h : Reachable world)
    (hvolume : world.volume id = .ok volume) (hlive : volume.isLive = true)
    (hrun : id.writeAll path contents world = (.error failure, after)) :
    after.volumes = world.volumes ∧
    (¬world.Overflows id path contents →
      id.openFile path .overwriting world = (.error failure, world) ∧ after = world) ∧
    (world.Overflows id path contents →
      failure = .stream Failure.capacityExceeded.toStreamError ∧
      (∀ directory binding, after.namespace.Binds directory binding →
        world.namespace.Binds directory binding ∨ world.opened? id path .overwriting = none) ∧
      ∀ entry inode bytes, world.opened? id path .overwriting ≠ some inode →
        world.Shows entry inode bytes → after.Shows entry inode bytes) := by
  have hafter : (id.writeAll path contents world).2 = after := congrArg Prod.snd hrun
  have hwork : ∀ handle : HandleId, Keeps World.skeleton (handle.writeAll contents).throughStream :=
    fun handle => (handle.writeAll_keeps contents).throughStream
  have hvolumes := VolumeId.session_volumes h.sound hvolume hlive path .overwriting hwork
  refine ⟨hafter ▸ hvolumes, fun hfits => ?_, fun hoverflows => ?_⟩
  · rcases VolumeId.writeAll_refused h hrun with hfailed | ⟨_, _, _, _, _, hoverflows, _⟩
    · exact hfailed
    · exact absurd hoverflows hfits
  rcases VolumeId.writeAll_refused h hrun with
    ⟨hfailed, -⟩ | ⟨handle, opened, opening, htakes, hreach, -, hfailure, hclose⟩
  · obtain ⟨_, _, _, _, hopen, _⟩ := hoverflows
    cases hopen.symm.trans hfailed
  refine ⟨hfailure, fun directory binding hbinds => ?_, fun entry inode bytes hother hshows => ?_⟩
  · obtain rfl := Except.ok.inj (hvolume.symm.trans htakes.volume)
    exact htakes.names (HandleId.close_binds hreach htakes.opens.handle rfl htakes.volume_after
      hlive hclose hbinds)
  · have hshown : (Call.perform world (.writeAll id path contents)).Shows entry inode bytes :=
      hshows.perform h.sound h.tidy hother
    exact hafter ▸ hshown

namespace World

/-- A volume whose files have one block, with a file of one byte. -/
def cramped : World :=
  List.foldl Call.perform {} [.newVolume { limits := { maxFileBlocks := 1 } },
    .writeAll ⟨0⟩ "/f" [7]]

theorem reachable_cramped : Reachable cramped := Reachable.start.run _

theorem cramped_ground : cramped.namespace.ground? ⟨0⟩ = some ⟨.sensitive, [⟨0⟩], 1⟩ := by
  decide +kernel

/-- The file may not hold a byte more than a block. -/
theorem cramped_overflows : cramped.Overflows ⟨0⟩ "/f" (List.replicate (blockSize + 1) 1) := by
  have hopen : (VolumeId.openFile ⟨0⟩ "/f" .overwriting cramped).1 = .ok ⟨1⟩ := by decide +kernel
  have hheld : (VolumeId.openFile ⟨0⟩ "/f" .overwriting cramped).2.handle ⟨1⟩ = .ok
      { volume := ⟨0⟩, entry := ⟨1⟩, inode := ⟨0⟩, path := ⟨0, "/", ["f"], true⟩
        options := .overwriting } := by
    decide +kernel
  have hceiling : ((VolumeId.openFile ⟨0⟩ "/f" .overwriting cramped).2.inode ⟨0⟩).map
      (·.store.maxBlocks) = .ok 1 := by
    decide +kernel
  cases hstored : (VolumeId.openFile ⟨0⟩ "/f" .overwriting cramped).2.inode ⟨0⟩ with
  | error failure =>
      rw [hstored] at hceiling
      cases hceiling
  | ok stored =>
      rw [hstored] at hceiling
      have hone : stored.store.maxBlocks = 1 := Except.ok.inj hceiling
      refine ⟨⟨1⟩, _, _, stored, Prod.ext hopen rfl, hheld, hstored, ?_⟩
      rw [hone, List.length_replicate]
      decide

end World

/-- A path through a directory that is not there cannot be opened, and nothing changes. A file that
is to hold more than a block fails with no handle left open and no name added. -/
theorem cramped_overwrites_fail :
    VolumeId.openFile ⟨0⟩ "/no/f" .overwriting World.cramped = (.error .notFound, World.cramped) ∧
    (VolumeId.writeAll ⟨0⟩ "/no/f" [7] World.cramped).2 = World.cramped ∧
    (VolumeId.writeAll ⟨0⟩ "/f" (List.replicate (blockSize + 1) 1) World.cramped).2.volumes =
      World.cramped.volumes ∧
    ∀ directory binding, (VolumeId.writeAll ⟨0⟩ "/f" (List.replicate (blockSize + 1) 1)
      World.cramped).2.namespace.Binds directory binding →
        World.cramped.namespace.Binds directory binding := by
  obtain ⟨volume, hvolume, hlive⟩ := World.owned_of_ground? World.cramped_ground Nat.one_pos
  have hmissing : (VolumeId.writeAll ⟨0⟩ "/no/f" [7] World.cramped).1 = .error .notFound := by
    decide +kernel
  have hunopened : (VolumeId.openFile ⟨0⟩ "/no/f" .overwriting World.cramped).1 =
      .error .notFound := by
    decide +kernel
  have hrefused : (VolumeId.writeAll ⟨0⟩ "/f" (List.replicate (blockSize + 1) 1)
      World.cramped).1 = .error (.stream Failure.capacityExceeded.toStreamError) := by
    decide +kernel
  obtain ⟨-, hkept, -⟩ := failed_overwrite_spares_what_fits World.reachable_cramped hvolume hlive
    (Prod.ext hmissing rfl)
  obtain ⟨hvolumes, -, hspares⟩ := failed_overwrite_spares_what_fits World.reachable_cramped
    hvolume hlive (Prod.ext hrefused rfl)
  obtain ⟨-, hnames, -⟩ := hspares World.cramped_overflows
  have hthere : World.cramped.opened? ⟨0⟩ "/f" .overwriting ≠ none := by decide +kernel
  obtain ⟨hopened, hsame⟩ := hkept fun ⟨_, _, _, _, hopen, _⟩ => by
    rw [hopen] at hunopened
    cases hunopened
  exact ⟨hopened, hsame, hvolumes, fun directory binding hbinds =>
    (hnames directory binding hbinds).resolve_right hthere⟩

/-- A file that is given more than it may hold has lost its byte, and the failure is not the one of
the store that refused. -/
theorem overflowing_overwrite_empties :
    Reachable World.cramped ∧ (VolumeId.readAll ⟨0⟩ "/f" World.cramped).1 = .ok [7] ∧
      (VolumeId.writeAll ⟨0⟩ "/f" (List.replicate (blockSize + 1) 1) World.cramped).1 =
        .error (.stream ⟨.fileTooLarge, "capacity exceeded"⟩) ∧
      (VolumeId.readAll ⟨0⟩ "/f"
        (VolumeId.writeAll ⟨0⟩ "/f" (List.replicate (blockSize + 1) 1) World.cramped).2).1 = .ok [] :=
  ⟨World.reachable_cramped, by decide +kernel, by decide +kernel, by decide +kernel⟩

end RamFs
