import RamFs.Proofs.Cursors.Pieces

/-!
Files cut short through a handle. What is left is the first bytes, never more than there were, and
what lay behind them is gone for good: where a later write begins past the end, the gap is zeros.
-/

namespace RamFs

open RamFs.Action

variable {world later : World} {id writer : HandleId} {held known : Handle} {file now : FlatFile}
  {call : HandleCall} {data : Bytes} {offset : Nat}

/-- Bytes spliced in past the end have zeros in front of them. -/
theorem splice_past {bytes source : Bytes} (hpast : bytes.length ≤ offset) (hsome : source ≠ []) :
    splice bytes offset source =
      bytes ++ List.replicate (offset - bytes.length) 0 ++ source := by
  unfold splice
  rw [if_neg hsome, List.take_of_length_le hpast, List.drop_eq_nil_of_le (by omega),
    List.append_nil]

namespace HandleId

/-- A handle that may write cuts its file, and its cursor comes back to where it was asked to cut. -/
theorem truncate_run (h : world.On id held file) (hcheck : held.checkWritable = .ok ())
    (size : Nat) :
    ∃ after, id.truncate size world = (.ok (), after) ∧
      after.On id { held with position := min held.position size } (file.truncate size) := by
  obtain ⟨volume, hstands⟩ := h.reachable.stands h.handle
  obtain ⟨stored, hstored, hagrees, rfl⟩ := h.stored
  obtain ⟨after, hput, hhandle⟩ := put_run hstands (stored.truncate size) (min held.position size)
  have hran : id.truncate size world = (.ok (), after) := by
    unfold HandleId.truncate
    rw [bind_ok (checked_run h.handle hcheck hstored)]
    exact hput
  obtain ⟨hreach, -⟩ := HandleCall.reaches (.truncate size) h.reachable (congrArg Prod.snd hran)
  refine ⟨after, hran, hreach, hhandle, ?_⟩
  have hrevised := (truncate_revises h.handle hstored size).flat? hagrees.valid
  rw [hran] at hrevised
  unfold Handle.edit at hrevised
  rw [hcheck] at hrevised
  exact hrevised

end HandleId

/-- The call writes the bytes from the offset on, at the cursor or not. -/
def HandleCall.WritesAt (held : Handle) (file : FlatFile) (offset : Nat) (data : Bytes) :
    HandleCall → Prop
  | write bytes => held.start file = offset ∧ bytes = data
  | writeAt start bytes => start = offset ∧ bytes = data
  | _ => False

/-- A write that begins past the end and fits leaves zeros between the end and its bytes. -/
theorem HandleCall.fills_gap (h : world.On id held file) (hcheck : held.checkWritable = .ok ())
    (hcall : call.WritesAt held file offset data) (hpast : file.bytes.length ≤ offset)
    (hsome : data ≠ []) (hfits : BlockStore.Fits file.ceiling (offset + data.length)) :
    (call.perform id world).flat? held.inode = some { file with
      bytes := file.bytes ++ List.replicate (offset - file.bytes.length) 0 ++ data } := by
  obtain ⟨stored, hstored, hagrees, rfl⟩ := h.stored
  have hwritten : stored.store.flat.written offset data = { stored.store.flat with
      bytes := splice stored.store.flat.bytes offset data } :=
    FlatFile.written_of_ok (FlatFile.write_of_fits fun _ => hfits)
  have hresult : ∀ edit : FlatFile → FlatFile, call.edit? world held = some edit →
      edit stored.store.flat = stored.store.flat.written offset data →
      (call.perform id world).flat? held.inode = some { stored.store.flat with
        bytes := stored.store.flat.bytes ++
          List.replicate (offset - stored.store.flat.bytes.length) 0 ++ data } := by
    intro edit hedit hsame
    rw [(revises h.handle hstored hedit).flat? hagrees.valid]
    unfold Handle.edit
    rw [hcheck]
    dsimp only
    rw [hsame, hwritten, splice_past hpast hsome]
  cases call with
  | write bytes =>
      obtain ⟨hstart, rfl⟩ := hcall
      exact hresult _ rfl (by rw [hstart])
  | writeAt start bytes =>
      obtain ⟨rfl, rfl⟩ := hcall
      exact hresult _ rfl rfl
  | _ => cases hcall

/-- Truncating a handle shrinks its file. The file keeps as many of its first bytes as were asked
for, or all of them where there are no more. The cursor comes back to the new end if it lay past it,
unless both it and the size that was asked for lie past the old end. Whatever is called afterwards,
a write that begins past the end of the file as it is then leaves zeros in between. -/
theorem truncate_shrinks (h : Reachable world) (hheld : world.handle id = .ok held)
    (hcheck : held.checkWritable = .ok ()) (size : Nat) :
    ∃ file after, world.flat? held.inode = some file ∧ id.truncate size world = (.ok (), after) ∧
      after.flat? held.inode = some { file with bytes := file.bytes.take size } ∧
      (id.size after).1 = .ok (min file.bytes.length size) ∧
      (held.position ≤ file.bytes.length ∨ size ≤ file.bytes.length → after.handle id =
        .ok { held with position := min held.position (min file.bytes.length size) }) ∧
      ∀ (calls : List Call) (later : World) writer known now (call : HandleCall) offset data,
        calls.foldl Call.perform after = later → later.handle writer = .ok known →
        known.inode = held.inode → known.checkWritable = .ok () →
        later.flat? held.inode = some now → call.WritesAt known now offset data →
        now.bytes.length ≤ offset → data ≠ [] →
        BlockStore.Fits now.ceiling (offset + data.length) →
        (call.perform writer later).flat? held.inode = some { now with
          bytes := now.bytes ++ List.replicate (offset - now.bytes.length) 0 ++ data } := by
  obtain ⟨file, hon⟩ := h.on hheld
  obtain ⟨after, hrun, hafter⟩ := id.truncate_run hon hcheck size
  refine ⟨file, after, hon.file, hrun, hafter.file, ?_, fun hcursor => ?_, ?_⟩
  · rw [HandleId.size_run hafter (Handle.checkWritable_open hcheck)]
    exact congrArg Except.ok (List.length_take.trans (Nat.min_comm ..))
  · have hposition : min held.position size = min held.position (min file.bytes.length size) := by
      omega
    rw [hafter.handle, hposition]
  · rintro calls later writer known now call offset data rfl hknown hinode hwritable hnow hcall
      hpast hsome hfits
    rw [← hinode] at hnow ⊢
    exact HandleCall.fills_gap ⟨hafter.reachable.run calls, hknown, hnow⟩ hwritable hcall hpast hsome
      hfits

/-- A file that is emptied through one handle is written through another, whose cursor is where it
was before. -/
theorem bookmarked_gap_is_zeros :
    ∃ after, HandleId.truncate ⟨1⟩ 0 World.bookmarked = (.ok (), after) ∧
      (after.handle ⟨1⟩).map (·.position) = .ok 0 ∧ after.flat? ⟨0⟩ = some ⟨1, []⟩ ∧
      ((HandleCall.write [9]).perform ⟨2⟩ after).flat? ⟨0⟩ = some ⟨1, [0, 0, 0, 0, 0, 9]⟩ := by
  have hreach : Reachable World.bookmarked := Reachable.start.run _
  have hfile : World.bookmarked.flat? ⟨0⟩ = some ⟨1, [1, 2, 3]⟩ := by decide +kernel
  let held (position : Nat) : Handle :=
    ⟨⟨0⟩, ⟨1⟩, ⟨0⟩, ⟨0, "/", ["f"], true⟩, .creating, position, [], true⟩
  have hheld : World.bookmarked.handle ⟨1⟩ = .ok (held 1) := by decide +kernel
  obtain ⟨file, after, hfound, hrun, hcut, -, hcursor, hgap⟩ :=
    truncate_shrinks hreach hheld rfl 0
  obtain rfl := Option.some.inj (hfile.symm.trans hfound)
  have hother : (HandleId.truncate ⟨1⟩ 0 World.bookmarked).2.handle ⟨2⟩ = .ok (held 5) := by
    decide +kernel
  rw [hrun] at hother
  refine ⟨after, hrun, ?_, hcut, ?_⟩
  · rw [hcursor (.inl (by decide))]
    rfl
  · exact hgap [] after ⟨2⟩ (held 5) _ (.write [9]) 5 [9] rfl hother rfl rfl hcut ⟨rfl, rfl⟩
      (by decide) (by decide) (by decide)

/-- A cursor past the end of three bytes stays past it when the file is cut behind its end. -/
theorem bookmarked_cursor_stays_outside :
    ∃ held after later, Reachable World.bookmarked ∧ World.bookmarked.handle ⟨2⟩ = .ok held ∧
      held.checkWritable = .ok () ∧ held.position = 5 ∧
      World.bookmarked.flat? held.inode = some ⟨1, [1, 2, 3]⟩ ∧
      HandleId.truncate ⟨2⟩ 4 World.bookmarked = (.ok (), after) ∧
      after.flat? held.inode = some ⟨1, [1, 2, 3]⟩ ∧ after.handle ⟨2⟩ = .ok later ∧
      later.position = 4 ∧ later.position ≠ min held.position 3 := by
  let held (position : Nat) : Handle :=
    ⟨⟨0⟩, ⟨1⟩, ⟨0⟩, ⟨0, "/", ["f"], true⟩, .creating, position, [], true⟩
  have hcut : (HandleId.truncate ⟨2⟩ 4 World.bookmarked).1 = .ok () := by decide +kernel
  exact ⟨held 5, _, held 4, Reachable.start.run _, by decide +kernel, rfl, rfl, by decide +kernel,
    Prod.ext hcut rfl, by decide +kernel, by decide +kernel, rfl, by decide⟩

end RamFs
