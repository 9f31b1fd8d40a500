import RamFs.Proofs.Cursors.Pieces

/-!
Handles that append. However many of them are on a file, under whatever names they were opened and
wherever their cursors have been put since, what each of them writes goes behind all that is there.
-/

namespace RamFs

open RamFs.Action

variable {world after : World} {id : HandleId} {inode : InodeId} {file written : FlatFile}
  {bytes : Bytes} {steps : Steps (HandleId × Bytes)}

/-- A write that begins at the end of a file goes behind its bytes. -/
theorem FlatFile.write_end (h : file.write file.bytes.length bytes = .ok written) :
    written = { file with bytes := file.bytes ++ bytes } := by
  unfold write at h
  split at h
  case isTrue hempty =>
    rw [← Except.ok.inj h, hempty, List.append_nil]
  case isFalse hsome =>
    split at h
    case isFalse => cases h
    case isTrue =>
      rw [← Except.ok.inj h]
      simp [splice, hsome]

/-- The handle is on the inode and was opened to append. -/
def World.Appends (world : World) (id : HandleId) (inode : InodeId) : Prop :=
  ∃ held, world.handle id = .ok held ∧ held.inode = inode ∧ held.options.append = true

theorem World.Appends.later (h : world.Appends id inode) (hages : world.Ages after) :
    after.Appends id inode := by
  obtain ⟨held, hheld, hinode, happend⟩ := h
  obtain ⟨later, hlater, hbecomes⟩ := hages.later hheld
  exact ⟨later, hlater, hbecomes.inode.trans hinode, hbecomes.options ▸ happend⟩

/-- A write through a handle that appends is refused and changes nothing, or goes behind the bytes of
the file and leaves the cursor at the new end. -/
theorem HandleId.append_cases (h : Reachable world) (hfile : world.flat? inode = some file)
    (happends : world.Appends id inode) (bytes : Bytes) :
    (∃ failure, id.write bytes world = (.error failure, world)) ∨
    ∃ held after, id.write bytes world = (.ok (), after) ∧ world.Ages after ∧
      after.On id held { file with bytes := file.bytes ++ bytes } ∧ held.inode = inode ∧
      held.checkOpen = .ok () ∧ held.position = (file.bytes ++ bytes).length := by
  obtain ⟨held, hheld, rfl, happend⟩ := happends
  have hstart : held.start file = file.bytes.length := by
    unfold Handle.start
    rw [happend, if_pos rfl]
  rcases id.write_cases ⟨h, hheld, hfile⟩ bytes with ⟨failure, hrefused, -⟩ |
    ⟨written, after, hcheck, hwritten, hrun, hages, hafter⟩
  · exact .inl ⟨failure, hrefused⟩
  · rw [hstart] at hwritten hafter
    obtain rfl := FlatFile.write_end hwritten
    exact .inr ⟨_, after, hrun, hages, hafter, rfl, Handle.checkWritable_open hcheck,
      List.length_append.symm⟩

/-- The bytes of the writes that succeeded, in their order. -/
def bytesWritten : List (HandleId × Bytes) → List (Except Failure Unit) → Bytes
  | (_, bytes) :: writes, .ok () :: results => bytes ++ bytesWritten writes results
  | _ :: writes, .error _ :: results => bytesWritten writes results
  | _, _ => []

/-- Writes through any handles, with calls in between. -/
def World.interleavedWrites (world : World) (steps : Steps (HandleId × Bytes)) :
    List (Except Failure Unit) × World :=
  world.interleaved (fun (id, bytes) => id.write bytes) steps

theorem World.appends_run (h : Reachable world) (hfile : world.flat? inode = some file)
    (hwriters : ∀ write ∈ steps.inputs, world.Appends write.1 inode)
    (hasides : ∀ aside ∈ steps.asides, ¬aside.2.Writes aside.1 world inode) :
    ∃ results last, world.interleavedWrites steps = (results, last) ∧ Reachable last ∧
      world.Ages last ∧ last.flat? inode =
        some { file with bytes := file.bytes ++ bytesWritten steps.inputs results } := by
  induction steps generalizing world file with
  | nil => exact ⟨[], world, rfl, h, .refl, hfile.trans (by simp [bytesWritten])⟩
  | cons step steps ih =>
      cases step with
      | inl write =>
          obtain ⟨id, bytes⟩ := write
          obtain ⟨happends, hwriters⟩ := List.forall_mem_cons.1 hwriters
          rcases id.append_cases h hfile happends bytes with ⟨failure, hwrite⟩ |
            ⟨held, middle, hwrite, hages, hmiddle, rfl, -⟩
          · obtain ⟨results, last, hrun, hrest⟩ := ih h hfile hwriters hasides
            exact ⟨.error failure :: results, last, interleaved_inl hwrite hrun, hrest⟩
          · obtain ⟨results, last, hrun, hreach, hlast, hrest⟩ := ih hmiddle.reachable hmiddle.file
              (fun write hwrite => (hwriters write hwrite).later hages)
              fun aside haside hwrites => hasides aside haside (hwrites.of_ages hages)
            refine ⟨.ok () :: results, last, interleaved_inl hwrite hrun, hreach, hages.trans hlast,
              hrest.trans ?_⟩
            rw [List.append_assoc]
            rfl
      | inr aside =>
          obtain ⟨id, call⟩ := aside
          obtain ⟨hkept, hasides⟩ := List.forall_mem_cons.1 hasides
          have hages : world.Ages (call.perform id world) := call.ages id
          obtain ⟨results, last, hrun, hreach, hlast, hrest⟩ := ih (h.step (.onHandle id call))
            (HandleCall.flat?_perform h hfile hkept)
            (fun write hwrite => (hwriters write hwrite).later hages)
            fun aside haside hwrites => hasides aside haside (hwrites.of_ages hages)
          exact ⟨results, last, hrun, hreach, hages.trans hlast, hrest⟩

/-- Appends never overwrite. After any session of writes through handles that append to a file, with
any calls in between that do not write to it, the file holds what it held, followed by what the
writes that succeeded wrote, in their order. Where another such write succeeds then, its bytes come
next, and the cursor of its handle is at the end of the file. -/
theorem appends_never_overwrite (h : Reachable world) (hfile : world.flat? inode = some file)
    (steps : Steps (HandleId × Bytes))
    (hwriters : ∀ write ∈ steps.inputs, world.Appends write.1 inode)
    (hasides : ∀ aside ∈ steps.asides, ¬aside.2.Writes aside.1 world inode) :
    ∃ results last bytes, world.interleavedWrites steps = (results, last) ∧
      bytes = file.bytes ++ bytesWritten steps.inputs results ∧
      last.flat? inode = some { file with bytes } ∧
      ∀ id more after, world.Appends id inode → id.write more last = (.ok (), after) →
        after.flat? inode = some { file with bytes := bytes ++ more } ∧
          ∃ held, after.handle id = .ok held ∧ held.position = (bytes ++ more).length ∧
            (id.size after).1 = .ok held.position := by
  obtain ⟨results, last, hrun, hreach, hages, hlast⟩ :=
    World.appends_run h hfile hwriters hasides
  refine ⟨results, last, _, hrun, rfl, hlast, fun id more after happends hwrite => ?_⟩
  rcases id.append_cases hreach hlast (happends.later hages) more with ⟨_, hrefused⟩ |
    ⟨held, middle, hwritten, -, hmiddle, rfl, hopen, hposition⟩
  · cases hrefused.symm.trans hwrite
  · obtain rfl : middle = after := congrArg Prod.snd (hwritten.symm.trans hwrite)
    refine ⟨hmiddle.file, held, hmiddle.handle, hposition, ?_⟩
    rw [HandleId.size_run hmiddle hopen, hposition]

/-- A file of one byte with two names, which is open to append under either of them. -/
def World.logged : World :=
  List.foldl Call.perform {} [.newVolume {}, .writeAll ⟨0⟩ "/f" [1],
    .onPath ⟨0⟩ (.createHardLink "/g" "/f"), .onPath ⟨0⟩ (.openFile "/f" .appending),
    .onPath ⟨0⟩ (.openFile "/g" .appending)]

/-- Both handles write in turn, with cursors set back in between, and then the second one once more. -/
theorem logged_appends_follow :
    ∃ last after held, World.logged.interleavedWrites [.inl (⟨1⟩, [2, 3]),
        .inr (⟨1⟩, .setPosition 0), .inl (⟨2⟩, [4]), .inr (⟨2⟩, .setPosition 1),
        .inr (⟨2⟩, .read 9)] = ([.ok (), .ok ()], last) ∧
      last.flat? ⟨0⟩ = some ⟨maxBlocks, [1, 2, 3, 4]⟩ ∧
      HandleId.write ⟨2⟩ [5] last = (.ok (), after) ∧
      after.flat? ⟨0⟩ = some ⟨maxBlocks, [1, 2, 3, 4, 5]⟩ ∧ after.handle ⟨2⟩ = .ok held ∧
      held.position = 5 := by
  let steps : Steps (HandleId × Bytes) := [.inl (⟨1⟩, [2, 3]), .inr (⟨1⟩, .setPosition 0),
    .inl (⟨2⟩, [4]), .inr (⟨2⟩, .setPosition 1), .inr (⟨2⟩, .read 9)]
  have hreach : Reachable World.logged := Reachable.start.run _
  have hfile : World.logged.flat? ⟨0⟩ = some ⟨maxBlocks, [1]⟩ := by decide +kernel
  have hfirst : World.logged.Appends ⟨1⟩ ⟨0⟩ :=
    ⟨⟨⟨0⟩, ⟨1⟩, ⟨0⟩, ⟨0, "/", ["f"], true⟩, .appending, 0, [], true⟩, by decide +kernel, rfl, rfl⟩
  have hsecond : World.logged.Appends ⟨2⟩ ⟨0⟩ :=
    ⟨⟨⟨0⟩, ⟨2⟩, ⟨0⟩, ⟨0, "/", ["g"], true⟩, .appending, 0, [], true⟩, by decide +kernel, rfl, rfl⟩
  have hasides : ∀ aside ∈ steps.asides, aside.2.writer? aside.1 = none := by
    simp [steps, HandleCall.writer?]
  obtain ⟨results, last, bytes, hrun, hbytes, hlast, hnext⟩ :=
    appends_never_overwrite hreach hfile steps (by simp [steps, hfirst, hsecond])
      fun aside haside => HandleCall.not_writes (hasides aside haside)
  have hresults : (World.logged.interleavedWrites steps).1 = [.ok (), .ok ()] := by decide +kernel
  have hwrite : (HandleId.write ⟨2⟩ [5] (World.logged.interleavedWrites steps).2).1 = .ok () := by
    decide +kernel
  rw [hrun] at hresults hwrite
  obtain rfl : results = [.ok (), .ok ()] := hresults
  obtain rfl : bytes = [1, 2, 3, 4] := hbytes
  obtain ⟨hmore, held, hheld, hposition, -⟩ := hnext ⟨2⟩ [5] _ hsecond (Prod.ext hwrite rfl)
  exact ⟨last, _, held, hrun, hlast, Prod.ext hwrite rfl, hmore, hheld, hposition⟩

end RamFs
