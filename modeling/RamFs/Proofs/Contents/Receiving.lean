import RamFs.Proofs.Contents.Bookkeeping

/-!
Transfers into a file, as seen from the source. A source flows up to its first failure that is no
interruption, or up to data without a byte in it, which reads like the end. A transfer takes the
bytes of that flow, as many as are asked for, puts them where it was told to, and leaves everything
else of the source and of the contents as it was. It fails only where the flow gives too little and
ends at a failure.
-/

namespace RamFs

/-- Whether a source flows on behind the chunk. -/
def Chunk.flows : Chunk → Bool
  | .data bytes => bytes ≠ []
  | .failure error => error.kind = .interrupted

namespace Source

/-- The bytes that the source gives before anything ends the taking. -/
def flow (source : Source) : Bytes :=
  remaining (source.takeWhile Chunk.flows)

/-- The failure at which the flow ends, if it ends at one. -/
def obstacle? (source : Source) : Option StreamError :=
  match source.dropWhile Chunk.flows with
  | .failure error :: _ => some error
  | _ => none

theorem remaining_cons (chunk : Chunk) (source : Source) :
    remaining (chunk :: source) = remaining [chunk] ++ source.remaining := by
  cases chunk <;> simp [remaining]

section Cons

variable {chunk : Chunk} (source : Source)

theorem flow_cons (h : chunk.flows = true) :
    flow (chunk :: source) = remaining [chunk] ++ source.flow := by
  rw [flow, List.takeWhile_cons_of_pos h, remaining_cons, flow]

theorem flow_of_not_flows (h : ¬ chunk.flows = true) : flow (chunk :: source) = [] := by
  rw [flow, List.takeWhile_cons_of_neg h, remaining]

theorem obstacle?_cons (h : chunk.flows = true) :
    obstacle? (chunk :: source) = source.obstacle? := by
  rw [obstacle?, List.dropWhile_cons_of_pos h, obstacle?]

end Cons

/-- Interruptions are no obstacles. -/
theorem kind_of_obstacle? {source : Source} {error : StreamError}
    (h : source.obstacle? = some error) : error.kind ≠ .interrupted := by
  unfold obstacle? at h
  split at h
  case h_1 found rest hfound =>
    cases h
    have hhead := List.head?_dropWhile_not Chunk.flows source
    rw [hfound] at hhead
    simpa [Chunk.flows] using hhead
  case h_2 => cases h

theorem taken_drain (source : Source) (count : Nat) :
    (source.drain count).taken = source.flow.take count := by
  fun_induction drain source count with
  | case1 | case2 => simp [flow, remaining]
  | case3 error rest count hinterrupted ih =>
    rw [ih, flow_cons rest (by simpa [Chunk.flows] using hinterrupted)]
    rfl
  | case4 error rest count hfailed =>
    rw [flow_of_not_flows rest (by simpa [Chunk.flows] using hfailed), List.take_nil]
  | case5 rest count => rw [flow_of_not_flows rest (by simp [Chunk.flows]), List.take_nil]
  | case6 bytes rest count hbytes hlength ih =>
    rw [flow_cons rest (by simpa [Chunk.flows] using hbytes), List.take_append,
      Drained.after, ih]
    simp [remaining, List.take_of_length_le hlength]
  | case7 bytes rest count hbytes hlength =>
    rw [flow_cons rest (by simpa [Chunk.flows] using hbytes),
      List.take_append_of_le_length (by simp [remaining]; omega)]
    simp [remaining]

/-- The taking fails where the flow gives too little and ends at a failure. -/
theorem outcome_drain (source : Source) (count : Nat) :
    (source.drain count).outcome =
      if count ≤ source.flow.length then .ok ()
      else match source.obstacle? with
        | some error => .error error
        | none => .ok () := by
  fun_induction drain source count with
  | case1 => simp
  | case2 => simp [flow, obstacle?, remaining]
  | case3 error rest count hinterrupted ih =>
    have hflows : (Chunk.failure error).flows = true := by simpa [Chunk.flows] using hinterrupted
    rw [ih, flow_cons rest hflows, obstacle?_cons rest hflows]
    rfl
  | case4 error rest count hfailed =>
    have hflows : ¬ (Chunk.failure error).flows = true := by simpa [Chunk.flows] using hfailed
    rw [flow_of_not_flows rest hflows, if_neg (by simp), obstacle?,
      List.dropWhile_cons_of_neg hflows]
  | case5 rest count =>
    have hflows : ¬ (Chunk.data []).flows = true := by simp [Chunk.flows]
    rw [flow_of_not_flows rest hflows, if_neg (by simp), obstacle?,
      List.dropWhile_cons_of_neg hflows]
  | case6 bytes rest count hbytes hlength ih =>
    have hflows : (Chunk.data bytes).flows = true := by simpa [Chunk.flows] using hbytes
    have hlength : (remaining [.data bytes] ++ flow rest).length =
        bytes.length + (flow rest).length := by simp [remaining]
    rw [Drained.after, ih, flow_cons rest hflows, obstacle?_cons rest hflows, hlength]
    simp only [Nat.sub_le_iff_le_add']
  | case7 bytes rest count hbytes hlength =>
    rw [flow_cons rest (by simpa [Chunk.flows] using hbytes), if_pos]
    simp only [remaining, List.length_append]
    omega

end Source

/-- Within the contents or at their end, writing leaves no gap. -/
theorem splice_of_le {bytes : Bytes} {offset : Nat} (h : offset ≤ bytes.length)
    (source : Bytes) :
    splice bytes offset source =
      bytes.take offset ++ source ++ bytes.drop (offset + source.length) := by
  by_cases hsource : source = []
  · simp [hsource]
  · rw [splice, if_neg hsource, Nat.sub_eq_zero_of_le h, List.replicate_zero, List.append_nil]

namespace BlockStore

theorem report_eq_ok {drained : Drained} {n : Nat} :
    report drained = .ok n ↔ n = drained.taken.length ∧ drained.outcome = .ok () := by
  unfold report
  cases drained.outcome with
  | ok => simp [eq_comm]
  | error error => simp

theorem report_eq_error {drained : Drained} {failure : Failure} :
    report drained = .error failure ↔
      ∃ error, drained.outcome = .error error ∧ failure = .stream error := by
  unfold report
  cases drained.outcome with
  | ok => simp
  | error error => simp [eq_comm]

/-- What a transfer has done that was not refused: `taken` are the bytes it took. -/
structure Received (store : BlockStore) (offset count : Nat) (source : Source)
    (moved : Transfer Nat) (taken : Bytes) : Prop where
  most : taken.length ≤ count
  /-- The bytes lie where they were to go, and all others are as before. -/
  contents : moved.store.contents =
    store.contents.take offset ++ taken ++ store.contents.drop (offset + taken.length)
  size : moved.store.size = max store.contents.length (offset + taken.length)
  /-- No byte of the source is lost, and none is made up. -/
  conserved : taken ++ moved.source.remaining = source.remaining
  /-- All went well if there was enough, or if what there was came to an end without failure. -/
  completed : ∀ n, moved.result = .ok n ↔
    n = taken.length ∧ (count ≤ source.flow.length ∨ source.obstacle? = none)
  /-- Nothing but a failure of the source makes a transfer fail that was once begun. -/
  failed : ∀ failure, moved.result = .error failure ↔
    ∃ error, failure = .stream error ∧ error.kind ≠ .interrupted ∧
      source.obstacle? = some error ∧ source.flow.length < count

theorem Valid.received {store : BlockStore} (hvalid : store.Valid) {offset count : Nat}
    (source : Source) (hoffset : offset ≤ store.size)
    (hfits : Fits store.maxBlocks (offset + count)) :
    store.Received offset count source (store.transferFrom offset count source)
      (source.flow.take count) := by
  have hneeded := (hvalid.blocksFor_le_iff_fits hfits.1).2 hfits
  have hmoved : store.transferFrom offset count source = store.receive offset count source := by
    rw [transferFrom, if_neg (Nat.not_lt.2 hoffset), if_neg (Nat.not_lt.2 hfits.1),
      checkCapacity, if_pos hneeded]
  obtain ⟨hresult, hsource, _, _, hcontents⟩ := receive_spec count source hvalid hoffset hfits
  have htaken := source.taken_drain count
  have houtcome := source.outcome_drain count
  rw [splice_of_le (by rw [length_contents]; exact hoffset), htaken] at hcontents
  rw [hmoved]
  refine ⟨List.length_take_le _ _, hcontents, ?size, ?conserved, ?completed, ?failed⟩
  case size =>
    rw [← length_contents, hcontents]
    simp only [List.length_append, List.length_take, List.length_drop, length_contents]
    omega
  case conserved =>
    rw [hsource, ← htaken]
    exact source.taken_drain_append_remaining count
  case completed =>
    intro n
    rw [hresult, report_eq_ok, htaken, houtcome]
    split
    case isTrue henough => simp [henough]
    case isFalse hlittle => cases source.obstacle? <;> simp [hlittle]
  case failed =>
    intro failure
    rw [hresult, report_eq_error, houtcome]
    split
    case isTrue henough => simp [Nat.not_lt.2 henough]
    case isFalse hlittle =>
      cases hobstacle : source.obstacle? with
      | none => simp
      | some error =>
        have hkind := Source.kind_of_obstacle? hobstacle
        simp only [Except.error.injEq, Option.some.injEq, Nat.lt_of_not_le hlittle, and_true]
        constructor
        · rintro ⟨_, rfl, hfailure⟩
          exact ⟨error, hfailure, hkind, rfl⟩
        · rintro ⟨_, hfailure, _, rfl⟩
          exact ⟨error, rfl, hfailure⟩

end BlockStore

/-- A transfer into a file loses no byte and invents none. One that begins past the end does
nothing, and one whose range does not fit is refused; both leave file and source alone. Any other
takes what the source has, up to what it was asked for, puts just that in its place, and fails
only with a failure of the source that it met before it had enough. -/
theorem transfer_in_loses_no_byte {store : BlockStore} {ceiling : Nat}
    (h : store.Arises ceiling) (offset count : Nat) (source : Source) :
    let moved := store.transferFrom offset count source
    (store.contents.length < offset → moved = ⟨.ok 0, store, source⟩) ∧
    (offset ≤ store.contents.length → ¬ BlockStore.Fits store.maxBlocks (offset + count) →
      moved = ⟨.error .capacityExceeded, store, source⟩) ∧
    (offset ≤ store.contents.length → BlockStore.Fits store.maxBlocks (offset + count) →
      store.Received offset count source moved (source.flow.take count)) := by
  intro moved
  have hvalid := h.valid.1
  rw [BlockStore.length_contents]
  refine ⟨fun hpast => if_pos hpast, fun hoffset hover => ?_, fun hoffset hfits => ?_⟩
  · simp only [moved, BlockStore.transferFrom]
    rw [if_neg (Nat.not_lt.2 hoffset)]
    by_cases hmax : offset + count > maxOffset
    · rw [if_pos hmax]
    · have hrefused : store.checkCapacity (offset + count) = .error .capacityExceeded :=
        if_neg (mt (hvalid.blocksFor_le_iff_fits (Nat.le_of_not_lt hmax)).1 hover)
      rw [if_neg hmax, hrefused]
  · exact hvalid.received source hoffset hfits

/-- The source is interrupted twice, gives a byte at the end of one block and two in the next,
and then breaks. -/
theorem broken_transfer_loses_no_byte :
    let source : Source := [.failure ⟨.interrupted, "again"⟩, .data [5],
      .failure ⟨.interrupted, "again"⟩, .data [6, 7], .failure ⟨.brokenPipe, "gone"⟩, .data [8]]
    ∃ store : BlockStore, store.Arises 2 ∧ store.contents.length = blockSize + 1 ∧
      BlockStore.Fits store.maxBlocks (blockSize - 1 + 4) ∧
      store.Received (blockSize - 1) 4 source (store.transferFrom (blockSize - 1) 4 source)
        [5, 6, 7] := by
  intro source
  have hfiles : ((blockFiles.run [Inode.new 2] [(0, .write (blockSize - 2) [1, 2, 3])]).2.map
      fun inode => (inode.size, inode.store.maxBlocks)) = [(blockSize + 1, 2)] := by decide +kernel
  obtain ⟨inode, hinode, hcounts⟩ := List.mem_map.1 (hfiles ▸ List.mem_cons_self)
  obtain ⟨hsize, hmost⟩ := Prod.mk.inj hcounts
  have harises : inode.store.Arises 2 := ⟨_, inode, hinode, rfl⟩
  have hlength : inode.store.contents.length = blockSize + 1 :=
    (BlockStore.length_contents _).trans hsize
  have hfits : BlockStore.Fits inode.store.maxBlocks (blockSize - 1 + 4) := by
    rw [hmost]
    decide
  exact ⟨inode.store, harises, hlength, hfits,
    (transfer_in_loses_no_byte harises _ _ source).2.2 (by rw [hlength]; decide) hfits⟩

end RamFs
