import RamFs.Proofs.Contents.Bookkeeping

/-!
The operations of a store with every index and every sum looked at before it is used. Loops
count from the start of their range, as far as `done`, and each of them goes on only with blocks
that are there, slices that lie in one block, and sums that are words. On every store that arises
nothing is ever found amiss, so that the guarded operations and the ones that run are the same.
-/

namespace RamFs

namespace BlockStore

/-! ### Guarded operations -/

namespace Guarded

variable {σ : Type}

/-- The slices of `count` bytes from `offset` on, of which `done` are behind. -/
def slices (blocks : Array Block) (offset done count : Nat) : Option (List Bytes) :=
  if _hdone : done < count then do
    guard (offset + done ≤ maxOffset)
    let position := offset + done
    let within := position % blockSize
    let length := min (blockSize - within) (count - done)
    let block ← blocks[position / blockSize]?
    guard (within + length ≤ blockSize)
    guard (done + length ≤ maxOffset ∧ position + length ≤ maxOffset)
    let later ← slices blocks offset (done + length) count
    return (block.bytes.drop within).take length :: later
  else some []
termination_by count - done
decreasing_by
  have : (offset + done) % blockSize < blockSize := Nat.mod_lt _ (by decide)
  omega

/-- Lays bytes into the blocks from `offset` on; `done` of them are there already. -/
def put (blocks : Array Block) (offset done : Nat) (source : Bytes) : Option (Array Block) :=
  if _hdone : done < source.length then do
    guard (offset + done ≤ maxOffset)
    let position := offset + done
    let within := position % blockSize
    let length := min (blockSize - within) (source.length - done)
    guard (position / blockSize < blocks.size)
    guard (within + length ≤ blockSize ∧ done + length ≤ maxOffset)
    put (blocks.modify (position / blockSize) (·.overlay within ((source.drop done).take length)))
      offset (done + length) source
  else some blocks
termination_by source.length - done
decreasing_by
  have : (offset + done) % blockSize < blockSize := Nat.mod_lt _ (by decide)
  omega

/-- There is a first block, and it is counted with those behind it. -/
def blockCount (store : BlockStore) : Option Nat := do
  guard (1 ≤ store.blocks.size ∧ store.blocks.size ≤ maxOffset)
  return store.blocks.size

def reserve (store : BlockStore) (required : Nat) : Option (Except Failure BlockStore) := do
  let _ ← blockCount store
  return store.reserve required

def read (store : BlockStore) (offset count : Nat) : Option (Option Bytes) :=
  if offset < store.size then do
    let found ← slices store.blocks offset 0 (min count (store.size - offset))
    return some found.flatten
  else some none

/-- The end of the range is looked at in any case. -/
def write (store : BlockStore) (offset : Nat) (source : Bytes) :
    Option (Except Failure BlockStore) :=
  if source = [] then some (.ok store)
  else if offset + source.length > maxOffset then some (.error .capacityExceeded)
  else do
    match ← reserve store (offset + source.length) with
    | .error failure => return .error failure
    | .ok store =>
      let blocks ← put store.blocks offset 0 source
      return .ok { store with blocks, size := max store.size (offset + source.length) }

def truncate (store : BlockStore) (size : Nat) : Option BlockStore :=
  if store.size ≤ size then some store
  else do
    let count ← blockCount store
    guard (size / blockSize < count)
    return { store with
      blocks := (store.blocks.modify (size / blockSize) (·.clearFrom (size % blockSize))).take
        (blocksFor size)
      size }

/-- Fills `count` bytes from `offset` on, of which `done` have come. -/
def receive (store : BlockStore) (offset done count : Nat) (source : Source) :
    Option (Transfer Nat) :=
  if _hdone : done < count then do
    guard (offset + done ≤ maxOffset)
    let position := offset + done
    let within := position % blockSize
    let limit := min (blockSize - within) (count - done)
    guard (position + limit ≤ maxOffset)
    match ← reserve store (position + limit) with
    | .error failure => return ⟨.error failure, store, source⟩
    | .ok store =>
      guard (position / blockSize < store.blocks.size ∧ within + limit ≤ blockSize)
      match source.readThrough limit with
      | (.error error, source) => return ⟨.error (.stream error), store, source⟩
      | (.ok bytes, source) =>
        if _hbytes : bytes = [] then return ⟨.ok done, store, source⟩
        else
          guard (done + bytes.length ≤ maxOffset ∧ offset + (done + bytes.length) ≤ maxOffset)
          receive { store with
              blocks := store.blocks.modify (position / blockSize) (·.overlay within bytes)
              size := max store.size (offset + (done + bytes.length)) }
            offset (done + bytes.length) count source
  else some ⟨.ok done, store, source⟩
termination_by count - done
decreasing_by
  have := List.length_pos_iff.2 _hbytes
  omega

/-- The end of the range is looked at in any case. -/
def transferFrom (store : BlockStore) (offset count : Nat) (source : Source) :
    Option (Transfer Nat) :=
  if offset > store.size then some ⟨.ok 0, store, source⟩
  else if offset + count > maxOffset then some ⟨.error .capacityExceeded, store, source⟩
  else
    match store.checkCapacity (offset + count) with
    | .error failure => some ⟨.error failure, store, source⟩
    | .ok () => receive store offset 0 count source

/-- The end of the range is cut off where words end. -/
def transferTo (store : BlockStore) (offset count : Nat)
    (writeAll : σ → Bytes → Except StreamError Unit × σ) (state : σ) :
    Option (Except Failure Nat × σ) :=
  if offset < store.size then do
    let finish := min (min (offset + count) maxOffset) store.size
    let found ← slices store.blocks offset 0 (finish - offset)
    let (result, state) := deliver writeAll state found
    return (result.map fun _ => finish - offset, state)
  else some (.ok 0, state)

end Guarded

/-! ### What the guards find -/

theorem guard_eq_some {condition : Prop} [Decidable condition] (h : condition) :
    guard condition = some () := by
  rw [guard, if_pos h]
  rfl

/-- A position below the end of the blocks lies in one of them. -/
theorem div_lt_size {blocks : Array Block} {position finish : Nat}
    (hposition : position < finish) (hfinish : finish ≤ blockSize * blocks.size) :
    position / blockSize < blocks.size := by
  apply (Nat.div_lt_iff_lt_mul blockSize_pos).2
  rw [Nat.mul_comm]
  exact Nat.lt_of_lt_of_le hposition hfinish

/-- Bytes that fit into one block are laid over that block. -/
theorem overwrite_within {store : BlockStore} {offset : Nat} {bytes : Bytes} (hbytes : bytes ≠ [])
    (hfit : offset % blockSize + bytes.length ≤ blockSize) :
    store.overwrite offset bytes =
      { store with
        blocks := store.blocks.modify (offset / blockSize)
          (·.overlay (offset % blockSize) bytes)
        size := max store.size (offset + bytes.length) } := by
  have hlength : min (blockSize - offset % blockSize) bytes.length = bytes.length := by omega
  rw [overwrite, put, dif_neg hbytes]
  dsimp only
  rw [hlength, List.take_length, List.drop_length, put, dif_pos rfl]

/-- The transfer with the bytes counted that came before it. -/
def Transfer.counting (done : Nat) (moved : Transfer Nat) : Transfer Nat :=
  { moved with result := moved.result.map (· + done) }

@[simp]
theorem Transfer.counting_zero (moved : Transfer Nat) : moved.counting 0 = moved := by
  obtain ⟨result, store, source⟩ := moved
  cases result <;> rfl

theorem Transfer.counting_counting (first second : Nat) (moved : Transfer Nat) :
    (moved.counting second).counting first = moved.counting (second + first) := by
  obtain ⟨result, store, source⟩ := moved
  cases result <;> simp [counting, Except.map, Nat.add_assoc]

namespace Guarded

variable {σ : Type} {store : BlockStore} {offset done count : Nat}

/-- The induction is on the bytes that are still ahead, one block at a time. -/
theorem slices_eq (hblocks : offset + count ≤ blockSize * store.blocks.size)
    (hmax : offset + count ≤ maxOffset) :
    slices store.blocks offset done count =
      some (store.slices (offset + done) (count - done)) := by
  induction hahead : count - done using Nat.strongRecOn generalizing done with
  | ind ahead ih =>
    rw [slices, BlockStore.slices, pieces]
    dsimp only
    by_cases hdone : done < count
    · have hmod : (offset + done) % blockSize < blockSize := Nat.mod_lt _ blockSize_pos
      have hindex := div_lt_size (show offset + done < offset + count by omega) hblocks
      obtain ⟨length, hlength⟩ :
        ∃ length, length = min (blockSize - (offset + done) % blockSize) (count - done) := ⟨_, rfl⟩
      have hlater : slices store.blocks offset (done + length) count =
          some (store.slices (offset + (done + length)) (ahead - length)) :=
        ih (ahead - length) (by omega) (by omega)
      rw [dif_pos hdone, dif_neg (by omega), ← hahead, ← hlength]
      simp only [guard_eq_some (show offset + done ≤ maxOffset by omega),
        guard_eq_some (show (offset + done) % blockSize + length ≤ blockSize by omega),
        guard_eq_some (show done + length ≤ maxOffset ∧ offset + done + length ≤ maxOffset by
          omega),
        Array.getElem?_eq_getElem hindex, hlater, Option.bind_eq_bind, Option.bind_some,
        Option.pure_def, BlockStore.slices, List.map_cons, block, Array.getD_eq_getD_getElem?,
        Option.getD_some, ← hahead]
      rw [Nat.add_assoc]
    · rw [dif_neg hdone, dif_pos (by omega)]
      rfl

theorem put_eq {bytes : Bytes} {blocks : Array Block}
    (hblocks : offset + bytes.length ≤ blockSize * blocks.size)
    (hmax : offset + bytes.length ≤ maxOffset) :
    put blocks offset done bytes =
      some (BlockStore.put blocks (offset + done) (bytes.drop done)) := by
  induction hahead : bytes.length - done using Nat.strongRecOn generalizing done blocks with
  | ind ahead ih =>
    rw [put, BlockStore.put]
    dsimp only
    by_cases hdone : done < bytes.length
    · have hmod : (offset + done) % blockSize < blockSize := Nat.mod_lt _ blockSize_pos
      have hindex := div_lt_size (show offset + done < offset + bytes.length by omega) hblocks
      have hrest : bytes.drop done ≠ [] := by
        rw [Ne, List.drop_eq_nil_iff]
        omega
      obtain ⟨length, hlength⟩ : ∃ length, length =
        min (blockSize - (offset + done) % blockSize) (bytes.length - done) := ⟨_, rfl⟩
      have hlater (modified : Array Block) (hsize : modified.size = blocks.size) :
          put modified offset (done + length) bytes =
            some (BlockStore.put modified (offset + (done + length))
              (bytes.drop (done + length))) :=
        ih (ahead - length) (by omega) (by rw [hsize]; exact hblocks) (by omega)
      rw [dif_pos hdone, dif_neg hrest, List.length_drop, ← hlength]
      simp only [guard_eq_some (show offset + done ≤ maxOffset by omega),
        guard_eq_some hindex,
        guard_eq_some (show (offset + done) % blockSize + length ≤ blockSize ∧
          done + length ≤ maxOffset by omega),
        Option.bind_eq_bind, Option.bind_some, hlater _ Array.size_modify, List.drop_drop]
      rw [Nat.add_assoc]
    · rw [dif_neg hdone, dif_pos (List.drop_eq_nil_iff.2 (Nat.le_of_not_lt hdone))]

variable (hvalid : store.Valid)

include hvalid

theorem read_eq (offset count : Nat) :
    read store offset count = some (store.read? offset count) := by
  have hsize := hvalid.size_le
  have hmax := hvalid.size_le_max
  unfold read read?
  by_cases hoffset : offset < store.size
  · rw [if_pos hoffset, if_pos hoffset, slices_eq (by omega) (by omega)]
    rfl
  · rw [if_neg hoffset, if_neg hoffset]

theorem transferTo_eq (offset count : Nat) (writeAll : σ → Bytes → Except StreamError Unit × σ)
    (state : σ) :
    transferTo store offset count writeAll state =
      some (store.transferTo offset count writeAll state) := by
  have hsize := hvalid.size_le
  have hmax := hvalid.size_le_max
  have hfinish : min (min (offset + count) maxOffset) store.size =
      min (offset + count) store.size := by omega
  unfold transferTo BlockStore.transferTo outgoing
  dsimp only
  by_cases hoffset : offset < store.size
  · have hfound : slices store.blocks offset 0 (min (offset + count) store.size - offset) =
        some (store.slices offset (min (offset + count) store.size - offset)) :=
      slices_eq (by omega) (by omega)
    rw [if_pos hoffset, hfinish, hfound, flatten_slices, length_window]
    rfl
  · have hnothing : min (offset + count) store.size - offset = 0 := by omega
    rw [if_neg hoffset, hnothing, BlockStore.slices, pieces, dif_pos rfl]
    rfl

variable (hceiling : store.maxBlocks ≤ RamFs.maxBlocks)

include hceiling

theorem blockCount_eq : blockCount store = some store.blockCount := by
  have hcount : 1 ≤ store.blocks.size ∧ store.blocks.size ≤ maxOffset :=
    ⟨hvalid.blocks_pos, Nat.le_trans hvalid.blocks_le (Nat.le_trans hceiling (by decide))⟩
  rw [blockCount, guard_eq_some hcount]
  rfl

theorem reserve_eq (required : Nat) : reserve store required = some (store.reserve required) := by
  rw [reserve, blockCount_eq hvalid hceiling]
  rfl

theorem truncate_eq (size : Nat) : truncate store size = some (store.truncate size) := by
  unfold truncate BlockStore.truncate
  by_cases hsize : store.size ≤ size
  · rw [if_pos hsize, if_pos hsize]
  · have hindex : size / blockSize < store.blockCount :=
      div_lt_size (Nat.lt_of_not_le hsize) hvalid.size_le
    rw [if_neg hsize, if_neg hsize, blockCount_eq hvalid hceiling]
    simp only [Option.bind_eq_bind, Option.bind_some]
    rw [guard_eq_some hindex]
    rfl

theorem write_eq (offset : Nat) (bytes : Bytes) :
    write store offset bytes = some (store.write offset bytes) := by
  unfold write BlockStore.write
  by_cases hbytes : bytes = []
  · rw [if_pos hbytes, if_pos hbytes]
  · by_cases hmax : offset + bytes.length > maxOffset
    · rw [if_neg hbytes, if_neg hbytes, if_pos hmax, if_pos hmax]
    · rw [if_neg hbytes, if_neg hbytes, if_neg hmax, if_neg hmax, reserve_eq hvalid hceiling,
        BlockStore.reserve_eq]
      by_cases hneeded : blocksFor (offset + bytes.length) ≤ store.maxBlocks
      · have hroom : offset + bytes.length ≤
            blockSize * (store.grow (blocksFor (offset + bytes.length))).blocks.size := by
          rw [size_blocks_grow]
          exact Nat.le_trans (le_mul_blocksFor _) (Nat.mul_le_mul_left _ (Nat.le_max_right _ _))
        have hput : put (store.grow (blocksFor (offset + bytes.length))).blocks offset 0 bytes =
            some (BlockStore.put _ offset bytes) := put_eq hroom (Nat.le_of_not_lt hmax)
        rw [if_pos hneeded]
        simp only [Option.bind_eq_bind, Option.bind_some, hput]
        rfl
      · rw [if_neg hneeded]
        rfl

/-- One read finds nothing amiss. What it brings is put into the block that it was read into. -/
theorem receive_step (source : Source) (hoffset : offset + done ≤ store.size)
    (hfits : Fits store.maxBlocks (offset + count)) (hlater : done < count) :
    receive store offset done count source =
      let piece := store.receivePiece (offset + done) (count - done) source
      match piece.result with
      | .error failure => some ⟨.error failure, piece.store, piece.source⟩
      | .ok bytes =>
        if bytes = [] then some ⟨.ok done, piece.store, piece.source⟩
        else receive piece.store offset (done + bytes.length) count piece.source := by
  have hmod : (offset + done) % blockSize < blockSize := Nat.mod_lt _ blockSize_pos
  have hmax := hfits.1
  have hsum : offset + done + (count - done) = offset + count := by omega
  obtain ⟨⟨hlimit, -, hroom⟩, hpiece⟩ := receivePiece_eq
    (show 0 < count - done by omega) hvalid (by rw [hsum]; exact hfits) source
  dsimp only
  rw [receive, dif_pos hlater, hpiece, guard_eq_some (by omega)]
  dsimp only
  rw [guard_eq_some (by omega)]
  obtain ⟨limit, hlimit_eq⟩ : ∃ limit, limit =
    min (blockSize - (offset + done) % blockSize) (count - done) := ⟨_, rfl⟩
  rw [← hlimit_eq] at hlimit hroom ⊢
  have hneeded : blocksFor (offset + done + limit) ≤ store.maxBlocks :=
    (hvalid.blocksFor_le_iff_fits (by omega)).2 ⟨by omega, by have := hfits.2; omega⟩
  have hindex := div_lt_size (show offset + done < offset + done + limit by omega) hroom
  simp only [Option.bind_eq_bind, Option.bind_some, reserve_eq hvalid hceiling,
    BlockStore.reserve_eq, if_pos hneeded]
  rw [guard_eq_some ⟨hindex, by omega⟩]
  simp only [Option.bind_some]
  rcases hrun : source.readThrough limit with ⟨outcome, rest⟩
  cases outcome with
  | error error => rfl
  | ok bytes =>
    have hbytes := source.length_taken_readThrough_le limit bytes rest hrun
    by_cases hempty : bytes = []
    · subst hempty
      have hnothing (required : Nat) :
          (store.grow required).overwrite (offset + done) [] = store.grow required :=
        overwrite_nil hoffset
      simp only [dif_pos, if_pos, hnothing]
      rfl
    · simp only [dif_neg hempty, if_neg hempty]
      rw [guard_eq_some (by omega)]
      simp only [Option.bind_some]
      rw [← Nat.add_assoc, ← overwrite_within hempty (by omega)]

/-- The induction is on the bytes that are still to come, one read at a time. The next read meets a
store in order. -/
theorem receive_eq (source : Source) (hoffset : offset + done ≤ store.size)
    (hfits : Fits store.maxBlocks (offset + count)) (hdone : done ≤ count) :
    receive store offset done count source =
      some ((store.receive (offset + done) (count - done) source).counting done) := by
  induction hahead : count - done using Nat.strongRecOn generalizing done store source with
  | ind ahead ih =>
    by_cases hlater : done < count
    · have hsum : offset + done + (count - done) = offset + count := by omega
      obtain ⟨⟨-, hgrown, hroom⟩, hpiece⟩ := receivePiece_eq
        (show 0 < count - done by omega) hvalid (by rw [hsum]; exact hfits) source
      rw [receive_step hvalid hceiling source hoffset hfits hlater, BlockStore.receive,
        dif_neg (by omega), ← hahead, hpiece]
      dsimp only
      obtain ⟨limit, hlimit⟩ : ∃ limit, limit =
        min (blockSize - (offset + done) % blockSize) (count - done) := ⟨_, rfl⟩
      rw [← hlimit] at hgrown hroom ⊢
      rcases hrun : source.readThrough limit with ⟨outcome, rest⟩
      cases outcome with
      | error error => rfl
      | ok bytes =>
        have hbytes := source.length_taken_readThrough_le limit bytes rest hrun
        dsimp only
        by_cases hempty : bytes = []
        · rw [if_pos hempty, dif_pos hempty]
          simp [Transfer.counting, Except.map]
        · have hpos : 0 < bytes.length := List.length_pos_iff.2 hempty
          have hnext := overwrite_valid hgrown
            (show offset + done + bytes.length ≤ _ by omega) (by have := hfits.1; omega)
          have hrest := ih (count - (done + bytes.length)) (by omega) hnext hceiling rest
            (by rw [size_overwrite, ← Nat.add_assoc]; exact Nat.le_max_right _ _) hfits
            (by omega) rfl
          rw [if_neg hempty, dif_neg hempty, hrest, ← Nat.add_assoc, Nat.sub_sub,
            Nat.add_comm done, ← Transfer.counting_counting]
          rfl
    · rw [receive, BlockStore.receive, dif_neg hlater, dif_pos (by omega)]
      simp [Except.map, Transfer.counting]

theorem transferFrom_eq (offset count : Nat) (source : Source) :
    transferFrom store offset count source =
      some (store.transferFrom offset count source) := by
  unfold transferFrom BlockStore.transferFrom
  by_cases hpast : offset > store.size
  · rw [if_pos hpast, if_pos hpast]
  · by_cases hmax : offset + count > maxOffset
    · rw [if_neg hpast, if_neg hpast, if_pos hmax, if_pos hmax]
    · rw [if_neg hpast, if_neg hpast, if_neg hmax, if_neg hmax]
      by_cases hneeded : blocksFor (offset + count) ≤ store.maxBlocks
      · have hchecked : store.checkCapacity (offset + count) = .ok () := if_pos hneeded
        have hfits := (hvalid.blocksFor_le_iff_fits (Nat.le_of_not_lt hmax)).1 hneeded
        simp only [hchecked]
        rw [receive_eq hvalid hceiling source (Nat.le_of_not_lt hpast) hfits (Nat.zero_le _),
          Transfer.counting_zero]
        rfl
      · have hrefused : store.checkCapacity (offset + count) = .error .capacityExceeded :=
          if_neg hneeded
        simp only [hrefused]

end Guarded

/-! ### Stores that arise -/

/-- What the blocks of a store have to do with its contents. -/
structure Tight (store : BlockStore) (ceiling : Nat) : Prop where
  /-- There are blocks for all of the contents, and one if there are none. -/
  enough : max 1 ((store.size + blockSize - 1) / blockSize) ≤ store.blockCount
  few : store.blockCount ≤ store.size / blockSize + 1
  below : store.blockCount ≤ max 1 (min ceiling RamFs.maxBlocks)
  /-- Allocated bytes behind the contents are zero. -/
  clean : ∀ index block within byte, store.blocks[index]? = some block →
    block.bytes[within]? = some byte → store.size ≤ index * blockSize + within → byte = 0

/-- No guard stops an operation, whatever is asked of it. -/
structure Unhindered (store : BlockStore) : Prop where
  read : ∀ offset count, Guarded.read store offset count = some (store.read? offset count)
  write : ∀ offset bytes, Guarded.write store offset bytes = some (store.write offset bytes)
  truncate : ∀ size, Guarded.truncate store size = some (store.truncate size)
  transferFrom : ∀ offset count source,
    Guarded.transferFrom store offset count source = some (store.transferFrom offset count source)
  transferTo : ∀ {σ : Type} (writeAll : σ → Bytes → Except StreamError Unit × σ) (state : σ)
    (offset count : Nat), Guarded.transferTo store offset count writeAll state =
      some (store.transferTo offset count writeAll state)

theorem Valid.enough {store : BlockStore} (h : store.Valid) :
    max 1 ((store.size + blockSize - 1) / blockSize) ≤ store.blockCount := by
  refine Nat.max_le.2 ⟨h.blocks_pos, Nat.lt_succ_iff.1 ?_⟩
  rw [Nat.div_lt_iff_lt_mul blockSize_pos, Nat.succ_mul, Nat.mul_comm]
  have := h.size_le
  have := blockSize_pos
  simp only [blockCount]
  omega

theorem Valid.clean_block {store : BlockStore} (h : store.Valid) {index within : Nat}
    {block : Block} {byte : UInt8} (hblock : store.blocks[index]? = some block)
    (hbyte : block.bytes[within]? = some byte)
    (hposition : store.size ≤ index * blockSize + within) : byte = 0 := by
  have hwithin : within < blockSize := by
    rw [← block.length_eq]
    exact (List.getElem?_eq_some_iff.1 hbyte).1
  have hfound : byteAt store.blocks (index * blockSize + within) = byte := by
    rw [byteAt, Nat.mul_comm, Nat.mul_add_div blockSize_pos, Nat.div_eq_of_lt hwithin,
      Nat.mul_add_mod, Nat.mod_eq_of_lt hwithin, Nat.add_zero, Array.getD_eq_getD_getElem?,
      hblock, Option.getD_some, List.getD_eq_getElem?_getD, hbyte, Option.getD_some]
  rw [← hfound]
  exact h.clean _ hposition

theorem Arises.tight {store : BlockStore} {ceiling : Nat} (h : store.Arises ceiling) :
    store.Tight ceiling where
  enough := h.valid.1.enough
  few := h.trim
  below := h.valid.2 ▸ h.valid.1.blocks_le
  clean _ _ _ _ hblock hbyte hposition := h.valid.1.clean_block hblock hbyte hposition

theorem Arises.unhindered {store : BlockStore} {ceiling : Nat} (h : store.Arises ceiling) :
    store.Unhindered := by
  obtain ⟨hvalid, hmost⟩ := h.valid
  have hceiling : store.maxBlocks ≤ RamFs.maxBlocks := by
    rw [hmost]
    exact Nat.max_le.2 ⟨by decide, Nat.min_le_right _ _⟩
  exact {
    read := Guarded.read_eq hvalid
    write := Guarded.write_eq hvalid hceiling
    truncate := Guarded.truncate_eq hvalid hceiling
    transferFrom := Guarded.transferFrom_eq hvalid hceiling
    transferTo := fun writeAll state offset count =>
      Guarded.transferTo_eq hvalid offset count writeAll state }

end BlockStore

/-- Block bookkeeping is tight and safe. Whatever is called on one empty file and its duplicates,
each of them has the blocks that its size takes and at most one more, none above its ceiling and
nothing but zeros behind its contents; and no operation on it ever looks for a block that is not
there or adds up to more than a word. -/
theorem blocks_are_tight_and_safe (ceiling : Nat) (calls : List (Nat × FileCall)) :
    ∀ inode ∈ (blockFiles.run [Inode.new ceiling] calls).2,
      inode.store.Tight ceiling ∧ inode.store.Unhindered := by
  intro inode hinode
  have harises : inode.store.Arises ceiling := ⟨calls, inode, hinode, rfl⟩
  exact ⟨harises.tight, harises.unhindered⟩

/-- A transfer that fails at the end of a full block has allocated the next one. -/
theorem failed_transfer_is_tight_and_safe :
    ∃ inode ∈ (blockFiles.run [Inode.new 3] [(0, .write (blockSize - 1) [7]),
        (0, .transferFrom blockSize 5 [.failure ⟨.brokenPipe, "gone"⟩]), (0, .duplicate),
        (1, .truncate 1)]).2,
      inode.size = blockSize ∧ inode.store.blockCount = 2 ∧
        inode.store.Tight 3 ∧ inode.store.Unhindered := by
  have hfiles : ((blockFiles.run [Inode.new 3] [(0, .write (blockSize - 1) [7]),
      (0, .transferFrom blockSize 5 [.failure ⟨.brokenPipe, "gone"⟩]), (0, .duplicate),
      (1, .truncate 1)]).2.map fun inode => (inode.size, inode.store.blockCount)) =
      [(blockSize, 2), (1, 1)] := by decide +kernel
  obtain ⟨inode, hinode, hcounts⟩ := List.mem_map.1 (hfiles ▸ List.mem_cons_self)
  obtain ⟨hsize, hblocks⟩ := Prod.mk.inj hcounts
  exact ⟨inode, hinode, hsize, hblocks, blocks_are_tight_and_safe 3 _ inode hinode⟩

end RamFs
