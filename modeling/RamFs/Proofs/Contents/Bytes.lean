import Mathlib.Data.List.Basic
import Mathlib.Tactic.Ring
import RamFs.Inode

/-!
Stores byte by byte. `byteAt` reads any position of a row of blocks, and zero where no
block is allocated. Each operation of a store is described by what it does to that view
and to the number of blocks; how a range is cut at block ends shows only in the proofs
here.
-/

namespace RamFs

open BlockStore

theorem blockSize_pos : 0 < blockSize := by decide

/-- The byte at a position of a row of blocks. -/
def byteAt (blocks : Array Block) (position : Nat) : UInt8 :=
  (blocks.getD (position / blockSize) Block.zero).bytes.getD (position % blockSize) 0

/-- The bytes of a range, allocated or not. -/
def window (blocks : Array Block) (offset count : Nat) : Bytes :=
  (List.range count).map fun i => byteAt blocks (offset + i)

@[simp]
theorem length_window (blocks : Array Block) (offset count : Nat) :
    (window blocks offset count).length = count := by
  simp [window]

theorem getElem?_window (blocks : Array Block) (offset count i : Nat) :
    (window blocks offset count)[i]? =
      if i < count then some (byteAt blocks (offset + i)) else none := by
  simp only [window, List.getElem?_map]
  split <;> simp_all

/-- A range is one part of it after the other. -/
theorem window_add (blocks : Array Block) (offset a b : Nat) :
    window blocks offset (a + b) = window blocks offset a ++ window blocks (offset + a) b := by
  simp only [window, List.range_add, List.map_append, List.map_map]
  congr 1
  apply List.map_congr_left
  intro i _
  simp [Nat.add_assoc]

theorem take_drop_window (blocks : Array Block) (size offset count : Nat) :
    ((window blocks 0 size).drop offset).take count =
      window blocks offset (min count (size - offset)) := by
  apply List.ext_getElem?
  intro i
  rw [List.getElem?_take, List.getElem?_drop]
  simp only [getElem?_window, Nat.zero_add]
  split <;> split <;> first | rfl | omega | (split <;> first | rfl | omega)

/-! ### One block -/

@[simp]
theorem Block.getD_zero (j : Nat) : Block.zero.bytes.getD j 0 = 0 := by
  simp only [Block.zero, List.getD_eq_getElem?_getD, List.getElem?_replicate]
  split <;> rfl

/-- What a block holds once bytes are laid over it. -/
theorem Block.getD_overlay (block : Block) {within : Nat} {source : Bytes} {j : Nat}
    (hwithin : within ≤ blockSize) (hj : j < blockSize) :
    (block.overlay within source).bytes.getD j 0 =
      if within ≤ j ∧ j < within + source.length then source.getD (j - within) 0
      else block.bytes.getD j 0 := by
  have hlength := block.length_eq
  simp only [Block.overlay, List.getD_eq_getElem?_getD, List.getElem?_append,
    List.getElem?_take, List.getElem?_drop, List.length_append, List.length_take, hlength]
  have hstart : min within blockSize = within := by omega
  rw [hstart]
  by_cases hbefore : j < within
  · have hin : j < within + min (blockSize - within) source.length := by omega
    rw [if_pos hin, if_pos hbefore, if_pos hbefore, if_neg (by omega)]
  · by_cases hinside : j < within + source.length
    · have hin : j < within + min (blockSize - within) source.length := by omega
      rw [if_pos hin, if_neg hbefore, if_pos (by omega), if_pos ⟨by omega, hinside⟩]
    · have hout : ¬ j < within + min (blockSize - within) source.length := by omega
      have hrest : within + source.length +
          (j - (within + min (blockSize - within) source.length)) = j := by omega
      rw [if_neg hout, hrest, if_neg (by omega)]

/-! ### Rows of blocks -/

/-- Only the positions of one block change when that block is replaced. -/
theorem byteAt_modify (blocks : Array Block) (index : Nat) (f : Block → Block)
    (position : Nat) (hindex : index < blocks.size) :
    byteAt (blocks.modify index f) position =
      if position / blockSize = index then
        (f (blocks.getD index Block.zero)).bytes.getD (position % blockSize) 0
      else byteAt blocks position := by
  simp only [byteAt, Array.getD_eq_getD_getElem?, Array.getElem?_modify]
  by_cases hblock : index = position / blockSize
  · subst hblock
    simp [hindex]
  · rw [if_neg hblock, if_neg (Ne.symm hblock)]

/-- Appending blocks of zeros shows nothing: positions without a block are zero. -/
theorem byteAt_append_zero (blocks : Array Block) (count position : Nat) :
    byteAt (blocks ++ Array.replicate count Block.zero) position = byteAt blocks position := by
  simp only [byteAt, Array.getD_eq_getD_getElem?, Array.getElem?_append]
  split
  · rfl
  · next hbeyond =>
    have hnone : blocks[position / blockSize]? = none :=
      Array.getElem?_eq_none (by omega)
    rw [hnone, Array.getElem?_replicate]
    split <;> rfl

theorem byteAt_take (blocks : Array Block) (count position : Nat) :
    byteAt (blocks.take count) position =
      if position / blockSize < count then byteAt blocks position else 0 := by
  simp only [byteAt, Array.getD_eq_getD_getElem?, Array.take_eq_extract, Array.getElem?_extract]
  by_cases hcount : position / blockSize < count
  · by_cases hsize : position / blockSize < blocks.size
    · simp [hcount, hsize]
    · have hnone : blocks[position / blockSize]? = none := Array.getElem?_eq_none (by omega)
      simp [hcount, hsize]
  · have hout : ¬ position / blockSize < min count blocks.size := by omega
    rw [if_neg (by omega), if_neg hcount]
    exact Block.getD_zero _

/-! ### Putting bytes -/

@[simp]
theorem size_put (blocks : Array Block) (offset : Nat) (source : Bytes) :
    (put blocks offset source).size = blocks.size := by
  fun_induction put blocks offset source with
  | case1 => rfl
  | case2 blocks offset source hsource within length ih => simpa using ih

private theorem div_of_block {offset position : Nat}
    (hlow : offset ≤ position) (hhigh : position < offset + (blockSize - offset % blockSize)) :
    position / blockSize = offset / blockSize ∧
      position % blockSize = offset % blockSize + (position - offset) := by
  have hmod := Nat.mod_lt offset blockSize_pos
  have hsplit := Nat.div_add_mod offset blockSize
  have hsame : position = blockSize * (offset / blockSize) +
      (offset % blockSize + (position - offset)) := by omega
  have hsmall : offset % blockSize + (position - offset) < blockSize := by omega
  constructor
  · conv_lhs => rw [hsame]
    rw [Nat.mul_add_div blockSize_pos, Nat.div_eq_of_lt hsmall, Nat.add_zero]
  · conv_lhs => rw [hsame]
    rw [Nat.mul_add_mod, Nat.mod_eq_of_lt hsmall]

private theorem eq_block_of_div {offset position : Nat}
    (hblock : position / blockSize = offset / blockSize) :
    offset - offset % blockSize ≤ position ∧
      position < offset + (blockSize - offset % blockSize) ∧
      position % blockSize + offset = offset % blockSize + position := by
  have hoffset := Nat.div_add_mod offset blockSize
  have hposition := Nat.div_add_mod position blockSize
  have hmod := Nat.mod_lt offset blockSize_pos
  have hmod' := Nat.mod_lt position blockSize_pos
  rw [hblock] at hposition
  omega

/-- The row of blocks after bytes are put: the new bytes in their range and the old ones
elsewhere. The induction is on what is left to put, block by block. -/
theorem byteAt_put (blocks : Array Block) (offset : Nat) (source : Bytes) (position : Nat)
    (hfit : offset + source.length ≤ blockSize * blocks.size) :
    byteAt (put blocks offset source) position =
      if offset ≤ position ∧ position < offset + source.length then
        source.getD (position - offset) 0
      else byteAt blocks position := by
  fun_induction put blocks offset source with
  | case1 blocks offset => rw [if_neg (by simp only [List.length_nil]; omega)]
  | case2 blocks offset source hsource within length ih =>
    have hpos : 0 < source.length := List.length_pos_iff.2 hsource
    have hwithin : within < blockSize := Nat.mod_lt offset blockSize_pos
    have hlength : length = min (blockSize - within) source.length := rfl
    have hindex : offset / blockSize < blocks.size := by
      apply (Nat.div_lt_iff_lt_mul blockSize_pos).2
      rw [Nat.mul_comm] at hfit
      omega
    have htake : (source.take length).length = length := by
      rw [List.length_take]; omega
    rw [ih (by rw [List.length_drop, Array.size_modify]; omega), List.length_drop]
    by_cases hlater : offset + length ≤ position ∧ position < offset + source.length
    · rw [if_pos ⟨hlater.1, by omega⟩, if_pos ⟨by omega, hlater.2⟩,
        List.getD_eq_getElem?_getD, List.getD_eq_getElem?_getD, List.getElem?_drop]
      congr 2
      omega
    · rw [if_neg (by omega), byteAt_modify _ _ _ _ hindex]
      by_cases hblock : position / blockSize = offset / blockSize
      · have hposition : position % blockSize < blockSize := Nat.mod_lt _ blockSize_pos
        obtain ⟨hlow, hhigh, hmod⟩ := eq_block_of_div hblock
        have hwithin_eq : within = offset % blockSize := rfl
        have hmodle : offset % blockSize ≤ offset := Nat.mod_le _ _
        rw [if_pos hblock, Block.getD_overlay _ (by omega) hposition, htake]
        by_cases hinside : offset ≤ position ∧ position < offset + source.length
        · have hshift : position % blockSize - within = position - offset := by omega
          rw [if_pos (by omega), if_pos hinside, hshift,
            List.getD_eq_getElem?_getD, List.getD_eq_getElem?_getD, List.getElem?_take,
            if_pos (by omega)]
        · rw [if_neg (by omega), if_neg hinside, byteAt, hblock]
      · have hout : ¬ (offset ≤ position ∧ position < offset + source.length) := by
          rintro ⟨hlow, hhigh⟩
          exact hblock (div_of_block hlow (by omega)).1
        rw [if_neg hblock, if_neg hout]

/-! ### Reading a range -/

/-- One piece of a range lies in one block. -/
private theorem window_in_block (blocks : Array Block) {offset length : Nat}
    (hlength : length ≤ blockSize - offset % blockSize) :
    (((blocks.getD (offset / blockSize) Block.zero).bytes.drop (offset % blockSize)).take
      length) = window blocks offset length := by
  have hmod := Nat.mod_lt offset blockSize_pos
  apply List.ext_getElem?
  intro i
  rw [List.getElem?_take, List.getElem?_drop, getElem?_window]
  split
  · next hi =>
    obtain ⟨hdiv, hrem⟩ := div_of_block (Nat.le_add_right offset i) (by omega)
    have hsub : offset + i - offset = i := by omega
    rw [hsub] at hrem
    have hlong := (blocks.getD (offset / blockSize) Block.zero).length_eq
    rw [byteAt, hdiv, hrem, List.getD_eq_getElem?_getD, List.getElem?_eq_getElem (by omega)]
    rfl
  · rfl

/-- The pieces of a range, put together, are the range. -/
theorem flatten_slices (store : BlockStore) (offset count : Nat) :
    (store.slices offset count).flatten = window store.blocks offset count := by
  rw [BlockStore.slices]
  fun_induction pieces offset count with
  | case1 offset => rfl
  | case2 offset count hcount within length ih =>
    have hlength : length ≤ count := Nat.min_le_right _ _
    have hpiece : length ≤ blockSize - offset % blockSize := Nat.min_le_left _ _
    simp only [List.map_cons, List.flatten_cons]
    rw [ih, BlockStore.block, window_in_block store.blocks hpiece, ← window_add]
    congr 1
    omega

end RamFs
