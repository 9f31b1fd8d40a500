import RamFs.Config
import RamFs.Stream

/-!
Contents of one file, in blocks of a fixed size. A store always holds one block at
least, never more than its ceiling, and only as many as were needed so far. What lies
at or past the size of the contents reads as nothing; allocated bytes there are zero,
so that a gap left by a later write reads back as zeros.
-/

namespace RamFs

/-- Bytes per block. -/
def blockSize : Nat := 4064

/-- Largest offset, size and position. -/
def maxOffset : Nat := UInt64.size - 1

structure Block where
  bytes : Bytes
  length_eq : bytes.length = blockSize
  deriving DecidableEq

namespace Block

def zero : Block :=
  ⟨List.replicate blockSize 0, List.length_replicate⟩

/-- The block with `source` written from `within` on, as far as it fits. -/
def overlay (block : Block) (within : Nat) (source : Bytes) : Block where
  bytes :=
    block.bytes.take within ++ source.take (blockSize - within) ++
      block.bytes.drop (within + source.length)
  length_eq := by
    have := block.length_eq
    simp only [List.length_append, List.length_take, List.length_drop]
    omega

/-- The block with zeros from `within` on. -/
def clearFrom (block : Block) (within : Nat) : Block :=
  block.overlay within (List.replicate (blockSize - within) 0)

end Block

/-- A part of a byte range that lies in one block. -/
structure Piece where
  block : Nat
  within : Nat
  length : Nat
  deriving DecidableEq, Repr

/-- The parts of `count` bytes from `offset` on, block by block. -/
def pieces (offset count : Nat) : List Piece :=
  if _hcount : count = 0 then []
  else
    let within := offset % blockSize
    let length := min (blockSize - within) count
    ⟨offset / blockSize, within, length⟩ :: pieces (offset + length) (count - length)
termination_by count
decreasing_by
  have : offset % blockSize < blockSize := Nat.mod_lt _ (by decide)
  omega

/-- Blocks that hold `size` bytes; one even when there are none. -/
def blocksFor (size : Nat) : Nat :=
  max 1 (size / blockSize + min 1 (size % blockSize))

structure BlockStore where
  /-- Ceiling on the number of blocks. -/
  maxBlocks : Nat
  blocks : Array Block
  size : Nat
  deriving DecidableEq

namespace BlockStore

/-- An empty store. The ceiling is taken into the range from one block to the most any
file may use. -/
def new (ceiling : Nat) : BlockStore :=
  ⟨max 1 (min ceiling RamFs.maxBlocks), #[Block.zero], 0⟩

def blockCount (store : BlockStore) : Nat :=
  store.blocks.size

def block (store : BlockStore) (index : Nat) : Block :=
  store.blocks.getD index Block.zero

/-- Refuses a size that does not fit under the ceiling. -/
def checkCapacity (store : BlockStore) (required : Nat) : Except Failure Unit :=
  if blocksFor required ≤ store.maxBlocks then .ok () else .error .capacityExceeded

/-- The store with exactly the blocks it needs to hold `required` bytes, if it has
fewer. -/
def reserve (store : BlockStore) (required : Nat) : Except Failure BlockStore := do
  store.checkCapacity required
  let missing := blocksFor required - store.blockCount
  return { store with blocks := store.blocks ++ Array.replicate missing Block.zero }

/-- Overwrites allocated bytes from `offset` on. -/
def put (blocks : Array Block) (offset : Nat) (source : Bytes) : Array Block :=
  if _hsource : source = [] then blocks
  else
    let within := offset % blockSize
    let length := min (blockSize - within) source.length
    put (blocks.modify (offset / blockSize) (·.overlay within (source.take length)))
      (offset + length) (source.drop length)
termination_by source.length
decreasing_by
  have : offset % blockSize < blockSize := Nat.mod_lt _ (by decide)
  have := List.length_pos_iff.2 _hsource
  simp only [List.length_drop]
  omega

def overwrite (store : BlockStore) (offset : Nat) (source : Bytes) : BlockStore :=
  { store with
    blocks := put store.blocks offset source
    size := max store.size (offset + source.length) }

/-- The allocated bytes of a range, block by block. -/
def slices (store : BlockStore) (offset count : Nat) : List Bytes :=
  (pieces offset count).map fun piece =>
    ((store.block piece.block).bytes.drop piece.within).take piece.length

/-- At most `count` bytes from `offset` on, up to the end of the contents. Nothing at
all at or past the end. -/
def read? (store : BlockStore) (offset count : Nat) : Option Bytes :=
  if offset < store.size then
    some (store.slices offset (min count (store.size - offset))).flatten
  else none

/-- Writes `source` at `offset`. Writing no bytes changes nothing, wherever it is. -/
def write (store : BlockStore) (offset : Nat) (source : Bytes) : Except Failure BlockStore :=
  if source = [] then .ok store
  else if offset + source.length > maxOffset then .error .capacityExceeded
  else do
    let store ← store.reserve (offset + source.length)
    return store.overwrite offset source

/-- Shrinks the contents to `size` bytes; never grows them. -/
def truncate (store : BlockStore) (size : Nat) : BlockStore :=
  if store.size ≤ size then store
  else
    { store with
      blocks := (store.blocks.modify (size / blockSize) (·.clearFrom (size % blockSize))).take
        (blocksFor size)
      size }

/-- Where a transfer into a store stands: what it has to report, the store and what is
left of the source. -/
structure Transfer (α : Type) where
  result : Except Failure α
  store : BlockStore
  source : Source

/-- One read of a transfer into the block at `offset`, which is allocated first: the
bytes it brought, already in place. -/
def receivePiece (store : BlockStore) (offset count : Nat) (source : Source) : Transfer Bytes :=
  let limit := min (blockSize - offset % blockSize) count
  match store.reserve (offset + limit) with
  | .error failure => ⟨.error failure, store, source⟩
  | .ok store =>
    match source.readThrough limit with
    | (.error error, source) => ⟨.error (.stream error), store, source⟩
    | (.ok bytes, source) => ⟨.ok bytes, store.overwrite offset bytes, source⟩

/-- Fills `count` bytes from `offset` on from a source, one block at a time, until the
source has no more or fails. What it took before a failure stays. -/
def receive (store : BlockStore) (offset count : Nat) (source : Source) : Transfer Nat :=
  if _hcount : count = 0 then ⟨.ok 0, store, source⟩
  else
    let piece := store.receivePiece offset count source
    match piece.result with
    | .error failure => ⟨.error failure, piece.store, piece.source⟩
    | .ok bytes =>
      if _hbytes : bytes = [] then ⟨.ok 0, piece.store, piece.source⟩
      else
        let rest :=
          piece.store.receive (offset + bytes.length) (count - bytes.length) piece.source
        { rest with result := rest.result.map (· + bytes.length) }
termination_by count
decreasing_by
  have := List.length_pos_iff.2 _hbytes
  omega

/-- Fills up to `count` bytes at `offset` from a source. Nothing is transferred when
`offset` lies past the end, and nothing at all when the range would not fit. -/
def transferFrom (store : BlockStore) (offset count : Nat) (source : Source) : Transfer Nat :=
  if offset > store.size then ⟨.ok 0, store, source⟩
  else if offset + count > maxOffset then ⟨.error .capacityExceeded, store, source⟩
  else
    match store.checkCapacity (offset + count) with
    | .error failure => ⟨.error failure, store, source⟩
    | .ok () => store.receive offset count source

/-- What a transfer of up to `count` bytes from `offset` on sends, block by block. -/
def outgoing (store : BlockStore) (offset count : Nat) : List Bytes :=
  store.slices offset (min (offset + count) store.size - offset)

/-- Sends up to `count` bytes from `offset` on. -/
def transferTo {σ : Type} (store : BlockStore) (offset count : Nat)
    (writeAll : σ → Bytes → Except StreamError Unit × σ) (state : σ) :
    Except Failure Nat × σ :=
  let pieces := store.outgoing offset count
  let (result, state) := deliver writeAll state pieces
  (result.map fun _ => pieces.flatten.length, state)

end BlockStore

end RamFs
