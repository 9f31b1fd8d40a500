import RamFs.Collation
import RamFs.Resolution

/-!
Configuration of a volume: how names compare, which roots it has, how fine its times
are, and what its limits and defaults are. Everything has a default.
-/

namespace RamFs

/-- Most storage blocks that one file may ever use. -/
def maxBlocks : Nat := 262144

structure Limits where
  maxOpenHandles : UInt32 := 10000
  /-- Ceiling on the blocks of a single file. -/
  maxFileBlocks : UInt32 := 262144
  deriving DecidableEq, Repr

/-- Ownership of entries whose creator names none. The two modes are octal 644 and 755. -/
structure Defaults where
  fileMode : UInt32 := 420
  dirMode : UInt32 := 493
  uid : UInt32 := 0
  gid : UInt32 := 0
  deriving DecidableEq, Repr

structure Config where
  collation : Collation := .sensitive
  /-- Root names; the first one anchors relative paths. -/
  roots : List String := ["/"]
  resolution : Resolution := .nanoseconds
  limits : Limits := {}
  defaults : Defaults := {}
  deriving DecidableEq, Repr

namespace Config

/-- Names that ignore case below roots named like drives, with microsecond times. -/
def windows (drives : List String) : Config where
  collation := .insensitivePreserving
  roots := drives
  resolution := .microseconds

end Config

end RamFs
