import RamFs.Command

/-!
Every call that can change a world, and the worlds that calls can reach. Questions about entries
are functions of a world and so are no calls here: they cannot change anything.
-/

namespace RamFs

/-- Calls on a volume that name entries by their paths. The second volume of a copy or a move
may be the same one. -/
inductive PathCall where
  | createDirectory (path : String) (request : OwnerRequest)
  | createFile (path : String) (request : OwnerRequest)
  | createSymlink (link target : String)
  | createHardLink (link existing : String)
  | delete (path : String)
  | copy (source : String) (targetId : VolumeId) (target : String) (options : CopyOptions)
  | move (source : String) (targetId : VolumeId) (target : String) (options : CopyOptions)
  | setTimes (path : String) (times : TimesRequest)
  | setMode (path : String) (mode : UInt32)
  | setOwner (path : String) (uid gid : UInt32)
  | truncate (path : String) (size : Nat)
  | openFile (path : String) (options : OpenOptions)

/-- Calls on a handle, open or closed. What a stream interface builds out of reads and writes alone
is left out: reading an exact number of bytes is a run of `read`, and writing formatted text is a
run of `writeAll`, one for each piece of it. With nothing to read or to write these make no call at
all, so that they succeed on a closed handle too, as `writeAll []` does. `writeAll` itself is a run
of `write` and is listed because the operations on whole files are made of it. -/
inductive HandleCall where
  | read (count : Nat)
  | readAt (offset count : Nat)
  | readToEnd
  | write (bytes : Bytes)
  | writeAt (offset : Nat) (bytes : Bytes)
  | writeAll (bytes : Bytes)
  | truncate (size : Nat)
  | setPosition (position : Nat)
  | seek (origin : SeekOrigin) (distance : Int)
  | size
  | sync
  | metadata
  | lock (offset length : Nat) (cancelled : Bool)
  | transferTo (offset count : Nat) (sink : Sink)
  | transferFrom (offset count : Nat) (source : Source)
  | transferToHandle (offset count : Nat) (other : HandleId)
  | transferFromHandle (offset count : Nat) (other : HandleId)
  /-- Also what happens to a handle that is given up without being closed. -/
  | close

inductive Call where
  | setClock (now : Time)
  | newVolume (config : Config)
  /-- One owner more of a volume. -/
  | share (id : VolumeId)
  /-- One owner less; the last one takes the volume with it. -/
  | drop (id : VolumeId)
  | onPath (id : VolumeId) (call : PathCall)
  | readAll (id : VolumeId) (path : String)
  | writeAll (id : VolumeId) (path : String) (contents : Bytes)
  | onHandle (id : HandleId) (call : HandleCall)
  | releaseLock (grant : Grant)

namespace PathCall

/-- The call as an action. The handle of an opened file is the last one of the world. -/
def act (id : VolumeId) : PathCall → Action Unit
  | createDirectory path request => id.createDirectory path request
  | createFile path request => id.createFile path request
  | createSymlink link target => id.createSymlink link target
  | createHardLink link existing => id.createHardLink link existing
  | delete path => id.delete path
  | copy source targetId target options => id.copy source targetId target options
  | move source targetId target options => id.move source targetId target options
  | setTimes path times => id.setTimes path times
  | setMode path mode => id.setMode path mode
  | setOwner path uid gid => id.setOwner path uid gid
  | truncate path size => id.truncate path size
  | openFile path options => do
    let _ ← id.openFile path options

end PathCall

namespace HandleCall

/-- The world after the call, whether it succeeds or fails. -/
def perform (id : HandleId) (world : World) : HandleCall → World
  | read count => (id.read count world).2
  | readAt offset count => (id.readAt offset count world).2
  | readToEnd => (id.readToEnd world).2
  | write bytes => (id.write bytes world).2
  | writeAt offset bytes => (id.writeAt offset bytes world).2
  | writeAll bytes => (id.writeAll bytes world).2
  | truncate length => (id.truncate length world).2
  | setPosition position => (id.setPosition position world).2
  | seek origin distance => (id.seek origin distance world).2
  | size => (id.size world).2
  | sync => (id.sync world).2
  | metadata => (id.metadata world).2
  | lock offset length cancelled => (id.lock offset length cancelled world).2
  | transferTo offset count sink => (id.transferTo offset count sink world).2
  | transferFrom offset count source => (id.transferFrom offset count source world).2
  | transferToHandle offset count other => (id.transferToHandle offset count other world).2
  | transferFromHandle offset count other => (id.transferFromHandle offset count other world).2
  | close => (id.close world).2

end HandleCall

namespace Call

/-- The world after the call, whether it succeeds or fails. -/
def perform (world : World) : Call → World
  | setClock now => { world with clock := now }
  | newVolume config => (RamFs.newVolume config world).2
  | share id => (id.share world).2
  | drop id => (id.drop world).2
  | onPath id call => (call.act id world).2
  | readAll id path => (id.readAll path world).2
  | writeAll id path contents => (id.writeAll path contents world).2
  | onHandle id call => call.perform id world
  | releaseLock grant => (grant.release world).2

end Call

/-- The worlds to which calls lead from an empty one. -/
inductive Reachable : World → Prop where
  | start : Reachable {}
  | step {world : World} (call : Call) : Reachable world → Reachable (call.perform world)

end RamFs
