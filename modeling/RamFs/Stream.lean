import RamFs.Failure

/-!
Byte streams on the far side of a transfer. A source is a finite script of data and
failures that answers one read after the other. A sink takes a bounded number of bytes
per call and in all, and keeps what it took. Both are plain values, so that a transfer
is a function from streams to streams.
-/

namespace RamFs

abbrev Bytes := List UInt8

inductive Chunk where
  | data (bytes : Bytes)
  | failure (error : StreamError)
  deriving DecidableEq, Repr

/-- What a source will answer, next read first. -/
abbrev Source := List Chunk

namespace Source

/-- One read of at most `limit` bytes. Data that does not fit stays in front; the end
of the script reads as no bytes. -/
def read (limit : Nat) : Source → Except StreamError Bytes × Source
  | [] => (.ok [], [])
  | .failure error :: rest => (.error error, rest)
  | .data bytes :: rest =>
    if bytes.length ≤ limit then (.ok bytes, rest)
    else (.ok (bytes.take limit), .data (bytes.drop limit) :: rest)

/-- One read, tried again for as long as it is only interrupted. -/
def readThrough (limit : Nat) : Source → Except StreamError Bytes × Source
  | .failure error :: rest =>
    if error.kind = .interrupted then readThrough limit rest else (.error error, rest)
  | source => source.read limit

/-- The bytes that are still in the script. -/
def remaining : Source → Bytes
  | [] => []
  | .failure _ :: rest => remaining rest
  | .data bytes :: rest => bytes ++ remaining rest

end Source

structure Sink where
  /-- Most bytes taken by one call. -/
  perCall : Option Nat := none
  /-- Bytes that may still be taken. -/
  room : Option Nat := none
  /-- How a call fails that can take nothing; without it such a call takes no bytes. An interruption
  is reported once: a call that is made again for ever has no end. -/
  failure : Option StreamError := none
  received : Bytes := []
  deriving DecidableEq, Repr

namespace Sink

def accepts (sink : Sink) (count : Nat) : Nat :=
  let bound := fun (limit : Option Nat) n => (limit.map (min n)).getD n
  bound sink.room (bound sink.perCall count)

/-- The sink once its failure has been reported. -/
def reported (sink : Sink) : Sink :=
  { sink with failure := sink.failure.filter (·.kind ≠ .interrupted) }

/-- How many interruptions there are still to report. -/
def interruptions (sink : Sink) : Nat :=
  if sink.failure.any (·.kind = .interrupted) then 1 else 0

/-- One call that offers `bytes`: how many of them were taken. -/
def write (sink : Sink) (bytes : Bytes) : Except StreamError Nat × Sink :=
  let count := sink.accepts bytes.length
  if count = 0 then
    match sink.failure with
    | some error => (.error error, sink.reported)
    | none => (.ok 0, sink)
  else
    (.ok count, { sink with
      room := sink.room.map (· - count), received := sink.received ++ bytes.take count })

theorem interruptions_of_write_ok {sink after : Sink} {bytes : Bytes} {count : Nat}
    (h : sink.write bytes = (.ok count, after)) : after.interruptions = sink.interruptions := by
  unfold write at h
  grind [interruptions]

theorem interruptions_of_interrupted {sink after : Sink} {bytes : Bytes} {error : StreamError}
    (h : sink.write bytes = (.error error, after)) (hkind : error.kind = .interrupted) :
    after.interruptions < sink.interruptions := by
  unfold write at h
  grind [interruptions, reported]

def writeZero : StreamError :=
  ⟨.writeZero, "failed to write whole buffer"⟩

/-- Offers `bytes` until all are taken. A call that is interrupted is made again; one that takes
nothing ends it, and so does any other failure. -/
def writeAll (sink : Sink) (bytes : Bytes) : Except StreamError Unit × Sink :=
  if _hbytes : bytes = [] then (.ok (), sink)
  else
    match _hwrite : sink.write bytes with
    | (.error error, after) =>
      if _hkind : error.kind = .interrupted then after.writeAll bytes else (.error error, after)
    | (.ok count, after) =>
      if _hcount : count = 0 then (.error writeZero, after)
      else after.writeAll (bytes.drop count)
termination_by bytes.length + sink.interruptions
decreasing_by
  · have := interruptions_of_interrupted _hwrite _hkind
    omega
  · rw [interruptions_of_write_ok _hwrite, List.length_drop]
    have := List.length_pos_iff.2 _hbytes
    omega

end Sink

/-- Writes pieces one after the other and stops at the first that fails. -/
def deliver {σ : Type} (writeAll : σ → Bytes → Except StreamError Unit × σ) (state : σ) :
    List Bytes → Except Failure Unit × σ
  | [] => (.ok (), state)
  | piece :: pieces =>
    match writeAll state piece with
    | (.error error, state) => (.error (.stream error), state)
    | (.ok (), state) => deliver writeAll state pieces

end RamFs
