import Redis.Library.Block
import Redis.Library.Ring
import Redis.Util.Sds

/-! The replication backlog of `replication.c`: a ring that holds the newest bytes of the
replication stream, and the partial resynchronisation that reads from it. Stream positions
are `PORT_LONGLONG`; a stream of `2 ^ 63` bytes is out of reach and they are integers here.
-/

namespace Redis

open Redis.Library
open Redis.Util (sdsnewlen)

/-- The fields of `server` that describe the backlog. -/
structure Backlog where
  /-- `repl_backlog`, the ring or `NULL`. -/
  buffer : Option (List UInt8)
  /-- `repl_backlog_size`. -/
  size : Nat
  /-- `repl_backlog_histlen`. -/
  histlen : Nat
  /-- `repl_backlog_idx`. -/
  idx : Nat
  /-- `repl_backlog_off`. -/
  off : Int
  /-- `master_repl_offset`. -/
  masterOffset : Int
deriving DecidableEq, Repr

/-- `REDIS_REPL_BACKLOG_MIN_SIZE`. -/
def replBacklogMinSize : Nat := 1024 * 16

/-- The backlog of a server that has just started. -/
def Backlog.initial : Backlog where
  buffer := none
  size := 1024 * 1024
  histlen := 0
  idx := 0
  off := 0
  masterOffset := 0

/-- `zmalloc`: the bytes are whatever the memory held before. -/
def zmallocBytes (fresh : Nat → UInt8) (size : Nat) : List UInt8 := (List.range size).map fresh

def createReplicationBacklog (fresh : Nat → UInt8) (b : Backlog) : Except Fault Backlog :=
  if b.buffer.isSome then .error .assertion
  else
    let masterOffset := b.masterOffset + 1
    .ok { b with
      buffer := some (zmallocBytes fresh b.size)
      histlen := 0
      idx := 0
      masterOffset
      off := masterOffset + 1 }

/-- `resizeReplicationBacklog`: the old bytes are not kept. -/
def resizeReplicationBacklog (fresh : Nat → UInt8) (b : Backlog) (newsize : Int) : Backlog :=
  let newsize := if newsize < replBacklogMinSize then replBacklogMinSize else newsize.toNat
  if b.size = newsize then b
  else
    match b.buffer with
    | none => { b with size := newsize }
    | some _ =>
        { b with
          size := newsize
          buffer := some (zmallocBytes fresh newsize)
          histlen := 0
          idx := 0
          off := b.masterOffset + 1 }

/-- `freeReplicationBacklog`, with the length of `server.slaves`. -/
def freeReplicationBacklog (b : Backlog) (slaves : Nat) : Except Fault Backlog :=
  if slaves = 0 then .ok { b with buffer := none } else .error .assertion

/-- The loop of `feedReplicationBacklog`: the ring, the write position and the length of the
history before it is cut to the size of the ring.
-/
def feedLoop (size : Nat)
    : (rounds : Nat)
      → (buffer : List UInt8)
      → (idx histlen : Nat)
      → (data : List UInt8)
      → Except Fault (List UInt8 × Nat × Nat)
  | _, buffer, idx, histlen, [] => .ok (buffer, idx, histlen)
  | 0, _, _, _, _ :: _ => .error .diverged
  | rounds + 1, buffer, idx, histlen, byte :: rest => do
      let data := byte :: rest
      let thislen := if size - idx > data.length then data.length else size - idx
      let buffer ← writeBytes buffer idx (data.take thislen)
      let idx := if idx + thislen = size then 0 else idx + thislen
      feedLoop size rounds buffer idx (histlen + thislen) (data.drop thislen)

/-- What `feedReplicationBacklog` does after its loop. -/
def Backlog.afterFeed (b : Backlog) (buffer : Option (List UInt8)) (idx histlen : Nat)
    (masterOffset : Int)
    : Backlog :=
  let histlen := if histlen > b.size then b.size else histlen
  { b with buffer, idx, histlen, masterOffset, off := masterOffset - histlen + 1 }

/-- `feedReplicationBacklog`. Every round writes at least one byte. -/
def feedReplicationBacklog (b : Backlog) (data : List UInt8) : Except Fault Backlog :=
  let masterOffset := b.masterOffset + data.length
  match b.buffer with
  | none =>
      if data = [] then .ok (b.afterFeed none b.idx b.histlen masterOffset)
      else .error .nullPointer
  | some buffer => do
      let (buffer, idx, histlen) ← feedLoop b.size data.length buffer b.idx b.histlen data
      pure (b.afterFeed (some buffer) idx histlen masterOffset)

/-- The loop of `addReplyReplicationBacklog`. Each piece is put in one string. -/
def replyLoop (size : Nat) (buffer : List UInt8)
    : (rounds : Nat) → (j len : Int) → Except Fault (List UInt8)
  | 0, _, len => if len = 0 then .ok [] else .error .diverged
  | rounds + 1, j, len =>
      if len = 0 then .ok []
      else
        let thislen := if size - j < len then size - j else len
        if j < 0 ∨ thislen < 0 then .error .outOfBounds
        else do
          let bytes ← readBytes buffer j.toNat thislen.toNat
          let rest ← replyLoop size buffer rounds 0 (len - thislen)
          pure (sdsnewlen bytes ++ rest)

/-- `addReplyReplicationBacklog`: the returned length and the bytes added to the output. -/
def addReplyReplicationBacklog (b : Backlog) (offset : Int) : Except Fault (Int × List UInt8) :=
  if b.histlen = 0 then .ok (0, [])
  else
    match b.buffer with
    | none => .error .nullPointer
    | some buffer => do
        let skip := offset - b.off
        let j := ((b.idx : Int) + (b.size - b.histlen)).tmod b.size
        let j := (j + skip).tmod b.size
        let len := b.histlen - skip
        let bytes ← replyLoop b.size buffer (len.toNat + 1) j len
        pure (b.histlen - skip, bytes)

/-- The arguments of a `PSYNC` request; `offset` is `none` where `argv[2]` does not hold a
64-bit integer.
-/
structure PsyncRequest where
  runid : List UInt8
  offset : Option Int64
deriving DecidableEq, Repr

/-- The letter case that `strcasecmp` ignores. -/
def lowerCase (c : UInt8) : UInt8 := if 0x41 ≤ c ∧ c ≤ 0x5A then c + 0x20 else c

/-- `!strcasecmp(a, b)`. -/
def strcaseEqual (a b : List UInt8) : Bool := a.map lowerCase == b.map lowerCase

/-- `!strcasecmp(option,name)`: an argument ends at its first zero byte for it. -/
def isOption (option name : List UInt8) : Bool := strcaseEqual (option.takeWhile (· ≠ 0)) name

/-- The test of `masterTryPartialResynchronization` that the data is still there. -/
def Backlog.accepts (b : Backlog) (psyncOffset : Int) : Bool :=
  !(b.buffer.isNone || psyncOffset < b.off || psyncOffset > b.off + b.histlen)

/-- The bytes from an offset on are one piece of the ring, or two where they reach over its end,
and each piece fits in one string.
-/
def Backlog.PiecesFit (b : Backlog) (offset : Int) : Prop :=
  let len := (b.masterOffset + 1 - offset).toNat
  min len b.idx < 2 ^ 32 ∧ len - b.idx < 2 ^ 32

/-- How `masterTryPartialResynchronization` ends. -/
inductive PsyncOutcome where
  /-- `REDIS_ERR`: the caller goes on with a full resynchronisation. -/
  | fullResync
  /-- The `+CONTINUE` line could not be written and the client will be freed. -/
  | dropped
  /-- The slave is online and these bytes were added to its output. -/
  | resumed (bytes : List UInt8)
deriving DecidableEq, Repr

/-- `masterTryPartialResynchronization`; `written` is whether the `write` of `+CONTINUE`
succeeds.
-/
def masterTryPartialResynchronization (b : Backlog) (runid : List UInt8)
    (request : PsyncRequest) (written : Bool)
    : Except Fault PsyncOutcome :=
  if !strcaseEqual request.runid runid then .ok .fullResync
  else
    match request.offset with
    | none => .ok .fullResync
    | some psyncOffset =>
        if !b.accepts psyncOffset.toInt then .ok .fullResync
        else if !written then .ok .dropped
        else do
          let (_, bytes) ← addReplyReplicationBacklog b psyncOffset.toInt
          pure (.resumed bytes)

-- Runs

inductive BacklogOp where
  | create (fresh : Nat → UInt8)
  | feed (data : List UInt8)
  | resize (fresh : Nat → UInt8) (newsize : Int)
  | free (slaves : Nat)

def BacklogOp.step (b : Backlog) : BacklogOp → Except Fault Backlog
  | .create fresh => createReplicationBacklog fresh b
  | .feed data => feedReplicationBacklog b data
  | .resize fresh newsize => .ok (resizeReplicationBacklog fresh b newsize)
  | .free slaves => freeReplicationBacklog b slaves

/-- A run from the start of the server, with the bytes fed since the backlog was last created
and the offset that the first of them came after.
-/
inductive BacklogRun : Backlog → (base : Int) → (stream : List UInt8) → Prop
  | start : BacklogRun .initial 0 []
  | create {b next : Backlog} {base : Int} {stream : List UInt8} {fresh : Nat → UInt8}
    (before : BacklogRun b base stream) (run : (BacklogOp.create fresh).step b = .ok next)
    : BacklogRun next next.masterOffset []
  | feed {b next : Backlog} {base : Int} {stream data : List UInt8}
    (before : BacklogRun b base stream) (run : (BacklogOp.feed data).step b = .ok next)
    : BacklogRun next base (stream ++ data)
  | resize {b next : Backlog} {base newsize : Int} {stream : List UInt8} {fresh : Nat → UInt8}
    (before : BacklogRun b base stream)
    (run : (BacklogOp.resize fresh newsize).step b = .ok next)
    : BacklogRun next base stream
  | free {b next : Backlog} {base : Int} {stream : List UInt8} {slaves : Nat}
    (before : BacklogRun b base stream) (run : (BacklogOp.free slaves).step b = .ok next)
    : BacklogRun next base stream

inductive BacklogSteps : Backlog → Backlog → Prop
  | refl (b : Backlog) : BacklogSteps b b
  | step {b mid next : Backlog} {op : BacklogOp} (before : BacklogSteps b mid)
    (run : op.step mid = .ok next)
    : BacklogSteps b next

end Redis
