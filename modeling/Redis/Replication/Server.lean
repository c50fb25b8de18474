import Redis.Replication.Backlog
import Redis.Replication.Encoding

/-! The master side of replication: slaves attach, commands are propagated to the backlog and
to the slaves, and background saves start and end, in any order.
-/

namespace Redis

open Redis.Library

/-- `replstate` of a slave. -/
inductive ReplState where
  | waitBgsaveStart
  | waitBgsaveEnd
  | sendBulk
  | online
deriving DecidableEq, Repr

/-- `rdb_child_type`. -/
inductive RdbTarget where
  | disk
  | socket
deriving DecidableEq, Repr

/-- A client in `server.slaves`. The last three fields are not part of the program: they
record the offset the slave was given, the bytes already sent from its output buffer, and the
offset of the snapshot it was handed.
-/
structure Slave where
  id : Nat
  replstate : ReplState
  /-- The static buffer and the reply list, as one sequence of bytes. -/
  output : List UInt8
  /-- Whether `sendReplyToClient` is installed for its socket. -/
  handler : Bool
  putOnlineOnAck : Bool
  /-- `SLAVE_CAPA_EOF` in `slave_capa`. -/
  capaEof : Bool
  /-- `REDIS_CLOSE_ASAP` in `flags`. -/
  closeAsap : Bool
  psyncInitialOffset : Int
  start : Option Int
  drained : List UInt8
  rdb : Option Int
deriving DecidableEq, Repr

/-- The replication state of the server. The last four fields are not part of the program:
the stream fed since the backlog was created, the offset it starts after, the number of
children forked so far and the offset at which the last of them was.
-/
structure ReplServer where
  backlog : Backlog
  slaves : List Slave
  slaveseldb : Int
  child : Option RdbTarget
  disklessSync : Bool
  base : Int
  stream : List UInt8
  forks : Nat
  snapshot : Int
deriving Repr

def ReplServer.initial : ReplServer where
  backlog := .initial
  slaves := []
  slaveseldb := -1
  child := none
  disklessSync := false
  base := 0
  stream := []
  forks := 0
  snapshot := 0

-- Propagation

/-- The reply functions on a slave: the write handler is installed when the buffer was empty
and the slave can receive.
-/
def Slave.addReply (c : Slave) (bytes : List UInt8) : Slave :=
  { c with
    handler :=
      c.handler
      || (c.output.isEmpty && c.replstate == .online && !c.putOnlineOnAck)
    output := c.output ++ bytes }

/-- Feeding a slave, unless it still waits for a background save to start. -/
def Slave.feed (chunks : List (List UInt8)) (c : Slave) : Slave :=
  if c.replstate = .waitBgsaveStart then c else chunks.foldl Slave.addReply c

/-- `feedReplicationBacklog` on the server. -/
def ReplServer.feed (s : ReplServer) (data : List UInt8) : Except Fault ReplServer := do
  let backlog ← feedReplicationBacklog s.backlog data
  pure { s with backlog, stream := s.stream ++ data }

def replicationFeedSlaves (s : ReplServer) (dictid : Int32) (argv : List StringObject)
    : Except Fault ReplServer :=
  if s.backlog.buffer.isNone && s.slaves.isEmpty then .ok s
  else if !s.slaves.isEmpty && s.backlog.buffer.isNone then .error .assertion
  else do
    let s ← (if s.slaveseldb ≠ dictid.toInt then do
        let selectcmd ← selectCommand dictid
        let s ← (if s.backlog.buffer.isSome then s.feed selectcmd else pure s)
        pure { s with slaves := s.slaves.map (Slave.feed [selectcmd]) }
      else pure s)
    let s := { s with slaveseldb := dictid.toInt }
    let chunks ← backlogCommand argv
    let s ← (if s.backlog.buffer.isSome then chunks.foldlM ReplServer.feed s else pure s)
    let replies ← slaveCommand argv
    pure { s with slaves := s.slaves.map (Slave.feed replies) }

-- Background saves

def getPsyncInitialOffset (b : Backlog) : Int :=
  if b.buffer.isNone then b.masterOffset + 1 else b.masterOffset

/-- `replicationSetupSlaveForFullResync` on the slave; a reply that cannot be written ends in
a disconnection later.
-/
def replicationSetupSlaveForFullResync (c : Slave) (offset : Int) : Slave :=
  { c with psyncInitialOffset := offset, replstate := .waitBgsaveEnd, start := some offset }

def Slave.waits (c : Slave) : Bool := c.replstate == .waitBgsaveStart

/-- How `rdbSaveBackground` and `rdbSaveToSlavesSockets` end. -/
inductive ForkResult where
  | forked
  | forkFailed
  | pipeFailed
deriving DecidableEq, Repr

/-- `startBgsaveForReplication`, with whether it succeeded. -/
def startBgsaveForReplication (s : ReplServer) (mincapaEof : Bool) (fork : ForkResult)
    : ReplServer × Bool :=
  let socketTarget := s.disklessSync && mincapaEof
  -- With sockets the slaves are set up before the fork, and set back when it fails.
  let touched :=
    s.slaves.any Slave.waits && (fork == .forked || (fork == .forkFailed && socketTarget))
  let slaveseldb := if touched then -1 else s.slaveseldb
  if s.child.isSome then ({ s with slaves := s.slaves.filter (fun c => !c.waits) }, false)
  else if fork ≠ .forked then
    ({ s with slaves := s.slaves.filter (fun c => !c.waits), slaveseldb }, false)
  else
    ({ s with
        child := some (if socketTarget then .socket else .disk)
        forks := s.forks + 1
        slaveseldb
        slaves :=
          s.slaves.map (fun c =>
            if c.waits then replicationSetupSlaveForFullResync c (getPsyncInitialOffset s.backlog)
            else c) }, true)

/-- `updateSlavesWaitingBgsave` on one slave, after the handler of a socket transfer has freed
the slaves that were not served.
-/
def Slave.bgsaveDone (target : RdbTarget) (ok : Bool) (served : Nat → Bool) (snapshot : Int)
    (c : Slave)
    : Option Slave :=
  if c.replstate = .waitBgsaveEnd then
    match target with
    | .socket =>
        if served c.id then
          some { c with replstate := .online, putOnlineOnAck := true, rdb := some snapshot }
        else none
    | .disk =>
        if ok && served c.id then
          some { c with replstate := .sendBulk, handler := false, rdb := some snapshot }
        else none
  else some c

/-- The end of a background save. -/
def updateSlavesWaitingBgsave (s : ReplServer) (ok : Bool) (served : Nat → Bool)
    (fork : ForkResult)
    : ReplServer :=
  match s.child with
  | none => s
  | some target =>
      let slaves := s.slaves.filterMap (Slave.bgsaveDone target ok served s.snapshot)
      let s := { s with child := none, slaves }
      if slaves.any Slave.waits then
        (startBgsaveForReplication s ((slaves.filter Slave.waits).all Slave.capaEof) fork).1
      else s

def putSlaveOnline (c : Slave) : Slave :=
  { c with replstate := .online, putOnlineOnAck := false, handler := true }

-- SYNC and PSYNC

structure SyncRequest where
  id : Nat
  /-- The arguments of `PSYNC`, `none` for `SYNC`. -/
  psync : Option PsyncRequest
  capaEof : Bool
  /-- Replies to earlier commands are still in its output buffer. -/
  pendingOutput : Bool
deriving DecidableEq, Repr

/-- `-ERR value is not an integer or out of range\r\n`. -/
def notIntegerError : List UInt8 :=
  "-ERR value is not an integer or out of range".toUTF8.toList ++ crlf

/-- The request has the run id of this master and an offset that is not a 64-bit integer. -/
def SyncRequest.badOffset (runid : List UInt8) (request : SyncRequest) : Bool :=
  match request.psync with
  | some psync => strcaseEqual psync.runid runid && psync.offset.isNone
  | none => false

/-- The client that becomes a slave. The parser of the offset has replied with an error if the
offset is bad, and has installed the write handler for it.
-/
def SyncRequest.client (request : SyncRequest) (runid : List UInt8) : Slave where
  id := request.id
  replstate := .waitBgsaveStart
  output := if request.badOffset runid then notIntegerError else []
  handler := request.badOffset runid
  putOnlineOnAck := false
  capaEof := request.capaEof
  closeAsap := false
  psyncInitialOffset := 0
  start := none
  drained := []
  rdb := none

def copyClientOutputBuffer (dst src : Slave) : Slave := { dst with output := src.output }

/-- The end of `syncCommand`: the first slave brings the backlog with it. -/
def ReplServer.createBacklogIfFirst (s : ReplServer) (fresh : Nat → UInt8)
    : Except Fault ReplServer :=
  if s.slaves.length = 1 ∧ s.backlog.buffer.isNone then do
    let backlog ← createReplicationBacklog fresh s.backlog
    pure { s with backlog, base := backlog.masterOffset, stream := [] }
  else .ok s

/-- The full resynchronisation of `syncCommand`. -/
def fullResync (s : ReplServer) (c : Slave) (fork : ForkResult) (fresh : Nat → UInt8)
    : Except Fault ReplServer :=
  match s.child with
  | some .disk =>
      match s.slaves.find? (fun slave => slave.replstate == .waitBgsaveEnd) with
      | some slave =>
          if !slave.capaEof || c.capaEof then
            let c := replicationSetupSlaveForFullResync (copyClientOutputBuffer c slave)
              slave.psyncInitialOffset
            { s with slaves := s.slaves ++ [c], slaveseldb := -1 }.createBacklogIfFirst fresh
          else { s with slaves := s.slaves ++ [c] }.createBacklogIfFirst fresh
      | none => { s with slaves := s.slaves ++ [c] }.createBacklogIfFirst fresh
  | some .socket => { s with slaves := s.slaves ++ [c] }.createBacklogIfFirst fresh
  | none =>
      let s := { s with slaves := s.slaves ++ [c] }
      if s.disklessSync && c.capaEof then s.createBacklogIfFirst fresh
      else
        match startBgsaveForReplication s c.capaEof fork with
        | (s, true) => s.createBacklogIfFirst fresh
        | (s, false) => .ok s

/-- `syncCommand`; `written` is whether `+CONTINUE` can be written. -/
def syncCommand (runid : List UInt8) (s : ReplServer) (request : SyncRequest) (written : Bool)
    (fork : ForkResult) (fresh : Nat → UInt8)
    : Except Fault ReplServer :=
  if s.slaves.any (fun c => c.id == request.id) then .ok s
  else if request.pendingOutput then .ok s
  else
    let c := request.client runid
    match request.psync with
    | none => fullResync s c fork fresh
    | some psync => do
        match ← masterTryPartialResynchronization s.backlog runid psync written with
        | .fullResync => fullResync s c fork fresh
        | .dropped =>
            let c := { c with replstate := .online, closeAsap := true }
            pure { s with slaves := s.slaves ++ [c] }
        | .resumed bytes =>
            let start := psync.offset.map (fun offset => offset.toInt - 1)
            let c := { c with replstate := .online, start }
            pure { s with slaves := s.slaves ++ [c.addReply bytes] }

-- Steps

inductive ReplOp where
  | propagate (dictid : Int32) (command : PropagatedCommand)
  | sync (request : SyncRequest) (written : Bool) (fork : ForkResult) (fresh : Nat → UInt8)
  /-- `BGSAVE`, or a save point. -/
  | bgsave
  /-- The start of a background save in `replicationCron`. -/
  | startBgsave (fork : ForkResult)
  | bgsaveDone (ok : Bool) (served : Nat → Bool) (fork : ForkResult)
  /-- `sendBulkToSlave` has sent the last bytes of the snapshot. -/
  | bulkSent (id : Nat)
  | ack (id : Nat)
  /-- `sendReplyToClient` sends some bytes. -/
  | drain (id count : Nat)
  | disconnect (id : Nat)
  | resizeBacklog (fresh : Nat → UInt8) (newsize : Int)
  | freeBacklog
  | setDiskless (on : Bool)

def ReplServer.update (s : ReplServer) (id : Nat) (f : Slave → Slave) : ReplServer :=
  { s with slaves := s.slaves.map (fun c => if c.id = id then f c else c) }

/-- `sendReplyToClient`; the handler is removed with the last byte. -/
def Slave.drain (count : Nat) (c : Slave) : Slave :=
  if c.handler then
    { c with
      drained := c.drained ++ c.output.take count
      output := c.output.drop count
      handler := !(c.output.drop count).isEmpty }
  else c

def ReplOp.run (runid : List UInt8) (s : ReplServer) : ReplOp → Except Fault ReplServer
  | .propagate dictid command => replicationFeedSlaves s dictid command.argv
  | .sync request written fork fresh => syncCommand runid s request written fork fresh
  | .bgsave =>
      if s.child.isSome then .ok s
      else .ok { s with child := some .disk, forks := s.forks + 1 }
  | .startBgsave fork =>
      if s.child.isNone && s.slaves.any Slave.waits then
        .ok (startBgsaveForReplication s ((s.slaves.filter Slave.waits).all Slave.capaEof) fork).1
      else .ok s
  | .bgsaveDone ok served fork => .ok (updateSlavesWaitingBgsave s ok served fork)
  | .bulkSent id =>
      .ok (s.update id (fun c => if c.replstate = .sendBulk then putSlaveOnline c else c))
  | .ack id =>
      .ok (s.update id (fun c =>
        if c.putOnlineOnAck && c.replstate == .online then putSlaveOnline c else c))
  | .drain id count => .ok (s.update id (Slave.drain count))
  | .disconnect id => .ok { s with slaves := s.slaves.filter (fun c => c.id != id) }
  | .resizeBacklog fresh newsize =>
      .ok { s with backlog := resizeReplicationBacklog fresh s.backlog newsize }
  | .freeBacklog =>
      if s.slaves.isEmpty then do
        let backlog ← freeReplicationBacklog s.backlog s.slaves.length
        pure { s with backlog }
      else .ok s
  | .setDiskless on => .ok { s with disklessSync := on }

/-- The offset at the end of an event that forked a child: nothing is written between the
fork and the end of the event.
-/
def ReplServer.recordFork (s next : ReplServer) : ReplServer :=
  { next with
    snapshot := if next.forks ≠ s.forks then next.backlog.masterOffset else next.snapshot }

def ReplOp.step (runid : List UInt8) (s : ReplServer) (op : ReplOp) : Except Fault ReplServer := do
  let next ← op.run runid s
  pure (s.recordFork next)

/-- A run from the start of the server in which every event meets a condition. -/
inductive ReplReachable (runid : List UInt8) (allowed : ReplServer → ReplOp → Prop)
    : ReplServer → Prop
  | initial : ReplReachable runid allowed .initial
  | step {s next : ReplServer} {op : ReplOp} (before : ReplReachable runid allowed s)
    (meets : allowed s op) (run : op.step runid s = .ok next)
    : ReplReachable runid allowed next

end Redis
