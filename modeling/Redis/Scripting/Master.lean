import Redis.Aof.BackgroundRewrite
import Redis.Replication.Attachment
import Redis.Scripting.Commands

/-! A master that executes scripts and propagates them: `call` for the scripting commands, the
append only file with its rewrites, and replicas that attach and leave at any moment.
-/

namespace Redis.Scripting

open Redis.BackgroundRewrite (AofState)
open Redis.Library

-- The state

/-- The append only file, as the commands that were fed to it. -/
structure AofFeed where
  /-- `server.aof_state`. -/
  state : AofState
  /-- `server.aof_child_pid != -1`. -/
  child : Bool
  /-- The commands of the file, behind the dataset that a rewrite begins it with. -/
  file : List PropagatedCommand
  /-- How many of them were loaded when the server started. -/
  loaded : Nat
  /-- `server.aof_rewrite_buf_blocks` and what was sent to the child. -/
  diff : List PropagatedCommand

/-- A command in the replication stream, with the offset before it. -/
structure Logged where
  offset : Int
  command : PropagatedCommand

/-- A replica that has left: the offset of its snapshot and the last byte it processed. -/
structure Departed where
  since : Int
  upto : Int
deriving DecidableEq

/-- The server. The last three fields are not part of the program: they record the commands
that were put in the replication stream, the offset of the snapshot of each replica that was
attached by a partial resynchronisation, and the replicas that left.
-/
structure Master where
  repl : ReplServer
  aof : AofFeed
  cache : ScriptCache
  /-- The digests `d` for which Lua has a function `f_d`. -/
  functions : List (List UInt8)
  /-- `server.lua_scripts`. -/
  scripts : List (List UInt8 × Argument)
  log : List Logged
  origins : Nat → Option Int
  departed : List Departed

variable (m : Master)

-- The append only file

def AofFeed.feedAppendOnlyFile (aof : AofFeed) (command : PropagatedCommand) : AofFeed :=
  match aof.state with
  | .off => aof
  | state =>
      { aof with
        file := if state = .on then aof.file ++ [command] else aof.file
        diff := if aof.child then aof.diff ++ [command] else aof.diff }

/-- `rewriteAppendOnlyFileBackground`, which may fail to start a child; with whether it is
`REDIS_OK`.
-/
def Master.rewriteAppendOnlyFileBackground (forked : Bool) : Master × Bool :=
  if m.aof.child || !forked then (m, false)
  else
    ({ m with aof := { m.aof with child := true }, cache := replicationScriptCacheFlush }, true)

/-- `CONFIG SET appendonly yes` with `startAppendOnly`, which may fail to open the file. -/
def Master.startAppendOnly (opened forked : Bool) : Master :=
  if m.aof.state = .off ∧ opened = true then
    match m.rewriteAppendOnlyFileBackground forked with
    | (started, true) => { started with aof := { started.aof with state := .waitRewrite } }
    | (failed, false) => failed
  else m

/-- `CONFIG SET appendonly no` with `stopAppendOnly`. -/
def Master.stopAppendOnly : Master :=
  if m.aof.state = .off then m
  else { m with aof := { m.aof with state := .off, child := false, diff := [] } }

/-- `backgroundRewriteDoneHandler`, with whether the new file is put in place. -/
def Master.backgroundRewriteDoneHandler (installed : Bool) : Master :=
  if m.aof.child then
    let aof := { m.aof with child := false, diff := [] }
    if installed then
      let state := if m.aof.state = .waitRewrite then .on else m.aof.state
      { m with aof := { aof with state, file := m.aof.diff, loaded := 0 } }
    else { m with aof }
  else m

-- Propagation

/-- `replicationFeedSlaves`, with a record in the log if there is anything to feed. -/
def Master.feedSlaves (runid : List UInt8) (dictid : Int32) (command : PropagatedCommand)
    : Except Fault Master := do
  let repl ← (ReplOp.propagate dictid command).step runid m.repl
  let fed := !(m.repl.backlog.buffer.isNone && m.repl.slaves.isEmpty)
  pure { m with
    repl
    log := if fed then m.log ++ [⟨m.repl.backlog.masterOffset, command⟩] else m.log }

/-- The flags of `propagate`. -/
structure PropagateFlags where
  aof : Bool
  repl : Bool
deriving DecidableEq

def Master.propagate (runid : List UInt8) (dictid : Int32) (command : PropagatedCommand)
    (flags : PropagateFlags)
    : Except Fault Master :=
  let m := if flags.aof then { m with aof := m.aof.feedAppendOnlyFile command } else m
  if flags.repl then m.feedSlaves runid dictid command else .ok m

-- The server around the commands

/-- A command that is not one of the scripting commands. -/
abbrev PlainCommand :=
  {command : PropagatedCommand // scriptCommand (arguments command) = none}

/-- What happens to the replicas and to the append only file. -/
inductive ServerEvent where
  /-- A command of a client, the `DEL` of an expired key, a `MULTI` or an `EXEC`. -/
  | propagate (dictid : Int32) (command : PlainCommand) (flags : PropagateFlags)
  /-- `SYNC` or `PSYNC` of a replica, which may have left before. -/
  | sync (replica : Option Departed) (request : SyncRequest) (written : Bool) (fork : ForkResult)
    (fresh : Nat → UInt8)
  /-- A replica goes, having processed some of the bytes of this connection. -/
  | leave (id processed : Nat)
  /-- Background saves, acknowledgements, writes to sockets, changes of the backlog. -/
  | work (op : ReplOp)
  /-- `BGREWRITEAOF`, or a rewrite that `serverCron` starts. -/
  | rewriteAof (forked : Bool)
  | startAppendOnly (opened forked : Bool)
  | stopAppendOnly
  | rewriteDone (installed : Bool)
  /-- `replicationCron` frees the script cache. -/
  | cron

/-- The events of the replication that attach and detach no replica. -/
def isWork : ReplOp → Bool
  | .propagate _ _ | .sync _ _ _ _ | .disconnect _ => false
  | _ => true

/-- An event of the replication; `startBgsaveForReplication` flushes the cache. -/
def Master.replicate (runid : List UInt8) (op : ReplOp) : Except Fault Master := do
  let repl ← op.step runid m.repl
  let cache := if op.flushesScripts m.repl repl then replicationScriptCacheFlush else m.cache
  pure { m with repl, cache }

/-- What a replica can ask for: one that left this master may ask for the byte behind the last
one it processed, and no other replica knows the run id.
-/
def asksHonestly (runid : List UInt8) (departed : List Departed) (replica : Option Departed)
    (request : SyncRequest)
    : Bool :=
  match replica, request.psync with
  | none, none => true
  | none, some psync => !strcaseEqual psync.runid runid
  | some replica, some ⟨_, some offset⟩ =>
      departed.contains replica && offset.toInt == replica.upto + 1
  | some _, _ => false

/-- `syncCommand`, with the record of a partial resynchronisation. -/
def Master.sync (runid : List UInt8) (replica : Option Departed) (request : SyncRequest)
    (written : Bool) (fork : ForkResult) (fresh : Nat → UInt8)
    : Except Fault Master :=
  if m.repl.slaves.any (fun c => c.id == request.id)
      || !asksHonestly runid m.departed replica request then .ok m
  else do
    let resumes := request.resumes runid m.repl.backlog written
    let origin := if resumes then replica.map Departed.since else none
    let next ← m.replicate runid (.sync request written fork fresh)
    pure { next with origins := fun id => if id = request.id then origin else m.origins id }

/-- The offset of the snapshot that a slave was given. -/
def Master.since (c : Slave) : Int := (m.origins c.id).getD (c.start.getD 0)

/-- A slave as one that may come back: it was online, and has processed bytes that it was sent. -/
def Master.departure (c : Slave) (processed : Nat) : Option Departed :=
  if c.replstate = .online ∧ c.closeAsap = false then
    c.start.map (fun start => ⟨m.since c, start + min processed c.drained.length⟩)
  else none

/-- `freeClient` of a slave. -/
def Master.leave (runid : List UInt8) (id processed : Nat) : Except Fault Master := do
  let next ← m.replicate runid (.disconnect id)
  let gone := m.repl.slaves.filter (fun c => c.id == id)
  pure { next with departed := m.departed ++ gone.filterMap (m.departure · processed) }

/-- The part of `replicationCron` about the script cache. -/
def Master.cron : Master :=
  if m.repl.slaves.isEmpty && m.aof.state == .off && !m.cache.fifo.isEmpty then
    { m with cache := replicationScriptCacheFlush }
  else m

def Master.serverStep (runid : List UInt8) : ServerEvent → Except Fault Master
  | .propagate dictid command flags => m.propagate runid dictid command.1 flags
  | .sync replica request written fork fresh => m.sync runid replica request written fork fresh
  | .leave id processed => m.leave runid id processed
  | .work op => if isWork op then m.replicate runid op else .ok m
  | .rewriteAof forked => .ok (m.rewriteAppendOnlyFileBackground forked).1
  | .startAppendOnly opened forked => .ok (m.startAppendOnly opened forked)
  | .stopAppendOnly => .ok m.stopAppendOnly
  | .rewriteDone installed => .ok (m.backgroundRewriteDoneHandler installed)
  | .cron => .ok m.cron

def Master.serverSteps (runid : List UInt8) (events : List ServerEvent) : Except Fault Master :=
  events.foldlM (fun m event => m.serverStep runid event) m

-- The scripting commands

/-- How `luaCreateFunction` ends. -/
inductive Creation where
  | created
  | notCompiled
  /-- The function is defined and the chunk around it fails. -/
  | notRun
deriving DecidableEq

/-- What Lua makes of a script: its creation if it is new, what happens while it runs, whether
it changes keys and whether it publishes messages.
-/
structure ScriptRun where
  creation : Creation
  events : List ServerEvent
  dirty : Bool
  published : Bool

/-- `luaCreateFunction`, with whether it is `REDIS_OK`. -/
def Master.luaCreateFunction (name : List UInt8) (body : Argument)
    : Creation → Except Fault (Master × Bool)
  | .notCompiled => .ok (m, false)
  | .notRun => .ok ({ m with functions := name :: m.functions }, false)
  | .created =>
      if m.scripts.any (fun entry => strcaseEqual name entry.1) then .error .assertion
      else
        .ok ({ m with functions := name :: m.functions, scripts := (name, body) :: m.scripts },
          true)

/-- What the code of a command leaves for `call`: the command as it may have been rewritten and
where it is to be propagated.
-/
structure Called where
  master : Master
  command : PropagatedCommand
  flags : PropagateFlags

def Called.nothing (command : PropagatedCommand) : Called := ⟨m, command, ⟨false, false⟩⟩

variable (sha1 : List UInt8 → Fin 20 → UInt8) (runid : List UInt8)

/-- `evalGenericCommand` behind the execution of the script. -/
def Master.afterScript (command : PropagatedCommand) (sha : Option Argument) (run : ScriptRun)
    : Except Fault Called :=
  match sha with
  | none => .ok ⟨m, command, ⟨run.dirty, run.dirty || run.published⟩⟩
  | some sha =>
      if replicationScriptCacheExists m.cache sha.1 then
        .ok ⟨m, command, ⟨run.dirty, run.dirty || run.published⟩⟩
      else do
        let cache ← replicationScriptCacheAdd m.cache sha.1
        match m.scripts.find? (fun entry => strcaseEqual sha.1 entry.1) with
        | none => .error .assertion
        | some (_, script) =>
            pure ⟨{ m with cache }, rewrittenAsEval command script, ⟨true, true⟩⟩

/-- `evalGenericCommand` for `EVAL`. -/
def Master.evalCommand (command : PropagatedCommand) (script numkeys : Argument)
    (args : List Argument) (run : ScriptRun)
    : Except Fault Called :=
  if !numkeysValid numkeys args then .ok (.nothing m command)
  else do
    let funcname := sha1hex sha1 script.1
    let (m, found) ← (if m.functions.contains funcname then pure (m, true)
      else m.luaCreateFunction funcname script run.creation)
    if !found then pure (.nothing m command)
    else do
      let m ← m.serverSteps runid run.events
      m.afterScript command none run

/-- `evalShaCommand`, with `evalGenericCommand`. -/
def Master.evalShaCommand (command : PropagatedCommand) (sha numkeys : Argument)
    (args : List Argument) (run : ScriptRun)
    : Except Fault Called :=
  if sha.1.length ≠ 40 ∨ numkeysValid numkeys args = false then .ok (.nothing m command)
  else if !m.functions.contains (Keyspace.cString (sha.1.map lowerCase)) then
    .ok (.nothing m command)
  else do
    let m ← m.serverSteps runid run.events
    m.afterScript command (some sha) run

def Master.scriptLoad (command : PropagatedCommand) (script : Argument) (creation : Creation)
    : Except Fault Called := do
  let sha := sha1hex sha1 script.1
  let (m, found) ← (if m.scripts.any (fun entry => strcaseEqual sha entry.1) then pure (m, true)
    else m.luaCreateFunction sha script creation)
  if !found then pure (.nothing m command) else pure ⟨m, command, ⟨true, true⟩⟩

def Master.scriptFlush (command : PropagatedCommand) : Called :=
  ⟨{ m with functions := [], scripts := [], cache := replicationScriptCacheFlush }, command,
    ⟨true, true⟩⟩

/-- The code of a command; what a plain command does is in the events. -/
def Master.proc (command : PropagatedCommand) (run : ScriptRun) : Except Fault Called :=
  match scriptCommand (arguments command) with
  | none => do
      let m ← m.serverSteps runid run.events
      pure (.nothing m command)
  | some (.eval script numkeys args) => m.evalCommand sha1 runid command script numkeys args run
  | some (.evalsha sha numkeys args) => m.evalShaCommand runid command sha numkeys args run
  | some (.load script) => m.scriptLoad sha1 command script run.creation
  | some .flush => .ok (m.scriptFlush command)

def Master.call (dictid : Int32) (command : PropagatedCommand) (run : ScriptRun)
    : Except Fault Master := do
  let called ← m.proc sha1 runid command run
  called.master.propagate runid dictid called.command called.flags

-- Transactions

/-- A command in `c->mstate.commands`. -/
structure Queued where
  dictid : Int32
  command : PropagatedCommand
  /-- `REDIS_CMD_READONLY` of a plain command. -/
  readonly : Bool
  run : ScriptRun

/-- `REDIS_CMD_READONLY`, which the table gives to `SCRIPT` and not to `EVAL` and `EVALSHA`. -/
def Queued.isReadonly (queued : Queued) : Bool :=
  match scriptCommand (arguments queued.command) with
  | none => queued.readonly
  | some (.eval _ _ _) | some (.evalsha _ _ _) => false
  | some (.load _) | some .flush => true

/-- `MULTI` and `EXEC`. -/
def multiCommand : PlainCommand :=
  ⟨⟨[.sds [0x4D, 0x55, 0x4C, 0x54, 0x49]], by decide, by decide⟩, rfl⟩

def execRequest : PlainCommand :=
  ⟨⟨[.sds [0x65, 0x78, 0x65, 0x63]], by decide, by decide⟩, rfl⟩

/-- A round of the loop of `execCommand`, with `must_propagate`. -/
def Master.execRound (state : Master × Bool) (queued : Queued) : Except Fault (Master × Bool) := do
  let (m, mustPropagate) := state
  let starts := !mustPropagate && !queued.isReadonly
  let m ← (if starts then m.propagate runid queued.dictid multiCommand.1 ⟨true, true⟩ else pure m)
  let m ← m.call sha1 runid queued.dictid queued.command queued.run
  pure (m, mustPropagate || starts)

/-- `call` for an `EXEC` that is not aborted. -/
def Master.execCommand (dictid : Int32) (queue : List Queued) : Except Fault Master := do
  let (m, mustPropagate) ← queue.foldlM (Master.execRound sha1 runid) (m, false)
  if mustPropagate then m.propagate runid dictid execRequest.1 ⟨true, true⟩ else pure m

-- Runs

inductive Event where
  | command (dictid : Int32) (command : PropagatedCommand) (run : ScriptRun)
  | exec (dictid : Int32) (queue : List Queued)
  | server (event : ServerEvent)

def Master.step : Event → Except Fault Master
  | .command dictid command run => m.call sha1 runid dictid command run
  | .exec dictid queue => m.execCommand sha1 runid dictid queue
  | .server event => m.serverStep runid event

def startServer (state : AofState) : Master where
  repl := .initial
  aof := ⟨state, false, [], 0, []⟩
  cache := replicationScriptCacheFlush
  functions := []
  scripts := []
  log := []
  origins := fun _ => none
  departed := []

/-- The fake client of `loadAppendOnlyFile` executes a command. -/
def Master.loadCommand (entry : PropagatedCommand × Creation) : Except Fault Master := do
  let called ← m.proc sha1 runid entry.1 ⟨entry.2, [], false, false⟩
  let file := m.aof.file ++ [entry.1]
  pure { called.master with aof := { m.aof with file, loaded := m.aof.loaded + 1 } }

/-- The states of a server: it starts with the append only file off, or on behind the file that
it has loaded.
-/
inductive Reachable : Master → Prop
  | off : Reachable (startServer .off)
  | loaded {m : Master} (file : List (PropagatedCommand × Creation))
    (run : file.foldlM (Master.loadCommand · sha1 runid) (startServer .on) = .ok m)
    : Reachable m
  | step {m next : Master} (before : Reachable m) (event : Event)
    (run : m.step sha1 runid event = .ok next)
    : Reachable next

end Redis.Scripting
