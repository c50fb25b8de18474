import Mathlib.Tactic

/-! `processCommand`: which commands are refused, queued or executed. -/

namespace Redis

/-- The arguments of a command, its name first. -/
abbrev Argv := List (List UInt8)

/-- The procs that `processCommand` asks for by name. -/
inductive CommandProc where
  | auth | ping | subscribe | unsubscribe | psubscribe | punsubscribe | replconf | shutdown
  | script | exec | discard | multi | watch | other
deriving DecidableEq, Repr

/-- `struct redisCommand`: an entry of the command table. -/
structure RedisCommand where
  name : String
  proc : CommandProc
  arity : Int
  write : Bool
  readonly : Bool
  denyoom : Bool
  loading : Bool
  stale : Bool
  /-- `getkeys_proc` is not null or `firstkey` is not 0. -/
  hasKeys : Bool
deriving DecidableEq, Repr

/-- The replies of `processCommand`, `multiCommand`, `discardCommand`, `watchCommand` and
`execCommand` themselves.
-/
inductive Reply where
  | ok
  | queued
  | multiBulkLen (count : Nat)
  | nullMultiBulk
  | error (text : String)
  /-- The reply of a command that is executed outside a transaction. -/
  | executed
deriving DecidableEq, Repr

def noauthErr : Reply := .error "-NOAUTH Authentication required."
def oomErr : Reply := .error "-OOM command not allowed when used memory > 'maxmemory'."
def bgsaveErr : Reply :=
  .error ("-MISCONF Redis is configured to save RDB snapshots, but is currently not able to "
    ++ "persist on disk. Commands that may modify the data set are disabled. Please check Redis "
    ++ "logs for details about the error.")
def noreplicasErr : Reply := .error "-NOREPLICAS Not enough good slaves to write."
def roslaveErr : Reply := .error "-READONLY You can't write against a read only slave."
def pubsubErr : Reply :=
  .error "-ERR only (P)SUBSCRIBE / (P)UNSUBSCRIBE / QUIT allowed in this context"
def masterdownErr : Reply :=
  .error "-MASTERDOWN Link with MASTER is down and slave-serve-stale-data is set to 'no'."
def loadingErr : Reply := .error "-LOADING Redis is loading the dataset in memory"
def slowscriptErr : Reply :=
  .error ("-BUSY Redis is busy running a script. You can only call SCRIPT KILL or SHUTDOWN NOSAVE.")
def execabortErr : Reply :=
  .error "-EXECABORT Transaction discarded because of previous errors."

/-- What `processCommand` reads of the server. -/
structure ServerState where
  lookupCommand : List UInt8 → Option RedisCommand
  requirepass : Bool
  clusterEnabled : Bool
  clusterOk : Bool
  /-- `getNodeByQuery`: the error that `clusterRedirectClient` replies, if another node or none
  serves the command. -/
  redirection : RedisCommand → Argv → Option String
  luaCallerIsMaster : Bool
  maxmemory : Bool
  /-- `freeMemoryIfNeeded` returns `REDIS_ERR`. -/
  memoryFull : Bool
  stopWritesOnBgsaveErr : Bool
  saveparamslen : Nat
  lastbgsaveOk : Bool
  aofLastWriteOk : Bool
  aofLastWriteError : String
  masterhost : Bool
  minSlavesToWrite : Nat
  minSlavesMaxLag : Nat
  goodSlavesCount : Nat
  slaveRo : Bool
  replConnected : Bool
  serveStaleData : Bool
  loading : Bool
  luaTimedout : Bool

/-- A client: its flags and its transaction. -/
structure ClientState where
  authenticated : Bool
  master : Bool
  luaClient : Bool
  pubsub : Bool
  closeAfterReply : Bool
  multi : Bool
  dirtyCas : Bool
  dirtyExec : Bool
  /-- `mstate.commands`. -/
  commands : List (RedisCommand × Argv)
deriving DecidableEq, Repr

def flagTransaction (c : ClientState) : ClientState :=
  if c.multi then { c with dirtyExec := true } else c

def queueMultiCommand (c : ClientState) (cmd : RedisCommand) (argv : Argv) : ClientState :=
  { c with commands := c.commands ++ [(cmd, argv)] }

def discardTransaction (c : ClientState) : ClientState :=
  { c with commands := [], multi := false, dirtyCas := false, dirtyExec := false }

/-- What a call leaves: the client, the reply and the commands whose procs were run on the
dataset, in order.
-/
structure CommandResult where
  client : ClientState
  reply : Reply
  executed : List (RedisCommand × Argv)
deriving DecidableEq, Repr

def multiCommand (c : ClientState) : CommandResult :=
  if c.multi then ⟨c, .error "-ERR MULTI calls can not be nested", []⟩
  else ⟨{ c with multi := true }, .ok, []⟩

def discardCommand (c : ClientState) : CommandResult :=
  if c.multi then ⟨discardTransaction c, .ok, []⟩
  else ⟨c, .error "-ERR DISCARD without MULTI", []⟩

/-- `watchCommand`; the keys are not part of this state. -/
def watchCommand (c : ClientState) : CommandResult :=
  if c.multi then ⟨c, .error "-ERR WATCH inside MULTI is not allowed", []⟩
  else ⟨c, .ok, []⟩

def execCommand (c : ClientState) : CommandResult :=
  if !c.multi then ⟨c, .error "-ERR EXEC without MULTI", []⟩
  else if c.dirtyCas || c.dirtyExec then
    ⟨discardTransaction c, if c.dirtyExec then execabortErr else .nullMultiBulk, []⟩
  else ⟨discardTransaction c, .multiBulkLen c.commands.length, c.commands⟩

/-- The checks of `processCommand`. -/
inductive RefusalReason where
  | unknownCommand | arity | auth | clusterDown | redirection | oom | misconf | noreplicas
  | readonlySlave | pubsubContext | masterdown | loading | busyScript
deriving DecidableEq, Repr

/-- A refusal: the check that failed, whether `flagTransaction` is called, and the reply. -/
structure Refusal where
  reason : RefusalReason
  flags : Bool
  reply : Reply
deriving DecidableEq, Repr

/-- The first letter of the second argument, in lower case, is `letter`. -/
def secondIs (argv : Argv) (letter : Char) : Bool :=
  match argv with
  | [_, first :: _] => (Char.ofNat first.toNat).toLower = letter
  | _ => false

/-- The commands that are allowed while a script runs for too long. -/
def allowedWhileBusy (cmd : RedisCommand) (argv : Argv) : Bool :=
  cmd.proc = .auth || cmd.proc = .replconf
  || (cmd.proc = .shutdown && secondIs argv 'n')
  || (cmd.proc = .script && secondIs argv 'k')

/-- The refusals of `processCommand` after the command was found, in the order of the source. -/
def refusalOf (server : ServerState) (c : ClientState) (cmd : RedisCommand) (argv : Argv)
    : Option Refusal :=
  if (cmd.arity > 0 ∧ cmd.arity ≠ argv.length) ∨ (argv.length : Int) < -cmd.arity then
    some ⟨.arity, true, .error ("-ERR wrong number of arguments for '" ++ cmd.name ++ "' command")⟩
  else if server.requirepass && !c.authenticated && cmd.proc
    ≠ .auth then some ⟨.auth, true, noauthErr⟩
  else if server.clusterEnabled && !c.master && !(c.luaClient && server.luaCallerIsMaster)
      && cmd.hasKeys && !server.clusterOk then
    some ⟨.clusterDown, true, .error "-CLUSTERDOWN The cluster is down"⟩
  else
    match (if server.clusterEnabled && !c.master && !(c.luaClient && server.luaCallerIsMaster)
        && cmd.hasKeys then server.redirection cmd argv else none) with
    | some text => some ⟨.redirection, true, .error text⟩
    | none =>
        if server.maxmemory && cmd.denyoom && server.memoryFull then some ⟨.oom, true, oomErr⟩
        else if ((server.stopWritesOnBgsaveErr && server.saveparamslen > 0 && !server.lastbgsaveOk)
            || !server.aofLastWriteOk) && !server.masterhost && (cmd.write || cmd.proc = .ping) then
          if server.aofLastWriteOk then some ⟨.misconf, true, bgsaveErr⟩
          else
            some ⟨.misconf, true,
              .error ("-MISCONF Errors writing to the AOF file: " ++ server.aofLastWriteError)⟩
        else if !server.masterhost && server.minSlavesToWrite > 0 && server.minSlavesMaxLag > 0
            && cmd.write && server.goodSlavesCount < server.minSlavesToWrite then
          some ⟨.noreplicas, true, noreplicasErr⟩
        else if server.masterhost && server.slaveRo && !c.master && cmd.write then
          some ⟨.readonlySlave, false, roslaveErr⟩
        else if c.pubsub && cmd.proc ≠ .ping && cmd.proc ≠ .subscribe && cmd.proc ≠ .unsubscribe
            && cmd.proc ≠ .psubscribe && cmd.proc ≠ .punsubscribe then
          some ⟨.pubsubContext, false, pubsubErr⟩
        else if server.masterhost && !server.replConnected && !server.serveStaleData &&
          !cmd.stale then
          some ⟨.masterdown, true, masterdownErr⟩
        else if server.loading && !cmd.loading then
          some ⟨.loading, false, loadingErr⟩
        else if server.luaTimedout && !allowedWhileBusy cmd argv then
          some ⟨.busyScript, true, slowscriptErr⟩
        else none

/-- The text of a C string. -/
def cString (bytes : List UInt8) : String :=
  String.ofList ((bytes.takeWhile (· ≠ 0)).map fun byte => Char.ofNat byte.toNat)

/-- `addReplyErrorFormat` writes a space for a line break. -/
def withoutNewlines (bytes : List UInt8) : List UInt8 :=
  bytes.map fun byte => if byte = 0x0D ∨ byte = 0x0A then 0x20 else byte

/-- The reply for a name that is not in the command table. -/
def unknownCommand (argv : Argv) : Reply :=
  .error ("-ERR unknown command '" ++ cString (withoutNewlines (argv.headD [])) ++ "'")

/-- The refusals of `processCommand`. -/
def refusal (server : ServerState) (c : ClientState) (argv : Argv) : Option Refusal :=
  match server.lookupCommand (argv.headD []) with
  | none => some ⟨.unknownCommand, true, unknownCommand argv⟩
  | some cmd => refusalOf server c cmd argv

/-- `call`, for the commands that `processCommand` does not queue. -/
def callCommand (c : ClientState) (cmd : RedisCommand) (argv : Argv) : CommandResult :=
  match cmd.proc with
  | .exec => execCommand c
  | .discard => discardCommand c
  | .multi => multiCommand c
  | .watch => watchCommand c
  | _ => ⟨c, .executed, [(cmd, argv)]⟩

/-- The argument is `quit` in any case. -/
def isQuit (argv : Argv) : Bool :=
  (argv.headD []).map (fun byte => (Char.ofNat byte.toNat).toLower) = "quit".toList

def processCommand (server : ServerState) (c : ClientState) (argv : Argv) : CommandResult :=
  if isQuit argv then ⟨{ c with closeAfterReply := true }, .ok, []⟩
  else
    match server.lookupCommand (argv.headD []) with
    | none => ⟨flagTransaction c, unknownCommand argv, []⟩
    | some cmd =>
        match refusalOf server c cmd argv with
        | some refused => ⟨if refused.flags then flagTransaction c else c, refused.reply, []⟩
        | none =>
            if c.multi ∧ cmd.proc ≠ .exec ∧ cmd.proc ≠ .discard ∧ cmd.proc ≠ .multi
                ∧ cmd.proc ≠ .watch then
              ⟨queueMultiCommand c cmd argv, .queued, []⟩
            else callCommand c cmd argv

end Redis
