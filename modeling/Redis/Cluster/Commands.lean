import Redis.Cluster.Packets

/-! What else changes the state of a cluster node: the `CLUSTER` command, failovers, the periodic
functions, and the configuration file. Two subcommands are left out: `SAVECONFIG`, which only writes
that file, and `COUNT-FAILURE-REPORTS`, which drops the reports that are too old.
-/

namespace Redis.Cluster

namespace ClusterState

variable (s : ClusterState)

-- Failover

/-- The masters that serve slots. -/
def votingMasters : List NodeRef :=
  s.refs.filter fun r => s.nodeIsMaster r && s.numslots r != 0

/-- `clusterUpdateState`: the number of masters with slots, which a master does not look at for some
time after its start. The state of the cluster is not part of the model.
-/
def clusterUpdateState (env : ClusterEnv) : ClusterState :=
  { s with
    todo := { s.todo with updateState := false }
    size :=
      if env.writableDelay && s.nodeIsMaster s.myself then s.size
      else s.votingMasters.length }

/-- The slots of the old master become those of this node. -/
def claimSlots (oldmaster : NodeRef) : ClusterState :=
  s.forSlots fun slot s =>
    if s.clusterNodeGetSlotBit oldmaster slot then
      (s.clusterDelSlot slot).clusterAddSlot s.myself slot
    else s

def clusterFailoverReplaceYourMaster (env : ClusterEnv) : ClusterState :=
  match s.slaveof s.myself with
  | none => s
  | some oldmaster =>
      if s.nodeIsMaster s.myself then s
      else
        let s := (s.clusterSetNodeAsMaster s.myself).claimSlots oldmaster
        let s := (s.clusterUpdateState env).clusterSaveConfig true
        (s.clusterBroadcastPong env false).resetManualFailover

/-- `clusterGetSlaveRank`, for an own offset. -/
def clusterGetSlaveRank (offset : Int) : Nat :=
  match s.slaveof s.myself with
  | none => 0
  | some master =>
      ((s.slaves master).filter fun r =>
        r != s.myself && (s.nodes r).any fun n => decide (offset < n.replOffset)).length

/-- What `clusterHandleSlaveFailover` reads besides the cluster state. -/
structure SlaveCall where
  clusterSlaveValidityFactor : Int
  replPingSlavePeriod : Int
  dataAge : Int
  random : Int
  /-- `replicationGetSlaveOffset()`. -/
  slaveOffset : Int
deriving DecidableEq, Repr

def failoverCall (env : ClusterEnv) (call : SlaveCall) : FailoverCall where
  mstime := env.mstime
  clusterNodeTimeout := env.nodeTimeout
  clusterSlaveValidityFactor := call.clusterSlaveValidityFactor
  replPingSlavePeriod := call.replPingSlavePeriod
  dataAge := call.dataAge
  mfEnd := s.mfEnd != 0
  mfCanStart := s.mfCanStart
  random := call.random
  slaveRank := s.clusterGetSlaveRank call.slaveOffset

/-- The preconditions of `clusterHandleSlaveFailover`. -/
def mayFailover : Bool :=
  !s.nodeIsMaster s.myself
  && match s.slaveof s.myself with
    | none => false
    | some master =>
        (s.nodeFailed master || s.mfEnd != 0 && s.mfCanStart) && s.numslots master != 0

def clusterHandleSlaveFailover (env : ClusterEnv) (call : SlaveCall) : ClusterState :=
  let s := { s with todo := { s.todo with handleFailover := false } }
  if !s.mayFailover then s
  else
    match slaveFailover (s.failoverCall env call) s.size s.currentEpoch s.election with
    | (.waits, _, election) => { s with election }
    | (.scheduled, _, election) => { s with election }.clusterBroadcastPong env true
    | (.requested, currentEpoch, election) =>
        ({ s with currentEpoch, election }.clusterRequestFailoverAuth).clusterDoBeforeSleep
          { saveConfig := true, updateState := true, fsyncConfig := true }
    | (.won, _, election) =>
        let s := { s with election }
        let s :=
          if s.configEpoch s.myself < election.failoverAuthEpoch then
            s.modify s.myself fun n => { n with configEpoch := election.failoverAuthEpoch }
          else s
        s.clusterFailoverReplaceYourMaster env

def manualFailoverCheckTimeout (env : ClusterEnv) : ClusterState :=
  if s.mfEnd ≠ 0 ∧ s.mfEnd < env.mstime then s.resetManualFailover else s

def clusterHandleManualFailover (call : SlaveCall) : ClusterState :=
  if s.mfEnd = 0 ∨ s.mfCanStart = true ∨ s.mfMasterOffset = 0 then s
  else if s.mfMasterOffset = call.slaveOffset then { s with mfCanStart := true }
  else s

-- The periodic functions

def clusterBeforeSleep (env : ClusterEnv) (call : SlaveCall) : ClusterState :=
  let s :=
    if s.todo.handleFailover then s.clusterHandleSlaveFailover env call else s
  let s := if s.todo.updateState then s.clusterUpdateState env else s
  let s := if s.todo.saveConfig then s.clusterSaveConfig s.todo.fsyncConfig else s
  { s with todo := {} }

/-- The parts of `clusterCron` that change the state, one at a time. -/
inductive CronStep where
  /-- A node in handshake is given up. -/
  | handshakeTimeout (r : NodeRef)
  /-- A link to a node is created, and a first PING or MEET put into its buffer. -/
  | connect (r : NodeRef)
  /-- A PING is sent on a link. -/
  | ping (r : NodeRef)
  /-- The link to a node that does not answer is closed. -/
  | disconnect (r : NodeRef)
  /-- A node that does not answer may be failing. -/
  | possiblyFailing (r : NodeRef)
  /-- The manual failover, and the failover of a slave. -/
  | failover (call : SlaveCall)
  /-- `clusterHandleSlaveMigration` chose an orphaned master for this slave. -/
  | migrate (target : NodeRef)
  /-- The cluster is down, or a node became possibly failing. -/
  | updateState

/-- The steps of `clusterCron`, with their guards on the table. -/
def clusterCron (env : ClusterEnv) : CronStep → ClusterState
  | .handshakeTimeout r =>
      if (s.nodes r).any fun n =>
          n.flags.handshake && !n.flags.myself && !n.flags.noaddr
          && decide (max env.nodeTimeout 1000 < env.mstime - n.ctime) then
        s.clusterDelNode env r
      else s
  | .connect r =>
      if (s.nodes r).any fun n => n.flags.myself || n.flags.noaddr || n.link then s
      else
        let meet := (s.nodes r).any (·.flags.meet)
        let s := s.modify r fun n => { n with link := true }
        let s := s.clusterSendPing env (some r) (if meet then .meet else .ping)
        s.modify r fun n =>
          { n with
            pingSent := if n.pingSent = 0 && !meet then env.mstime else n.pingSent
            flags := { n.flags with meet := false } }
  | .ping r =>
      if s.hasLink r then
        (s.modify r fun n => { n with pingSent := env.mstime }).clusterSendPing env (some r) .ping
      else s
  | .disconnect r => s.modify r fun n => { n with link := false }
  | .possiblyFailing r =>
      if (s.nodes r).any fun n =>
          n.flags.myself || n.flags.noaddr || n.flags.handshake || n.flags.pfail || n.flags.fail
      then s
      else s.modify r fun n => { n with flags := { n.flags with pfail := true } }
  | .failover call =>
      let s := s.manualFailoverCheckTimeout env
      if s.nodeIsSlave s.myself then
        (s.clusterHandleManualFailover call).clusterHandleSlaveFailover env call
      else s
  | .migrate target =>
      if s.nodeIsSlave s.myself && (s.slaveof s.myself).isSome
          && !s.nodeIsSlave target && !s.nodeFailed target && !(s.slaves target).isEmpty
          && (s.slaves target).all s.nodeFailed && decide (0 < s.numslots target) then
        s.clusterSetMaster target
      else s
  | .updateState => s.clusterUpdateState env

-- The CLUSTER command

/-- The subcommands that change the state, with their arguments parsed. -/
inductive ClusterSubcommand where
  | meet (ip : List UInt8) (port : Nat)
  | flushslots
  | addslots (slots : List Slot)
  | delslots (slots : List Slot)
  | setslotMigrating (slot : Slot) (node : NodeName)
  | setslotImporting (slot : Slot) (node : NodeName)
  | setslotStable (slot : Slot)
  | setslotNode (slot : Slot) (node : NodeName)
  | forget (node : NodeName)
  | replicate (node : NodeName)
  | failover (force takeover : Bool)
  | setConfigEpoch (epoch : Nat)
  | reset (hard : Bool)

/-- What the subcommands read from the keyspace: `dictSize(server.db[0].dict)` and
`countKeysInSlot`.
-/
structure KeyCounts where
  dbSize : Nat
  inSlot : Slot → Nat

/-- `importing_slots_from[slot]` is cleared. -/
def stopImporting (slot : Slot) : ClusterState :=
  { s with importingSlotsFrom := Function.update s.importingSlotsFrom slot none }

/-- `migrating_slots_to[slot]` is cleared. -/
def stopMigrating (slot : Slot) : ClusterState :=
  { s with migratingSlotsTo := Function.update s.migratingSlotsTo slot none }

/-- A slot of `ADDSLOTS` or `DELSLOTS`, with the assertion about the result. -/
def changeSlot (del : Bool) (slot : Slot) : ClusterState :=
  let asserted :=
    (s.stopImporting slot).redisAssert .slotResult ((s.slots slot).isSome == del)
  if del then asserted.clusterDelSlot slot else asserted.clusterAddSlot s.myself slot

/-- `CLUSTER ADDSLOTS` and `CLUSTER DELSLOTS`. -/
def changeSlots (del : Bool) (slots : List Slot) : ClusterState :=
  if !slots.all (fun slot => (s.slots slot).isSome == del) || !decide slots.Nodup then s
  else
    (s.forSlots fun slot s => if slot ∈ slots then s.changeSlot del slot else s
    ).clusterDoBeforeSleep { updateState := true, saveConfig := true }

/-- A slot is not migrating any more when it has no keys. -/
def setslotMigrated (keys : KeyCounts) (slot : Slot) : ClusterState :=
  if keys.inSlot slot = 0 then s.stopMigrating slot else s

/-- A node that imported a slot takes a new epoch with it. -/
def setslotImported (slot : Slot) (n : NodeRef) : ClusterState :=
  if n = s.myself ∧ (s.importingSlotsFrom slot).isSome then
    s.clusterBumpConfigEpochWithoutConsensus.stopImporting slot
  else s

/-- `CLUSTER SETSLOT <slot> NODE <node>`. -/
def setslotNode (keys : KeyCounts) (slot : Slot) (node : NodeName) : ClusterState :=
  match s.clusterLookupNode node with
  | none => s
  | some n =>
      if s.slots slot = some s.myself ∧ n ≠ s.myself ∧ keys.inSlot slot ≠ 0 then s
      else
        ((((s.setslotMigrated keys slot).setslotImported slot n).clusterDelSlot
          slot).clusterAddSlot n slot).clusterDoBeforeSleep
          { saveConfig := true, updateState := true }

/-- `CLUSTER FAILOVER`. Sending MFSTART is the only effect of the mild form on the others. -/
def clusterFailover (env : ClusterEnv) (force takeover : Bool) : ClusterState :=
  if s.nodeIsMaster s.myself then s
  else
    match s.slaveof s.myself with
    | none => s
    | some master =>
        if !force && !takeover && (s.nodeFailed master || !s.hasLink master) then s
        else
          let s := { s.resetManualFailover with mfEnd := env.mstime + 5000 }
          if takeover then
            s.clusterBumpConfigEpochWithoutConsensus.clusterFailoverReplaceYourMaster env
          else if force then { s with mfCanStart := true }
          else if s.hasLink master then
            s.clusterSendMessage (some master) (s.clusterBuildMessageHdr .mfstart)
          else s

/-- `clusterReset`; the new name of a hard reset comes from `getRandomHexChars`. -/
def clusterReset (env : ClusterEnv) (hard : Bool) (newname : NodeName) : ClusterState :=
  let s := if s.nodeIsSlave s.myself then s.clusterSetNodeAsMaster s.myself else s
  let s := s.clusterCloseAllSlots.resetManualFailover
  let s := s.forSlots fun slot s => s.clusterDelSlot slot
  let s := s.refs.foldl (fun s r => if r = s.myself then s else s.clusterDelNode env r) s
  let s :=
    if hard then
      { s with currentEpoch := 0, lastVoteEpoch := 0 }.modify s.myself fun n =>
        { n with configEpoch := 0, name := newname }
    else s
  s.clusterDoBeforeSleep { saveConfig := true, updateState := true, fsyncConfig := true }

def clusterCommand (env : ClusterEnv) (keys : KeyCounts) : ClusterSubcommand → ClusterState
  | .meet ip port => s.clusterStartHandshake env ip port
  | .flushslots =>
      if keys.dbSize ≠ 0 then s
      else
        (s.clusterDelNodeSlots s.myself).clusterDoBeforeSleep
          { updateState := true, saveConfig := true }
  | .addslots slots => s.changeSlots false slots
  | .delslots slots => s.changeSlots true slots
  | .setslotMigrating slot node =>
      match s.clusterLookupNode node with
      | none => s
      | some n =>
          if s.slots slot ≠ some s.myself then s
          else
            { s with
              migratingSlotsTo := Function.update s.migratingSlotsTo slot (some n)
            }.clusterDoBeforeSleep { saveConfig := true, updateState := true }
  | .setslotImporting slot node =>
      match s.clusterLookupNode node with
      | none => s
      | some n =>
          if s.slots slot = some s.myself then s
          else
            { s with
              importingSlotsFrom := Function.update s.importingSlotsFrom slot (some n)
            }.clusterDoBeforeSleep { saveConfig := true, updateState := true }
  | .setslotStable slot =>
      ((s.stopImporting slot).stopMigrating slot).clusterDoBeforeSleep
        { saveConfig := true, updateState := true }
  | .setslotNode slot node => s.setslotNode keys slot node
  | .forget node =>
      match s.clusterLookupNode node with
      | none => s
      | some n =>
          if n = s.myself ∨ s.nodeIsSlave s.myself = true ∧ s.slaveof s.myself = some n then s
          else
            ((s.clusterBlacklistAddNode env n).clusterDelNode env n).clusterDoBeforeSleep
              { updateState := true, saveConfig := true }
  | .replicate node =>
      match s.clusterLookupNode node with
      | none => s
      | some n =>
          if n = s.myself ∨ s.nodeIsSlave n = true then s
          else if s.nodeIsMaster s.myself = true
              ∧ (s.numslots s.myself ≠ 0 ∨ keys.dbSize ≠ 0) then s
          else
            (s.clusterSetMaster n).clusterDoBeforeSleep { updateState := true, saveConfig := true }
  | .failover force takeover => s.clusterFailover env force takeover
  | .setConfigEpoch epoch =>
      if 1 < s.refs.length ∨ s.configEpoch s.myself ≠ 0 then s
      else
        ({ s with currentEpoch := max s.currentEpoch epoch }.modify s.myself fun n =>
          { n with configEpoch := epoch }).clusterDoBeforeSleep
          { updateState := true, saveConfig := true }
  | .reset hard =>
      if s.nodeIsMaster s.myself = true ∧ keys.dbSize ≠ 0 then s
      else s.clusterReset env hard (env.randomName s.nextRef)

-- Starting

/-- The state that `clusterInit` sets up before it reads the configuration. The allocator
decides about `failover_auth_sent`.
-/
def empty (conf : SavedConfig) (authSent : Bool) : ClusterState where
  myself := 0
  currentEpoch := 0
  size := 1
  table := .empty
  nodesBlackList := []
  migratingSlotsTo _ := none
  importingSlotsFrom _ := none
  slots _ := none
  election := .initial authSent
  mfEnd := 0
  mfSlave := none
  mfMasterOffset := 0
  mfCanStart := false
  lastVoteEpoch := 0
  todo := {}
  conf := conf
  failedAsserts := []
  sent := []

/-- The node that a line of the configuration names, created if need be. -/
def lookupOrCreate (env : ClusterEnv) (name : NodeName) : NodeRef × ClusterState :=
  match s.clusterLookupNode name with
  | some r => (r, s)
  | none => (s.nextRef, s.clusterAddNode (createClusterNode name {} env.mstime))

/-- The slots of a line that are migrating or being imported. -/
def loadOpenSlots (env : ClusterEnv) (line : NodeLine) : ClusterState :=
  s.forSlots fun slot s =>
    match line.migrating slot, line.importing slot with
    | some name, _ =>
        let (r, s) := s.lookupOrCreate env name
        { s with migratingSlotsTo := Function.update s.migratingSlotsTo slot (some r) }
    | none, some name =>
        let (r, s) := s.lookupOrCreate env name
        { s with importingSlotsFrom := Function.update s.importingSlotsFrom slot (some r) }
    | none, none => s

def loadFields (env : ClusterEnv) (line : NodeLine) (r : NodeRef) : ClusterState :=
  let s := s.modify r fun n =>
    { n with
      ip := line.ip
      port := line.port
      flags :=
        { n.flags with
          myself := n.flags.myself || line.flags.myself
          master := n.flags.master || line.flags.master
          slave := n.flags.slave || line.flags.slave
          pfail := n.flags.pfail || line.flags.pfail
          fail := n.flags.fail || line.flags.fail
          handshake := n.flags.handshake || line.flags.handshake
          noaddr := n.flags.noaddr || line.flags.noaddr }
      failTime := if line.flags.fail then env.mstime else n.failTime }
  if line.flags.myself then { s with myself := r } else s

def loadMaster (env : ClusterEnv) (name : Option NodeName) (r : NodeRef) : ClusterState :=
  match name with
  | none => s
  | some name =>
      let (master, s) := s.lookupOrCreate env name
      (s.modify r fun n => { n with slaveof := some master }).clusterNodeAddSlave master r

def loadTimes (env : ClusterEnv) (line : NodeLine) (r : NodeRef) : ClusterState :=
  s.modify r fun n =>
    { n with
      pingSent := if line.pingSent ≠ 0 then env.mstime else n.pingSent
      pongReceived := if line.pongReceived ≠ 0 then env.mstime else n.pongReceived
      configEpoch := line.configEpoch }

def loadSlots (slots : Slot → Bool) (r : NodeRef) : ClusterState :=
  s.forSlots fun slot s => if slots slot then s.clusterAddSlot r slot else s

/-- A line about a node in `clusterLoadConfig`. -/
def loadLine (env : ClusterEnv) (line : NodeLine) : ClusterState :=
  let (r, s) := s.lookupOrCreate env line.name
  ((((s.loadFields env line r).loadMaster env line.slaveof r).loadTimes env line r).loadSlots
    line.slots r).loadOpenSlots env line

def loadNodes (env : ClusterEnv) (lines : List NodeLine) : ClusterState :=
  lines.foldl (fun s line => s.loadLine env line) s

/-- The `vars` line, and the sanity check. -/
def loadVars (conf : SavedConfig) : ClusterState :=
  let s := { s with currentEpoch := conf.currentEpoch, lastVoteEpoch := conf.lastVoteEpoch }
  { s with currentEpoch := max s.currentEpoch s.clusterGetMaxEpoch }

def clusterLoadConfig (env : ClusterEnv) (conf : SavedConfig) (authSent : Bool) : ClusterState :=
  ((empty conf authSent).loadNodes env conf.nodes).loadVars conf

/-- `clusterInit` without a configuration. -/
def clusterInit (env : ClusterEnv) (name : NodeName) (authSent : Bool) : ClusterState :=
  (((empty ⟨[], 0, 0⟩ authSent).clusterAddNode
    (createClusterNode name { myself := true, master := true } env.mstime)).clusterSaveConfig
      true).modify 0 fun n => { n with port := env.port }

end ClusterState

end Redis.Cluster
