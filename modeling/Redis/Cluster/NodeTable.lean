import Redis.Cluster.Election
import Redis.Library.ByteStrings

/-! A node's view of the cluster: the table of the nodes it knows, with the pointers between
them, and the hash slots.
-/

namespace Redis.Cluster

open Redis.Library

-- Nodes

abbrev NodeName := List UInt8

/-- `REDIS_NODE_NULL_NAME`. -/
def nullName : NodeName := List.replicate 40 0

/-- A pointer to a `clusterNode`. Addresses are numbered in the order of their allocation, so a
pointer to a node that was freed refers to no other one.
-/
abbrev NodeRef := Nat

def redisClusterSlots : Nat := 16384

abbrev Slot := Fin redisClusterSlots

theorem zero_lt_slots : 0 < redisClusterSlots := by decide

theorem one_lt_slots : 1 < redisClusterSlots := by decide

structure NodeFlags where
  master : Bool := false
  slave : Bool := false
  pfail : Bool := false
  fail : Bool := false
  myself : Bool := false
  handshake : Bool := false
  noaddr : Bool := false
  meet : Bool := false
deriving DecidableEq, Repr

/-- `clusterNode`. The slots are the bits of the bitmap. -/
structure ClusterNode where
  name : NodeName
  ctime : Int
  flags : NodeFlags
  configEpoch : Nat
  slots : Slot → Bool
  numslots : Int
  slaves : List NodeRef
  slaveof : Option NodeRef
  pingSent : Int
  pongReceived : Int
  failTime : Int
  votedTime : Int
  replOffset : Int
  ip : List UInt8
  port : Nat
  /-- Whether there is a link to the node. -/
  link : Bool
  /-- The reporting nodes, with the times of their reports. -/
  failReports : List (NodeRef × Int)

def createClusterNode (name : NodeName) (flags : NodeFlags) (mstime : Int) : ClusterNode where
  name := name
  ctime := mstime
  flags := flags
  configEpoch := 0
  slots _ := false
  numslots := 0
  slaves := []
  slaveof := none
  pingSent := 0
  pongReceived := 0
  failTime := 0
  votedTime := 0
  replOffset := 0
  ip := []
  port := 0
  link := false
  failReports := []

/-- The nodes by address: a node that is not in the table has been freed. No node is at an address
that was not given out yet.
-/
structure NodeTable where
  node : NodeRef → Option ClusterNode
  next : NodeRef
  unused : ∀ r, next ≤ r → node r = none

namespace NodeTable

def empty : NodeTable where
  node _ := none
  next := 0
  unused _ _ := rfl

/-- A change of the node at an address, if there is one. -/
def modify (t : NodeTable) (r : NodeRef) (f : ClusterNode → ClusterNode) : NodeTable where
  node := Function.update t.node r ((t.node r).map f)
  next := t.next
  unused r' above := by
    by_cases here : r' = r
    · subst here
      simp [t.unused r' above]
    · simp [here, t.unused r' above]

def insert (t : NodeTable) (n : ClusterNode) : NodeTable where
  node := Function.update t.node t.next (some n)
  next := t.next + 1
  unused r above := by
    have later : t.next < r := above
    simp [later.ne', t.unused r later.le]

def drop (t : NodeTable) (r : NodeRef) : NodeTable where
  node := Function.update t.node r none
  next := t.next
  unused r' above := by
    by_cases here : r' = r
    · simp [here]
    · simp [here, t.unused r' above]

end NodeTable

-- Messages

/-- `clusterMsgDataGossip`. -/
structure Gossip where
  nodename : NodeName
  ip : List UInt8
  port : Nat
  flags : NodeFlags
deriving DecidableEq, Repr

/-- The types of messages, with their data. -/
inductive ClusterMsgData where
  | ping (gossip : List Gossip)
  | pong (gossip : List Gossip)
  | meet (gossip : List Gossip)
  | fail (about : NodeName)
  | publish
  | failoverAuthRequest
  | failoverAuthAck
  | update (configEpoch : Nat) (nodename : NodeName) (slots : Slot → Bool)
  | mfstart

structure ClusterMsg where
  sender : NodeName
  currentEpoch : Nat
  configEpoch : Nat
  offset : Int
  myslots : Slot → Bool
  slaveof : NodeName
  port : Nat
  flags : NodeFlags
  /-- `CLUSTERMSG_FLAG0_PAUSED`. -/
  paused : Bool
  /-- `CLUSTERMSG_FLAG0_FORCEACK`. -/
  forceack : Bool
  data : ClusterMsgData

-- The state

structure TodoBeforeSleep where
  handleFailover : Bool := false
  updateState : Bool := false
  saveConfig : Bool := false
  fsyncConfig : Bool := false
deriving DecidableEq, Repr

/-- A line of `nodes.conf` about a node. The last two fields are filled in for `myself`. -/
structure NodeLine where
  name : NodeName
  ip : List UInt8
  port : Nat
  flags : NodeFlags
  slaveof : Option NodeName
  pingSent : Int
  pongReceived : Int
  configEpoch : Nat
  slots : Slot → Bool
  migrating : Slot → Option NodeName
  importing : Slot → Option NodeName

/-- `nodes.conf`: the lines of the nodes, and the `vars` line. -/
structure SavedConfig where
  nodes : List NodeLine
  currentEpoch : Nat
  lastVoteEpoch : Nat

/-- The ways in which the functions that are modelled end the process. -/
inductive Assertion where
  /-- `redisAssert(clusterNodeClearSlotBit(n,slot) == 1)`. -/
  | clearSlotBit
  /-- `redisAssertWithInfo(c,NULL,retval == REDIS_OK)` in `ADDSLOTS` and `DELSLOTS`. -/
  | slotResult
  /-- `redisAssert(n != myself)`. -/
  | setMasterNotMyself
  /-- `redisAssert(myself->numslots == 0)`. -/
  | setMasterNoSlots
  /-- `curmaster->numslots` when `curmaster` is null. -/
  | nullCurmaster
deriving DecidableEq, Repr

/-- `clusterState`, with the configuration file. `failedAsserts` and `sent` are not part of the
program: what ended the process, if anything, and the messages that were put into send buffers, each
with the node it was sent to, or `none` for the reply on an incoming connection.
-/
structure ClusterState where
  myself : NodeRef
  currentEpoch : Nat
  size : Nat
  table : NodeTable
  nodesBlackList : List (NodeName × Int)
  migratingSlotsTo : Slot → Option NodeRef
  importingSlotsFrom : Slot → Option NodeRef
  slots : Slot → Option NodeRef
  election : Election
  mfEnd : Int
  mfSlave : Option NodeRef
  mfMasterOffset : Int
  mfCanStart : Bool
  lastVoteEpoch : Nat
  todo : TodoBeforeSleep
  conf : SavedConfig
  failedAsserts : List Assertion
  sent : List (Option NodeRef × ClusterMsg)

/-- What the functions take from outside. -/
structure ClusterEnv where
  /-- `mstime()`. -/
  mstime : Int
  /-- `server.unixtime`, and `time(NULL)`. -/
  unixtime : Int
  /-- `server.cluster_node_timeout`. -/
  nodeTimeout : Int
  /-- `server.port`. -/
  port : Nat
  /-- The name that `getRandomHexChars` gives the node at an address. -/
  randomName : NodeRef → NodeName
  /-- `inet_pton` and `inet_ntop`: the normal form of an address, or `none` for no address. -/
  normIp : List UInt8 → Option (List UInt8)
  /-- `!strcasecmp` of two addresses. -/
  sameIp : List UInt8 → List UInt8 → Bool
  /-- The gossip section of a message: nodes that are picked at random. -/
  gossip : List Gossip
  /-- The cluster is down, and `REDIS_CLUSTER_WRITABLE_DELAY` has not passed since the first call of
  `clusterUpdateState`.
  -/
  writableDelay : Bool

/-- An environment for examples: all clocks stand still, and random names start with a number. -/
def ClusterEnv.still (port : Nat) : ClusterEnv where
  mstime := 100000
  unixtime := 100
  nodeTimeout := 15000
  port := port
  randomName r := r.toUInt8 :: List.replicate 39 200
  normIp ip := some ip
  sameIp := (· == ·)
  gossip := []
  writableDelay := false

namespace ClusterState

variable (s : ClusterState)

-- Reading and changing nodes

abbrev nodes (r : NodeRef) : Option ClusterNode := s.table.node r

/-- The address of the next node that is created. -/
abbrev nextRef : NodeRef := s.table.next

def live (r : NodeRef) : Bool := (s.nodes r).isSome

/-- An access through a pointer to a freed node is undefined in C; here it changes nothing. -/
def modify (r : NodeRef) (f : ClusterNode → ClusterNode) : ClusterState :=
  { s with table := s.table.modify r f }

def nodeIsMaster (r : NodeRef) : Bool := (s.nodes r).any (·.flags.master)

def nodeIsSlave (r : NodeRef) : Bool := (s.nodes r).any (·.flags.slave)

def nodeInHandshake (r : NodeRef) : Bool := (s.nodes r).any (·.flags.handshake)

def nodeFailed (r : NodeRef) : Bool := (s.nodes r).any (·.flags.fail)

def nodeTimedOut (r : NodeRef) : Bool := (s.nodes r).any (·.flags.pfail)

def slaveof (r : NodeRef) : Option NodeRef := (s.nodes r).bind (·.slaveof)

def slaves (r : NodeRef) : List NodeRef := (s.nodes r).elim [] (·.slaves)

def numslots (r : NodeRef) : Int := (s.nodes r).elim 0 (·.numslots)

def configEpoch (r : NodeRef) : Nat := (s.nodes r).elim 0 (·.configEpoch)

def name (r : NodeRef) : NodeName := (s.nodes r).elim [] (·.name)

def refs : List NodeRef := (List.range s.nextRef).filter s.live

def clusterLookupNode (name : NodeName) : Option NodeRef :=
  (List.range s.nextRef).find? fun r => (s.nodes r).any (·.name == name)

def clusterDoBeforeSleep (flags : TodoBeforeSleep) : ClusterState :=
  { s with
    todo :=
      { handleFailover := s.todo.handleFailover || flags.handleFailover
        updateState := s.todo.updateState || flags.updateState
        saveConfig := s.todo.saveConfig || flags.saveConfig
        fsyncConfig := s.todo.fsyncConfig || flags.fsyncConfig } }

def redisAssert (assertion : Assertion) (holds : Bool) : ClusterState :=
  if holds then s else { s with failedAsserts := assertion :: s.failedAsserts }

/-- `clusterAddNode`: `dictAdd` fails for a name that is there, and then the node is lost. -/
def clusterAddNode (node : ClusterNode) : ClusterState :=
  if (s.clusterLookupNode node.name).isSome then s else { s with table := s.table.insert node }

/-- The node leaves the table, and its memory is released. -/
def dropNode (r : NodeRef) : ClusterState := { s with table := s.table.drop r }

/-- `clusterRenameNode`: a node whose new name is taken is lost. -/
def clusterRenameNode (r : NodeRef) (newname : NodeName) : ClusterState :=
  if (s.clusterLookupNode newname).isSome then s.dropNode r
  else s.modify r fun n => { n with name := newname }

-- Slaves

def clusterNodeRemoveSlave (master slave : NodeRef) : ClusterState :=
  s.modify master fun n => { n with slaves := n.slaves.erase slave }

def clusterNodeAddSlave (master slave : NodeRef) : ClusterState :=
  s.modify master fun n =>
    if slave ∈ n.slaves then n else { n with slaves := n.slaves ++ [slave] }

def clusterNodeResetSlaves (r : NodeRef) : ClusterState :=
  s.modify r fun n => { n with slaves := [] }

/-- A node is taken off the slaves of its master, if it has one. -/
def leaveMaster (r : NodeRef) : ClusterState :=
  match s.slaveof r with
  | some master => s.clusterNodeRemoveSlave master r
  | none => s

def clusterSetNodeAsMaster (r : NodeRef) : ClusterState :=
  if s.nodeIsMaster r then s
  else
    ((s.leaveMaster r).modify r fun n =>
      { n with
        flags := { n.flags with slave := false, master := true }
        slaveof := none }).clusterDoBeforeSleep { saveConfig := true, updateState := true }

-- Slots

def clusterNodeGetSlotBit (r : NodeRef) (slot : Slot) : Bool := (s.nodes r).any (·.slots slot)

def clusterNodeSetSlotBit (r : NodeRef) (slot : Slot) : ClusterState :=
  s.modify r fun n =>
    { n with
      slots := Function.update n.slots slot true
      numslots := if n.slots slot then n.numslots else n.numslots + 1 }

def clusterNodeClearSlotBit (r : NodeRef) (slot : Slot) : ClusterState :=
  s.modify r fun n =>
    { n with
      slots := Function.update n.slots slot false
      numslots := if n.slots slot then n.numslots - 1 else n.numslots }

def setSlot (slot : Slot) (owner : Option NodeRef) : ClusterState :=
  { s with slots := Function.update s.slots slot owner }

/-- `clusterAddSlot`; the result is `REDIS_OK` when the slot was unassigned. -/
def clusterAddSlot (r : NodeRef) (slot : Slot) : ClusterState :=
  if (s.slots slot).isSome then s
  else (s.clusterNodeSetSlotBit r slot).setSlot slot (some r)

/-- `clusterDelSlot` for a slot of a node. -/
def unbindSlot (r : NodeRef) (slot : Slot) : ClusterState :=
  ((s.redisAssert .clearSlotBit (s.clusterNodeGetSlotBit r slot)).clusterNodeClearSlotBit r
    slot).setSlot slot none

/-- `clusterDelSlot`; the result is `REDIS_OK` when the slot was assigned. -/
def clusterDelSlot (slot : Slot) : ClusterState :=
  match s.slots slot with
  | none => s
  | some r => s.unbindSlot r slot

def forSlots (body : Slot → ClusterState → ClusterState) : ClusterState :=
  (List.finRange redisClusterSlots).foldl (fun s slot => body slot s) s

def clusterDelNodeSlots (r : NodeRef) : ClusterState :=
  s.forSlots fun slot s => if s.clusterNodeGetSlotBit r slot then s.clusterDelSlot slot else s

def clusterCloseAllSlots : ClusterState :=
  { s with migratingSlotsTo := fun _ => none, importingSlotsFrom := fun _ => none }

-- Failure reports

def clusterNodeAddFailureReport (env : ClusterEnv) (failing sender : NodeRef) : ClusterState :=
  s.modify failing fun n =>
    if n.failReports.any (·.1 == sender) then
      { n with
        failReports :=
          n.failReports.map fun report =>
            if report.1 = sender then (sender, env.mstime) else report }
    else { n with failReports := n.failReports ++ [(sender, env.mstime)] }

/-- `clusterNodeCleanupFailureReports`, with `REDIS_CLUSTER_FAIL_REPORT_VALIDITY_MULT`. -/
def clusterNodeCleanupFailureReports (env : ClusterEnv) (r : NodeRef) : ClusterState :=
  s.modify r fun n =>
    { n with
      failReports := n.failReports.filter fun report =>
        decide (env.mstime - report.2 ≤ env.nodeTimeout * 2) }

def clusterNodeDelFailureReport (env : ClusterEnv) (r sender : NodeRef) : ClusterState :=
  if (s.nodes r).any (·.failReports.any (·.1 == sender)) then
    (s.modify r fun n =>
      { n with failReports := n.failReports.eraseP (·.1 == sender) }
    ).clusterNodeCleanupFailureReports env r
  else s

-- Deleting nodes

/-- The slaves of a master that is freed have no known master any more. -/
def orphanSlaves (r : NodeRef) : ClusterState :=
  (s.slaves r).foldl (fun s slave => s.modify slave fun n => { n with slaveof := none }) s

def freeClusterNode (r : NodeRef) : ClusterState :=
  let s := if s.nodeIsMaster r then s.orphanSlaves r else s
  let s := if s.nodeIsSlave r then s.leaveMaster r else s
  s.dropNode r

/-- The slot is not imported from the node any more. -/
def closeImporting (r : NodeRef) (slot : Slot) : ClusterState :=
  if s.importingSlotsFrom slot = some r then
    { s with importingSlotsFrom := Function.update s.importingSlotsFrom slot none }
  else s

/-- The slot is not migrated to the node any more. -/
def closeMigrating (r : NodeRef) (slot : Slot) : ClusterState :=
  if s.migratingSlotsTo slot = some r then
    { s with migratingSlotsTo := Function.update s.migratingSlotsTo slot none }
  else s

/-- The slot is not bound to the node any more. -/
def unassign (r : NodeRef) (slot : Slot) : ClusterState :=
  if s.slots slot = some r then s.clusterDelSlot slot else s

/-- All the reports of a node are removed from the others. -/
def removeReports (env : ClusterEnv) (r : NodeRef) : ClusterState :=
  s.refs.foldl
    (fun s node => if node = r then s else s.clusterNodeDelFailureReport env node r) s

/-- The first step of `clusterDelNode`. -/
def releaseSlots (r : NodeRef) : ClusterState :=
  s.forSlots fun slot s => ((s.closeImporting r slot).closeMigrating r slot).unassign r slot

def clusterDelNode (env : ClusterEnv) (r : NodeRef) : ClusterState :=
  ((s.releaseSlots r).removeReports env r).freeClusterNode r

-- Epochs

def clusterGetMaxEpoch : Nat :=
  max (s.refs.foldl (fun greatest r => max greatest (s.configEpoch r)) 0) s.currentEpoch

/-- A new epoch is taken: `currentEpoch` is incremented, and becomes the own `configEpoch`. -/
def takeEpoch : ClusterState :=
  { s with currentEpoch := s.currentEpoch + 1 }.modify s.myself fun n =>
    { n with configEpoch := s.currentEpoch + 1 }

def clusterBumpConfigEpochWithoutConsensus : ClusterState :=
  let epoch := s.configEpoch s.myself
  if epoch = 0 ∨ epoch ≠ s.clusterGetMaxEpoch then
    s.takeEpoch.clusterDoBeforeSleep { saveConfig := true, fsyncConfig := true }
  else s

-- The configuration file

def clusterGenNodeDescription (r : NodeRef) (n : ClusterNode) : NodeLine where
  name := n.name
  ip := n.ip
  port := n.port
  flags := n.flags
  slaveof := n.slaveof.map s.name
  pingSent := n.pingSent
  pongReceived := n.pongReceived
  configEpoch := n.configEpoch
  slots := n.slots
  migrating slot := if r = s.myself then (s.migratingSlotsTo slot).map s.name else none
  importing slot :=
    if r = s.myself ∧ (s.migratingSlotsTo slot).isNone then
      (s.importingSlotsFrom slot).map s.name
    else none

/-- `clusterGenNodesDescription` without the nodes in handshake. -/
def clusterGenNodesDescription : List NodeLine :=
  s.refs.filterMap fun r =>
    (s.nodes r).bind fun n =>
      if n.flags.handshake then none else some (s.clusterGenNodeDescription r n)

/-- `clusterSaveConfig`, which does not fail. -/
def clusterSaveConfig (doFsync : Bool) : ClusterState :=
  { s with
    conf :=
      { nodes := s.clusterGenNodesDescription
        currentEpoch := s.currentEpoch
        lastVoteEpoch := s.lastVoteEpoch }
    todo :=
      { s.todo with saveConfig := false, fsyncConfig := s.todo.fsyncConfig && !doFsync } }

def clusterHandleConfigEpochCollision (sender : NodeRef) : ClusterState :=
  if s.configEpoch sender ≠ s.configEpoch s.myself
      ∨ s.nodeIsMaster sender = false ∨ s.nodeIsMaster s.myself = false then s
  else if memcmp (s.name sender) (s.name s.myself) ≤ 0 then s
  else s.takeEpoch.clusterSaveConfig true

end ClusterState

end Redis.Cluster
