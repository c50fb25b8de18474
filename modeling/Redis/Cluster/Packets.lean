import Redis.Cluster.NodeTable

/-! The cluster bus: the messages a node sends, and `clusterProcessPacket`. -/

namespace Redis.Cluster

open Redis.Library

namespace ClusterState

variable (s : ClusterState)

-- Sending

/-- `clusterBuildMessageHdr`: a slave sends the slots and the epoch of its master. -/
def clusterBuildMessageHdr (data : ClusterMsgData) : ClusterMsg :=
  let master :=
    if s.nodeIsSlave s.myself then (s.slaveof s.myself).getD s.myself else s.myself
  { sender := s.name s.myself
    currentEpoch := s.currentEpoch
    configEpoch := s.configEpoch master
    offset := (s.nodes s.myself).elim 0 (·.replOffset)
    myslots := (s.nodes master).elim (fun _ => false) (·.slots)
    slaveof := (s.slaveof s.myself).elim nullName s.name
    port := (s.nodes s.myself).elim 0 (·.port)
    flags := (s.nodes s.myself).elim {} (·.flags)
    paused := s.nodeIsMaster s.myself && s.mfEnd != 0
    forceack := false
    data := data }

def clusterSendMessage (destination : Option NodeRef) (message : ClusterMsg) : ClusterState :=
  { s with sent := s.sent ++ [(destination, message)] }

def hasLink (r : NodeRef) : Bool := (s.nodes r).any (·.link)

def clusterBroadcastMessage (message : ClusterMsg) : ClusterState :=
  (s.refs.filter fun r => s.hasLink r && r != s.myself && !s.nodeInHandshake r).foldl
    (fun s r => s.clusterSendMessage (some r) message) s

/-- `clusterSendPing` on the link of a node, or on an incoming connection. -/
def clusterSendPing (env : ClusterEnv) (destination : Option NodeRef)
    (type : List Gossip → ClusterMsgData) : ClusterState :=
  s.clusterSendMessage destination (s.clusterBuildMessageHdr (type env.gossip))

/-- `clusterBroadcastPong`; for `CLUSTER_BROADCAST_LOCAL_SLAVES` only to the slaves of the own
master, or of this node.
-/
def clusterBroadcastPong (env : ClusterEnv) (localSlaves : Bool) : ClusterState :=
  (s.refs.filter fun r =>
      s.hasLink r && r != s.myself && !s.nodeInHandshake r
      && (!localSlaves
        || s.nodeIsSlave r
          && (s.slaveof r == some s.myself
            || (s.slaveof r).isSome && s.slaveof r == s.slaveof s.myself))).foldl
    (fun s r => s.clusterSendPing env (some r) .pong) s

def clusterSendFail (nodename : NodeName) : ClusterState :=
  s.clusterBroadcastMessage (s.clusterBuildMessageHdr (.fail nodename))

/-- `clusterSendUpdate` on the link of a node. -/
def clusterSendUpdate (destination node : NodeRef) : ClusterState :=
  if s.hasLink destination then
    match s.nodes node with
    | some n =>
        s.clusterSendMessage (some destination)
          (s.clusterBuildMessageHdr (.update n.configEpoch n.name n.slots))
    | none => s
  else s

def clusterSendFailoverAuth (r : NodeRef) : ClusterState :=
  if s.hasLink r then
    s.clusterSendMessage (some r) (s.clusterBuildMessageHdr .failoverAuthAck)
  else s

def clusterRequestFailoverAuth : ClusterState :=
  s.clusterBroadcastMessage
    { s.clusterBuildMessageHdr .failoverAuthRequest with forceack := s.mfEnd != 0 }

-- Votes

/-- The checks of `clusterSendFailoverAuthIfNeeded`, in their order. -/
def grantsVote (env : ClusterEnv) (r : NodeRef) (request : ClusterMsg) : Bool :=
  !(s.nodeIsSlave s.myself || s.numslots s.myself == 0)
  && epochAllowsVote request.currentEpoch s.currentEpoch s.lastVoteEpoch
  && !(s.nodeIsMaster r)
  && match s.slaveof r with
    | none => false
    | some master =>
        (s.nodeFailed master || request.forceack)
        && decide (env.nodeTimeout * 2
            ≤ env.mstime - (s.nodes master).elim 0 (·.votedTime))
        && (List.finRange redisClusterSlots).all fun slot =>
            !request.myslots slot
            || match s.slots slot with
              | none => true
              | some owner => decide (s.configEpoch owner ≤ request.configEpoch)

def clusterSendFailoverAuthIfNeeded (env : ClusterEnv) (r : NodeRef) (request : ClusterMsg)
    : ClusterState :=
  if s.grantsVote env r request then
    let s := s.clusterSendFailoverAuth r
    let s := { s with lastVoteEpoch := s.currentEpoch }
    match s.slaveof r with
    | some master => s.modify master fun n => { n with votedTime := env.mstime }
    | none => s
  else s

-- Gossip

def clusterHandshakeInProgress (env : ClusterEnv) (ip : List UInt8) (port : Nat) : Bool :=
  s.refs.any fun r =>
    (s.nodes r).any fun n => n.flags.handshake && env.sameIp n.ip ip && n.port == port

def clusterStartHandshake (env : ClusterEnv) (ip : List UInt8) (port : Nat) : ClusterState :=
  match env.normIp ip with
  | none => s
  | some normIp =>
      if port = 0 ∨ 65535 - 10000 < port then s
      else if s.clusterHandshakeInProgress env normIp port then s
      else
        s.clusterAddNode
          { createClusterNode (env.randomName s.nextRef) { handshake := true, meet := true }
              env.mstime with
            ip := normIp
            port := port }

def clusterBlacklistCleanup (env : ClusterEnv) : ClusterState :=
  { s with
    nodesBlackList := s.nodesBlackList.filter fun entry => decide (env.unixtime ≤ entry.2) }

/-- `clusterBlacklistAddNode`, with `REDIS_CLUSTER_BLACKLIST_TTL`. -/
def clusterBlacklistAddNode (env : ClusterEnv) (r : NodeRef) : ClusterState :=
  let s := s.clusterBlacklistCleanup env
  { s with
    nodesBlackList :=
      (s.name r, env.unixtime + 60)
        :: s.nodesBlackList.filter fun entry => entry.1 != s.name r }

/-- `clusterBlacklistExists`, without its cleanup. -/
def blacklisted (nodeid : NodeName) : Bool := s.nodesBlackList.any (·.1 == nodeid)

def markNodeAsFailingIfNeeded (env : ClusterEnv) (r : NodeRef) : ClusterState :=
  if !s.nodeTimedOut r || s.nodeFailed r then s
  else
    let s := s.clusterNodeCleanupFailureReports env r
    let reports := (s.nodes r).elim 0 (·.failReports.length)
    let failures := if s.nodeIsMaster s.myself then reports + 1 else reports
    if failures < s.size / 2 + 1 then s
    else
      let s := s.modify r fun n =>
        { n with flags := { n.flags with pfail := false, fail := true }, failTime := env.mstime }
      let s := if s.nodeIsMaster s.myself then s.clusterSendFail (s.name r) else s
      s.clusterDoBeforeSleep { updateState := true, saveConfig := true }

/-- The failure report of a master in a gossip entry about a known node. -/
def handleFailureReport (env : ClusterEnv) (sender : Option NodeRef) (node : NodeRef)
    (flags : NodeFlags) : ClusterState :=
  match sender with
  | none => s
  | some sender =>
      if s.nodeIsMaster sender && node != s.myself then
        if flags.fail || flags.pfail then
          (s.clusterNodeAddFailureReport env node sender).markNodeAsFailingIfNeeded env node
        else s.clusterNodeDelFailureReport env node sender
      else s

/-- One entry of `clusterProcessGossipSection`. -/
def processGossip (env : ClusterEnv) (sender : Option NodeRef) (g : Gossip) : ClusterState :=
  match s.clusterLookupNode g.nodename with
  | some node =>
      let s := s.handleFailureReport env sender node g.flags
      if (s.nodes node).any fun n =>
          (n.flags.fail || n.flags.pfail) && (!env.sameIp n.ip g.ip || n.port != g.port) then
        s.clusterStartHandshake env g.ip g.port
      else s
  | none =>
      if sender.isSome && !g.flags.noaddr then
        let s := s.clusterBlacklistCleanup env
        if s.blacklisted g.nodename then s else s.clusterStartHandshake env g.ip g.port
      else s

/-- `clusterProcessGossipSection`, on a link to `linkNode`. -/
def clusterProcessGossipSection (env : ClusterEnv) (linkNode : Option NodeRef)
    (hdr : ClusterMsg) (gossip : List Gossip) : ClusterState :=
  let sender := linkNode.or (s.clusterLookupNode hdr.sender)
  gossip.foldl (fun s g => s.processGossip env sender g) s

-- Masters and slots

def resetManualFailover : ClusterState :=
  { s with mfEnd := 0, mfCanStart := false, mfSlave := none, mfMasterOffset := 0 }

/-- The assertions of `clusterSetMaster`. -/
def assertSetMaster (r : NodeRef) : ClusterState :=
  (s.redisAssert .setMasterNotMyself (r != s.myself)).redisAssert .setMasterNoSlots
    (s.numslots s.myself == 0)

/-- `myself` stops being a master, or leaves its master. -/
def leaveRole : ClusterState :=
  if s.nodeIsMaster s.myself then
    (s.modify s.myself fun n =>
      { n with flags := { n.flags with master := false, slave := true } }).clusterCloseAllSlots
  else s.leaveMaster s.myself

def clusterSetMaster (r : NodeRef) : ClusterState :=
  ((((s.assertSetMaster r).leaveRole.modify s.myself fun n =>
    { n with slaveof := some r }).clusterNodeAddSlave r s.myself)).resetManualFailover

/-- A round of the loop of `clusterUpdateSlotsConfigWith`, with whether `newmaster` is set. -/
def updateSlot (sender : NodeRef) (senderConfigEpoch : Nat) (slots : Slot → Bool)
    (curmaster : Option NodeRef) (slot : Slot) (newmaster : Bool) : Bool × ClusterState :=
  if !slots slot || s.slots slot == some sender || (s.importingSlotsFrom slot).isSome then
    (newmaster, s)
  else if (s.slots slot).all fun owner => decide (s.configEpoch owner < senderConfigEpoch) then
    (newmaster || s.slots slot == curmaster,
      ((s.clusterDelSlot slot).clusterAddSlot sender slot).clusterDoBeforeSleep
        { saveConfig := true, updateState := true, fsyncConfig := true })
  else (newmaster, s)

/-- The loop of `clusterUpdateSlotsConfigWith`. -/
def updateAllSlots (sender : NodeRef) (senderConfigEpoch : Nat) (slots : Slot → Bool)
    (curmaster : Option NodeRef) : Bool × ClusterState :=
  (List.finRange redisClusterSlots).foldl
    (fun state slot =>
      state.2.updateSlot sender senderConfigEpoch slots curmaster slot state.1) (false, s)

/-- The end of `clusterUpdateSlotsConfigWith`: a node whose master lost its last slot follows the
new owner.
-/
def followNewMaster (sender : NodeRef) (curmaster : Option NodeRef) : ClusterState :=
  match curmaster with
  | none => s.redisAssert .nullCurmaster false
  | some master =>
      if s.numslots master = 0 then
        (s.clusterSetMaster sender).clusterDoBeforeSleep
          { saveConfig := true, updateState := true, fsyncConfig := true }
      else s

/-- `clusterUpdateSlotsConfigWith`. The keys of slots that are lost are not part of the model. -/
def clusterUpdateSlotsConfigWith (sender : NodeRef) (senderConfigEpoch : Nat)
    (slots : Slot → Bool) : ClusterState :=
  let curmaster := if s.nodeIsMaster s.myself then some s.myself else s.slaveof s.myself
  if sender = s.myself then s
  else
    let updated := s.updateAllSlots sender senderConfigEpoch slots curmaster
    if updated.1 then updated.2.followNewMaster sender curmaster else updated.2

-- Packets

/-- A packet arrives: on the link to a node, or on an incoming connection. -/
structure Arrival where
  /-- `link->node`. -/
  linkNode : Option NodeRef
  /-- `nodeIp2String`. -/
  peerIp : List UInt8
  /-- `anetSockName`. -/
  sockName : Option (List UInt8)

/-- The update of the `configEpoch` of a sender that publishes a newer one. -/
def updateConfigEpoch (sender : NodeRef) (senderConfigEpoch : Nat) : ClusterState :=
  if s.configEpoch sender < senderConfigEpoch then
    (s.modify sender fun n => { n with configEpoch := senderConfigEpoch }).clusterDoBeforeSleep
      { saveConfig := true, fsyncConfig := true }
  else s

/-- The update of `currentEpoch` from a header. -/
def seeCurrentEpoch (senderCurrentEpoch : Nat) : ClusterState :=
  { s with currentEpoch := max s.currentEpoch senderCurrentEpoch }

/-- The update of the replication offset of the sender. A slave performing a manual failover takes
the offset of its paused master.
-/
def updateReplOffset (hdr : ClusterMsg) (sender : NodeRef) : ClusterState :=
  { s.modify sender fun n => { n with replOffset := hdr.offset } with
    mfMasterOffset :=
      if s.mfEnd != 0 && s.nodeIsSlave s.myself && s.slaveof s.myself == some sender && hdr.paused
          && s.mfMasterOffset == 0 then
        hdr.offset
      else s.mfMasterOffset }

/-- The update of the epochs and of the offset from the header of a known sender. -/
def updateSender (hdr : ClusterMsg) (sender : NodeRef) : ClusterState :=
  ((s.seeCurrentEpoch hdr.currentEpoch).updateConfigEpoch sender
    hdr.configEpoch).updateReplOffset hdr sender

/-- MEET messages, and others when there is no address yet, set the address of `myself`. -/
def updateOwnAddress (arrival : Arrival) (isMeet : Bool) : ClusterState :=
  if isMeet || (s.nodes s.myself).any (·.ip == []) then
    match arrival.sockName with
    | none => s
    | some ip =>
        if (s.nodes s.myself).any (·.ip == ip) then s
        else
          (s.modify s.myself fun n => { n with ip := ip }).clusterDoBeforeSleep
            { saveConfig := true }
  else s

/-- The sender of a MEET is unknown: it is added for a handshake, and its gossip is trusted. -/
def meetSender (env : ClusterEnv) (arrival : Arrival) (hdr : ClusterMsg) (gossip : List Gossip)
    : ClusterState :=
  let node :=
    { createClusterNode (env.randomName s.nextRef) { handshake := true } env.mstime with
      ip := arrival.peerIp
      port := hdr.port }
  ((s.clusterAddNode node).clusterDoBeforeSleep
    { saveConfig := true }).clusterProcessGossipSection env arrival.linkNode hdr gossip

/-- The initial processing of PING and MEET requests. -/
def answerPing (env : ClusterEnv) (arrival : Arrival) (hdr : ClusterMsg)
    (sender : Option NodeRef) (isMeet : Bool) (gossip : List Gossip) : ClusterState :=
  let s := s.updateOwnAddress arrival isMeet
  let s := if sender.isNone && isMeet then s.meetSender env arrival hdr gossip else s
  s.clusterSendPing env arrival.linkNode .pong

/-- `nodeUpdateAddressIfNeeded`, for a packet that did not arrive on the link of the node, with
what its callers do when the address changed.
-/
def nodeUpdateAddressIfNeeded (arrival : Arrival) (r : NodeRef) (port : Nat) : ClusterState :=
  if arrival.linkNode = some r then s
  else if (s.nodes r).any fun n => n.port == port && n.ip == arrival.peerIp then s
  else
    (s.modify r fun n =>
      { n with
        ip := arrival.peerIp
        port := port
        link := false
        flags := { n.flags with noaddr := false } }).clusterDoBeforeSleep
      { saveConfig := true, updateState := true }

/-- A handshake is completed: the node of the link gets its name and its role. -/
def completeHandshake (node : NodeRef) (hdr : ClusterMsg) : ClusterState :=
  ((s.clusterRenameNode node hdr.sender).modify node fun n =>
    { n with
      flags :=
        { n.flags with
          handshake := false
          master := n.flags.master || hdr.flags.master
          slave := n.flags.slave || hdr.flags.slave } }).clusterDoBeforeSleep
    { saveConfig := true }

/-- The handshake part; the result says whether the link is still valid. -/
def processHandshake (env : ClusterEnv) (arrival : Arrival) (hdr : ClusterMsg)
    (sender : Option NodeRef) : Bool × ClusterState :=
  match arrival.linkNode with
  | none => (true, s)
  | some node =>
      if s.nodeInHandshake node then
        match sender with
        | some sender =>
            (false, (s.nodeUpdateAddressIfNeeded arrival sender hdr.port).clusterDelNode env node)
        | none => (true, s.completeHandshake node hdr)
      else if s.name node != hdr.sender then
        (false, (s.modify node fun n =>
          { n with
            flags := { n.flags with noaddr := true }
            ip := []
            port := 0
            link := false }).clusterDoBeforeSleep { saveConfig := true })
      else (true, s)

def clearFail (r : NodeRef) : ClusterState :=
  (s.modify r fun n => { n with flags := { n.flags with fail := false } }).clusterDoBeforeSleep
    { updateState := true, saveConfig := true }

/-- `clearNodeFailureIfNeeded`, with `REDIS_CLUSTER_FAIL_UNDO_TIME_MULT`. -/
def clearNodeFailureIfNeeded (env : ClusterEnv) (r : NodeRef) : ClusterState :=
  let s := if s.nodeIsSlave r || s.numslots r == 0 then s.clearFail r else s
  if s.nodeIsMaster r && decide (0 < s.numslots r)
      && decide (env.nodeTimeout * 2 < env.mstime - (s.nodes r).elim 0 (·.failTime)) then
    s.clearFail r
  else s

/-- What a PONG says about the node of the link. -/
def pongReceived (env : ClusterEnv) (node : NodeRef) : ClusterState :=
  let s := s.modify node fun n => { n with pongReceived := env.mstime, pingSent := 0 }
  if s.nodeTimedOut node then
    (s.modify node fun n => { n with flags := { n.flags with pfail := false } }
    ).clusterDoBeforeSleep { saveConfig := true, updateState := true }
  else if s.nodeFailed node then s.clearNodeFailureIfNeeded env node
  else s

def updateSenderAddress (arrival : Arrival) (hdr : ClusterMsg) (sender : Option NodeRef)
    (isPing : Bool) : ClusterState :=
  match sender with
  | none => s
  | some sender =>
      if isPing && !s.nodeInHandshake sender then
        s.nodeUpdateAddressIfNeeded arrival sender hdr.port
      else s

def updateLinkNode (env : ClusterEnv) (arrival : Arrival) (isPong : Bool) : ClusterState :=
  match arrival.linkNode with
  | none => s
  | some node => if isPong then s.pongReceived env node else s

def demote (sender : NodeRef) : ClusterState :=
  (((s.clusterDelNodeSlots sender).modify sender fun n =>
    { n with
      flags := { n.flags with master := false, slave := true }
    }).clusterNodeResetSlaves sender).clusterDoBeforeSleep
    { saveConfig := true, updateState := true }

def changeMaster (sender master : NodeRef) : ClusterState :=
  (((s.leaveMaster sender).clusterNodeAddSlave master sender).modify sender fun n =>
    { n with slaveof := some master }).clusterDoBeforeSleep { saveConfig := true }

/-- The master that a slave names is known, and may be a new one. -/
def followMaster (sender : NodeRef) (master : Option NodeRef) : ClusterState :=
  match master with
  | none => s
  | some master => if s.slaveof sender = some master then s else s.changeMaster sender master

def roleSwitch (hdr : ClusterMsg) (sender : NodeRef) : ClusterState :=
  if hdr.slaveof = nullName then s.clusterSetNodeAsMaster sender
  else
    (if s.nodeIsMaster sender then s.demote sender else s).followMaster sender
      (s.clusterLookupNode hdr.slaveof)

/-- The sender, or its master if it is a slave, serves other slots than the packet says. -/
def dirtySlots (hdr : ClusterMsg) (sender : NodeRef) : Bool :=
  match if s.nodeIsMaster sender then some sender else s.slaveof sender with
  | none => false
  | some master =>
      (s.nodes master).any fun n =>
        (List.finRange redisClusterSlots).any fun slot => n.slots slot != hdr.myslots slot

/-- The owner of the first slot that the sender claims and that a master with a greater epoch
serves.
-/
def outdatedClaim (hdr : ClusterMsg) (sender : NodeRef) (senderConfigEpoch : Nat)
    : Option NodeRef :=
  (List.finRange redisClusterSlots).findSome? fun slot =>
    if hdr.myslots slot then
      match s.slots slot with
      | none => none
      | some owner =>
          if owner ≠ sender ∧ senderConfigEpoch < s.configEpoch owner then some owner else none
    else none

/-- An UPDATE for a sender that claims slots which a master with a greater epoch serves. -/
def informSender (hdr : ClusterMsg) (sender : NodeRef) (senderConfigEpoch : Nat)
    : ClusterState :=
  match s.outdatedClaim hdr sender senderConfigEpoch with
  | some owner => s.clusterSendUpdate sender owner
  | none => s

/-- What a PING, PONG or MEET says about the slots of its sender. -/
def updateSlots (hdr : ClusterMsg) (senderConfigEpoch : Nat) (sender : NodeRef)
    : ClusterState :=
  if s.dirtySlots hdr sender then
    let s :=
      if s.nodeIsMaster sender then
        s.clusterUpdateSlotsConfigWith sender senderConfigEpoch hdr.myslots
      else s
    s.informSender hdr sender senderConfigEpoch
  else s

/-- The fix of a collision with the epoch of the sender. -/
def resolveCollision (senderConfigEpoch : Nat) (sender : NodeRef) : ClusterState :=
  if s.nodeIsMaster s.myself && s.nodeIsMaster sender
      && senderConfigEpoch == s.configEpoch s.myself then
    s.clusterHandleConfigEpochCollision sender
  else s

/-- The processing of PING, PONG and MEET. `senderConfigEpoch` is zero when the sender is in
handshake.
-/
def processPing (env : ClusterEnv) (arrival : Arrival) (hdr : ClusterMsg)
    (sender : Option NodeRef) (senderConfigEpoch : Nat) (isPing isMeet : Bool)
    (gossip : List Gossip) : ClusterState :=
  let s :=
    if isPing || isMeet then s.answerPing env arrival hdr sender isMeet gossip else s
  let (valid, s) := s.processHandshake env arrival hdr sender
  if !valid then s
  else
    let s := s.updateSenderAddress arrival hdr sender isPing
    let s := s.updateLinkNode env arrival (!isPing && !isMeet)
    match sender with
    | none => s
    | some sender =>
        (((s.roleSwitch hdr sender).updateSlots hdr senderConfigEpoch sender).resolveCollision
          senderConfigEpoch sender).clusterProcessGossipSection env arrival.linkNode hdr gossip

def processFail (env : ClusterEnv) (about : NodeName) : ClusterState :=
  match s.clusterLookupNode about with
  | none => s
  | some failing =>
      if (s.nodes failing).any fun n => n.flags.fail || n.flags.myself then s
      else
        (s.modify failing fun n =>
          { n with
            flags := { n.flags with fail := true, pfail := false }
            failTime := env.mstime }).clusterDoBeforeSleep
          { saveConfig := true, updateState := true }

/-- A FAILOVER_AUTH_ACK from a known sender. -/
def processAuthAck (sender : NodeRef) (senderCurrentEpoch : Nat) : ClusterState :=
  let serves := s.nodeIsMaster sender && decide (0 < s.numslots sender)
  let s :=
    if serves && decide (s.election.failoverAuthEpoch ≤ senderCurrentEpoch) then
      s.clusterDoBeforeSleep { handleFailover := true }
    else s
  { s with election := s.election.countVote serves senderCurrentEpoch }

/-- A MFSTART message, with `REDIS_CLUSTER_MF_TIMEOUT`. -/
def processMfstart (env : ClusterEnv) (sender : NodeRef) : ClusterState :=
  if s.slaveof sender = some s.myself then
    { s.resetManualFailover with mfEnd := env.mstime + 5000, mfSlave := some sender }
  else s

/-- An UPDATE message about a node, with an epoch that is news. -/
def applyUpdate (r : NodeRef) (reportedConfigEpoch : Nat) (slots : Slot → Bool) : ClusterState :=
  (((if s.nodeIsSlave r then s.clusterSetNodeAsMaster r else s).modify r fun n =>
    { n with configEpoch := reportedConfigEpoch }).clusterDoBeforeSleep
      { saveConfig := true, fsyncConfig := true }).clusterUpdateSlotsConfigWith r
    reportedConfigEpoch slots

def processUpdate (reportedConfigEpoch : Nat) (nodename : NodeName) (slots : Slot → Bool)
    : ClusterState :=
  match s.clusterLookupNode nodename with
  | none => s
  | some r =>
      if reportedConfigEpoch ≤ s.configEpoch r then s
      else s.applyUpdate r reportedConfigEpoch slots

/-- The part of `clusterProcessPacket` that depends on the type. -/
def processData (env : ClusterEnv) (arrival : Arrival) (hdr : ClusterMsg)
    (sender : Option NodeRef) (senderCurrentEpoch senderConfigEpoch : Nat) : ClusterState :=
  match hdr.data with
  | .ping gossip => s.processPing env arrival hdr sender senderConfigEpoch true false gossip
  | .pong gossip => s.processPing env arrival hdr sender senderConfigEpoch false false gossip
  | .meet gossip => s.processPing env arrival hdr sender senderConfigEpoch false true gossip
  | .publish => s
  | .fail about => if sender.isSome then s.processFail env about else s
  | .failoverAuthRequest =>
      match sender with
      | some r => s.clusterSendFailoverAuthIfNeeded env r hdr
      | none => s
  | .failoverAuthAck =>
      match sender with
      | some r => s.processAuthAck r senderCurrentEpoch
      | none => s
  | .mfstart =>
      match sender with
      | some r => s.processMfstart env r
      | none => s
  | .update epoch nodename slots =>
      if sender.isSome then s.processUpdate epoch nodename slots else s

/-- The part of `clusterProcessPacket` behind the checks of the length. The epochs of a sender in
handshake are not looked at.
-/
def processChecked (env : ClusterEnv) (arrival : Arrival) (hdr : ClusterMsg) : ClusterState :=
  match s.clusterLookupNode hdr.sender with
  | none => s.processData env arrival hdr none 0 0
  | some sender =>
      if s.nodeInHandshake sender then s.processData env arrival hdr (some sender) 0 0
      else
        (s.updateSender hdr sender).processData env arrival hdr (some sender) hdr.currentEpoch
          hdr.configEpoch

/-- `clusterProcessPacket` for a packet that passed the checks of its length. A link is freed with
its node, so the node of a link is in the table.
-/
def clusterProcessPacket (env : ClusterEnv) (arrival : Arrival) (hdr : ClusterMsg)
    : ClusterState :=
  s.processChecked env { arrival with linkNode := arrival.linkNode.filter s.live } hdr

end ClusterState

end Redis.Cluster
