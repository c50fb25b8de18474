import Redis.Cluster.Packets

/-! Where the gossip section of a packet is processed: at most once, between the other changes that
the packet makes.
-/

namespace Redis.Cluster.ClusterState

open Redis.Library

variable (s : ClusterState) (env : ClusterEnv) (arrival : Arrival) (hdr : ClusterMsg)

/-- The unknown sender of a MEET is added. -/
def addMeetSender : ClusterState :=
  (s.clusterAddNode
    { createClusterNode (env.randomName s.nextRef) { handshake := true } env.mstime with
      ip := arrival.peerIp
      port := hdr.port }).clusterDoBeforeSleep { saveConfig := true }

/-- The reply to a PING or MEET of a known sender. -/
def answerKnown (isMeet : Bool) : ClusterState :=
  (s.updateOwnAddress arrival isMeet).clusterSendPing env arrival.linkNode .pong

/-- What a PING, PONG or MEET of a known sender says, in front of its gossip. -/
def senderUpdated (sender : NodeRef) (senderConfigEpoch : Nat) (isPing isMeet : Bool)
    : ClusterState :=
  let s := s.updateSenderAddress arrival hdr (some sender) isPing
  let s := s.updateLinkNode env arrival (!isPing && !isMeet)
  ((s.roleSwitch hdr sender).updateSlots hdr senderConfigEpoch sender).resolveCollision
    senderConfigEpoch sender

/-- The state in which the gossip section of a PING, PONG or MEET is processed, if it is. -/
def gossipStart (sender : Option NodeRef) (senderConfigEpoch : Nat) (isPing isMeet : Bool)
    : Option ClusterState :=
  match sender with
  | none =>
      if isMeet then some ((s.updateOwnAddress arrival true).addMeetSender env arrival hdr)
      else none
  | some sender =>
      let s := if isPing || isMeet then s.answerKnown env arrival isMeet else s
      let (valid, s) := s.processHandshake env arrival hdr (some sender)
      if valid then
        some (s.senderUpdated env arrival hdr sender senderConfigEpoch isPing isMeet)
      else none

/-- What follows the handshake part when the sender is unknown. -/
def strangerUpdated (isPing isMeet : Bool) : ClusterState :=
  let (valid, s) := s.processHandshake env arrival hdr none
  if !valid then s
  else
    (s.updateSenderAddress arrival hdr none isPing).updateLinkNode env arrival
      (!isPing && !isMeet)

/-- What is done behind the gossip section. -/
def behindGossip (sender : Option NodeRef) (isPing isMeet : Bool) : ClusterState :=
  match sender with
  | none =>
      (s.clusterSendPing env arrival.linkNode .pong).strangerUpdated env arrival hdr isPing isMeet
  | some _ => s

/-- What is done when no gossip section is processed. -/
def withoutGossip (sender : Option NodeRef) (isPing isMeet : Bool) : ClusterState :=
  match sender with
  | none =>
      (if isPing || isMeet then s.answerKnown env arrival isMeet else s).strangerUpdated env
        arrival hdr isPing isMeet
  | some sender =>
      ((if isPing || isMeet then s.answerKnown env arrival isMeet else s).processHandshake env
        arrival hdr (some sender)).2

theorem shaken_gossip (sender : NodeRef) (senderConfigEpoch : Nat) (isPing isMeet : Bool)
    (gossip : List Gossip) (shaken : Bool × ClusterState)
    : (if !shaken.1 then shaken.2
        else
          (shaken.2.senderUpdated env arrival hdr sender senderConfigEpoch isPing
            isMeet).clusterProcessGossipSection env arrival.linkNode hdr gossip)
      = match
          if shaken.1 then
            some (shaken.2.senderUpdated env arrival hdr sender senderConfigEpoch isPing isMeet)
          else none with
        | some t => t.clusterProcessGossipSection env arrival.linkNode hdr gossip
        | none => shaken.2 := by
  obtain ⟨valid, t⟩ := shaken
  cases valid with
  | true => rfl
  | false => rfl

/-- The section is processed once, behind the handshake, or not at all. -/
theorem processPing_gossip (sender : Option NodeRef) (senderConfigEpoch : Nat)
    (isPing isMeet : Bool) (gossip : List Gossip)
    : s.processPing env arrival hdr sender senderConfigEpoch isPing isMeet gossip
      = match s.gossipStart env arrival hdr sender senderConfigEpoch isPing isMeet with
        | some t =>
            (t.clusterProcessGossipSection env arrival.linkNode hdr gossip).behindGossip env
              arrival hdr sender isPing isMeet
        | none => s.withoutGossip env arrival hdr sender isPing isMeet := by
  cases sender with
  | none =>
      cases isMeet with
      | true =>
          simp only [processPing, gossipStart, answerPing, behindGossip, strangerUpdated,
            meetSender, addMeetSender, Bool.or_true, Option.isNone_none, Bool.and_true, if_true]
      | false =>
          simp only [processPing, gossipStart, answerPing, withoutGossip, strangerUpdated,
            answerKnown, Bool.or_false, Option.isNone_none, Bool.and_false, Bool.false_eq_true,
            if_false]
  | some sender =>
      simp only [processPing, gossipStart, answerPing, behindGossip, withoutGossip, answerKnown,
        Option.isNone_some, Bool.false_and, Bool.false_eq_true, if_false]
      exact shaken_gossip env arrival hdr sender senderConfigEpoch isPing isMeet gossip _

/-- The gossip section that a packet has processed: the state in which it is, the sender and the
entries.
-/
def gossipOfData (sender : Option NodeRef) (senderConfigEpoch : Nat)
    : Option (ClusterState × List Gossip) :=
  match hdr.data with
  | .ping gossip =>
      (s.gossipStart env arrival hdr sender senderConfigEpoch true false).map (·, gossip)
  | .pong gossip =>
      (s.gossipStart env arrival hdr sender senderConfigEpoch false false).map (·, gossip)
  | .meet gossip =>
      (s.gossipStart env arrival hdr sender senderConfigEpoch false true).map (·, gossip)
  | _ => none

def gossipCall : Option (ClusterState × List Gossip) :=
  match s.clusterLookupNode hdr.sender with
  | none => s.gossipOfData env arrival hdr none 0
  | some sender =>
      if s.nodeInHandshake sender then s.gossipOfData env arrival hdr (some sender) 0
      else (s.updateSender hdr sender).gossipOfData env arrival hdr (some sender) hdr.configEpoch

end Redis.Cluster.ClusterState
