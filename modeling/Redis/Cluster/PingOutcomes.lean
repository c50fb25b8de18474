import Redis.Cluster.Rearranging

/-! What a PING, PONG or MEET can do to the state of its receiver. -/

namespace Redis.Cluster

/-- The outcomes of `processPing`: nothing but quiet steps, the node of a handshake turns out to be
known, a handshake is completed, or the roles, slots and epochs of the sender are looked at.
-/
inductive PingOutcome (env : ClusterEnv) (arrival : ClusterState.Arrival) (hdr : ClusterMsg)
    (senderConfigEpoch : Nat) : Option NodeRef → ClusterState → ClusterState → Prop where
  | quiet {sender : Option NodeRef} {s s' : ClusterState} (quiet : Quiet env s s')
      : PingOutcome env arrival hdr senderConfigEpoch sender s s'
  | known {s t : ClusterState} {sender node : NodeRef} (before : Quiet env s t)
      (link : arrival.linkNode = some node) (handshake : t.nodeInHandshake node = true)
      : PingOutcome env arrival hdr senderConfigEpoch (some sender) s (t.clusterDelNode env node)
  | completed {s t s' : ClusterState} {node : NodeRef} (before : Quiet env s t)
      (link : arrival.linkNode = some node) (handshake : t.nodeInHandshake node = true)
      (after : Quiet env (t.completeHandshake node hdr) s')
      : PingOutcome env arrival hdr senderConfigEpoch none s s'
  | updated {s t s' : ClusterState} {sender : NodeRef} (before : Quiet env s t)
      (after : Quiet env
        (((t.roleSwitch hdr sender).updateSlots hdr senderConfigEpoch sender).resolveCollision
          senderConfigEpoch sender) s')
      : PingOutcome env arrival hdr senderConfigEpoch (some sender) s s'

section PingOutcome

variable {env : ClusterEnv} {arrival : ClusterState.Arrival} {hdr : ClusterMsg}
  {senderConfigEpoch : Nat} {s s' : ClusterState}

theorem updateSlots_steps (env : ClusterEnv) (hdr : ClusterMsg) (senderConfigEpoch : Nat)
    (s : ClusterState) (sender : NodeRef)
    : ∃ t, Reshaped s t ∧ Quiet env t (s.updateSlots hdr senderConfigEpoch sender) := by
  unfold ClusterState.updateSlots
  split
  · refine ⟨_, ?_, (quiet_informSender hdr sender senderConfigEpoch).toQuiet⟩
    exact step_ite (fun _ => rearranged_clusterUpdateSlotsConfigWith _ _ _) fun _ => .refl s
  · exact ⟨s, .refl s, .refl env s⟩

theorem linkLive_resolveCollision {linkNode : Option NodeRef} {sender : NodeRef}
    (live : LinkLive s linkNode)
    : LinkLive (s.resolveCollision senderConfigEpoch sender) linkNode := by
  intro r is
  have there : s.live r = true := live r is
  unfold ClusterState.resolveCollision ClusterState.clusterHandleConfigEpochCollision
  split
  · split
    · exact there
    split
    · exact there
    · have kept : s.takeEpoch.live r = s.live r := modify_live _ _ _ r
      exact kept.trans there
  · exact there

theorem processHandshake_cases (env : ClusterEnv) (arrival : ClusterState.Arrival)
    (hdr : ClusterMsg) (s : ClusterState) (sender : Option NodeRef)
    : ((s.processHandshake env arrival hdr sender).1 = true
        ∧ (s.processHandshake env arrival hdr sender).2 = s)
      ∨ ((s.processHandshake env arrival hdr sender).1 = false
        ∧ Quiet env s (s.processHandshake env arrival hdr sender).2)
      ∨ (∃ r node t, sender = some r ∧ arrival.linkNode = some node ∧ Quiet env s t
        ∧ t.nodeInHandshake node = true
        ∧ s.processHandshake env arrival hdr sender = (false, t.clusterDelNode env node))
      ∨ (∃ node, sender = none ∧ arrival.linkNode = some node
        ∧ s.nodeInHandshake node = true
        ∧ s.processHandshake env arrival hdr sender = (true, s.completeHandshake node hdr)) := by
  unfold ClusterState.processHandshake
  cases link : arrival.linkNode with
  | none => exact .inl ⟨rfl, rfl⟩
  | some node =>
      dsimp only
      split
      · rename_i handshake
        cases sender with
        | none => exact .inr (.inr (.inr ⟨node, rfl, rfl, handshake, rfl⟩))
        | some r =>
            have address : Quiet env s (s.nodeUpdateAddressIfNeeded arrival r hdr.port) :=
              (quiet_nodeUpdateAddressIfNeeded arrival r hdr.port).toQuiet
            exact .inr (.inr (.inl ⟨r, node, _, rfl, rfl, address,
              (address.nodeInHandshake handshake), rfl⟩))
      split
      · refine .inr (.inl ⟨rfl, ?_⟩)
        refine Plain.toQuiet (quiet_modify_todo (fun _ => ?_) fun _ => rfl)
        exact ⟨rfl, rfl, rfl, rfl, rfl, rfl, rfl, rfl, rfl, rfl⟩
      · exact .inl ⟨rfl, rfl⟩

/-- A PING, PONG or MEET has one of the outcomes. -/
theorem processPing_outcome (live : LinkLive s arrival.linkNode) (sender : Option NodeRef)
    (isPing isMeet : Bool) (gossip : List Gossip)
    : PingOutcome env arrival hdr senderConfigEpoch sender s
        (s.processPing env arrival hdr sender senderConfigEpoch isPing isMeet gossip) := by
  have answered : Quiet env s
      (if isPing || isMeet then s.answerPing env arrival hdr sender isMeet gossip else s) :=
    step_ite (fun _ => quiet_answerPing live sender isMeet gossip) fun _ => .refl env s
  unfold ClusterState.processPing
  generalize (if isPing || isMeet then s.answerPing env arrival hdr sender isMeet gossip else s)
    = t at answered
  rcases processHandshake_cases env arrival hdr t sender with
    ⟨valid, same⟩ | ⟨invalid, quiet⟩ | ⟨r, node, u, rfl, link, quiet, handshake, same⟩
      | ⟨node, rfl, link, handshake, same⟩
  · have addressed : Plain env t (t.updateSenderAddress arrival hdr sender isPing) :=
      quiet_updateSenderAddress arrival hdr sender isPing
    have linked := (addressed.trans (quiet_updateLinkNode arrival (!isPing && !isMeet))).toQuiet
    dsimp only
    rw [valid, same]
    cases sender with
    | none => exact .quiet (answered.trans linked)
    | some sender =>
        have before := answered.trans linked
        refine .updated before (quiet_clusterProcessGossipSection ?_ gossip)
        obtain ⟨u, rearranged, quiet⟩ := updateSlots_steps env hdr senderConfigEpoch
          (t.updateSenderAddress arrival hdr (some sender) isPing |>.updateLinkNode env arrival
            (!isPing && !isMeet) |>.roleSwitch hdr sender) sender
        refine linkLive_resolveCollision (quiet.linkLive (rearranged.linkLive ?_))
        exact (rearranged_roleSwitch hdr sender).linkLive (before.linkLive live)
  · dsimp only
    rw [invalid]
    exact .quiet (answered.trans quiet)
  · dsimp only
    rw [same]
    exact .known (answered.trans quiet) link handshake
  · dsimp only
    rw [same]
    refine .completed answered link handshake ?_
    exact ((quiet_updateSenderAddress arrival hdr none isPing).trans
      (quiet_updateLinkNode arrival (!isPing && !isMeet))).toQuiet

end PingOutcome

-- The link of a packet

theorem linkLive_filter (s : ClusterState) (linkNode : Option NodeRef)
    : LinkLive s (linkNode.filter s.live) :=
  fun _ is => (Option.filter_eq_some_iff.mp is).2

theorem updateSender_live (s : ClusterState) (hdr : ClusterMsg) (sender r : NodeRef)
    : (s.updateSender hdr sender).live r = s.live r := by
  have seen : (s.seeCurrentEpoch hdr.currentEpoch).live r = s.live r := rfl
  have raised : ((s.seeCurrentEpoch hdr.currentEpoch).updateConfigEpoch sender
      hdr.configEpoch).live r = s.live r := by
    rw [← seen]
    unfold ClusterState.updateConfigEpoch
    split
    · exact modify_live _ _ _ r
    · rfl
  rw [← raised]
  exact modify_live _ _ _ r

end Redis.Cluster
