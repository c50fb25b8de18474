import Redis.Cluster.PingOutcomes

/-! The vote of a node: which steps keep the last vote, and what a granted vote changes. -/

namespace Redis.Cluster

-- What keeps the last vote

/-- No vote is given. The configuration file is left alone, and then a save that is to be done
stays to be done, or it is written.
-/
structure VoteKept (s s' : ClusterState) : Prop where
  lastVote : s'.lastVoteEpoch = s.lastVoteEpoch
  epoch : s.currentEpoch ≤ s'.currentEpoch
  conf : s'.conf.lastVoteEpoch = s.conf.lastVoteEpoch
      ∧ s'.conf.currentEpoch = s.conf.currentEpoch
      ∧ (s.todo.saveConfig = true → s'.todo.saveConfig = true)
    ∨ s'.conf.lastVoteEpoch = s.lastVoteEpoch ∧ s.currentEpoch ≤ s'.conf.currentEpoch
  sent : ∃ more, s'.sent = s.sent ++ more ∧ ∀ m ∈ more, m.2.data ≠ .failoverAuthAck

section VoteKept

variable {env : ClusterEnv} {s s' s'' : ClusterState}

theorem VoteKept.refl (s : ClusterState) : VoteKept s s where
  lastVote := rfl
  epoch := le_refl _
  conf := .inl ⟨rfl, rfl, id⟩
  sent := ⟨[], by simp⟩

theorem VoteKept.trans (first : VoteKept s s') (second : VoteKept s' s'') : VoteKept s s'' where
  lastVote := second.lastVote.trans first.lastVote
  epoch := first.epoch.trans second.epoch
  conf := by
    rcases second.conf with ⟨vote, epoch, flag⟩ | ⟨vote, epoch⟩
    · rcases first.conf with ⟨vote', epoch', flag'⟩ | ⟨vote', epoch'⟩
      · exact .inl ⟨vote.trans vote', epoch.trans epoch', flag ∘ flag'⟩
      · exact .inr ⟨vote.trans vote', epoch'.trans epoch.ge⟩
    · exact .inr ⟨vote.trans first.lastVote, first.epoch.trans epoch⟩
  sent := by
    obtain ⟨more, sent, plain⟩ := first.sent
    obtain ⟨more', sent', plain'⟩ := second.sent
    refine ⟨more ++ more', by rw [sent', sent, List.append_assoc], ?_⟩
    intro m member
    rcases List.mem_append.mp member with old | new
    · exact plain m old
    · exact plain' m new

theorem Quiet.voteKept (quiet : Quiet env s s') : VoteKept s s' where
  lastVote := quiet.lastVoteEpoch
  epoch := quiet.currentEpoch.ge
  conf := .inl ⟨by rw [quiet.conf], by rw [quiet.conf], quiet.saveConfig⟩
  sent := by
    obtain ⟨more, sent, from'⟩ := quiet.sent
    exact ⟨more, sent, fun m member => (from' m member).noVote⟩

theorem Rearranged.voteKept (step : Rearranged s s') : VoteKept s s' where
  lastVote := step.lastVoteEpoch
  epoch := step.currentEpoch.ge
  conf := .inl ⟨by rw [step.conf], by rw [step.conf], step.saveConfig⟩
  sent := ⟨[], by simp [step.sent]⟩

theorem voteKept_modify (r : NodeRef) (f : ClusterNode → ClusterNode)
    : VoteKept s (s.modify r f) :=
  { VoteKept.refl s with }

theorem voteKept_clusterDoBeforeSleep (flags : TodoBeforeSleep)
    : VoteKept s (s.clusterDoBeforeSleep flags) :=
  (rearranged_clusterDoBeforeSleep flags).voteKept

theorem voteKept_clusterSaveConfig (doFsync : Bool) : VoteKept s (s.clusterSaveConfig doFsync) :=
  { VoteKept.refl s with conf := .inr ⟨rfl, le_refl _⟩ }

theorem voteKept_raise (epoch : Nat) (later : s.currentEpoch ≤ epoch)
    : VoteKept s { s with currentEpoch := epoch } :=
  { VoteKept.refl s with epoch := later }

theorem voteKept_updateConfigEpoch (sender : NodeRef) (epoch : Nat)
    : VoteKept s (s.updateConfigEpoch sender epoch) :=
  step_ite (fun _ => (voteKept_modify sender _).trans (voteKept_clusterDoBeforeSleep _))
    fun _ => .refl s

theorem voteKept_updateSender (hdr : ClusterMsg) (sender : NodeRef)
    : VoteKept s (s.updateSender hdr sender) := by
  have seen : VoteKept s (s.seeCurrentEpoch hdr.currentEpoch) :=
    voteKept_raise _ (le_max_left _ _)
  exact (seen.trans (voteKept_updateConfigEpoch sender hdr.configEpoch)).trans
    { VoteKept.refl _ with }

theorem voteKept_dropNode (r : NodeRef) : VoteKept s (s.dropNode r) :=
  { VoteKept.refl s with }

theorem voteKept_clusterDelNode (r : NodeRef) : VoteKept s (s.clusterDelNode env r) := by
  obtain ⟨t, step, same⟩ : ∃ t, Reshaped s t ∧ s.clusterDelNode env r = t.dropNode r :=
    rearranged_clusterDelNode r
  rw [same]
  exact step.voteKept.trans (voteKept_dropNode r)

theorem voteKept_resolveCollision (senderConfigEpoch : Nat) (sender : NodeRef)
    : VoteKept s (s.resolveCollision senderConfigEpoch sender) := by
  refine step_ite (fun _ => ?_) fun _ => .refl s
  refine step_ite (fun _ => .refl s) fun _ => step_ite (fun _ => .refl s) fun _ => ?_
  exact ((voteKept_raise _ (Nat.le_succ _)).trans (voteKept_modify _ _)).trans
    (voteKept_clusterSaveConfig true)

theorem voteKept_completeHandshake (node : NodeRef) (hdr : ClusterMsg)
    : VoteKept s (s.completeHandshake node hdr) := by
  have renamed : VoteKept s (s.clusterRenameNode node hdr.sender) :=
    step_ite (fun _ => voteKept_dropNode node) fun _ => voteKept_modify node _
  exact (renamed.trans (voteKept_modify node _)).trans (voteKept_clusterDoBeforeSleep _)

theorem voteKept_processPing {arrival : ClusterState.Arrival} (live : LinkLive s arrival.linkNode)
    (hdr : ClusterMsg) (sender : Option NodeRef) (senderConfigEpoch : Nat) (isPing isMeet : Bool)
    (gossip : List Gossip)
    : VoteKept s
        (s.processPing env arrival hdr sender senderConfigEpoch isPing isMeet gossip) := by
  have outcome : PingOutcome env arrival hdr senderConfigEpoch sender s
      (s.processPing env arrival hdr sender senderConfigEpoch isPing isMeet gossip) :=
    processPing_outcome live sender isPing isMeet gossip
  generalize s.processPing env arrival hdr sender senderConfigEpoch isPing isMeet gossip = s'
    at outcome ⊢
  cases outcome with
  | quiet quiet => exact quiet.voteKept
  | known before link handshake => exact before.voteKept.trans (voteKept_clusterDelNode _)
  | completed before link handshake after =>
      exact (before.voteKept.trans (voteKept_completeHandshake _ hdr)).trans after.voteKept
  | @updated _ t _ sender before after =>
      have switched : VoteKept t (t.roleSwitch hdr sender) :=
        (rearranged_roleSwitch hdr sender).voteKept
      obtain ⟨u, rearranged, quiet⟩ :=
        updateSlots_steps env hdr senderConfigEpoch (t.roleSwitch hdr sender) sender
      refine VoteKept.trans ?_ after.voteKept
      refine VoteKept.trans ?_ (voteKept_resolveCollision _ _)
      exact ((before.voteKept.trans switched).trans rearranged.voteKept).trans quiet.voteKept

theorem voteKept_processAuthAck (sender : NodeRef) (senderCurrentEpoch : Nat)
    : VoteKept s (s.processAuthAck sender senderCurrentEpoch) := by
  refine VoteKept.trans (step_ite (fun _ => voteKept_clusterDoBeforeSleep _) fun _ => .refl s)
    { VoteKept.refl _ with }

theorem voteKept_processUpdate (epoch : Nat) (nodename : NodeName) (slots : Slot → Bool)
    : VoteKept s (s.processUpdate epoch nodename slots) := by
  unfold ClusterState.processUpdate
  cases s.clusterLookupNode nodename with
  | none => exact .refl s
  | some r =>
      refine step_ite (fun _ => .refl s) fun _ => ?_
      refine VoteKept.trans ?_ (rearranged_clusterUpdateSlotsConfigWith r epoch slots).voteKept
      refine VoteKept.trans ?_ (voteKept_clusterDoBeforeSleep _)
      refine VoteKept.trans ?_ (voteKept_modify r _)
      exact step_ite (fun _ => (rearranged_clusterSetNodeAsMaster r).voteKept)
        fun _ => .refl s

theorem voteKept_processData {arrival : ClusterState.Arrival} (live : LinkLive s arrival.linkNode)
    {hdr : ClusterMsg} {sender : Option NodeRef} (senderCurrentEpoch senderConfigEpoch : Nat)
    (refused : hdr.data = .failoverAuthRequest →
      ∀ r, sender = some r → s.grantsVote env r hdr = false)
    : VoteKept s
        (s.processData env arrival hdr sender senderCurrentEpoch senderConfigEpoch) := by
  unfold ClusterState.processData
  cases data : hdr.data with
  | ping gossip => exact voteKept_processPing live hdr sender senderConfigEpoch true false gossip
  | pong gossip => exact voteKept_processPing live hdr sender senderConfigEpoch false false gossip
  | meet gossip => exact voteKept_processPing live hdr sender senderConfigEpoch false true gossip
  | fail about =>
      exact step_ite (fun _ => (quiet_processFail about : Plain env _ _).voteKept)
        fun _ => .refl s
  | publish => exact .refl s
  | failoverAuthRequest =>
      cases sender with
      | none => exact .refl s
      | some r =>
          simp only [ClusterState.clusterSendFailoverAuthIfNeeded, refused data r rfl]
          exact .refl s
  | failoverAuthAck =>
      cases sender with
      | none => exact .refl s
      | some r => exact voteKept_processAuthAck r senderCurrentEpoch
  | update epoch nodename slots =>
      exact step_ite (fun _ => voteKept_processUpdate epoch nodename slots) fun _ => .refl s
  | mfstart =>
      cases sender with
      | none => exact .refl s
      | some r => exact (rearranged_processMfstart r).voteKept

-- The periodic functions

theorem voteKept_clusterUpdateState : VoteKept s (s.clusterUpdateState env) :=
  { VoteKept.refl s with }

theorem voteKept_clusterFailoverReplaceYourMaster
    : VoteKept s (s.clusterFailoverReplaceYourMaster env) := by
  unfold ClusterState.clusterFailoverReplaceYourMaster
  cases s.slaveof s.myself with
  | none => exact .refl s
  | some oldmaster =>
      refine step_ite (fun _ => .refl s) fun _ => ?_
      refine VoteKept.trans ?_ rearranged_resetManualFailover.voteKept
      refine VoteKept.trans ?_ (quiet_clusterBroadcastPong false : Quiet env _ _).voteKept
      refine VoteKept.trans ?_ (voteKept_clusterSaveConfig true)
      refine VoteKept.trans ?_ voteKept_clusterUpdateState
      exact (rearranged_replaceMaster oldmaster).voteKept

theorem voteKept_clusterHandleSlaveFailover (call : ClusterState.SlaveCall)
    : VoteKept s (s.clusterHandleSlaveFailover env call) := by
  unfold ClusterState.clusterHandleSlaveFailover
  have noted : VoteKept s { s with todo := { s.todo with handleFailover := false } } :=
    { VoteKept.refl s with }
  refine noted.trans ?_
  generalize { s with todo := { s.todo with handleFailover := false } } = t
  refine step_ite (fun _ => .refl t) fun _ => ?_
  cases run : slaveFailover (t.failoverCall env call) t.size t.currentEpoch t.election with
  | mk attempt rest =>
      obtain ⟨currentEpoch, election⟩ := rest
      have chosen : VoteKept t { t with election } := { VoteKept.refl t with }
      rcases slaveFailover_cases run with
        ⟨rfl, _⟩ | ⟨rfl, _⟩ | ⟨rfl, later, _⟩ | ⟨rfl, _⟩
      · exact chosen
      · exact chosen.trans (quiet_clusterBroadcastPong true : Quiet env _ _).voteKept
      · have raised : VoteKept t { t with currentEpoch, election } :=
          { VoteKept.refl t with epoch := by rw [later]; exact Nat.le_succ _ }
        refine VoteKept.trans ?_ (voteKept_clusterDoBeforeSleep _)
        exact raised.trans (quiet_clusterRequestFailoverAuth : Quiet env _ _).voteKept
      · refine (chosen.trans ?_).trans voteKept_clusterFailoverReplaceYourMaster
        exact step_ite (fun _ => voteKept_modify _ _) fun _ => .refl _

theorem voteKept_clusterCron (step : ClusterState.CronStep)
    : VoteKept s (s.clusterCron env step) := by
  cases step with
  | handshakeTimeout r =>
      exact step_ite (fun _ => voteKept_clusterDelNode r) fun _ => .refl s
  | failover call =>
      refine rearranged_manualFailoverCheckTimeout.voteKept.trans (step_either ?_ (.refl _))
      exact (rearranged_clusterHandleManualFailover call).voteKept.trans
        (voteKept_clusterHandleSlaveFailover call)
  | updateState => exact voteKept_clusterUpdateState
  | migrate target =>
      exact step_ite (fun _ => (rearranged_clusterSetMaster target).voteKept)
        fun _ => .refl s
  | _ => exact (quiet_clusterCron (by simp) : Plain env s _).voteKept

end VoteKept

-- Granting a vote

/-- The state in which a packet of a known sender is processed. -/
def ClusterState.headerSeen (s : ClusterState) (hdr : ClusterMsg) (sender : NodeRef)
    : ClusterState :=
  if s.nodeInHandshake sender then s else s.updateSender hdr sender

/-- The epoch in which a packet is answered with a vote. -/
def ClusterState.grantedEpoch (s : ClusterState) (env : ClusterEnv) (hdr : ClusterMsg)
    : Option Nat :=
  match hdr.data, s.clusterLookupNode hdr.sender with
  | .failoverAuthRequest, some r =>
      if (s.headerSeen hdr r).grantsVote env r hdr then some (s.headerSeen hdr r).currentEpoch
      else none
  | _, _ => none

section Granting

variable {env : ClusterEnv} {s : ClusterState} {hdr : ClusterMsg}

theorem voteKept_headerSeen (sender : NodeRef) : VoteKept s (s.headerSeen hdr sender) :=
  step_ite (fun _ => .refl s) fun _ => voteKept_updateSender hdr sender

theorem processChecked_known (env : ClusterEnv) (arrival : ClusterState.Arrival)
    {sender : NodeRef}
    (found : s.clusterLookupNode hdr.sender = some sender)
    : ∃ senderCurrentEpoch senderConfigEpoch,
        s.processChecked env arrival hdr
          = (s.headerSeen hdr sender).processData env arrival hdr (some sender)
              senderCurrentEpoch senderConfigEpoch := by
  simp only [ClusterState.processChecked, ClusterState.headerSeen, found]
  split
  · exact ⟨0, 0, rfl⟩
  · exact ⟨hdr.currentEpoch, hdr.configEpoch, rfl⟩

theorem LinkLive.headerSeen {linkNode : Option NodeRef} (live : LinkLive s linkNode)
    (sender : NodeRef)
    : LinkLive (s.headerSeen hdr sender) linkNode := by
  intro r is
  unfold ClusterState.headerSeen
  split
  · exact live r is
  · rw [updateSender_live]
    exact live r is

theorem voteKept_clusterProcessPacket (arrival : ClusterState.Arrival)
    (refused : s.grantedEpoch env hdr = none)
    : VoteKept s (s.clusterProcessPacket env arrival hdr) := by
  have live := linkLive_filter arrival.linkNode (s := s)
  unfold ClusterState.clusterProcessPacket
  cases found : s.clusterLookupNode hdr.sender with
  | none =>
      simp only [ClusterState.processChecked, found]
      exact voteKept_processData live 0 0 nofun
  | some sender =>
      obtain ⟨senderCurrentEpoch, senderConfigEpoch, same⟩ := processChecked_known env
        { arrival with linkNode := arrival.linkNode.filter s.live } found
      rw [same]
      refine (voteKept_headerSeen sender).trans
        (voteKept_processData (live.headerSeen sender) _ _ fun request r is => ?_)
      cases is
      simpa [ClusterState.grantedEpoch, request, found] using refused

/-- What changes with a vote: it is queued, unless there is no link, and noted in memory. -/
structure VoteGranted (s s' : ClusterState) (epoch : Nat) : Prop where
  lastVote : s'.lastVoteEpoch = epoch
  current : s'.currentEpoch = epoch
  later : s.currentEpoch ≤ epoch
  fresh : s.lastVoteEpoch ≠ epoch
  conf : s'.conf = s.conf
  sent : ∃ more, s'.sent = s.sent ++ more
    ∧ (more = [] ∨ ∃ r m, more = [(r, m)] ∧ m.data = .failoverAuthAck ∧ m.currentEpoch = epoch)

theorem updateSender_conf (sender : NodeRef)
    : (s.updateSender hdr sender).conf = s.conf
      ∧ (s.updateSender hdr sender).sent = s.sent
      ∧ (s.updateSender hdr sender).lastVoteEpoch = s.lastVoteEpoch
      ∧ s.currentEpoch ≤ (s.updateSender hdr sender).currentEpoch := by
  have later : s.currentEpoch ≤ max s.currentEpoch hdr.currentEpoch := le_max_left _ _
  simp only [ClusterState.updateSender, ClusterState.updateReplOffset,
    ClusterState.updateConfigEpoch]
  split <;> exact ⟨rfl, rfl, rfl, later⟩

theorem headerSeen_conf (s : ClusterState) (hdr : ClusterMsg) (sender : NodeRef)
    : (s.headerSeen hdr sender).conf = s.conf
      ∧ (s.headerSeen hdr sender).sent = s.sent
      ∧ (s.headerSeen hdr sender).lastVoteEpoch = s.lastVoteEpoch
      ∧ s.currentEpoch ≤ (s.headerSeen hdr sender).currentEpoch := by
  unfold ClusterState.headerSeen
  split
  · exact ⟨rfl, rfl, rfl, le_refl _⟩
  · exact updateSender_conf sender

theorem clusterSendFailoverAuth_sent (r : NodeRef)
    : ∃ more, s.clusterSendFailoverAuth r = { s with sent := s.sent ++ more }
      ∧ (more = [] ∨ ∃ m, more = [(some r, m)] ∧ m.data = .failoverAuthAck
          ∧ m.currentEpoch = s.currentEpoch) := by
  unfold ClusterState.clusterSendFailoverAuth
  split
  · exact ⟨_, rfl, .inr ⟨_, rfl, rfl, rfl⟩⟩
  · exact ⟨[], by simp, .inl rfl⟩

theorem grantsVote_fresh {r : NodeRef} (granted : s.grantsVote env r hdr = true)
    : s.lastVoteEpoch ≠ s.currentEpoch := by
  simp only [ClusterState.grantsVote, epochAllowsVote, Bool.and_eq_true, decide_eq_true_eq]
    at granted
  exact granted.1.1.2.2

theorem clusterSendFailoverAuthIfNeeded_granted {r : NodeRef}
    (granted : s.grantsVote env r hdr = true)
    : VoteGranted s (s.clusterSendFailoverAuthIfNeeded env r hdr) s.currentEpoch := by
  obtain ⟨more, queued, ack⟩ := clusterSendFailoverAuth_sent (s := s) r
  have shape : more = [] ∨ ∃ r m, more = [(r, m)] ∧ m.data = .failoverAuthAck
      ∧ m.currentEpoch = s.currentEpoch := by
    rcases ack with none | ⟨m, one, data, epoch⟩
    · exact .inl none
    · exact .inr ⟨some r, m, one, data, epoch⟩
  simp only [ClusterState.clusterSendFailoverAuthIfNeeded, granted, if_true, queued]
  split <;>
    exact ⟨rfl, rfl, le_refl _, grantsVote_fresh granted, rfl, more, rfl, shape⟩

/-- A packet that grants a vote records its epoch. -/
theorem clusterProcessPacket_granted {epoch : Nat} (arrival : ClusterState.Arrival)
    (granted : s.grantedEpoch env hdr = some epoch)
    : VoteGranted s (s.clusterProcessPacket env arrival hdr) epoch := by
  unfold ClusterState.grantedEpoch at granted
  split at granted
  · rename_i sender data found
    split at granted
    · rename_i grants
      cases granted
      obtain ⟨conf, sent, lastVote, later⟩ := headerSeen_conf s hdr sender
      obtain ⟨_, _, same⟩ := processChecked_known env
        { arrival with linkNode := arrival.linkNode.filter s.live } found
      have vote := clusterSendFailoverAuthIfNeeded_granted grants
      unfold ClusterState.clusterProcessPacket
      rw [same]
      simp only [ClusterState.processData, data]
      obtain ⟨more, queued, shape⟩ := vote.sent
      exact
        { lastVote := vote.lastVote
          current := vote.current
          later := later
          fresh := lastVote ▸ vote.fresh
          conf := vote.conf.trans conf
          sent := ⟨more, by rw [queued, sent], shape⟩ }
    · cases granted
  · cases granted

end Granting

end Redis.Cluster
