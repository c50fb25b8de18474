import Redis.Cluster.PingOutcomes

/-! Epochs: no node knows an epoch that is greater than its `currentEpoch`. -/

namespace Redis.Cluster

-- The invariant of a node

/-- A message of a node whose `currentEpoch` bounds the epochs it knows. -/
structure MessageBounded (names : Set NodeName) (m : ClusterMsg) : Prop where
  sender : m.sender ∈ names
  header : m.configEpoch ≤ m.currentEpoch
  update : ∀ epoch name slots, m.data = .update epoch name slots → epoch ≤ m.currentEpoch

/-- `currentEpoch` bounds the epochs that the node with the name `me` knows. `names` are the names
of all nodes: one that is in handshake has a name of its own.
-/
structure EpochsBounded (names : Set NodeName) (me : NodeName) (s : ClusterState) : Prop where
  epochs : ∀ r n, s.nodes r = some n → n.configEpoch ≤ s.currentEpoch
  election : s.election.failoverAuthEpoch ≤ s.currentEpoch
  myself : ∃ n, s.nodes s.myself = some n ∧ n.name = me ∧ n.flags.handshake = false
  handshake : ∀ r n, s.nodes r = some n → n.flags.handshake = true → n.name ∉ names
  sent : ∀ m ∈ s.sent, MessageBounded names m.2

/-- A step that keeps the bound. -/
structure EpochStep (names : Set NodeName) (me : NodeName) (s s' : ClusterState) : Prop where
  later : s.currentEpoch ≤ s'.currentEpoch
  bounded : EpochsBounded names me s → EpochsBounded names me s'

section Epochs

variable {names : Set NodeName} {me : NodeName} {env : ClusterEnv} {s s' s'' : ClusterState}
  {hdr : ClusterMsg} {epoch : Nat} {r : NodeRef}

theorem EpochStep.refl (s : ClusterState) : EpochStep names me s s :=
  ⟨le_refl _, id⟩

theorem EpochStep.trans (first : EpochStep names me s s') (second : EpochStep names me s' s'')
    : EpochStep names me s s'' :=
  ⟨first.later.trans second.later, second.bounded ∘ first.bounded⟩

theorem EpochStep.foldl {α : Type} {body : ClusterState → α → ClusterState} {items : List α}
    (round : ∀ s item, EpochStep names me s (body s item))
    : EpochStep names me s (items.foldl body s) := by
  induction items generalizing s with
  | nil => exact .refl s
  | cons item items ih => exact (round s item).trans ih

theorem EpochsBounded.known (bounded : EpochsBounded names me s) (known : EpochKnown s epoch)
    : epoch ≤ s.currentEpoch := by
  rcases known with rfl | ⟨r, n, found, rfl⟩
  · exact Nat.zero_le _
  · exact bounded.epochs r n found

theorem EpochsBounded.configEpoch_le (bounded : EpochsBounded names me s) (r : NodeRef)
    : s.configEpoch r ≤ s.currentEpoch :=
  bounded.known (epochKnown_configEpoch s r)

theorem EpochsBounded.name_myself (bounded : EpochsBounded names me s)
    : s.name s.myself = me := by
  obtain ⟨n, found, name, _⟩ := bounded.myself
  simp [ClusterState.name, found, name]

theorem EpochsBounded.live_myself (bounded : EpochsBounded names me s)
    : s.live s.myself = true := by
  obtain ⟨n, found, _⟩ := bounded.myself
  simp [ClusterState.live, found]

theorem EpochsBounded.ne_myself (bounded : EpochsBounded names me s)
    (handshake : s.nodeInHandshake r = true)
    : r ≠ s.myself := by
  rintro rfl
  obtain ⟨n, found, _, done⟩ := bounded.myself
  simp [ClusterState.nodeInHandshake, found, done] at handshake

theorem messageBounded_of_sentFrom (known : me ∈ names) (bounded : EpochsBounded names me s)
    {m : ClusterMsg} (from' : SentFrom s m)
    : MessageBounded names m where
  sender := by
    rw [from'.sender bounded.live_myself, bounded.name_myself]
    exact known
  header := by
    rw [from'.currentEpoch]
    exact bounded.known from'.configEpoch
  update epoch name slots data := by
    rw [from'.currentEpoch]
    exact bounded.known (from'.update epoch name slots data)

theorem Quiet.epochStep (quiet : Quiet env s s') (fresh : ∀ r, env.randomName r ∉ names)
    (known : me ∈ names)
    : EpochStep names me s s' where
  later := quiet.currentEpoch.ge
  bounded bounded :=
    { epochs := fun r n' found => by
        rw [quiet.currentEpoch]
        rcases quiet.node found with ⟨n, before, same⟩ | ⟨_, _, _, new⟩
        · exact same.configEpoch ▸ bounded.epochs r n before
        · exact new.configEpoch ▸ Nat.zero_le _
      election := by
        rw [quiet.currentEpoch, quiet.election]
        exact bounded.election
      myself := by
        obtain ⟨n, found, name, done⟩ := bounded.myself
        obtain ⟨n', found', same⟩ := quiet.kept _ n found
        exact ⟨n', quiet.myself ▸ found', same.name.trans name, same.handshake.trans done⟩
      handshake := fun r n' found shaking => by
        rcases quiet.node found with ⟨n, before, same⟩ | ⟨_, _, _, new⟩
        · rw [same.name]
          exact bounded.handshake r n before (same.handshake.symm.trans shaking)
        · rw [new.name]
          exact fresh r
      sent := fun m member => by
        obtain ⟨more, sent, from'⟩ := quiet.sent
        rw [sent] at member
        rcases List.mem_append.mp member with old | new
        · exact bounded.sent m old
        · exact messageBounded_of_sentFrom known bounded (from' m new) }

/-- A step that keeps the epochs keeps them bounded. -/
theorem Rearranged.epochStep (step : Rearranged s s') : EpochStep names me s s' where
  later := step.currentEpoch.ge
  bounded bounded :=
    { epochs := fun r n' found => by
        obtain ⟨n, before, _, epoch, _⟩ := step.node r n' found
        rw [step.currentEpoch, epoch]
        exact bounded.epochs r n before
      election := by
        rw [step.currentEpoch, step.election]
        exact bounded.election
      myself := by
        obtain ⟨n', found⟩ := Option.isSome_iff_exists.mp (step.kept _ bounded.live_myself)
        obtain ⟨n, before, name, _, handshake⟩ := step.node _ n' found
        obtain ⟨n₀, found₀, name₀, done⟩ := bounded.myself
        cases before.symm.trans found₀
        exact ⟨n', step.myself ▸ found, name.trans name₀, handshake.trans done⟩
      handshake := fun r n' found shaking => by
        obtain ⟨n, before, name, _, handshake⟩ := step.node r n' found
        rw [name]
        exact bounded.handshake r n before (handshake.symm.trans shaking)
      sent := fun m member => bounded.sent m (step.sent ▸ member) }

-- Changes of one field

theorem epochStep_modify {f : ClusterNode → ClusterNode} (name : ∀ n, (f n).name = n.name)
    (handshake : ∀ n, (f n).flags.handshake = true → n.flags.handshake = true)
    (epoch : ∀ n, n.configEpoch ≤ s.currentEpoch → (f n).configEpoch ≤ s.currentEpoch)
    : EpochStep names me s (s.modify r f) where
  later := le_refl _
  bounded bounded :=
    { epochs := fun r' n' found => by
        rw [modify_nodes] at found
        split at found
        · rename_i here
          obtain ⟨n, before, rfl⟩ := Option.map_eq_some_iff.mp found
          exact epoch n (bounded.epochs r n before)
        · exact bounded.epochs r' n' found
      election := bounded.election
      myself := by
        obtain ⟨n, found, mine, done⟩ := bounded.myself
        have same : (s.modify r f).myself = s.myself := rfl
        rw [same, modify_nodes]
        split
        · rename_i here
          refine ⟨f n, by rw [← here, found, Option.map_some], (name n).trans mine, ?_⟩
          cases shaking : (f n).flags.handshake with
          | false => rfl
          | true => exact (handshake n shaking).symm.trans done
        · exact ⟨n, found, mine, done⟩
      handshake := fun r' n' found shaking => by
        rw [modify_nodes] at found
        split at found
        · obtain ⟨n, before, rfl⟩ := Option.map_eq_some_iff.mp found
          rw [name]
          exact bounded.handshake r n before (handshake n shaking)
        · exact bounded.handshake r' n' found shaking
      sent := bounded.sent }

theorem epochStep_setConfigEpoch (r : NodeRef)
    (le : EpochsBounded names me s → epoch ≤ s.currentEpoch)
    : EpochStep names me s (s.modify r fun n => { n with configEpoch := epoch }) where
  later := le_refl _
  bounded bounded := by
    have changed : EpochStep names me s (s.modify r fun n => { n with configEpoch := epoch }) :=
      epochStep_modify (fun _ => rfl) (fun _ shaking => shaking) fun _ _ => le bounded
    exact changed.bounded bounded

theorem epochStep_completed {f : ClusterNode → ClusterNode} (other : s.nodeInHandshake r = true)
    (done : ∀ n, (f n).flags.handshake = false) (epoch : ∀ n, (f n).configEpoch = n.configEpoch)
    : EpochStep names me s (s.modify r f) where
  later := le_refl _
  bounded bounded :=
    { epochs := fun r' n' found => by
        rw [modify_nodes] at found
        split at found
        · obtain ⟨n, before, rfl⟩ := Option.map_eq_some_iff.mp found
          rw [epoch]
          exact bounded.epochs r n before
        · exact bounded.epochs r' n' found
      election := bounded.election
      myself := by
        have different := (bounded.ne_myself other).symm
        have same : (s.modify r f).myself = s.myself := rfl
        rw [same, modify_nodes, if_neg different]
        exact bounded.myself
      handshake := fun r' n' found shaking => by
        rw [modify_nodes] at found
        split at found
        · obtain ⟨n, before, rfl⟩ := Option.map_eq_some_iff.mp found
          rw [done] at shaking
          cases shaking
        · exact bounded.handshake r' n' found shaking
      sent := bounded.sent }

theorem epochStep_dropNode (other : EpochsBounded names me s → r ≠ s.myself)
    : EpochStep names me s (s.dropNode r) where
  later := le_refl _
  bounded bounded := by
    have nodes : ∀ r', (s.dropNode r).nodes r' = if r' = r then none else s.nodes r' :=
      fun r' => Function.update_apply ..
    have kept : ∀ r' n, (s.dropNode r).nodes r' = some n → s.nodes r' = some n := by
      intro r' n found
      rw [nodes] at found
      split at found
      · cases found
      · exact found
    exact
      { epochs := fun r' n found => bounded.epochs r' n (kept r' n found)
        election := bounded.election
        myself := by
          have same : (s.dropNode r).myself = s.myself := rfl
          rw [same, nodes, if_neg (other bounded).symm]
          exact bounded.myself
        handshake := fun r' n found => bounded.handshake r' n (kept r' n found)
        sent := bounded.sent }

theorem epochStep_raise (later : s.currentEpoch ≤ epoch)
    : EpochStep names me s { s with currentEpoch := epoch } where
  later := later
  bounded bounded :=
    { bounded with
      epochs := fun r n found => (bounded.epochs r n found).trans later
      election := bounded.election.trans later }

theorem EpochStep.of_same (table : s'.table = s.table) (myself : s'.myself = s.myself)
    (current : s'.currentEpoch = s.currentEpoch)
    (election : s'.election.failoverAuthEpoch = s.election.failoverAuthEpoch)
    (sent : s'.sent = s.sent)
    : EpochStep names me s s' where
  later := current.ge
  bounded bounded :=
    { epochs := fun r n found => by
        rw [current]
        exact bounded.epochs r n (by rwa [ClusterState.nodes, ← table])
      election := by
        rw [election, current]
        exact bounded.election
      myself := by
        obtain ⟨n, found, rest⟩ := bounded.myself
        exact ⟨n, by rwa [ClusterState.nodes, table, myself], rest⟩
      handshake := fun r n found =>
        bounded.handshake r n (by rwa [ClusterState.nodes, ← table])
      sent := fun m member => bounded.sent m (sent ▸ member) }

theorem epochStep_clusterDoBeforeSleep (flags : TodoBeforeSleep)
    : EpochStep names me s (s.clusterDoBeforeSleep flags) :=
  .of_same rfl rfl rfl rfl rfl

theorem epochStep_clusterSaveConfig (doFsync : Bool)
    : EpochStep names me s (s.clusterSaveConfig doFsync) :=
  .of_same rfl rfl rfl rfl rfl

theorem epochStep_takeEpoch : EpochStep names me s s.takeEpoch :=
  (epochStep_raise (Nat.le_succ _)).trans (epochStep_setConfigEpoch s.myself fun _ => le_refl _)

theorem epochStep_clusterBumpConfigEpochWithoutConsensus
    : EpochStep names me s s.clusterBumpConfigEpochWithoutConsensus :=
  step_ite
    (fun _ => epochStep_takeEpoch.trans (epochStep_clusterDoBeforeSleep _)) fun _ => .refl s

theorem epochStep_clusterHandleConfigEpochCollision (sender : NodeRef)
    : EpochStep names me s (s.clusterHandleConfigEpochCollision sender) := by
  refine step_ite (fun _ => .refl s) fun _ => step_ite (fun _ => .refl s) fun _ => ?_
  exact epochStep_takeEpoch.trans (epochStep_clusterSaveConfig true)

-- Packets

theorem modify_modify (s : ClusterState) (r : NodeRef) (f g : ClusterNode → ClusterNode)
    : (s.modify r f).modify r g = s.modify r (g ∘ f) := by
  simp [ClusterState.modify, NodeTable.modify]

theorem epochStep_clusterDelNode (other : EpochsBounded names me s → r ≠ s.myself)
    : EpochStep names me s (s.clusterDelNode env r) := by
  obtain ⟨t, step, same⟩ : ∃ t, Reshaped s t ∧ s.clusterDelNode env r = t.dropNode r :=
    rearranged_clusterDelNode r
  rw [same]
  refine ⟨step.currentEpoch.ge, fun bounded => ?_⟩
  have dropped : EpochStep names me t (t.dropNode r) :=
    epochStep_dropNode fun _ => step.myself ▸ other bounded
  exact dropped.bounded (step.epochStep.bounded bounded)

theorem epochStep_completeHandshake {node : NodeRef} (hdr : ClusterMsg)
    (handshake : s.nodeInHandshake node = true)
    : EpochStep names me s (s.completeHandshake node hdr) := by
  refine EpochStep.trans ?_ (epochStep_clusterDoBeforeSleep _)
  unfold ClusterState.clusterRenameNode
  split
  · refine (epochStep_dropNode fun bounded => bounded.ne_myself handshake).trans ?_
    refine epochStep_modify (fun _ => rfl) (fun _ shaking => ?_) fun _ le => le
    cases shaking
  · rw [modify_modify]
    exact epochStep_completed handshake (fun _ => rfl) fun _ => rfl

theorem epochStep_updateReplOffset (hdr : ClusterMsg) (sender : NodeRef)
    : EpochStep names me s (s.updateReplOffset hdr sender) := by
  have changed : EpochStep names me s
      (s.modify sender fun n => { n with replOffset := hdr.offset }) :=
    epochStep_modify (fun _ => rfl) (fun _ shaking => shaking) fun _ le => le
  exact changed.trans (.of_same rfl rfl rfl rfl rfl)

theorem epochStep_updateSender (ordered : hdr.configEpoch ≤ hdr.currentEpoch) (sender : NodeRef)
    : EpochStep names me s (s.updateSender hdr sender) := by
  have seen : EpochStep names me s (s.seeCurrentEpoch hdr.currentEpoch) :=
    epochStep_raise (le_max_left _ _)
  have recorded : EpochStep names me (s.seeCurrentEpoch hdr.currentEpoch)
      ((s.seeCurrentEpoch hdr.currentEpoch).updateConfigEpoch sender hdr.configEpoch) := by
    refine step_ite (fun _ => ?_) fun _ => .refl _
    have bound : hdr.configEpoch ≤ (s.seeCurrentEpoch hdr.currentEpoch).currentEpoch :=
      ordered.trans (le_max_right _ _)
    exact (epochStep_setConfigEpoch sender fun _ => bound).trans (epochStep_clusterDoBeforeSleep _)
  exact (seen.trans recorded).trans (epochStep_updateReplOffset hdr sender)

theorem epochStep_resolveCollision (senderConfigEpoch : Nat) (sender : NodeRef)
    : EpochStep names me s (s.resolveCollision senderConfigEpoch sender) :=
  step_ite (fun _ => epochStep_clusterHandleConfigEpochCollision sender) fun _ => .refl s

theorem PingOutcome.epochStep {arrival : ClusterState.Arrival}
    {senderConfigEpoch : Nat} {sender : Option NodeRef}
    (outcome : PingOutcome env arrival hdr senderConfigEpoch sender s s')
    (fresh : ∀ r, env.randomName r ∉ names) (known : me ∈ names)
    : EpochStep names me s s' := by
  cases outcome with
  | quiet quiet => exact quiet.epochStep fresh known
  | known before link handshake =>
      exact (before.epochStep fresh known).trans
        (epochStep_clusterDelNode fun bounded => bounded.ne_myself handshake)
  | completed before link handshake after =>
      exact ((before.epochStep fresh known).trans
        (epochStep_completeHandshake hdr handshake)).trans (after.epochStep fresh known)
  | @updated _ t _ sender before after =>
      obtain ⟨u, rearranged, quiet⟩ :=
        updateSlots_steps env hdr senderConfigEpoch (t.roleSwitch hdr sender) sender
      have switched : EpochStep names me t (t.roleSwitch hdr sender) :=
        (rearranged_roleSwitch hdr sender).epochStep
      refine EpochStep.trans ?_ (after.epochStep fresh known)
      refine EpochStep.trans ?_ (epochStep_resolveCollision _ _)
      exact (((before.epochStep fresh known).trans switched).trans rearranged.epochStep).trans
        (quiet.epochStep fresh known)

theorem epochStep_processUpdate (le : epoch ≤ s.currentEpoch)
    (nodename : NodeName) (slots : Slot → Bool)
    : EpochStep names me s (s.processUpdate epoch nodename slots) := by
  unfold ClusterState.processUpdate
  cases s.clusterLookupNode nodename with
  | none => exact .refl s
  | some r =>
      refine step_ite (fun _ => .refl s) fun _ => ?_
      refine EpochStep.trans ?_ (rearranged_clusterUpdateSlotsConfigWith r epoch slots).epochStep
      refine EpochStep.trans ?_ (epochStep_clusterDoBeforeSleep _)
      have promoted : Reshaped s
          (if s.nodeIsSlave r then s.clusterSetNodeAsMaster r else s) :=
        step_ite (fun _ => rearranged_clusterSetNodeAsMaster r) fun _ => .refl s
      exact promoted.epochStep.trans
        (epochStep_setConfigEpoch r fun _ => le.trans promoted.currentEpoch.ge)

theorem countVote_epoch (serves : Bool) (senderCurrentEpoch : Nat) (e : Election)
    : (e.countVote serves senderCurrentEpoch).failoverAuthEpoch = e.failoverAuthEpoch := by
  rcases countVote_cases serves senderCurrentEpoch e with same | ⟨_, _, counted⟩
  · rw [same]
  · rw [counted]

theorem epochStep_processAuthAck (sender : NodeRef) (senderCurrentEpoch : Nat)
    : EpochStep names me s (s.processAuthAck sender senderCurrentEpoch) := by
  refine EpochStep.trans (step_ite (fun _ => epochStep_clusterDoBeforeSleep _)
    fun _ => .refl s) (.of_same rfl rfl rfl (countVote_epoch _ _ _) rfl)

theorem epochStep_send {destination : Option NodeRef} {message : ClusterMsg}
    (built : EpochsBounded names me s → MessageBounded names message)
    : EpochStep names me s (s.clusterSendMessage destination message) where
  later := le_refl _
  bounded bounded :=
    { bounded with
      sent := fun m member => by
        rcases List.mem_append.mp member with old | new
        · exact bounded.sent m old
        · rw [List.mem_singleton.mp new]
          exact built bounded }

theorem messageBounded_clusterBuildMessageHdr (known : me ∈ names)
    (bounded : EpochsBounded names me s) {data : ClusterMsgData}
    (plain : ∀ epoch name slots, data ≠ .update epoch name slots)
    : MessageBounded names (s.clusterBuildMessageHdr data) where
  sender := by
    have sender : (s.clusterBuildMessageHdr data).sender = me := bounded.name_myself
    rw [sender]
    exact known
  header := bounded.configEpoch_le _
  update epoch name slots is := absurd is (plain epoch name slots)

theorem epochStep_clusterSendFailoverAuthIfNeeded (known : me ∈ names) (r : NodeRef)
    (request : ClusterMsg)
    : EpochStep names me s (s.clusterSendFailoverAuthIfNeeded env r request) := by
  refine step_ite (fun _ => ?_) fun _ => .refl s
  have queued : EpochStep names me s (s.clusterSendFailoverAuth r) :=
    step_ite (fun _ => epochStep_send fun bounded =>
      messageBounded_clusterBuildMessageHdr known bounded nofun) fun _ => .refl s
  dsimp only
  generalize s.clusterSendFailoverAuth r = t at queued
  have noted : EpochStep names me t { t with lastVoteEpoch := t.currentEpoch } :=
    .of_same rfl rfl rfl rfl rfl
  refine (queued.trans noted).trans ?_
  split
  · exact epochStep_modify (fun _ => rfl) (fun _ shaking => shaking) fun _ le => le
  · exact .refl _

theorem epochStep_processData {arrival : ClusterState.Arrival}
    (fresh : ∀ r, env.randomName r ∉ names) (known : me ∈ names)
    (live : LinkLive s arrival.linkNode) (sender : Option NodeRef)
    (senderCurrentEpoch senderConfigEpoch : Nat)
    (reported : sender.isSome → ∀ epoch name slots, hdr.data = .update epoch name slots →
      epoch ≤ s.currentEpoch)
    : EpochStep names me s
        (s.processData env arrival hdr sender senderCurrentEpoch senderConfigEpoch) := by
  unfold ClusterState.processData
  cases data : hdr.data with
  | ping gossip => exact (processPing_outcome live sender _ _ gossip).epochStep fresh known
  | pong gossip => exact (processPing_outcome live sender _ _ gossip).epochStep fresh known
  | meet gossip => exact (processPing_outcome live sender _ _ gossip).epochStep fresh known
  | fail about =>
      exact step_ite
        (fun _ => (quiet_processFail about : Plain env _ _).epochStep fresh known)
        fun _ => .refl s
  | publish => exact .refl s
  | failoverAuthRequest =>
      cases sender with
      | none => exact .refl s
      | some r => exact epochStep_clusterSendFailoverAuthIfNeeded known r hdr
  | failoverAuthAck =>
      cases sender with
      | none => exact .refl s
      | some r => exact epochStep_processAuthAck r senderCurrentEpoch
  | update epoch nodename slots =>
      exact step_ite (fun there => epochStep_processUpdate
        (reported there epoch nodename slots data) nodename slots) fun _ => .refl s
  | mfstart =>
      cases sender with
      | none => exact .refl s
      | some r => exact (rearranged_processMfstart r).epochStep

theorem EpochsBounded.sender_known (bounded : EpochsBounded names me s)
    (message : MessageBounded names hdr) {sender : NodeRef}
    (found : s.clusterLookupNode hdr.sender = some sender)
    : s.nodeInHandshake sender = false := by
  obtain ⟨n, node, name⟩ := clusterLookupNode_some found
  cases shaking : s.nodeInHandshake sender with
  | false => rfl
  | true =>
      have handshake : n.flags.handshake = true := by
        simpa [ClusterState.nodeInHandshake, node] using shaking
      exact absurd (name ▸ message.sender) (bounded.handshake sender n node handshake)

theorem epochStep_clusterProcessPacket (fresh : ∀ r, env.randomName r ∉ names)
    (known : me ∈ names) (bounded : EpochsBounded names me s)
    (message : MessageBounded names hdr) (arrival : ClusterState.Arrival)
    : EpochStep names me s (s.clusterProcessPacket env arrival hdr) := by
  have live := linkLive_filter s arrival.linkNode
  unfold ClusterState.clusterProcessPacket ClusterState.processChecked
  cases found : s.clusterLookupNode hdr.sender with
  | none => exact epochStep_processData fresh known live none 0 0 nofun
  | some sender =>
      have done : ¬ s.nodeInHandshake sender = true := by
        simp [bounded.sender_known message found]
      simp only [if_neg done]
      refine (epochStep_updateSender message.header sender).trans ?_
      refine epochStep_processData fresh known (fun r is => ?_) _ _ _ fun _ epoch name slots data =>
        ?_
      · rw [updateSender_live]
        exact live r is
      · have seen : hdr.currentEpoch ≤ (s.updateSender hdr sender).currentEpoch := by
          have later : hdr.currentEpoch ≤ max s.currentEpoch hdr.currentEpoch := le_max_right _ _
          simp only [ClusterState.updateSender, ClusterState.updateReplOffset,
            ClusterState.updateConfigEpoch]
          split <;> exact later
        exact (message.update epoch name slots data).trans seen

-- Failovers and the periodic functions

theorem epochStep_clusterUpdateState : EpochStep names me s (s.clusterUpdateState env) :=
  .of_same rfl rfl rfl rfl rfl

theorem epochStep_clusterFailoverReplaceYourMaster (fresh : ∀ r, env.randomName r ∉ names)
    (known : me ∈ names)
    : EpochStep names me s (s.clusterFailoverReplaceYourMaster env) := by
  unfold ClusterState.clusterFailoverReplaceYourMaster
  cases s.slaveof s.myself with
  | none => exact .refl s
  | some oldmaster =>
      refine step_ite (fun _ => .refl s) fun _ => ?_
      refine EpochStep.trans ?_ rearranged_resetManualFailover.epochStep
      refine EpochStep.trans ?_
        ((quiet_clusterBroadcastPong false : Quiet env _ _).epochStep fresh known)
      refine EpochStep.trans ?_ (epochStep_clusterSaveConfig true)
      refine EpochStep.trans ?_ epochStep_clusterUpdateState
      exact (rearranged_replaceMaster oldmaster).epochStep

theorem epochStep_request {election : Election} (later : epoch = s.currentEpoch + 1)
    (same : election.failoverAuthEpoch = s.currentEpoch + 1)
    : EpochStep names me s { s with currentEpoch := epoch, election := election } where
  later := by
    rw [later]
    exact Nat.le_succ _
  bounded bounded := by
    subst later
    exact
      { bounded with
        epochs := fun r n found => (bounded.epochs r n found).trans (Nat.le_succ _)
        election := same.le }

theorem epochStep_clusterHandleSlaveFailover (fresh : ∀ r, env.randomName r ∉ names)
    (known : me ∈ names) (call : ClusterState.SlaveCall)
    : EpochStep names me s (s.clusterHandleSlaveFailover env call) := by
  unfold ClusterState.clusterHandleSlaveFailover
  have noted : EpochStep names me s
      { s with todo := { s.todo with handleFailover := false } } :=
    .of_same rfl rfl rfl rfl rfl
  refine noted.trans ?_
  generalize { s with todo := { s.todo with handleFailover := false } } = t
  refine step_ite (fun _ => .refl t) fun _ => ?_
  cases run : slaveFailover (t.failoverCall env call) t.size t.currentEpoch t.election with
  | mk attempt rest =>
      obtain ⟨currentEpoch, election⟩ := rest
      rcases slaveFailover_cases run with
        ⟨rfl, _, same⟩ | ⟨rfl, _, same⟩ | ⟨rfl, later, _, _, _, epoch⟩ | ⟨rfl, _, same, _⟩
      · exact .of_same rfl rfl rfl same.epoch rfl
      · have chosen : EpochStep names me t { t with election } :=
          .of_same rfl rfl rfl (by rw [same]; rfl) rfl
        exact chosen.trans
          ((quiet_clusterBroadcastPong true : Quiet env _ _).epochStep fresh known)
      · refine EpochStep.trans ?_ (epochStep_clusterDoBeforeSleep _)
        exact (epochStep_request later epoch).trans
          ((quiet_clusterRequestFailoverAuth : Quiet env _ _).epochStep fresh known)
      · have chosen : EpochStep names me t { t with election } :=
          .of_same rfl rfl rfl same.epoch rfl
        refine (chosen.trans ?_).trans (epochStep_clusterFailoverReplaceYourMaster fresh known)
        exact step_ite (fun _ => epochStep_setConfigEpoch _ fun bounded => bounded.election)
          fun _ => .refl _

theorem epochStep_clusterCron (fresh : ∀ r, env.randomName r ∉ names) (known : me ∈ names)
    (step : ClusterState.CronStep)
    : EpochStep names me s (s.clusterCron env step) := by
  cases step with
  | handshakeTimeout r =>
      refine step_ite (fun timeout => epochStep_clusterDelNode fun bounded => ?_)
        fun _ => .refl s
      refine bounded.ne_myself ?_
      obtain ⟨n, found, guard⟩ := (Option.any_eq_true _ _).mp timeout
      simp only [Bool.and_eq_true] at guard
      simp [ClusterState.nodeInHandshake, found, guard.1.1.1]
  | failover call =>
      refine rearranged_manualFailoverCheckTimeout.epochStep.trans (step_either ?_ (.refl _))
      exact (rearranged_clusterHandleManualFailover call).epochStep.trans
        (epochStep_clusterHandleSlaveFailover fresh known call)
  | updateState => exact epochStep_clusterUpdateState
  | migrate target =>
      exact step_ite (fun _ => (rearranged_clusterSetMaster target).epochStep)
        fun _ => .refl s
  | _ => exact (quiet_clusterCron (by simp) : Plain env s _).epochStep fresh known

theorem epochStep_clusterBeforeSleep (fresh : ∀ r, env.randomName r ∉ names)
    (known : me ∈ names) (call : ClusterState.SlaveCall)
    : EpochStep names me s (s.clusterBeforeSleep env call) := by
  have failover : EpochStep names me s
      (if s.todo.handleFailover then s.clusterHandleSlaveFailover env call else s) :=
    step_ite (fun _ => epochStep_clusterHandleSlaveFailover fresh known call)
      fun _ => .refl s
  unfold ClusterState.clusterBeforeSleep
  generalize (if s.todo.handleFailover then s.clusterHandleSlaveFailover env call else s) = t
    at failover
  have updated
      : EpochStep names me t (if t.todo.updateState then t.clusterUpdateState env else t) :=
    step_ite (fun _ => epochStep_clusterUpdateState) fun _ => .refl t
  dsimp only
  generalize (if t.todo.updateState then t.clusterUpdateState env else t) = u at updated
  have saved : EpochStep names me u
      (if u.todo.saveConfig then u.clusterSaveConfig u.todo.fsyncConfig else u) :=
    step_ite (fun _ => epochStep_clusterSaveConfig _) fun _ => .refl u
  exact ((failover.trans updated).trans saved).trans (.of_same rfl rfl rfl rfl rfl)

-- The CLUSTER command

theorem epochStep_setslotNode (keys : ClusterState.KeyCounts) (slot : Slot) (node : NodeName)
    : EpochStep names me s (s.setslotNode keys slot node) := by
  unfold ClusterState.setslotNode
  cases s.clusterLookupNode node with
  | none => exact .refl s
  | some n =>
      refine step_ite (fun _ => .refl s) fun _ => ?_
      refine EpochStep.trans ?_ (epochStep_clusterDoBeforeSleep _)
      have migrated : EpochStep names me s (s.setslotMigrated keys slot) :=
        step_ite (fun _ => (rearranged_stopMigrating slot).epochStep) fun _ => .refl s
      refine EpochStep.trans (migrated.trans ?_)
        ((rearranged_clusterDelSlot slot).trans (rearranged_clusterAddSlot n slot)).epochStep
      exact step_ite (fun _ => epochStep_clusterBumpConfigEpochWithoutConsensus.trans
        (rearranged_stopImporting slot).epochStep) fun _ => .refl _

theorem epochStep_clusterFailover (fresh : ∀ r, env.randomName r ∉ names) (known : me ∈ names)
    (force takeover : Bool)
    : EpochStep names me s (s.clusterFailover env force takeover) := by
  refine step_ite (fun _ => .refl s) fun _ => ?_
  cases s.slaveof s.myself with
  | none => exact .refl s
  | some master =>
      refine step_ite (fun _ => .refl s) fun _ => ?_
      have started : EpochStep names me s
          { s.resetManualFailover with mfEnd := env.mstime + 5000 } :=
        .of_same rfl rfl rfl rfl rfl
      refine started.trans (step_ite (fun _ => ?_) fun _ => ?_)
      · exact epochStep_clusterBumpConfigEpochWithoutConsensus.trans
          (epochStep_clusterFailoverReplaceYourMaster fresh known)
      · refine step_ite (fun _ => .of_same rfl rfl rfl rfl rfl) fun _ => ?_
        refine step_ite (fun _ => epochStep_send fun bounded => ?_) fun _ => .refl _
        exact messageBounded_clusterBuildMessageHdr known bounded nofun

theorem epochStep_clusterReset (newname : NodeName)
    : EpochStep names me s (s.clusterReset env false newname) := by
  refine rearranged_emptied.epochStep.trans (EpochStep.trans ?_ (epochStep_clusterDoBeforeSleep _))
  refine EpochStep.foldl fun s r => ?_
  exact step_ite (fun _ => .refl s) fun other => epochStep_clusterDelNode fun _ => other

theorem epochStep_clusterCommand (fresh : ∀ r, env.randomName r ∉ names) (known : me ∈ names)
    (keys : ClusterState.KeyCounts) {sub : ClusterState.ClusterSubcommand}
    (soft : sub ≠ .reset true)
    : EpochStep names me s (s.clusterCommand env keys sub) := by
  cases sub with
  | meet ip port => exact (quiet_clusterStartHandshake ip port).epochStep fresh known
  | flushslots =>
      exact step_ite (fun _ => .refl s) fun _ =>
        (rearranged_clusterDelNodeSlots s.myself).epochStep.trans
          (epochStep_clusterDoBeforeSleep _)
  | addslots slots => exact (rearranged_changeSlots false slots).epochStep
  | delslots slots => exact (rearranged_changeSlots true slots).epochStep
  | setslotMigrating slot node =>
      simp only [ClusterState.clusterCommand]
      cases s.clusterLookupNode node with
      | none => exact .refl s
      | some n => exact step_ite (fun _ => .refl s) fun _ => .of_same rfl rfl rfl rfl rfl
  | setslotImporting slot node =>
      simp only [ClusterState.clusterCommand]
      cases s.clusterLookupNode node with
      | none => exact .refl s
      | some n => exact step_ite (fun _ => .refl s) fun _ => .of_same rfl rfl rfl rfl rfl
  | setslotStable slot => exact .of_same rfl rfl rfl rfl rfl
  | setslotNode slot node => exact epochStep_setslotNode keys slot node
  | forget node =>
      simp only [ClusterState.clusterCommand]
      cases s.clusterLookupNode node with
      | none => exact .refl s
      | some n =>
          refine step_ite (fun _ => .refl s) fun other => ?_
          have listed : EpochStep names me s (s.clusterBlacklistAddNode env n) :=
            (quiet_clusterBlacklistAddNode n).epochStep fresh known
          have deleted : EpochStep names me (s.clusterBlacklistAddNode env n)
              ((s.clusterBlacklistAddNode env n).clusterDelNode env n) :=
            epochStep_clusterDelNode fun _ same => other (.inl same)
          exact (listed.trans deleted).trans (epochStep_clusterDoBeforeSleep _)
  | replicate node =>
      simp only [ClusterState.clusterCommand]
      cases s.clusterLookupNode node with
      | none => exact .refl s
      | some n =>
          refine step_ite (fun _ => .refl s) fun _ => step_ite (fun _ => .refl s) fun _ => ?_
          exact (rearranged_clusterSetMaster n).epochStep.trans (epochStep_clusterDoBeforeSleep _)
  | failover force takeover => exact epochStep_clusterFailover fresh known force takeover
  | setConfigEpoch epoch =>
      refine step_ite (fun _ => .refl s) fun _ => ?_
      refine EpochStep.trans ?_ (epochStep_clusterDoBeforeSleep _)
      exact (epochStep_raise (le_max_left _ _)).trans
        (epochStep_setConfigEpoch s.myself fun _ => le_max_right _ _)
  | reset hard =>
      cases hard with
      | true => exact absurd rfl soft
      | false => exact step_ite (fun _ => .refl s) fun _ => epochStep_clusterReset _

end Epochs

end Redis.Cluster
