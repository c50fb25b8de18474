import Redis.Cluster.Epochs

/-! The epochs that a node takes for itself are greater than those it knows of others. -/

namespace Redis.Cluster

def ClusterState.ownEpoch (s : ClusterState) : Nat := s.configEpoch s.myself

/-- The epoch of the node itself is greater than all others that it knows. -/
structure GreatestEpoch (s : ClusterState) : Prop where
  positive : 0 < s.ownEpoch
  others : ∀ r n, s.nodes r = some n → r ≠ s.myself → n.configEpoch < s.ownEpoch

/-- A new epoch of the node itself is greater than all others that it knows. -/
def TakesGreatest (s s' : ClusterState) : Prop :=
  s'.ownEpoch = s.ownEpoch ∨ GreatestEpoch s'

structure OwnEpochSame (s s' : ClusterState) : Prop where
  myself : s'.myself = s.myself
  live : s.live s.myself = true → s'.live s.myself = true
  own : s.live s.myself = true → s'.configEpoch s.myself = s.configEpoch s.myself

/-- The epochs are as before, and those of nodes that are added are zero. -/
structure EpochsSame (s s' : ClusterState) : Prop where
  myself : s'.myself = s.myself
  kept : ∀ r, s.live r = true → s'.live r = true ∧ s'.configEpoch r = s.configEpoch r
  others : ∀ r n', s'.nodes r = some n' →
    n'.configEpoch = 0 ∨ ∃ n, s.nodes r = some n ∧ n.configEpoch = n'.configEpoch

section TakenEpochs

variable {names : Set NodeName} {me : NodeName} {env : ClusterEnv} {s s' s'' : ClusterState}
  {hdr : ClusterMsg}

theorem OwnEpochSame.trans (first : OwnEpochSame s s') (second : OwnEpochSame s' s'')
    : OwnEpochSame s s'' where
  myself := second.myself.trans first.myself
  live there := by
    have later := second.live
    rw [first.myself] at later
    exact later (first.live there)
  own there := by
    have later := second.own
    rw [first.myself] at later
    exact (later (first.live there)).trans (first.own there)

theorem EpochsSame.own (same : EpochsSame s s') : OwnEpochSame s s' where
  myself := same.myself
  live there := (same.kept s.myself there).1
  own there := (same.kept s.myself there).2

theorem EpochsSame.refl (s : ClusterState) : EpochsSame s s where
  myself := rfl
  kept _ there := ⟨there, rfl⟩
  others _ n found := .inr ⟨n, found, rfl⟩

theorem EpochsSame.trans (first : EpochsSame s s') (second : EpochsSame s' s'')
    : EpochsSame s s'' where
  myself := second.myself.trans first.myself
  kept r there := by
    obtain ⟨there', same⟩ := first.kept r there
    obtain ⟨there'', same'⟩ := second.kept r there'
    exact ⟨there'', same'.trans same⟩
  others r n'' found := by
    rcases second.others r n'' found with zero | ⟨n', before, same⟩
    · exact .inl zero
    · rcases first.others r n' before with zero | ⟨n, older, same'⟩
      · exact .inl (same ▸ zero)
      · exact .inr ⟨n, older, same'.trans same⟩

theorem EpochsSame.of_table (table : s'.table = s.table) (myself : s'.myself = s.myself)
    : EpochsSame s s' where
  myself := myself
  kept r there := by
    have nodes : s'.nodes r = s.nodes r := by rw [ClusterState.nodes, table]
    rw [ClusterState.live, ClusterState.configEpoch, nodes]
    exact ⟨there, rfl⟩
  others r n found := .inr ⟨n, by rwa [ClusterState.nodes, ← table], rfl⟩

theorem Quiet.epochsSame (quiet : Quiet env s s') : EpochsSame s s' where
  myself := quiet.myself
  kept r there := by
    obtain ⟨n, found⟩ := Option.isSome_iff_exists.mp there
    obtain ⟨n', found', same⟩ := quiet.kept r n found
    simp [ClusterState.live, ClusterState.configEpoch, found, found', same.configEpoch]
  others r n' found := by
    rcases quiet.node found with ⟨n, before, same⟩ | ⟨_, _, _, fresh⟩
    · exact .inr ⟨n, before, same.configEpoch.symm⟩
    · exact .inl fresh.configEpoch

theorem Rearranged.epochsSame (step : Rearranged s s') : EpochsSame s s' where
  myself := step.myself
  kept r there := by
    obtain ⟨n', found'⟩ := Option.isSome_iff_exists.mp (step.kept r there)
    obtain ⟨n, found, _, epoch, _⟩ := step.node r n' found'
    simp [ClusterState.live, ClusterState.configEpoch, found, found', epoch]
  others r n' found := by
    obtain ⟨n, before, _, epoch, _⟩ := step.node r n' found
    exact .inr ⟨n, before, epoch.symm⟩

theorem EpochsSame.greatest (same : EpochsSame s s') (there : s.live s.myself = true)
    (greatest : GreatestEpoch s)
    : GreatestEpoch s' := by
  have own : s'.ownEpoch = s.ownEpoch := by
    rw [ClusterState.ownEpoch, same.myself]
    exact (same.kept _ there).2
  refine ⟨own ▸ greatest.positive, fun r n' found other => ?_⟩
  rw [own]
  rcases same.others r n' found with zero | ⟨n, before, epoch⟩
  · exact zero ▸ greatest.positive
  · exact epoch ▸ greatest.others r n before (same.myself ▸ other)

theorem OwnEpochSame.takes (same : OwnEpochSame s s') (there : s.live s.myself = true)
    : TakesGreatest s s' := by
  refine .inl ?_
  rw [ClusterState.ownEpoch, same.myself]
  exact same.own there

theorem TakesGreatest.before (same : OwnEpochSame s s') (there : s.live s.myself = true)
    (takes : TakesGreatest s' s'')
    : TakesGreatest s s'' := by
  have own : s'.ownEpoch = s.ownEpoch := by
    rw [ClusterState.ownEpoch, same.myself]
    exact same.own there
  exact takes.imp_left fun unchanged => unchanged.trans own

theorem TakesGreatest.after (takes : TakesGreatest s s') (there : s'.live s'.myself = true)
    (same : EpochsSame s' s'')
    : TakesGreatest s s'' := by
  rcases takes with unchanged | greatest
  · refine .inl (Eq.trans ?_ unchanged)
    rw [ClusterState.ownEpoch, same.myself]
    exact (same.kept _ there).2
  · exact .inr (same.greatest there greatest)

theorem takeEpoch_nodes (s : ClusterState) (r : NodeRef)
    : s.takeEpoch.nodes r
      = if r = s.myself then
          (s.nodes s.myself).map fun n => { n with configEpoch := s.currentEpoch + 1 }
        else s.nodes r :=
  modify_nodes ..

theorem greatestEpoch_takeEpoch (bounded : EpochsBounded names me s)
    : GreatestEpoch s.takeEpoch := by
  obtain ⟨n, found, _⟩ := bounded.myself
  have own : s.takeEpoch.ownEpoch = s.currentEpoch + 1 := by
    have same : s.takeEpoch.myself = s.myself := rfl
    rw [ClusterState.ownEpoch, ClusterState.configEpoch, same, takeEpoch_nodes, if_pos rfl, found]
    rfl
  refine ⟨by rw [own]; exact Nat.succ_pos _, fun r n' found' other => ?_⟩
  have behind : r ≠ s.myself := other
  rw [own]
  rw [takeEpoch_nodes, if_neg behind] at found'
  exact Nat.lt_succ_of_le (bounded.epochs r n' found')

theorem takesGreatest_clusterBumpConfigEpochWithoutConsensus (bounded : EpochsBounded names me s)
    : TakesGreatest s s.clusterBumpConfigEpochWithoutConsensus := by
  unfold ClusterState.clusterBumpConfigEpochWithoutConsensus
  dsimp only
  split
  · have taken := epochStep_takeEpoch.bounded bounded
    exact .inr ((rearranged_clusterDoBeforeSleep _).epochsSame.greatest taken.live_myself
      (greatestEpoch_takeEpoch bounded))
  · exact .inl rfl

theorem takesGreatest_clusterHandleConfigEpochCollision (bounded : EpochsBounded names me s)
    (sender : NodeRef)
    : TakesGreatest s (s.clusterHandleConfigEpochCollision sender) := by
  unfold ClusterState.clusterHandleConfigEpochCollision
  split
  · exact .inl rfl
  split
  · exact .inl rfl
  · have taken := epochStep_takeEpoch.bounded bounded
    have saved : EpochsSame s.takeEpoch (s.takeEpoch.clusterSaveConfig true) :=
      .of_table rfl rfl
    exact .inr (saved.greatest taken.live_myself (greatestEpoch_takeEpoch bounded))

-- Commands

theorem takesGreatest_setslotNode (bounded : EpochsBounded names me s)
    (keys : ClusterState.KeyCounts) (slot : Slot) (node : NodeName)
    : TakesGreatest s (s.setslotNode keys slot node) := by
  unfold ClusterState.setslotNode
  cases s.clusterLookupNode node with
  | none => exact .inl rfl
  | some n =>
      dsimp only
      split
      · exact .inl rfl
      have migrated : Reshaped s (s.setslotMigrated keys slot) :=
        step_ite (fun _ => rearranged_stopMigrating slot) fun _ => .refl s
      have there := migrated.epochStep.bounded bounded
      refine TakesGreatest.before migrated.epochsSame.own bounded.live_myself ?_
      generalize s.setslotMigrated keys slot = t at there
      have assigned : ∀ t, Reshaped t (((ClusterState.clusterDelSlot t slot).clusterAddSlot n
          slot).clusterDoBeforeSleep { saveConfig := true, updateState := true }) := fun t =>
        ((rearranged_clusterDelSlot slot).trans (rearranged_clusterAddSlot n slot)).trans
          (rearranged_clusterDoBeforeSleep _)
      unfold ClusterState.setslotImported
      split
      · have bumped := epochStep_clusterBumpConfigEpochWithoutConsensus.bounded there
        refine (takesGreatest_clusterBumpConfigEpochWithoutConsensus there).after
          bumped.live_myself ?_
        exact ((rearranged_stopImporting slot).trans (assigned _)).epochsSame
      · exact (assigned t).epochsSame.own.takes there.live_myself

theorem epochsSame_saved : EpochsSame s ((s.clusterUpdateState env).clusterSaveConfig true) :=
  .of_table rfl rfl

theorem epochsSame_clusterFailoverReplaceYourMaster
    : EpochsSame s (s.clusterFailoverReplaceYourMaster env) := by
  unfold ClusterState.clusterFailoverReplaceYourMaster
  cases s.slaveof s.myself with
  | none => exact .refl s
  | some oldmaster =>
      refine step_ite (fun _ => .refl s) fun _ => ?_
      refine EpochsSame.trans ?_ rearranged_resetManualFailover.epochsSame
      refine EpochsSame.trans ?_ (quiet_clusterBroadcastPong false : Quiet env _ _).epochsSame
      refine EpochsSame.trans ?_ epochsSame_saved
      exact (rearranged_replaceMaster oldmaster).epochsSame

theorem takesGreatest_takeover (bounded : EpochsBounded names me s) (force : Bool)
    : TakesGreatest s (s.clusterFailover env force true) := by
  unfold ClusterState.clusterFailover
  split
  · exact .inl rfl
  cases s.slaveof s.myself with
  | none => exact .inl rfl
  | some master =>
      simp only [Bool.not_true, Bool.and_false, Bool.false_and, Bool.false_eq_true, if_false,
        if_true]
      have started : EpochStep names me s
          { s.resetManualFailover with mfEnd := env.mstime + 5000 } :=
        .of_same rfl rfl rfl rfl rfl
      have there := started.bounded bounded
      have bumped := epochStep_clusterBumpConfigEpochWithoutConsensus.bounded there
      have same : EpochsSame s { s.resetManualFailover with mfEnd := env.mstime + 5000 } :=
        .of_table rfl rfl
      refine TakesGreatest.before same.own bounded.live_myself ?_
      exact (takesGreatest_clusterBumpConfigEpochWithoutConsensus there).after
        bumped.live_myself epochsSame_clusterFailoverReplaceYourMaster

-- Packets

theorem ownEpochSame_clusterDelNode {r : NodeRef} (other : r ≠ s.myself)
    : OwnEpochSame s (s.clusterDelNode env r) := by
  obtain ⟨t, step, same⟩ : ∃ t, Reshaped s t ∧ s.clusterDelNode env r = t.dropNode r :=
    rearranged_clusterDelNode r
  rw [same]
  have kept : (t.dropNode r).nodes t.myself = t.nodes t.myself := by
    have nodes : (t.dropNode r).nodes t.myself = if t.myself = r then none else t.nodes t.myself :=
      Function.update_apply ..
    rw [nodes, if_neg (step.myself ▸ other.symm)]
  refine step.epochsSame.own.trans ⟨rfl, ?_, fun _ => ?_⟩
  · rw [ClusterState.live, ClusterState.live, kept]
    exact id
  · rw [ClusterState.configEpoch, ClusterState.configEpoch, kept]

theorem ownEpochSame_modify {r : NodeRef} (other : r ≠ s.myself) (f : ClusterNode → ClusterNode)
    : OwnEpochSame s (s.modify r f) := by
  refine ⟨rfl, ?_, fun _ => ?_⟩
  · rw [modify_live]
    exact id
  · rw [ClusterState.configEpoch, ClusterState.configEpoch, modify_nodes, if_neg other.symm]

theorem ownEpochSame_dropNode {r : NodeRef} (other : r ≠ s.myself)
    : OwnEpochSame s (s.dropNode r) := by
  have nodes : (s.dropNode r).nodes s.myself = s.nodes s.myself := by
    have updated : (s.dropNode r).nodes s.myself
        = if s.myself = r then none else s.nodes s.myself := Function.update_apply ..
    rw [updated, if_neg other.symm]
  refine ⟨rfl, ?_, fun _ => ?_⟩
  · rw [ClusterState.live, ClusterState.live, nodes]
    exact id
  · rw [ClusterState.configEpoch, ClusterState.configEpoch, nodes]

theorem ownEpochSame_completeHandshake {node : NodeRef} (hdr : ClusterMsg)
    (other : node ≠ s.myself)
    : OwnEpochSame s (s.completeHandshake node hdr) := by
  refine OwnEpochSame.trans ?_ (rearranged_clusterDoBeforeSleep _).epochsSame.own
  unfold ClusterState.clusterRenameNode
  split
  · exact (ownEpochSame_dropNode other).trans
      (ownEpochSame_modify (s := s.dropNode node) other _)
  · rw [modify_modify]
    exact ownEpochSame_modify other _

theorem PingOutcome.takesGreatest {arrival : ClusterState.Arrival}
    {senderConfigEpoch : Nat} {sender : Option NodeRef}
    (outcome : PingOutcome env arrival hdr senderConfigEpoch sender s s')
    (bounded : EpochsBounded names me s) (fresh : ∀ r, env.randomName r ∉ names)
    (known : me ∈ names)
    : TakesGreatest s s' := by
  cases outcome with
  | quiet quiet => exact quiet.epochsSame.own.takes bounded.live_myself
  | @known _ t _ node before link handshake =>
      have later := (before.epochStep fresh known).bounded bounded
      have deleted : OwnEpochSame t (t.clusterDelNode env node) :=
        ownEpochSame_clusterDelNode (later.ne_myself handshake)
      exact (before.epochsSame.own.trans deleted).takes bounded.live_myself
  | completed before link handshake after =>
      have later := (before.epochStep fresh known).bounded bounded
      have completed := ownEpochSame_completeHandshake hdr (later.ne_myself handshake)
      exact ((before.epochsSame.own.trans completed).trans
        after.epochsSame.own).takes bounded.live_myself
  | @updated _ t _ sender before after =>
      obtain ⟨u, rearranged, quiet⟩ :=
        updateSlots_steps env hdr senderConfigEpoch (t.roleSwitch hdr sender) sender
      have switched : Reshaped t u := (rearranged_roleSwitch hdr sender).trans rearranged
      have there := (quiet.epochStep fresh known).bounded
        (switched.epochStep.bounded ((before.epochStep fresh known).bounded bounded))
      have same := (before.epochsSame.trans switched.epochsSame).trans quiet.epochsSame
      refine TakesGreatest.before same.own bounded.live_myself ?_
      have resolved := (epochStep_resolveCollision senderConfigEpoch sender).bounded there
      refine TakesGreatest.after ?_ resolved.live_myself after.epochsSame
      unfold ClusterState.resolveCollision
      split
      · exact takesGreatest_clusterHandleConfigEpochCollision there sender
      · exact .inl rfl

theorem ownEpochSame_updateSender {sender : NodeRef} (hdr : ClusterMsg)
    (other : sender ≠ s.myself)
    : OwnEpochSame s (s.updateSender hdr sender) := by
  have seen : EpochsSame s (s.seeCurrentEpoch hdr.currentEpoch) := .of_table rfl rfl
  have recorded : OwnEpochSame (s.seeCurrentEpoch hdr.currentEpoch)
      ((s.seeCurrentEpoch hdr.currentEpoch).updateConfigEpoch sender hdr.configEpoch) := by
    unfold ClusterState.updateConfigEpoch
    split
    · exact (ownEpochSame_modify (s := s.seeCurrentEpoch hdr.currentEpoch) other _).trans
        (rearranged_clusterDoBeforeSleep _).epochsSame.own
    · exact (EpochsSame.refl _).own
  have both := seen.own.trans recorded
  refine both.trans ⟨rfl, ?_, fun _ => ?_⟩
  · intro there
    exact (modify_live _ _ _ _).trans there
  · exact (ownEpochSame_modify (both.myself ▸ other) fun n =>
      { n with replOffset := hdr.offset }).own ‹_›

/-- A PING, PONG or MEET. -/
def ClusterMsgData.isPing : ClusterMsgData → Bool
  | .ping _ => true
  | .pong _ => true
  | .meet _ => true
  | _ => false

theorem takesGreatest_processData {arrival : ClusterState.Arrival}
    (isPing : hdr.data.isPing = true) (bounded : EpochsBounded names me s)
    (fresh : ∀ r, env.randomName r ∉ names) (known : me ∈ names)
    (live : LinkLive s arrival.linkNode) (sender : Option NodeRef)
    (senderCurrentEpoch senderConfigEpoch : Nat)
    : TakesGreatest s
        (s.processData env arrival hdr sender senderCurrentEpoch senderConfigEpoch) := by
  unfold ClusterState.processData
  cases data : hdr.data with
  | ping gossip =>
      exact (processPing_outcome live sender _ _ gossip).takesGreatest bounded fresh known
  | pong gossip =>
      exact (processPing_outcome live sender _ _ gossip).takesGreatest bounded fresh known
  | meet gossip =>
      exact (processPing_outcome live sender _ _ gossip).takesGreatest bounded fresh known
  | fail about => simp [data, ClusterMsgData.isPing] at isPing
  | publish => simp [data, ClusterMsgData.isPing] at isPing
  | failoverAuthRequest => simp [data, ClusterMsgData.isPing] at isPing
  | failoverAuthAck => simp [data, ClusterMsgData.isPing] at isPing
  | update epoch nodename slots => simp [data, ClusterMsgData.isPing] at isPing
  | mfstart => simp [data, ClusterMsgData.isPing] at isPing

theorem takesGreatest_clusterProcessPacket (isPing : hdr.data.isPing = true)
    (other : hdr.sender ≠ me) (bounded : EpochsBounded names me s)
    (message : MessageBounded names hdr) (fresh : ∀ r, env.randomName r ∉ names)
    (known : me ∈ names) (arrival : ClusterState.Arrival)
    : TakesGreatest s (s.clusterProcessPacket env arrival hdr) := by
  have live := linkLive_filter s arrival.linkNode
  unfold ClusterState.clusterProcessPacket ClusterState.processChecked
  cases found : s.clusterLookupNode hdr.sender with
  | none => exact takesGreatest_processData isPing bounded fresh known live none 0 0
  | some sender =>
      have done : ¬ s.nodeInHandshake sender = true := by
        simp [bounded.sender_known message found]
      have apart : sender ≠ s.myself := by
        rintro rfl
        obtain ⟨n, node, name⟩ := clusterLookupNode_some found
        have mine := bounded.name_myself
        simp only [ClusterState.name, node, Option.elim] at mine
        exact other (name.symm.trans mine)
      simp only [if_neg done]
      refine TakesGreatest.before (ownEpochSame_updateSender hdr apart) bounded.live_myself ?_
      refine takesGreatest_processData isPing
        ((epochStep_updateSender message.header sender).bounded bounded) fresh known ?_ _ _ _
      intro r is
      rw [updateSender_live]
      exact live r is

-- Elections

/-- An election that starts is in an epoch that is greater than all that are known. -/
def StartsAbove (s s' : ClusterState) : Prop :=
  s'.election.failoverAuthEpoch = s.election.failoverAuthEpoch
  ∨ ∀ r n, s.nodes r = some n → n.configEpoch < s'.election.failoverAuthEpoch

theorem election_clusterFailoverReplaceYourMaster
    : (s.clusterFailoverReplaceYourMaster env).election = s.election := by
  unfold ClusterState.clusterFailoverReplaceYourMaster
  cases s.slaveof s.myself with
  | none => rfl
  | some oldmaster =>
      dsimp only
      split
      · rfl
      have pong : ∀ t : ClusterState, (t.clusterBroadcastPong env false).election = t.election :=
        fun t => (quiet_clusterBroadcastPong false : Quiet env t _).election
      have saved : ∀ t : ClusterState,
          ((t.clusterUpdateState env).clusterSaveConfig true).election = t.election := fun _ => rfl
      have ended : ∀ t : ClusterState, t.resetManualFailover.election = t.election := fun _ => rfl
      rw [ended, pong, saved]
      exact (rearranged_replaceMaster oldmaster).election

theorem startsAbove_clusterHandleSlaveFailover (bounded : EpochsBounded names me s)
    (call : ClusterState.SlaveCall)
    : StartsAbove s (s.clusterHandleSlaveFailover env call) := by
  have pong : ∀ t : ClusterState, (t.clusterBroadcastPong env true).election = t.election :=
    fun t => (quiet_clusterBroadcastPong true : Quiet env t _).election
  have asked : ∀ t : ClusterState, t.clusterRequestFailoverAuth.election = t.election :=
    fun t => (quiet_clusterRequestFailoverAuth : Quiet env t _).election
  unfold ClusterState.clusterHandleSlaveFailover
  dsimp only
  split
  · exact .inl rfl
  generalize run : slaveFailover _ _ _ _ = result
  obtain ⟨attempt, currentEpoch, election⟩ := result
  rcases slaveFailover_cases run with
    ⟨rfl, _, same⟩ | ⟨rfl, _, same⟩ | ⟨rfl, _, _, _, _, epoch⟩ | ⟨rfl, _, same, _⟩
  · exact .inl same.epoch
  · refine .inl ?_
    simp only [pong, same]
    rfl
  · refine .inr fun r n found => ?_
    simp only [ClusterState.clusterDoBeforeSleep, asked, epoch]
    exact Nat.lt_succ_of_le (bounded.epochs r n found)
  · refine .inl ?_
    simp only [election_clusterFailoverReplaceYourMaster]
    split <;> exact same.epoch

theorem startsAbove_clusterBeforeSleep (bounded : EpochsBounded names me s)
    (call : ClusterState.SlaveCall)
    : StartsAbove s (s.clusterBeforeSleep env call) := by
  have election : (s.clusterBeforeSleep env call).election
      = (if s.todo.handleFailover then s.clusterHandleSlaveFailover env call else s).election := by
    unfold ClusterState.clusterBeforeSleep
    generalize (if s.todo.handleFailover then s.clusterHandleSlaveFailover env call else s) = t
    dsimp only
    split <;> split <;> rfl
  rw [StartsAbove, election]
  split
  · exact startsAbove_clusterHandleSlaveFailover bounded call
  · exact .inl rfl

/-- An election starts in an epoch above all that are known. -/
theorem startsAbove_clusterCron (bounded : EpochsBounded names me s)
    (call : ClusterState.SlaveCall)
    : StartsAbove s (s.clusterCron env (.failover call)) := by
  have checked : (s.manualFailoverCheckTimeout env).table = s.table
      ∧ (s.manualFailoverCheckTimeout env).election = s.election := by
    unfold ClusterState.manualFailoverCheckTimeout
    split <;> exact ⟨rfl, rfl⟩
  have there : EpochsBounded names me (s.manualFailoverCheckTimeout env) :=
    rearranged_manualFailoverCheckTimeout.epochStep.bounded bounded
  unfold ClusterState.clusterCron
  generalize s.manualFailoverCheckTimeout env = t at checked there
  have handled : (t.clusterHandleManualFailover call).table = t.table
      ∧ (t.clusterHandleManualFailover call).election = t.election := by
    unfold ClusterState.clusterHandleManualFailover
    split
    · exact ⟨rfl, rfl⟩
    · split <;> exact ⟨rfl, rfl⟩
  have starts : StartsAbove (t.clusterHandleManualFailover call)
      ((t.clusterHandleManualFailover call).clusterHandleSlaveFailover env call) :=
    startsAbove_clusterHandleSlaveFailover
      ((rearranged_clusterHandleManualFailover call).epochStep.bounded there) call
  dsimp only
  split
  · rw [StartsAbove, handled.2, checked.2] at starts
    refine starts.imp_right fun above r n found => above r n ?_
    rwa [ClusterState.nodes, handled.1, checked.1]
  · exact .inl (congrArg Election.failoverAuthEpoch checked.2)

/-- The own epoch is set to one that an election was won with. -/
def ClusterState.wonEpoch (s : ClusterState) (epoch : Nat) : ClusterState :=
  s.modify s.myself fun n => { n with configEpoch := epoch }

theorem clusterHandleSlaveFailover_won {call : ClusterState.SlaveCall}
    (may : s.mayFailover = true)
    (won : (slaveFailover (s.failoverCall env call) s.size s.currentEpoch s.election).1 = .won)
    (behind : s.ownEpoch < s.election.failoverAuthEpoch)
    : EpochsSame (s.wonEpoch s.election.failoverAuthEpoch)
        (s.clusterHandleSlaveFailover env call) := by
  cases run : slaveFailover (s.failoverCall env call) s.size s.currentEpoch s.election with
  | mk attempt rest =>
      obtain ⟨epoch, election⟩ := rest
      rw [run] at won
      cases won
      have same : election.failoverAuthEpoch = s.election.failoverAuthEpoch := by
        rcases slaveFailover_cases run with ⟨is, _⟩ | ⟨is, _⟩ | ⟨is, _⟩ | ⟨_, _, same, _⟩
        · cases is
        · cases is
        · cases is
        · exact same.epoch
      have may' : ({ s with todo := { s.todo with handleFailover := false } } :
          ClusterState).mayFailover = true := may
      have run' : slaveFailover (ClusterState.failoverCall
          { s with todo := { s.todo with handleFailover := false } } env call) s.size
          s.currentEpoch s.election = (.won, epoch, election) := run
      have behind' : ({ s with
          todo := { s.todo with handleFailover := false }, election := election } :
          ClusterState).configEpoch s.myself < s.election.failoverAuthEpoch := behind
      simp only [ClusterState.clusterHandleSlaveFailover, may', Bool.not_true, Bool.false_eq_true,
        if_false, run', same]
      rw [if_pos behind']
      refine EpochsSame.trans ?_ epochsSame_clusterFailoverReplaceYourMaster
      exact .of_table rfl rfl

/-- The winner of an election has the epoch of the election. -/
theorem clusterBeforeSleep_won {call : ClusterState.SlaveCall}
    (raised : s.todo.handleFailover = true) (may : s.mayFailover = true)
    (won : (slaveFailover (s.failoverCall env call) s.size s.currentEpoch s.election).1 = .won)
    (behind : s.ownEpoch < s.election.failoverAuthEpoch) (there : s.live s.myself = true)
    : (s.clusterBeforeSleep env call).ownEpoch = s.election.failoverAuthEpoch
      ∧ ∀ r, r ≠ s.myself → s.live r = true →
          (s.clusterBeforeSleep env call).myself = s.myself
          ∧ (s.clusterBeforeSleep env call).configEpoch r = s.configEpoch r := by
  have rest : EpochsSame (s.clusterHandleSlaveFailover env call)
      (s.clusterBeforeSleep env call) := by
    unfold ClusterState.clusterBeforeSleep
    rw [if_pos raised]
    generalize s.clusterHandleSlaveFailover env call = t
    dsimp only
    refine .of_table ?_ ?_ <;> split <;> split <;> rfl
  have same := (clusterHandleSlaveFailover_won may won behind).trans rest
  have nodes : ∀ r, (s.wonEpoch s.election.failoverAuthEpoch).live r = s.live r :=
    fun r => modify_live _ _ _ r
  refine ⟨?_, fun r other here => ⟨same.myself, ?_⟩⟩
  · rw [ClusterState.ownEpoch, same.myself]
    refine (same.kept _ ((nodes _).trans there)).2.trans ?_
    obtain ⟨n, found⟩ := Option.isSome_iff_exists.mp there
    rw [ClusterState.configEpoch, ClusterState.wonEpoch, modify_nodes, if_pos rfl, found]
    rfl
  · refine (same.kept r ((nodes r).trans here)).2.trans ?_
    rw [ClusterState.configEpoch, ClusterState.wonEpoch, modify_nodes, if_neg other]
    rfl

end TakenEpochs

end Redis.Cluster
