import Redis.Cluster.GossipSection
import Redis.Cluster.Rearranging

/-! Failure reports are added by the gossip section only: everything else keeps some of them. -/

namespace Redis.Cluster

section ReportsKept

variable {env : ClusterEnv} {s s' s'' : ClusterState}

theorem ReportsKept.foldl {α : Type} {body : ClusterState → α → ClusterState} {items : List α}
    (round : ∀ s item, ReportsKept s (body s item))
    : ReportsKept s (items.foldl body s) := by
  induction items generalizing s with
  | nil => exact .refl s
  | cons item items ih => exact (round s item).trans ih

-- The table

theorem reportsKept_dropNode (r : NodeRef) : ReportsKept s (s.dropNode r) := by
  intro r'
  rw [ClusterState.failReports, ClusterState.nodes, ClusterState.dropNode, NodeTable.drop]
  by_cases here : r' = r
  · simp [here]
  · simp [here, ClusterState.failReports]

theorem reportsKept_clusterAddNode {n : ClusterNode} (none_ : n.failReports = [])
    : ReportsKept s (s.clusterAddNode n) := by
  refine step_either (.refl s) fun r => ?_
  rw [ClusterState.failReports, ClusterState.nodes, NodeTable.insert]
  by_cases here : r = s.table.next
  · simp [here, none_]
  · simp [here, ClusterState.failReports]

theorem reportsKept_clusterDoBeforeSleep (flags : TodoBeforeSleep)
    : ReportsKept s (s.clusterDoBeforeSleep flags) := .of_table rfl

theorem reportsKept_modify_todo {r : NodeRef} {f : ClusterNode → ClusterNode}
    {flags : TodoBeforeSleep} (same : ∀ n, (f n).failReports = n.failReports)
    : ReportsKept s ((s.modify r f).clusterDoBeforeSleep flags) :=
  (reportsKept_modify_same same).trans (reportsKept_clusterDoBeforeSleep flags)

theorem reportsKept_clusterRenameNode (r : NodeRef) (newname : NodeName)
    : ReportsKept s (s.clusterRenameNode r newname) :=
  step_either (reportsKept_dropNode r) (reportsKept_modify_same fun _ => rfl)

theorem reportsKept_clusterDelNode (r : NodeRef) : ReportsKept s (s.clusterDelNode env r) := by
  obtain ⟨t, step, same⟩ : ∃ t, Reshaped s t ∧ s.clusterDelNode env r = t.dropNode r :=
    rearranged_clusterDelNode r
  rw [same]
  exact step.reports.trans (reportsKept_dropNode r)

theorem reportsKept_takeEpoch : ReportsKept s s.takeEpoch :=
  ReportsKept.trans (.of_table rfl) (reportsKept_modify_same fun _ => rfl)

theorem reportsKept_clusterBumpConfigEpochWithoutConsensus
    : ReportsKept s s.clusterBumpConfigEpochWithoutConsensus :=
  step_either (reportsKept_takeEpoch.trans (reportsKept_clusterDoBeforeSleep _)) (.refl s)

theorem reportsKept_clusterSaveConfig (doFsync : Bool)
    : ReportsKept s (s.clusterSaveConfig doFsync) := .of_table rfl

-- Packets

theorem reportsKept_clusterSendMessage (destination : Option NodeRef) (message : ClusterMsg)
    : ReportsKept s (s.clusterSendMessage destination message) := .of_table rfl

theorem reportsKept_clusterBroadcastMessage (message : ClusterMsg)
    : ReportsKept s (s.clusterBroadcastMessage message) :=
  .foldl fun _ _ => reportsKept_clusterSendMessage _ _

theorem reportsKept_clusterBroadcastPong (localSlaves : Bool)
    : ReportsKept s (s.clusterBroadcastPong env localSlaves) :=
  .foldl fun _ _ => reportsKept_clusterSendMessage _ _

theorem reportsKept_clusterSendFailoverAuthIfNeeded (r : NodeRef) (request : ClusterMsg)
    : ReportsKept s (s.clusterSendFailoverAuthIfNeeded env r request) := by
  refine step_either ?_ (.refl s)
  have sent : ReportsKept s (s.clusterSendFailoverAuth r) :=
    step_either (.of_table rfl) (.refl s)
  refine sent.trans ?_
  dsimp only
  split
  · exact ReportsKept.trans (.of_table rfl) (reportsKept_modify_same fun _ => rfl)
  · exact .of_table rfl

theorem reportsKept_clusterStartHandshake (ip : List UInt8) (port : Nat)
    : ReportsKept s (s.clusterStartHandshake env ip port) := by
  unfold ClusterState.clusterStartHandshake
  cases env.normIp ip with
  | none => exact .refl s
  | some normIp =>
      exact step_either (.refl s)
        (step_either (.refl s) (reportsKept_clusterAddNode rfl))

theorem reportsKept_updateConfigEpoch (sender : NodeRef) (senderConfigEpoch : Nat)
    : ReportsKept s (s.updateConfigEpoch sender senderConfigEpoch) :=
  step_either
    (reportsKept_modify_todo fun _ => rfl)
    (.refl s)

theorem reportsKept_updateSender (hdr : ClusterMsg) (sender : NodeRef)
    : ReportsKept s (s.updateSender hdr sender) := by
  have seen : ReportsKept s (s.seeCurrentEpoch hdr.currentEpoch) := .of_table rfl
  have offset : ∀ t : ClusterState, ReportsKept t (t.updateReplOffset hdr sender) := by
    intro t
    have modified : ReportsKept t
        (t.modify sender fun n => { n with replOffset := hdr.offset }) :=
      reportsKept_modify_same fun _ => rfl
    exact modified.trans (.of_table rfl)
  exact (seen.trans (reportsKept_updateConfigEpoch sender _)).trans (offset _)

theorem reportsKept_addMeetSender (arrival : ClusterState.Arrival) (hdr : ClusterMsg)
    : ReportsKept s (s.addMeetSender env arrival hdr) :=
  (reportsKept_clusterAddNode rfl).trans (reportsKept_clusterDoBeforeSleep _)

theorem reportsKept_answerKnown (arrival : ClusterState.Arrival) (isMeet : Bool)
    : ReportsKept s (s.answerKnown env arrival isMeet) :=
  (quiet_updateOwnAddress arrival isMeet : Plain env _ _).fewer.trans
    (reportsKept_clusterSendMessage _ _)

theorem reportsKept_processHandshake (arrival : ClusterState.Arrival) (hdr : ClusterMsg)
    (sender : Option NodeRef)
    : ReportsKept s (s.processHandshake env arrival hdr sender).2 := by
  unfold ClusterState.processHandshake
  cases arrival.linkNode with
  | none => exact .refl s
  | some node =>
      dsimp only
      split
      · cases sender with
        | none =>
            refine ReportsKept.trans ?_ (reportsKept_clusterDoBeforeSleep _)
            exact (reportsKept_clusterRenameNode node hdr.sender).trans
              (reportsKept_modify_same fun _ => rfl)
        | some sender =>
            exact (quiet_nodeUpdateAddressIfNeeded arrival sender hdr.port : Plain env _
              _).fewer.trans
              (reportsKept_clusterDelNode node)
      split
      · exact reportsKept_modify_todo fun _ => rfl
      · exact .refl s

theorem reportsKept_updateSlots (env : ClusterEnv) (hdr : ClusterMsg) (senderConfigEpoch : Nat)
    (sender : NodeRef)
    : ReportsKept s (s.updateSlots hdr senderConfigEpoch sender) := by
  have updated : ReportsKept s
      (if s.nodeIsMaster sender then
        s.clusterUpdateSlotsConfigWith sender senderConfigEpoch hdr.myslots
      else s) :=
    step_either (rearranged_clusterUpdateSlotsConfigWith _ _ _).reports (.refl s)
  have informed : ∀ t : ClusterState, Plain env t (t.informSender hdr sender senderConfigEpoch) :=
    fun _ => quiet_informSender hdr sender senderConfigEpoch
  exact step_either (updated.trans (informed _).fewer) (.refl s)

theorem reportsKept_resolveCollision (senderConfigEpoch : Nat) (sender : NodeRef)
    : ReportsKept s (s.resolveCollision senderConfigEpoch sender) := by
  refine step_either (step_either (.refl s) (step_either (.refl s) ?_)) (.refl s)
  exact reportsKept_takeEpoch.trans (reportsKept_clusterSaveConfig true)

theorem reportsKept_senderUpdated (arrival : ClusterState.Arrival) (hdr : ClusterMsg)
    (sender : NodeRef) (senderConfigEpoch : Nat) (isPing isMeet : Bool)
    : ReportsKept s
        (s.senderUpdated env arrival hdr sender senderConfigEpoch isPing isMeet) := by
  have linked : Plain env s ((s.updateSenderAddress arrival hdr (some sender) isPing).updateLinkNode
      env arrival (!isPing && !isMeet)) :=
    (quiet_updateSenderAddress arrival hdr (some sender) isPing).trans
      (quiet_updateLinkNode arrival _)
  have claimed : ∀ t : ClusterState, ReportsKept t
      (((t.roleSwitch hdr sender).updateSlots hdr senderConfigEpoch sender).resolveCollision
        senderConfigEpoch sender) :=
    fun _ =>
      ((rearranged_roleSwitch hdr sender).reports.trans (reportsKept_updateSlots env _ _ _)).trans
      (reportsKept_resolveCollision _ _)
  exact linked.fewer.trans (claimed _)

theorem reportsKept_strangerUpdated (arrival : ClusterState.Arrival) (hdr : ClusterMsg)
    (isPing isMeet : Bool)
    : ReportsKept s (s.strangerUpdated env arrival hdr isPing isMeet) := by
  have shaken : ReportsKept s (s.processHandshake env arrival hdr none).2 :=
    reportsKept_processHandshake arrival hdr none
  refine step_either shaken (shaken.trans ?_)
  exact ((quiet_updateSenderAddress _ _ _ _).trans (quiet_updateLinkNode _ _) : Plain env _ _).fewer

theorem reportsKept_answer (arrival : ClusterState.Arrival) (isPing isMeet : Bool)
    : ReportsKept s (if isPing || isMeet then s.answerKnown env arrival isMeet else s) :=
  step_either (reportsKept_answerKnown arrival isMeet) (.refl s)

theorem reportsKept_gossipStart {arrival : ClusterState.Arrival} {hdr : ClusterMsg}
    {sender : Option NodeRef} {senderConfigEpoch : Nat} {isPing isMeet : Bool}
    (start : s.gossipStart env arrival hdr sender senderConfigEpoch isPing isMeet = some s')
    : ReportsKept s s' := by
  cases sender with
  | none =>
      simp only [ClusterState.gossipStart, Option.ite_none_right_eq_some, Option.some.injEq]
        at start
      obtain ⟨_, rfl⟩ := start
      exact (quiet_updateOwnAddress arrival true : Plain env _ _).fewer.trans
        (reportsKept_addMeetSender arrival hdr)
  | some sender =>
      simp only [ClusterState.gossipStart, Option.ite_none_right_eq_some, Option.some.injEq]
        at start
      obtain ⟨_, rfl⟩ := start
      have shaken : ∀ t : ClusterState, ReportsKept t
          ((t.processHandshake env arrival hdr (some sender)).2.senderUpdated env arrival hdr
            sender senderConfigEpoch isPing isMeet) :=
        fun _ => (reportsKept_processHandshake arrival hdr _).trans
          (reportsKept_senderUpdated _ _ _ _ _ _)
      exact ReportsKept.trans (reportsKept_answer arrival isPing isMeet) (shaken _)

theorem reportsKept_behindGossip (arrival : ClusterState.Arrival) (hdr : ClusterMsg)
    (sender : Option NodeRef) (isPing isMeet : Bool)
    : ReportsKept s (s.behindGossip env arrival hdr sender isPing isMeet) := by
  cases sender with
  | none =>
      exact (reportsKept_clusterSendMessage _ _).trans
        (reportsKept_strangerUpdated arrival hdr isPing isMeet)
  | some sender => exact .refl s

theorem reportsKept_withoutGossip (arrival : ClusterState.Arrival) (hdr : ClusterMsg)
    (sender : Option NodeRef) (isPing isMeet : Bool)
    : ReportsKept s (s.withoutGossip env arrival hdr sender isPing isMeet) := by
  cases sender with
  | none =>
      exact (reportsKept_answer arrival isPing isMeet).trans
        (reportsKept_strangerUpdated arrival hdr isPing isMeet)
  | some sender =>
      exact (reportsKept_answer arrival isPing isMeet).trans
        (reportsKept_processHandshake arrival hdr _)

theorem reportsKept_processAuthAck (sender : NodeRef) (senderCurrentEpoch : Nat)
    : ReportsKept s (s.processAuthAck sender senderCurrentEpoch) := by
  refine ReportsKept.trans ?_ (.of_table rfl)
  exact step_either (reportsKept_clusterDoBeforeSleep _) (.refl s)

theorem reportsKept_processUpdate (epoch : Nat) (nodename : NodeName) (slots : Slot → Bool)
    : ReportsKept s (s.processUpdate epoch nodename slots) := by
  unfold ClusterState.processUpdate
  cases s.clusterLookupNode nodename with
  | none => exact .refl s
  | some r =>
      refine step_either (.refl s) ?_
      refine ReportsKept.trans ?_ (rearranged_clusterUpdateSlotsConfigWith _ _ _).reports
      have promoted : ReportsKept s
          (if s.nodeIsSlave r then s.clusterSetNodeAsMaster r else s) :=
        step_either (rearranged_clusterSetNodeAsMaster r).reports (.refl s)
      exact promoted.trans (reportsKept_modify_todo fun _ => rfl)

/-- The reports are kept up to the gossip section and behind it. -/
def KeptAround (env : ClusterEnv) (linkNode : Option NodeRef) (hdr : ClusterMsg)
    (s s' : ClusterState) : Option (ClusterState × List Gossip) → Prop
  | none => ReportsKept s s'
  | some (t, gossip) =>
      ReportsKept s t
      ∧ ReportsKept (t.clusterProcessGossipSection env linkNode hdr gossip) s'

theorem KeptAround.after {linkNode : Option NodeRef} {hdr : ClusterMsg}
    {call : Option (ClusterState × List Gossip)} (first : ReportsKept s s')
    (around : KeptAround env linkNode hdr s' s'' call)
    : KeptAround env linkNode hdr s s'' call := by
  cases call with
  | none => exact first.trans around
  | some call => exact ⟨first.trans around.1, around.2⟩

theorem keptAround_processPing (arrival : ClusterState.Arrival) (hdr : ClusterMsg)
    (sender : Option NodeRef) (senderConfigEpoch : Nat) (isPing isMeet : Bool)
    (gossip : List Gossip)
    : KeptAround env arrival.linkNode hdr s
        (s.processPing env arrival hdr sender senderConfigEpoch isPing isMeet gossip)
        ((s.gossipStart env arrival hdr sender senderConfigEpoch isPing isMeet).map
          (·, gossip)) := by
  rw [ClusterState.processPing_gossip]
  cases start : s.gossipStart env arrival hdr sender senderConfigEpoch isPing isMeet with
  | none => exact reportsKept_withoutGossip arrival hdr sender isPing isMeet
  | some t =>
      exact ⟨reportsKept_gossipStart start,
        reportsKept_behindGossip arrival hdr sender isPing isMeet⟩

theorem keptAround_processData (arrival : ClusterState.Arrival) (hdr : ClusterMsg)
    (sender : Option NodeRef) (senderCurrentEpoch senderConfigEpoch : Nat)
    : KeptAround env arrival.linkNode hdr s
        (s.processData env arrival hdr sender senderCurrentEpoch senderConfigEpoch)
        (s.gossipOfData env arrival hdr sender senderConfigEpoch) := by
  unfold ClusterState.processData ClusterState.gossipOfData
  cases hdr.data with
  | ping gossip =>
      exact keptAround_processPing arrival hdr sender senderConfigEpoch true false gossip
  | pong gossip =>
      exact keptAround_processPing arrival hdr sender senderConfigEpoch false false gossip
  | meet gossip =>
      exact keptAround_processPing arrival hdr sender senderConfigEpoch false true gossip
  | publish => exact .refl s
  | fail about => exact step_either (quiet_processFail about : Plain env _ _).fewer (.refl s)
  | failoverAuthRequest =>
      cases sender with
      | none => exact .refl s
      | some r => exact reportsKept_clusterSendFailoverAuthIfNeeded r hdr
  | failoverAuthAck =>
      cases sender with
      | none => exact .refl s
      | some r => exact reportsKept_processAuthAck r senderCurrentEpoch
  | mfstart =>
      cases sender with
      | none => exact .refl s
      | some r => exact (rearranged_processMfstart r).reports
  | update epoch nodename slots =>
      exact step_either (reportsKept_processUpdate epoch nodename slots) (.refl s)

theorem keptAround_processChecked (env : ClusterEnv) (s : ClusterState)
    (arrival : ClusterState.Arrival) (hdr : ClusterMsg)
    : KeptAround env arrival.linkNode hdr s (s.processChecked env arrival hdr)
        (s.gossipCall env arrival hdr) := by
  unfold ClusterState.processChecked ClusterState.gossipCall
  cases s.clusterLookupNode hdr.sender with
  | none => exact keptAround_processData arrival hdr none 0 0
  | some sender =>
      dsimp only
      split
      · exact keptAround_processData arrival hdr (some sender) 0 0
      · exact .after (reportsKept_updateSender hdr sender) (keptAround_processData ..)

-- Commands and the periodic functions

theorem reportsKept_clusterFailoverReplaceYourMaster
    : ReportsKept s (s.clusterFailoverReplaceYourMaster env) := by
  unfold ClusterState.clusterFailoverReplaceYourMaster
  cases s.slaveof s.myself with
  | none => exact .refl s
  | some oldmaster =>
      refine step_either (.refl s) ?_
      have saved : ∀ t : ClusterState,
          ReportsKept t ((t.clusterUpdateState env).clusterSaveConfig true) :=
            fun _ => .of_table rfl
      have told : ∀ t : ClusterState,
          ReportsKept t (t.clusterBroadcastPong env false).resetManualFailover :=
        fun t => (reportsKept_clusterBroadcastPong false).trans (.of_table rfl)
      exact ((rearranged_replaceMaster oldmaster).reports.trans (saved _)).trans (told _)

theorem reportsKept_clusterHandleSlaveFailover (call : ClusterState.SlaveCall)
    : ReportsKept s (s.clusterHandleSlaveFailover env call) := by
  unfold ClusterState.clusterHandleSlaveFailover
  have noted : ReportsKept s { s with todo := { s.todo with handleFailover := false } } :=
    .of_table rfl
  refine noted.trans ?_
  generalize { s with todo := { s.todo with handleFailover := false } } = t
  refine step_either (.refl t) ?_
  rcases slaveFailover (t.failoverCall env call) t.size t.currentEpoch t.election with
    ⟨attempt, currentEpoch, election⟩
  have chosen : ReportsKept t { t with election } := .of_table rfl
  cases attempt with
  | waits => exact chosen
  | scheduled => exact chosen.trans (reportsKept_clusterBroadcastPong true)
  | requested =>
      have started : ReportsKept t { t with currentEpoch, election } := .of_table rfl
      exact (started.trans (reportsKept_clusterBroadcastMessage _)).trans
        (reportsKept_clusterDoBeforeSleep _)
  | won =>
      refine (chosen.trans ?_).trans reportsKept_clusterFailoverReplaceYourMaster
      exact step_either (reportsKept_modify_same fun _ => rfl) (.refl _)

theorem reportsKept_clusterBeforeSleep (call : ClusterState.SlaveCall)
    : ReportsKept s (s.clusterBeforeSleep env call) := by
  have failover : ReportsKept s
      (if s.todo.handleFailover then s.clusterHandleSlaveFailover env call else s) :=
    step_either (reportsKept_clusterHandleSlaveFailover call) (.refl s)
  have updated : ∀ t : ClusterState,
      ReportsKept t (if t.todo.updateState then t.clusterUpdateState env else t) :=
    fun t => step_either (.of_table rfl) (.refl t)
  have saved : ∀ t : ClusterState, ReportsKept t
      (if t.todo.saveConfig then t.clusterSaveConfig t.todo.fsyncConfig else t) :=
    fun t => step_either (.of_table rfl) (.refl t)
  exact ((failover.trans (updated _)).trans (saved _)).trans (.of_table rfl)

theorem reportsKept_clusterCron (step : ClusterState.CronStep)
    : ReportsKept s (s.clusterCron env step) := by
  cases step with
  | handshakeTimeout r => exact step_either (reportsKept_clusterDelNode r) (.refl s)
  | failover call =>
      refine rearranged_manualFailoverCheckTimeout.reports.trans (step_either ?_ (.refl _))
      exact (rearranged_clusterHandleManualFailover call).reports.trans
        (reportsKept_clusterHandleSlaveFailover call)
  | migrate target => exact step_either (rearranged_clusterSetMaster target).reports (.refl s)
  | updateState => exact .of_table rfl
  | _ => exact (quiet_clusterCron (by simp) : Plain env s _).fewer

theorem reportsKept_setslotNode (keys : ClusterState.KeyCounts) (slot : Slot) (node : NodeName)
    : ReportsKept s (s.setslotNode keys slot node) := by
  unfold ClusterState.setslotNode
  cases s.clusterLookupNode node with
  | none => exact .refl s
  | some n =>
      refine step_either (.refl s) ?_
      have migrated : ReportsKept s (s.setslotMigrated keys slot) :=
        step_either (.of_table rfl) (.refl s)
      have imported : ∀ t : ClusterState, ReportsKept t (t.setslotImported slot n) := by
        refine fun t => step_either ?_ (.refl t)
        exact reportsKept_clusterBumpConfigEpochWithoutConsensus.trans (.of_table rfl)
      refine ReportsKept.trans ?_ (reportsKept_clusterDoBeforeSleep _)
      exact ((migrated.trans (imported _)).trans (rearranged_clusterDelSlot slot).reports).trans
        (rearranged_clusterAddSlot n slot).reports

theorem reportsKept_clusterFailover (force takeover : Bool)
    : ReportsKept s (s.clusterFailover env force takeover) := by
  refine step_either (.refl s) ?_
  cases s.slaveof s.myself with
  | none => exact .refl s
  | some master =>
      refine step_either (.refl s) ?_
      have started : ReportsKept s { s.resetManualFailover with mfEnd := env.mstime + 5000 } :=
        .of_table rfl
      refine started.trans (step_either ?_ (step_either (.of_table rfl)
        (step_either (reportsKept_clusterSendMessage _ _) (.refl _))))
      exact reportsKept_clusterBumpConfigEpochWithoutConsensus.trans
        reportsKept_clusterFailoverReplaceYourMaster

theorem reportsKept_clusterReset (hard : Bool) (newname : NodeName)
    : ReportsKept s (s.clusterReset env hard newname) := by
  have deleted : ∀ t : ClusterState, ReportsKept t
      (t.refs.foldl (fun s r => if r = s.myself then s else s.clusterDelNode env r) t) :=
    fun _ => .foldl fun s r => step_either (.refl s) (reportsKept_clusterDelNode r)
  have renamed : ∀ t : ClusterState, ReportsKept t
      (if hard then
        { t with currentEpoch := 0, lastVoteEpoch := 0 }.modify t.myself fun n =>
          { n with configEpoch := 0, name := newname }
      else t) := by
    refine fun t => step_either ?_ (.refl t)
    exact ReportsKept.trans (.of_table rfl) (reportsKept_modify_same fun _ => rfl)
  exact ((rearranged_emptied.reports.trans (deleted _)).trans (renamed _)).trans
    (reportsKept_clusterDoBeforeSleep _)

/-- No subcommand adds a failure report. -/
theorem reportsKept_clusterCommand (keys : ClusterState.KeyCounts)
    (sub : ClusterState.ClusterSubcommand)
    : ReportsKept s (s.clusterCommand env keys sub) := by
  unfold ClusterState.clusterCommand
  cases sub with
  | meet ip port => exact reportsKept_clusterStartHandshake ip port
  | flushslots =>
      refine step_either (.refl s) ?_
      exact (rearranged_clusterDelNodeSlots _).reports.trans (reportsKept_clusterDoBeforeSleep _)
  | addslots slots => exact (rearranged_changeSlots false slots).reports
  | delslots slots => exact (rearranged_changeSlots true slots).reports
  | setslotMigrating slot node =>
      dsimp only
      cases s.clusterLookupNode node with
      | none => exact .refl s
      | some n => exact step_either (.refl s) (.of_table rfl)
  | setslotImporting slot node =>
      dsimp only
      cases s.clusterLookupNode node with
      | none => exact .refl s
      | some n => exact step_either (.refl s) (.of_table rfl)
  | setslotStable slot => exact .of_table rfl
  | setslotNode slot node => exact reportsKept_setslotNode keys slot node
  | forget node =>
      dsimp only
      cases s.clusterLookupNode node with
      | none => exact .refl s
      | some n =>
          refine step_either (.refl s) ?_
          have listed : ReportsKept s (s.clusterBlacklistAddNode env n) := .of_table rfl
          exact (listed.trans (reportsKept_clusterDelNode n)).trans
            (reportsKept_clusterDoBeforeSleep _)
  | replicate node =>
      dsimp only
      cases s.clusterLookupNode node with
      | none => exact .refl s
      | some n =>
          refine step_either (.refl s) (step_either (.refl s) ?_)
          exact (rearranged_clusterSetMaster n).reports.trans (reportsKept_clusterDoBeforeSleep _)
  | failover force takeover => exact reportsKept_clusterFailover force takeover
  | setConfigEpoch epoch =>
      refine step_either (.refl s) ?_
      refine ReportsKept.trans ?_ (reportsKept_clusterDoBeforeSleep _)
      exact ReportsKept.trans (.of_table rfl) (reportsKept_modify_same fun _ => rfl)
  | reset hard => exact step_either (.refl s) (reportsKept_clusterReset hard _)

-- Starting

/-- The configuration file and the send buffers are left alone. -/
structure FileKept (s s' : ClusterState) : Prop where
  conf : s'.conf = s.conf
  sent : s'.sent = s.sent

structure LoadStep (s s' : ClusterState) : Prop extends FileKept s s' where
  reports : ReportsKept s s'

theorem LoadStep.refl (s : ClusterState) : LoadStep s s := ⟨⟨rfl, rfl⟩, .refl s⟩

theorem LoadStep.trans (first : LoadStep s s') (second : LoadStep s' s'') : LoadStep s s'' :=
  ⟨⟨second.conf.trans first.conf, second.sent.trans first.sent⟩, first.reports.trans second.reports⟩

theorem LoadStep.foldl {α : Type} {body : ClusterState → α → ClusterState} {items : List α}
    (round : ∀ s item, LoadStep s (body s item))
    : LoadStep s (items.foldl body s) := by
  induction items generalizing s with
  | nil => exact .refl s
  | cons item items ih => exact (round s item).trans ih

theorem loadStep_lookupOrCreate (name : NodeName)
    : LoadStep s (s.lookupOrCreate env name).2 := by
  unfold ClusterState.lookupOrCreate
  cases s.clusterLookupNode name with
  | none => exact ⟨step_either ⟨rfl, rfl⟩ ⟨rfl, rfl⟩, reportsKept_clusterAddNode rfl⟩
  | some r => exact .refl s

theorem loadStep_loadLine (line : NodeLine) : LoadStep s (s.loadLine env line) := by
  have fields : ∀ (t : ClusterState) (r : NodeRef), LoadStep t (t.loadFields env line r) := by
    refine fun t r => ⟨step_either ⟨rfl, rfl⟩ ⟨rfl, rfl⟩, ?_⟩
    refine step_either (ReportsKept.trans ?_ (.of_table rfl)) ?_
    · exact reportsKept_modify_same fun _ => rfl
    · exact reportsKept_modify_same fun _ => rfl
  have master : ∀ (t : ClusterState) (r : NodeRef),
      LoadStep t (t.loadMaster env line.slaveof r) := by
    intro t r
    unfold ClusterState.loadMaster
    cases line.slaveof with
    | none => exact .refl t
    | some name =>
        refine (loadStep_lookupOrCreate name).trans ⟨⟨rfl, rfl⟩, ?_⟩
        refine ReportsKept.trans ?_ (rearranged_clusterNodeAddSlave _ _).reports
        exact reportsKept_modify_same fun _ => rfl
  have times : ∀ (t : ClusterState) (r : NodeRef), LoadStep t (t.loadTimes env line r) :=
    fun t r => ⟨⟨rfl, rfl⟩, reportsKept_modify_same fun _ => rfl⟩
  have slots : ∀ (t : ClusterState) (r : NodeRef), LoadStep t (t.loadSlots line.slots r) := by
    refine fun t r => .foldl fun u slot => step_either ?_ (.refl u)
    have added := rearranged_clusterAddSlot r slot (s := u)
    exact ⟨⟨added.conf, added.sent⟩, added.reports⟩
  have opened : ∀ t : ClusterState, LoadStep t (t.loadOpenSlots env line) := by
    refine fun t => .foldl fun u slot => ?_
    dsimp only
    split
    · exact (loadStep_lookupOrCreate _).trans ⟨⟨rfl, rfl⟩, .of_table rfl⟩
    · exact (loadStep_lookupOrCreate _).trans ⟨⟨rfl, rfl⟩, .of_table rfl⟩
    · exact .refl u
  exact (((((loadStep_lookupOrCreate line.name).trans (fields _ _)).trans (master _ _)).trans
    (times _ _)).trans (slots _ _)).trans (opened _)

theorem loadStep_loadNodes (lines : List NodeLine) : LoadStep s (s.loadNodes env lines) :=
  .foldl fun _ line => loadStep_loadLine line

theorem clusterLoadConfig_failReports (env : ClusterEnv) (conf : SavedConfig) (authSent : Bool)
    (r : NodeRef)
    : (ClusterState.clusterLoadConfig env conf authSent).failReports r = [] := by
  have loaded : ReportsKept (.empty conf authSent)
      (ClusterState.clusterLoadConfig env conf authSent) :=
    (loadStep_loadNodes conf.nodes).reports.trans (.of_table rfl)
  exact List.sublist_nil.mp (loaded r)

theorem clusterInit_failReports (env : ClusterEnv) (name : NodeName) (authSent : Bool)
    (r : NodeRef)
    : (ClusterState.clusterInit env name authSent).failReports r = [] := by
  have added : ReportsKept (.empty ⟨[], 0, 0⟩ authSent)
      ((ClusterState.empty ⟨[], 0, 0⟩ authSent).clusterAddNode
        (createClusterNode name { myself := true, master := true } env.mstime)) :=
    reportsKept_clusterAddNode rfl
  have started : ReportsKept (.empty ⟨[], 0, 0⟩ authSent)
      (ClusterState.clusterInit env name authSent) :=
    (added.trans (reportsKept_clusterSaveConfig true)).trans (reportsKept_modify_same fun _ => rfl)
  exact List.sublist_nil.mp (started r)

end ReportsKept

end Redis.Cluster
