import Redis.Cluster.Commands
import Redis.Cluster.Quiet

/-! Steps that rearrange the table: they change roles, masters, slaves and slots and delete nodes,
and keep the epochs.
-/

namespace Redis.Cluster

/-- Only roles, the master and slave relation, slots and the manual failover change; nodes may be
deleted.
-/
structure Rearranged (s s' : ClusterState) : Prop where
  myself : s'.myself = s.myself
  currentEpoch : s'.currentEpoch = s.currentEpoch
  lastVoteEpoch : s'.lastVoteEpoch = s.lastVoteEpoch
  election : s'.election = s.election
  conf : s'.conf = s.conf
  sent : s'.sent = s.sent
  nextRef : s'.nextRef = s.nextRef
  node : ∀ r n', s'.nodes r = some n' → ∃ n, s.nodes r = some n ∧ n'.name = n.name
    ∧ n'.configEpoch = n.configEpoch ∧ n'.flags.handshake = n.flags.handshake
  kept : ∀ r, s.live r = true → s'.live r = true
  saveConfig : s.todo.saveConfig = true → s'.todo.saveConfig = true

/-- The table is rearranged, and no report is added. -/
structure Reshaped (s s' : ClusterState) : Prop extends Rearranged s s' where
  reports : ReportsKept s s'

section Rearranged

variable {env : ClusterEnv} {s s' s'' : ClusterState} {f : ClusterNode → ClusterNode}

theorem Rearranged.refl (s : ClusterState) : Rearranged s s where
  myself := rfl
  currentEpoch := rfl
  lastVoteEpoch := rfl
  election := rfl
  conf := rfl
  sent := rfl
  nextRef := rfl
  node _ n found := ⟨n, found, rfl, rfl, rfl⟩
  kept _ there := there
  saveConfig raised := raised

theorem Rearranged.trans (first : Rearranged s s') (second : Rearranged s' s'')
    : Rearranged s s'' where
  myself := second.myself.trans first.myself
  currentEpoch := second.currentEpoch.trans first.currentEpoch
  lastVoteEpoch := second.lastVoteEpoch.trans first.lastVoteEpoch
  election := second.election.trans first.election
  conf := second.conf.trans first.conf
  sent := second.sent.trans first.sent
  nextRef := second.nextRef.trans first.nextRef
  node r n'' found := by
    obtain ⟨n', found', name', epoch', handshake'⟩ := second.node r n'' found
    obtain ⟨n, before, name, epoch, handshake⟩ := first.node r n' found'
    exact ⟨n, before, name'.trans name, epoch'.trans epoch, handshake'.trans handshake⟩
  kept r there := second.kept r (first.kept r there)
  saveConfig raised := second.saveConfig (first.saveConfig raised)

theorem Reshaped.refl (s : ClusterState) : Reshaped s s := ⟨.refl s, .refl s⟩

theorem Reshaped.trans (first : Reshaped s s') (second : Reshaped s' s'') : Reshaped s s'' :=
  ⟨first.toRearranged.trans second.toRearranged, first.reports.trans second.reports⟩

theorem Reshaped.foldl {α : Type} {body : ClusterState → α → ClusterState} {items : List α}
    (round : ∀ s item, Reshaped s (body s item))
    : Reshaped s (items.foldl body s) := by
  induction items generalizing s with
  | nil => exact .refl s
  | cons item items ih => exact (round s item).trans ih

theorem Reshaped.forSlots {body : Slot → ClusterState → ClusterState}
    (round : ∀ slot s, Reshaped s (body slot s))
    : Reshaped s (s.forSlots body) :=
  Reshaped.foldl fun s slot => round slot s

-- The steps

theorem rearranged_modify {r : NodeRef}
    (same : ∀ n, (f n).name = n.name ∧ (f n).configEpoch = n.configEpoch
      ∧ (f n).flags.handshake = n.flags.handshake)
    : Rearranged s (s.modify r f) :=
  { Rearranged.refl s with
    node := fun r' n' found => by
      rw [modify_nodes] at found
      by_cases here : r' = r
      · subst here
        simp only [if_true, Option.map_eq_some_iff] at found
        obtain ⟨n, before, rfl⟩ := found
        exact ⟨n, before, same n⟩
      · simp only [here, if_false] at found
        exact ⟨n', found, rfl, rfl, rfl⟩
    kept := fun r' there => by rwa [modify_live] }

theorem reshaped_modify {r : NodeRef}
    (same : ∀ n, (f n).name = n.name ∧ (f n).configEpoch = n.configEpoch
      ∧ (f n).flags.handshake = n.flags.handshake ∧ (f n).failReports = n.failReports)
    : Reshaped s (s.modify r f) where
  toRearranged := rearranged_modify fun n => ⟨(same n).1, (same n).2.1, (same n).2.2.1⟩
  reports := reportsKept_modify fun n => (same n).2.2.2 ▸ .refl _

theorem rearranged_clusterDoBeforeSleep (flags : TodoBeforeSleep)
    : Reshaped s (s.clusterDoBeforeSleep flags) :=
  { Reshaped.refl s with
    saveConfig := fun raised => by simp [ClusterState.clusterDoBeforeSleep, raised] }

theorem rearranged_redisAssert (assertion : Assertion) (holds : Bool)
    : Reshaped s (s.redisAssert assertion holds) :=
  step_ite (fun _ => .refl s) fun _ => { Reshaped.refl s with }

theorem rearranged_clusterNodeRemoveSlave (master slave : NodeRef)
    : Reshaped s (s.clusterNodeRemoveSlave master slave) :=
  reshaped_modify fun _ => ⟨rfl, rfl, rfl, rfl⟩

theorem rearranged_clusterNodeAddSlave (master slave : NodeRef)
    : Reshaped s (s.clusterNodeAddSlave master slave) :=
  reshaped_modify fun n => by split <;> exact ⟨rfl, rfl, rfl, rfl⟩

theorem rearranged_leaveMaster (r : NodeRef) : Reshaped s (s.leaveMaster r) := by
  unfold ClusterState.leaveMaster
  cases s.slaveof r with
  | none => exact .refl s
  | some master => exact rearranged_clusterNodeRemoveSlave master r

theorem reshaped_modify_todo {r : NodeRef} {flags : TodoBeforeSleep}
    (same : ∀ n, (f n).name = n.name ∧ (f n).configEpoch = n.configEpoch
      ∧ (f n).flags.handshake = n.flags.handshake ∧ (f n).failReports = n.failReports)
    : Reshaped s ((s.modify r f).clusterDoBeforeSleep flags) :=
  (reshaped_modify same).trans (rearranged_clusterDoBeforeSleep flags)

theorem rearranged_clusterSetNodeAsMaster (r : NodeRef)
    : Reshaped s (s.clusterSetNodeAsMaster r) :=
  step_ite (fun _ => .refl s) fun _ =>
    (rearranged_leaveMaster r).trans (reshaped_modify_todo fun _ => ⟨rfl, rfl, rfl, rfl⟩)

theorem rearranged_setSlot (slot : Slot) (owner : Option NodeRef)
    : Reshaped s (s.setSlot slot owner) :=
  { Reshaped.refl s with }

theorem rearranged_clusterNodeSetSlotBit (r : NodeRef) (slot : Slot)
    : Reshaped s (s.clusterNodeSetSlotBit r slot) :=
  reshaped_modify fun _ => ⟨rfl, rfl, rfl, rfl⟩

theorem rearranged_clusterNodeClearSlotBit (r : NodeRef) (slot : Slot)
    : Reshaped s (s.clusterNodeClearSlotBit r slot) :=
  reshaped_modify fun _ => ⟨rfl, rfl, rfl, rfl⟩

theorem rearranged_clusterAddSlot (r : NodeRef) (slot : Slot)
    : Reshaped s (s.clusterAddSlot r slot) :=
  step_ite (fun _ => .refl s) fun _ =>
    (rearranged_clusterNodeSetSlotBit r slot).trans (rearranged_setSlot slot _)

theorem rearranged_clusterDelSlot (slot : Slot) : Reshaped s (s.clusterDelSlot slot) := by
  unfold ClusterState.clusterDelSlot
  cases s.slots slot with
  | none => exact .refl s
  | some r =>
      exact ((rearranged_redisAssert _ _).trans (rearranged_clusterNodeClearSlotBit r slot)).trans
        (rearranged_setSlot slot none)

theorem rearranged_clusterDelNodeSlots (r : NodeRef)
    : Reshaped s (s.clusterDelNodeSlots r) :=
  Reshaped.forSlots fun slot _ =>
    step_ite (fun _ => rearranged_clusterDelSlot slot) fun _ => .refl _

theorem rearranged_clusterNodeCleanupFailureReports (r : NodeRef)
    : Reshaped s (s.clusterNodeCleanupFailureReports env r) :=
  ⟨rearranged_modify fun _ => ⟨rfl, rfl, rfl⟩, reportsKept_modify fun _ => List.filter_sublist⟩

theorem rearranged_clusterNodeDelFailureReport (r sender : NodeRef)
    : Reshaped s (s.clusterNodeDelFailureReport env r sender) := by
  refine step_ite (fun _ => ?_) fun _ => .refl s
  refine Reshaped.trans ?_ (rearranged_clusterNodeCleanupFailureReports r)
  exact ⟨rearranged_modify fun _ => ⟨rfl, rfl, rfl⟩, reportsKept_modify fun _ =>
    List.eraseP_sublist⟩

theorem rearranged_detach (r : NodeRef)
    : ∃ t, Reshaped s t ∧ s.freeClusterNode r = t.dropNode r := by
  have orphaned : Reshaped s (if s.nodeIsMaster r then s.orphanSlaves r else s) :=
    step_ite (fun _ => Reshaped.foldl fun _ _ =>
      reshaped_modify fun _ => ⟨rfl, rfl, rfl, rfl⟩) fun _ => .refl s
  refine ⟨_, orphaned.trans ?_, rfl⟩
  exact step_ite (fun _ => rearranged_leaveMaster r) fun _ => .refl _

theorem rearranged_releaseSlots (r : NodeRef) : Reshaped s (s.releaseSlots r) := by
  refine Reshaped.forSlots fun slot s => ?_
  have importing : Reshaped s (s.closeImporting r slot) :=
    step_ite (fun _ => { Reshaped.refl s with }) fun _ => .refl s
  have migrating : Reshaped (s.closeImporting r slot)
      ((s.closeImporting r slot).closeMigrating r slot) :=
    step_ite (fun _ => { Reshaped.refl _ with }) fun _ => .refl _
  refine (importing.trans migrating).trans ?_
  exact step_ite (fun _ => rearranged_clusterDelSlot slot) fun _ => .refl _

theorem rearranged_removeReports (r : NodeRef) : Reshaped s (s.removeReports env r) :=
  Reshaped.foldl fun s node =>
    step_ite (fun _ => .refl s) fun _ => rearranged_clusterNodeDelFailureReport node r

theorem rearranged_clusterDelNode (r : NodeRef)
    : ∃ t, Reshaped s t ∧ s.clusterDelNode env r = t.dropNode r := by
  have released : Reshaped s ((s.releaseSlots r).removeReports env r) :=
    (rearranged_releaseSlots r).trans (rearranged_removeReports r)
  obtain ⟨t, detached, same⟩ := rearranged_detach r (s := (s.releaseSlots r).removeReports env r)
  exact ⟨t, released.trans detached, same⟩

theorem Rearranged.linkLive {linkNode : Option NodeRef} (step : Rearranged s s')
    (live : LinkLive s linkNode)
    : LinkLive s' linkNode :=
  fun r is => step.kept r (live r is)

-- Masters and slots

theorem rearranged_resetManualFailover : Reshaped s s.resetManualFailover :=
  { Reshaped.refl s with }

theorem rearranged_clusterCloseAllSlots : Reshaped s s.clusterCloseAllSlots :=
  { Reshaped.refl s with }

theorem rearranged_clusterSetMaster (r : NodeRef) : Reshaped s (s.clusterSetMaster r) := by
  have asserted : Reshaped s (s.assertSetMaster r) :=
    (rearranged_redisAssert _ _).trans (rearranged_redisAssert _ _)
  have left : Reshaped (s.assertSetMaster r) (s.assertSetMaster r).leaveRole := by
    refine step_ite (fun _ => ?_) fun _ => rearranged_leaveMaster _
    refine Reshaped.trans ?_ rearranged_clusterCloseAllSlots
    exact reshaped_modify fun _ => ⟨rfl, rfl, rfl, rfl⟩
  refine Reshaped.trans (Reshaped.trans ((asserted.trans left).trans ?_)
    (rearranged_clusterNodeAddSlave r s.myself)) rearranged_resetManualFailover
  exact reshaped_modify fun _ => ⟨rfl, rfl, rfl, rfl⟩

theorem rearranged_updateSlot (sender : NodeRef) (senderConfigEpoch : Nat) (slots : Slot → Bool)
    (curmaster : Option NodeRef) (slot : Slot) (newmaster : Bool)
    : Reshaped s
        (s.updateSlot sender senderConfigEpoch slots curmaster slot newmaster).2 := by
  unfold ClusterState.updateSlot
  split
  · exact .refl s
  split
  · exact ((rearranged_clusterDelSlot slot).trans (rearranged_clusterAddSlot sender slot)).trans
      (rearranged_clusterDoBeforeSleep _)
  · exact .refl s

theorem rearranged_updateAllSlots (sender : NodeRef) (senderConfigEpoch : Nat)
    (slots : Slot → Bool) (curmaster : Option NodeRef)
    : Reshaped s (s.updateAllSlots sender senderConfigEpoch slots curmaster).2 := by
  unfold ClusterState.updateAllSlots
  generalize false = newmaster
  induction List.finRange redisClusterSlots generalizing s newmaster with
  | nil => exact .refl s
  | cons slot rest ih => exact (rearranged_updateSlot _ _ _ _ _ _).trans (ih _)

theorem rearranged_followNewMaster (sender : NodeRef) (curmaster : Option NodeRef)
    : Reshaped s (s.followNewMaster sender curmaster) := by
  cases curmaster with
  | none => exact rearranged_redisAssert _ _
  | some master =>
      exact step_ite (fun _ =>
        (rearranged_clusterSetMaster sender).trans (rearranged_clusterDoBeforeSleep _))
        fun _ => .refl _

/-- Taking over slots keeps the epochs. -/
theorem rearranged_clusterUpdateSlotsConfigWith (sender : NodeRef) (senderConfigEpoch : Nat)
    (slots : Slot → Bool)
    : Reshaped s (s.clusterUpdateSlotsConfigWith sender senderConfigEpoch slots) := by
  refine step_ite (fun _ => .refl s) fun _ => ?_
  have updated := rearranged_updateAllSlots sender senderConfigEpoch slots
    (if s.nodeIsMaster s.myself then some s.myself else s.slaveof s.myself) (s := s)
  exact step_ite (fun _ => updated.trans (rearranged_followNewMaster sender _))
    fun _ => updated

theorem rearranged_clusterNodeResetSlaves (r : NodeRef)
    : Reshaped s (s.clusterNodeResetSlaves r) :=
  reshaped_modify fun _ => ⟨rfl, rfl, rfl, rfl⟩

theorem rearranged_demote (sender : NodeRef) : Reshaped s (s.demote sender) := by
  refine Reshaped.trans ?_ (rearranged_clusterDoBeforeSleep _)
  refine Reshaped.trans ?_ (rearranged_clusterNodeResetSlaves sender)
  refine (rearranged_clusterDelNodeSlots sender).trans ?_
  exact reshaped_modify fun _ => ⟨rfl, rfl, rfl, rfl⟩

theorem rearranged_changeMaster (sender master : NodeRef)
    : Reshaped s (s.changeMaster sender master) := by
  refine Reshaped.trans ?_ (reshaped_modify_todo fun _ => ⟨rfl, rfl, rfl, rfl⟩)
  exact (rearranged_leaveMaster sender).trans (rearranged_clusterNodeAddSlave master sender)

theorem rearranged_followMaster (sender : NodeRef) (master : Option NodeRef)
    : Reshaped s (s.followMaster sender master) := by
  cases master with
  | none => exact .refl s
  | some master =>
      exact step_ite (fun _ => .refl s) fun _ => rearranged_changeMaster sender master

theorem rearranged_roleSwitch (hdr : ClusterMsg) (sender : NodeRef)
    : Reshaped s (s.roleSwitch hdr sender) := by
  refine step_ite (fun _ => rearranged_clusterSetNodeAsMaster sender) fun _ => ?_
  have demoted : Reshaped s (if s.nodeIsMaster sender then s.demote sender else s) :=
    step_ite (fun _ => rearranged_demote sender) fun _ => .refl s
  exact demoted.trans (rearranged_followMaster sender _)

theorem rearranged_claimSlots (oldmaster : NodeRef) : Reshaped s (s.claimSlots oldmaster) :=
  Reshaped.forSlots fun slot _ =>
    step_ite (fun _ => (rearranged_clusterDelSlot slot).trans
      (rearranged_clusterAddSlot _ slot)) fun _ => .refl _

theorem rearranged_replaceMaster (oldmaster : NodeRef)
    : Reshaped s ((s.clusterSetNodeAsMaster s.myself).claimSlots oldmaster) :=
  (rearranged_clusterSetNodeAsMaster s.myself).trans (rearranged_claimSlots oldmaster)

theorem rearranged_processMfstart (sender : NodeRef)
    : Reshaped s (s.processMfstart env sender) :=
  step_ite (fun _ => { Reshaped.refl s with }) fun _ => .refl s

theorem rearranged_stopImporting (slot : Slot) : Reshaped s (s.stopImporting slot) :=
  { Reshaped.refl s with }

theorem rearranged_stopMigrating (slot : Slot) : Reshaped s (s.stopMigrating slot) :=
  { Reshaped.refl s with }

theorem rearranged_changeSlot (del : Bool) (slot : Slot) : Reshaped s (s.changeSlot del slot) := by
  have asserted := (rearranged_stopImporting slot (s := s)).trans
    (rearranged_redisAssert .slotResult ((s.slots slot).isSome == del))
  refine asserted.trans ?_
  exact step_ite (fun _ => rearranged_clusterDelSlot slot)
    fun _ => rearranged_clusterAddSlot _ slot

theorem rearranged_changeSlots (del : Bool) (slots : List Slot)
    : Reshaped s (s.changeSlots del slots) := by
  refine step_ite (fun _ => .refl s) fun _ => ?_
  refine Reshaped.trans (Reshaped.forSlots fun slot s => ?_)
    (rearranged_clusterDoBeforeSleep _)
  exact step_ite (fun _ => rearranged_changeSlot del slot) fun _ => .refl s

-- The periodic functions

theorem rearranged_manualFailoverCheckTimeout
    : Reshaped s (s.manualFailoverCheckTimeout env) :=
  step_either { Reshaped.refl s with } (.refl s)

theorem rearranged_clusterHandleManualFailover (call : ClusterState.SlaveCall)
    : Reshaped s (s.clusterHandleManualFailover call) :=
  step_either (.refl s) (step_either { Reshaped.refl s with } (.refl s))

theorem quiet_clusterCron {step : ClusterState.CronStep}
    (link
      : ∃ r, step = .connect r ∨ step = .ping r ∨ step = .disconnect r ∨ step = .possiblyFailing r)
    : Plain env s (s.clusterCron env step) := by
  obtain ⟨r, link⟩ := link
  have pinged {type : List Gossip → ClusterMsgData} (t : ClusterState)
      (plain : type = .ping ∨ type = .meet)
      : Plain env t (t.clusterSendPing env (some r) type) := by
    refine ⟨quiet_clusterSendPing fun _ => ?_, .of_table rfl⟩
    rcases plain with rfl | rfl
    · exact .inl rfl
    · exact .inr (.inr rfl)
  rcases link with rfl | rfl | rfl | rfl
  · refine step_either (.refl env s)
      (Plain.trans ?_ (quiet_modify_plain (fun _ => ?_) fun _ => rfl))
    · refine Plain.trans ?_ (pinged _ ?_)
      · exact quiet_modify_plain (fun _ => ⟨rfl, rfl, rfl, rfl, rfl, rfl, rfl, rfl, rfl, rfl⟩)
          fun _ => rfl
      · split
        · exact .inr rfl
        · exact .inl rfl
    · exact ⟨rfl, rfl, rfl, rfl, rfl, rfl, rfl, rfl, rfl, rfl⟩
  · refine step_either (Plain.trans ?_ (pinged _ (.inl rfl))) (.refl env s)
    exact quiet_modify_plain (fun _ => ⟨rfl, rfl, rfl, rfl, rfl, rfl, rfl, rfl, rfl, rfl⟩)
      fun _ => rfl
  · exact quiet_modify_plain (fun _ => ⟨rfl, rfl, rfl, rfl, rfl, rfl, rfl, rfl, rfl, rfl⟩)
      fun _ => rfl
  · refine step_either (.refl env s) (quiet_modify_plain (fun _ => ?_) fun _ => rfl)
    exact ⟨rfl, rfl, rfl, rfl, rfl, rfl, rfl, rfl, rfl, rfl⟩

theorem rearranged_emptied
    : Reshaped s
        ((if s.nodeIsSlave s.myself then s.clusterSetNodeAsMaster s.myself else s)
          |>.clusterCloseAllSlots.resetManualFailover.forSlots
            fun slot s => s.clusterDelSlot slot) := by
  have master : Reshaped s
      (if s.nodeIsSlave s.myself then s.clusterSetNodeAsMaster s.myself else s) :=
    step_ite (fun _ => rearranged_clusterSetNodeAsMaster _) fun _ => .refl s
  refine ((master.trans rearranged_clusterCloseAllSlots).trans
    rearranged_resetManualFailover).trans ?_
  exact Reshaped.forSlots fun slot _ => rearranged_clusterDelSlot slot

end Rearranged

end Redis.Cluster
