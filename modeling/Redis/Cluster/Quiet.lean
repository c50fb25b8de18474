import Redis.Cluster.Packets

/-! Steps that leave the configuration alone: they change addresses, times, failure flags and
reports, start handshakes and send messages.
-/

namespace Redis.Cluster

/-- Two nodes with the same name, role, epoch, slots and place among masters and slaves. -/
structure SameCore (n n' : ClusterNode) : Prop where
  name : n'.name = n.name
  configEpoch : n'.configEpoch = n.configEpoch
  slots : n'.slots = n.slots
  numslots : n'.numslots = n.numslots
  slaves : n'.slaves = n.slaves
  slaveof : n'.slaveof = n.slaveof
  master : n'.flags.master = n.flags.master
  slave : n'.flags.slave = n.flags.slave
  handshake : n'.flags.handshake = n.flags.handshake
  myself : n'.flags.myself = n.flags.myself

/-- A node that was just created for a handshake. -/
structure FreshNode (name : NodeName) (n : ClusterNode) : Prop where
  name : n.name = name
  configEpoch : n.configEpoch = 0
  slots : n.slots = fun _ => false
  numslots : n.numslots = 0
  slaves : n.slaves = []
  slaveof : n.slaveof = none
  master : n.flags.master = false
  slave : n.flags.slave = false
  handshake : n.flags.handshake = true
  myself : n.flags.myself = false

theorem SameCore.refl (n : ClusterNode) : SameCore n n :=
  ⟨rfl, rfl, rfl, rfl, rfl, rfl, rfl, rfl, rfl, rfl⟩

theorem SameCore.trans {n n' n'' : ClusterNode} (first : SameCore n n') (second : SameCore n' n'')
    : SameCore n n'' where
  name := second.name.trans first.name
  configEpoch := second.configEpoch.trans first.configEpoch
  slots := second.slots.trans first.slots
  numslots := second.numslots.trans first.numslots
  slaves := second.slaves.trans first.slaves
  slaveof := second.slaveof.trans first.slaveof
  master := second.master.trans first.master
  slave := second.slave.trans first.slave
  handshake := second.handshake.trans first.handshake
  myself := second.myself.trans first.myself

theorem FreshNode.same {name : NodeName} {n n' : ClusterNode} (fresh : FreshNode name n)
    (same : SameCore n n')
    : FreshNode name n' where
  name := same.name.trans fresh.name
  configEpoch := same.configEpoch.trans fresh.configEpoch
  slots := same.slots.trans fresh.slots
  numslots := same.numslots.trans fresh.numslots
  slaves := same.slaves.trans fresh.slaves
  slaveof := same.slaveof.trans fresh.slaveof
  master := same.master.trans fresh.master
  slave := same.slave.trans fresh.slave
  handshake := same.handshake.trans fresh.handshake
  myself := same.myself.trans fresh.myself

/-- An epoch that is recorded for some node, or zero. -/
def EpochKnown (s : ClusterState) (epoch : Nat) : Prop :=
  epoch = 0 ∨ ∃ r n, s.nodes r = some n ∧ n.configEpoch = epoch

/-- A message that carries what its sender knows, and is not a vote. -/
structure SentFrom (s : ClusterState) (m : ClusterMsg) : Prop where
  sender : s.live s.myself = true → m.sender = s.name s.myself
  currentEpoch : m.currentEpoch = s.currentEpoch
  configEpoch : EpochKnown s m.configEpoch
  update : ∀ epoch name slots, m.data = .update epoch name slots → EpochKnown s epoch
  noVote : m.data ≠ .failoverAuthAck

structure Quiet (env : ClusterEnv) (s s' : ClusterState) : Prop where
  myself : s'.myself = s.myself
  currentEpoch : s'.currentEpoch = s.currentEpoch
  lastVoteEpoch : s'.lastVoteEpoch = s.lastVoteEpoch
  election : s'.election = s.election
  slots : s'.slots = s.slots
  importing : s'.importingSlotsFrom = s.importingSlotsFrom
  migrating : s'.migratingSlotsTo = s.migratingSlotsTo
  mfSlave : s'.mfSlave = s.mfSlave
  conf : s'.conf = s.conf
  asserts : s'.failedAsserts = s.failedAsserts
  nextRef : s.nextRef ≤ s'.nextRef
  kept : ∀ r n, s.nodes r = some n → ∃ n', s'.nodes r = some n' ∧ SameCore n n'
  added : ∀ r n', s'.nodes r = some n' → s.nodes r = none →
    s.nextRef ≤ r ∧ r < s'.nextRef ∧ FreshNode (env.randomName r) n'
  reports : ∀ r n', s'.nodes r = some n' → ∀ report ∈ n'.failReports,
    s'.live report.1 = true ∨ ∃ n, s.nodes r = some n ∧ report.1 ∈ n.failReports.map (·.1)
  saveConfig : s.todo.saveConfig = true → s'.todo.saveConfig = true
  sent : ∃ more, s'.sent = s.sent ++ more ∧ ∀ m ∈ more, SentFrom s m.2

def ClusterState.failReports (s : ClusterState) (r : NodeRef) : List (NodeRef × Int) :=
  (s.nodes r).elim [] (·.failReports)

/-- No report is added or changed. -/
def ReportsKept (s s' : ClusterState) : Prop :=
  ∀ r, (s'.failReports r).Sublist (s.failReports r)

/-- The configuration is as before, and no report is added. -/
structure Plain (env : ClusterEnv) (s s' : ClusterState) : Prop extends Quiet env s s' where
  fewer : ReportsKept s s'

section Quiet

variable {env : ClusterEnv} {s s' s'' : ClusterState} {f : ClusterNode → ClusterNode} {r : NodeRef}
  {linkNode : Option NodeRef} {message : ClusterMsg} {R : ClusterState → ClusterState → Prop}
  {hdr : ClusterMsg}

theorem Quiet.refl (env : ClusterEnv) (s : ClusterState) : Quiet env s s where
  myself := rfl
  currentEpoch := rfl
  lastVoteEpoch := rfl
  election := rfl
  slots := rfl
  importing := rfl
  migrating := rfl
  mfSlave := rfl
  conf := rfl
  asserts := rfl
  nextRef := le_refl _
  kept _ n found := ⟨n, found, .refl n⟩
  added _ _ found missing := absurd (missing.symm.trans found) (by simp)
  reports _ n found report member := .inr ⟨n, found, List.mem_map_of_mem member⟩
  saveConfig raised := raised
  sent := ⟨[], by simp⟩

theorem Quiet.live (quiet : Quiet env s s') (there : s.live r = true) : s'.live r = true := by
  obtain ⟨n, found⟩ := Option.isSome_iff_exists.mp there
  obtain ⟨n', found', _⟩ := quiet.kept r n found
  simp [ClusterState.live, found']

theorem Quiet.node (quiet : Quiet env s s') {n' : ClusterNode} (found : s'.nodes r = some n')
    : (∃ n, s.nodes r = some n ∧ SameCore n n')
      ∨ s.nodes r = none ∧ s.nextRef ≤ r ∧ r < s'.nextRef ∧ FreshNode (env.randomName r) n' := by
  cases before : s.nodes r with
  | none => exact .inr ⟨rfl, quiet.added r n' found before⟩
  | some n =>
      obtain ⟨n'', found'', same⟩ := quiet.kept r n before
      cases found.symm.trans found''
      exact .inl ⟨n, rfl, same⟩

theorem Quiet.epochKnown (quiet : Quiet env s s') {epoch : Nat} (known : EpochKnown s' epoch)
    : EpochKnown s epoch := by
  rcases known with zero | ⟨r, n', found, rfl⟩
  · exact .inl zero
  · rcases quiet.node found with ⟨n, before, same⟩ | ⟨_, _, _, fresh⟩
    · exact .inr ⟨r, n, before, same.configEpoch.symm⟩
    · exact .inl fresh.configEpoch

theorem Quiet.name (quiet : Quiet env s s') (there : s.live r = true) : s'.name r = s.name r := by
  obtain ⟨n, found⟩ := Option.isSome_iff_exists.mp there
  obtain ⟨n', found', same⟩ := quiet.kept r n found
  simp [ClusterState.name, found, found', same.name]

theorem Quiet.nodeInHandshake (quiet : Quiet env s s') (handshake : s.nodeInHandshake r = true)
    : s'.nodeInHandshake r = true := by
  obtain ⟨n, found, is⟩ := Option.any_eq_true _ _ |>.mp handshake
  obtain ⟨n', found', same⟩ := quiet.kept r n found
  simp [ClusterState.nodeInHandshake, found', same.handshake, is]

theorem Quiet.sentFrom (quiet : Quiet env s s') {m : ClusterMsg} (from' : SentFrom s' m)
    : SentFrom s m where
  sender there := by
    have there' := quiet.live there
    rw [← quiet.myself] at there'
    rw [from'.sender there', quiet.myself, quiet.name there]
  currentEpoch := from'.currentEpoch.trans quiet.currentEpoch
  configEpoch := quiet.epochKnown from'.configEpoch
  update epoch name slots same := quiet.epochKnown (from'.update epoch name slots same)
  noVote := from'.noVote

/-- Quiet steps may follow each other. -/
theorem Quiet.trans (first : Quiet env s s') (second : Quiet env s' s'') : Quiet env s s'' where
  myself := second.myself.trans first.myself
  currentEpoch := second.currentEpoch.trans first.currentEpoch
  lastVoteEpoch := second.lastVoteEpoch.trans first.lastVoteEpoch
  election := second.election.trans first.election
  slots := second.slots.trans first.slots
  importing := second.importing.trans first.importing
  migrating := second.migrating.trans first.migrating
  mfSlave := second.mfSlave.trans first.mfSlave
  conf := second.conf.trans first.conf
  asserts := second.asserts.trans first.asserts
  nextRef := first.nextRef.trans second.nextRef
  kept r n found := by
    obtain ⟨n', found', same⟩ := first.kept r n found
    obtain ⟨n'', found'', same'⟩ := second.kept r n' found'
    exact ⟨n'', found'', same.trans same'⟩
  added r n'' found missing := by
    rcases second.node found with ⟨n', found', same⟩ | ⟨_, above, below, fresh⟩
    · obtain ⟨above, below, fresh⟩ := first.added r n' found' missing
      exact ⟨above, below.trans_le second.nextRef, fresh.same same⟩
    · exact ⟨first.nextRef.trans above, below, fresh⟩
  reports r n'' found report member := by
    rcases second.reports r n'' found report member with there | ⟨n', found', member'⟩
    · exact .inl there
    · obtain ⟨report', inside, same⟩ := List.mem_map.mp member'
      rcases first.reports r n' found' report' inside with there | ⟨n, before, old⟩
      · exact .inl (same ▸ second.live there)
      · exact .inr ⟨n, before, same ▸ old⟩
  saveConfig raised := second.saveConfig (first.saveConfig raised)
  sent := by
    obtain ⟨more, sent, from'⟩ := first.sent
    obtain ⟨more', sent', from''⟩ := second.sent
    refine ⟨more ++ more', by rw [sent', sent, List.append_assoc], ?_⟩
    intro m member
    rcases List.mem_append.mp member with old | new
    · exact from' m old
    · exact first.sentFrom (from'' m new)

theorem ReportsKept.refl (s : ClusterState) : ReportsKept s s := fun _ => .refl _

theorem ReportsKept.trans (first : ReportsKept s s') (second : ReportsKept s' s'')
    : ReportsKept s s'' :=
  fun r => (second r).trans (first r)

theorem ReportsKept.of_table (table : s'.table = s.table) : ReportsKept s s' := by
  intro r
  rw [ClusterState.failReports, ClusterState.nodes, table]
  exact .refl _

theorem Plain.refl (env : ClusterEnv) (s : ClusterState) : Plain env s s := ⟨.refl env s, .refl s⟩

theorem Plain.trans (first : Plain env s s') (second : Plain env s' s'') : Plain env s s'' :=
  ⟨first.toQuiet.trans second.toQuiet, first.fewer.trans second.fewer⟩

theorem step_ite {c : Prop} [Decidable c] (yes : c → R s s') (no : ¬ c → R s s'')
    : R s (if c then s' else s'') := by
  split
  · exact yes ‹_›
  · exact no ‹_›

theorem step_either {c : Prop} [Decidable c] (yes : R s s') (no : R s s'')
    : R s (if c then s' else s'') :=
  step_ite (fun _ => yes) fun _ => no

theorem Quiet.foldl {α : Type} {body : ClusterState → α → ClusterState} {items : List α}
    (round : ∀ s item, Quiet env s (body s item))
    : Quiet env s (items.foldl body s) := by
  induction items generalizing s with
  | nil => exact .refl env s
  | cons item items ih => exact (round s item).trans ih

-- Changes of one node

/-- A change of a node that keeps its core and names no unknown reporter. -/
structure QuietChange (s : ClusterState) (n n' : ClusterNode) : Prop where
  core : SameCore n n'
  reports : ∀ report ∈ n'.failReports,
    s.live report.1 = true ∨ report.1 ∈ n.failReports.map (·.1)

theorem QuietChange.of_core {n n' : ClusterNode} (core : SameCore n n')
    (reports : n'.failReports = n.failReports)
    : QuietChange s n n' :=
  ⟨core, fun _ member => .inr (List.mem_map_of_mem (reports ▸ member))⟩

theorem modify_nodes (s : ClusterState) (r : NodeRef) (f : ClusterNode → ClusterNode)
    (r' : NodeRef)
    : (s.modify r f).nodes r' = if r' = r then (s.nodes r).map f else s.nodes r' := by
  simp [ClusterState.nodes, ClusterState.modify, NodeTable.modify, Function.update_apply]

theorem modify_live (s : ClusterState) (r : NodeRef) (f : ClusterNode → ClusterNode)
    (r' : NodeRef)
    : (s.modify r f).live r' = s.live r' := by
  unfold ClusterState.live
  rw [modify_nodes]
  split
  · rename_i same
    rw [same, Option.isSome_map]
  · rfl

theorem quiet_modify (change : ∀ n, s.nodes r = some n → QuietChange s n (f n))
    : Quiet env s (s.modify r f) where
  myself := rfl
  currentEpoch := rfl
  lastVoteEpoch := rfl
  election := rfl
  slots := rfl
  importing := rfl
  migrating := rfl
  mfSlave := rfl
  conf := rfl
  asserts := rfl
  nextRef := le_refl _
  kept r' n found := by
    rw [modify_nodes]
    by_cases here : r' = r
    · subst here
      exact ⟨f n, by simp [found], (change n found).core⟩
    · exact ⟨n, by simp [here, found], .refl n⟩
  added r' n' found missing := by
    have there : (s.modify r f).live r' = true := by simp [ClusterState.live, found]
    rw [modify_live] at there
    simp [ClusterState.live, missing] at there
  reports r' n' found report member := by
    rw [modify_nodes] at found
    rw [modify_live]
    by_cases here : r' = r
    · subst here
      simp only [if_true, Option.map_eq_some_iff] at found
      obtain ⟨n, before, rfl⟩ := found
      rcases (change n before).reports report member with there | old
      · exact .inl there
      · exact .inr ⟨n, before, old⟩
    · simp only [here, if_false] at found
      exact .inr ⟨n', found, List.mem_map_of_mem member⟩
  saveConfig raised := raised
  sent := ⟨[], by simp [ClusterState.modify]⟩

theorem quiet_modify_core
    (core : ∀ n, SameCore n (f n)) (reports : ∀ n, (f n).failReports = n.failReports)
    : Quiet env s (s.modify r f) :=
  quiet_modify fun n _ => .of_core (core n) (reports n)

theorem quiet_clusterDoBeforeSleep (flags : TodoBeforeSleep)
    : Quiet env s (s.clusterDoBeforeSleep flags) :=
  { Quiet.refl env s with
    saveConfig := fun raised => by simp [ClusterState.clusterDoBeforeSleep, raised] }

theorem reportsKept_modify (fewer : ∀ n, (f n).failReports.Sublist n.failReports)
    : ReportsKept s (s.modify r f) := by
  intro r'
  rw [ClusterState.failReports, modify_nodes]
  by_cases here : r' = r
  · subst here
    rw [if_pos rfl, ClusterState.failReports]
    cases s.nodes r' with
    | none => exact .refl _
    | some n => exact fewer n
  · rw [if_neg here]
    exact .refl _

theorem reportsKept_modify_same (same : ∀ n, (f n).failReports = n.failReports)
    : ReportsKept s (s.modify r f) :=
  reportsKept_modify fun n => (same n).symm ▸ .refl _

theorem quiet_modify_plain
    (core : ∀ n, SameCore n (f n)) (reports : ∀ n, (f n).failReports = n.failReports)
    : Plain env s (s.modify r f) :=
  ⟨quiet_modify_core core reports, reportsKept_modify_same reports⟩

theorem quiet_modify_todo {flags : TodoBeforeSleep}
    (core : ∀ n, SameCore n (f n)) (reports : ∀ n, (f n).failReports = n.failReports)
    : Plain env s ((s.modify r f).clusterDoBeforeSleep flags) :=
  (quiet_modify_plain core reports).trans ⟨quiet_clusterDoBeforeSleep flags, .of_table rfl⟩

-- Messages

theorem epochKnown_configEpoch (s : ClusterState) (r : NodeRef)
    : EpochKnown s (s.configEpoch r) := by
  cases found : s.nodes r with
  | none => exact .inl (by simp [ClusterState.configEpoch, found])
  | some n => exact .inr ⟨r, n, found, by simp [ClusterState.configEpoch, found]⟩

theorem sentFrom_clusterBuildMessageHdr {data : ClusterMsgData}
    (update : ∀ epoch name slots, data = .update epoch name slots → EpochKnown s epoch)
    (noVote : data ≠ .failoverAuthAck)
    : SentFrom s (s.clusterBuildMessageHdr data) where
  sender _ := rfl
  currentEpoch := rfl
  configEpoch := epochKnown_configEpoch s _
  update := update
  noVote := noVote

theorem quiet_clusterSendMessage {destination : Option NodeRef} (from' : SentFrom s message)
    : Quiet env s (s.clusterSendMessage destination message) :=
  { Quiet.refl env s with
    sent := ⟨[(destination, message)], rfl, fun m member => by
      rw [List.mem_singleton.mp member]
      exact from'⟩ }

theorem quiet_clusterSendPing {destination : Option NodeRef}
    {type : List Gossip → ClusterMsgData}
    (plain : ∀ gossip, type gossip = .ping gossip ∨ type gossip = .pong gossip
      ∨ type gossip = .meet gossip)
    : Quiet env s (s.clusterSendPing env destination type) := by
  refine quiet_clusterSendMessage (sentFrom_clusterBuildMessageHdr ?_ ?_)
  · intro epoch name slots same
    rcases plain env.gossip with is | is | is <;> rw [is] at same <;> cases same
  · intro same
    rcases plain env.gossip with is | is | is <;> rw [is] at same <;> cases same

theorem sends_sentFrom {destinations : List NodeRef} (from' : SentFrom s message)
    : Quiet env s
        (destinations.foldl (fun s r => s.clusterSendMessage (some r) message) s) := by
  induction destinations generalizing s with
  | nil => exact .refl env s
  | cons r destinations ih =>
      have next : SentFrom (s.clusterSendMessage (some r) message) message :=
        ⟨from'.sender, from'.currentEpoch, from'.configEpoch, from'.update, from'.noVote⟩
      exact (quiet_clusterSendMessage from').trans (ih next)

theorem quiet_clusterBroadcastMessage (from' : SentFrom s message)
    : Quiet env s (s.clusterBroadcastMessage message) :=
  sends_sentFrom from'

theorem quiet_clusterBroadcastPong (localSlaves : Bool)
    : Quiet env s (s.clusterBroadcastPong env localSlaves) :=
  Quiet.foldl fun _ _ => quiet_clusterSendPing fun _ => .inr (.inl rfl)

theorem quiet_clusterSendFail (nodename : NodeName)
    : Quiet env s (s.clusterSendFail nodename) :=
  quiet_clusterBroadcastMessage
    (sentFrom_clusterBuildMessageHdr (fun _ _ _ same => nomatch same) nofun)

theorem quiet_clusterSendUpdate (destination node : NodeRef)
    : Plain env s (s.clusterSendUpdate destination node) := by
  unfold ClusterState.clusterSendUpdate
  split
  · split
    · rename_i n found
      refine ⟨quiet_clusterSendMessage (sentFrom_clusterBuildMessageHdr ?_ nofun), .of_table rfl⟩
      intro epoch name slots same
      cases same
      exact .inr ⟨node, n, found, rfl⟩
    · exact .refl env s
  · exact .refl env s

theorem quiet_clusterRequestFailoverAuth : Quiet env s s.clusterRequestFailoverAuth := by
  have built : SentFrom s (s.clusterBuildMessageHdr .failoverAuthRequest) :=
    sentFrom_clusterBuildMessageHdr (fun _ _ _ same => nomatch same) nofun
  exact quiet_clusterBroadcastMessage
    ⟨built.sender, built.currentEpoch, built.configEpoch, built.update, built.noVote⟩

-- Lookups

theorem clusterLookupNode_some {name : NodeName} (found : s.clusterLookupNode name = some r)
    : ∃ n, s.nodes r = some n ∧ n.name = name := by
  have here := List.find?_some found
  cases node : s.nodes r with
  | none => simp [node] at here
  | some n => exact ⟨n, rfl, by simpa [node] using here⟩

theorem clusterLookupNode_live {name : NodeName} (found : s.clusterLookupNode name = some r)
    : s.live r = true := by
  obtain ⟨n, node, _⟩ := clusterLookupNode_some found
  simp [ClusterState.live, node]

-- Failure reports

theorem quiet_clusterNodeAddFailureReport {failing sender : NodeRef}
    (there : s.live sender = true)
    : Quiet env s (s.clusterNodeAddFailureReport env failing sender) := by
  refine quiet_modify fun n _ => ⟨?_, ?_⟩
  · split <;> exact ⟨rfl, rfl, rfl, rfl, rfl, rfl, rfl, rfl, rfl, rfl⟩
  · intro report member
    split at member
    · obtain ⟨old, inside, changed⟩ := List.mem_map.mp member
      split at changed
      · exact .inl (changed ▸ there)
      · exact .inr (changed ▸ List.mem_map_of_mem inside)
    · rcases List.mem_append.mp member with old | new
      · exact .inr (List.mem_map_of_mem old)
      · rw [List.mem_singleton.mp new]
        exact .inl there

theorem quiet_clusterNodeCleanupFailureReports (r : NodeRef)
    : Quiet env s (s.clusterNodeCleanupFailureReports env r) :=
  quiet_modify fun _ _ =>
    ⟨⟨rfl, rfl, rfl, rfl, rfl, rfl, rfl, rfl, rfl, rfl⟩, fun _ member =>
      .inr (List.mem_map_of_mem (List.mem_of_mem_filter member))⟩

theorem quiet_clusterNodeDelFailureReport (r sender : NodeRef)
    : Quiet env s (s.clusterNodeDelFailureReport env r sender) := by
  unfold ClusterState.clusterNodeDelFailureReport
  split
  · refine Quiet.trans (quiet_modify fun n _ => ⟨?_, fun report member => ?_⟩)
      (quiet_clusterNodeCleanupFailureReports r)
    · exact ⟨rfl, rfl, rfl, rfl, rfl, rfl, rfl, rfl, rfl, rfl⟩
    · exact .inr (List.mem_map_of_mem (List.mem_of_mem_eraseP member))
  · exact .refl env s

theorem quiet_markNodeAsFailingIfNeeded (r : NodeRef)
    : Quiet env s (s.markNodeAsFailingIfNeeded env r) := by
  refine step_ite (fun _ => .refl env s) fun _ => ?_
  refine (quiet_clusterNodeCleanupFailureReports r).trans ?_
  generalize s.clusterNodeCleanupFailureReports env r = cleaned
  refine step_ite (fun _ => .refl env cleaned) fun _ => ?_
  refine Quiet.trans (quiet_modify_core (r := r) (f := fun n =>
    { n with flags := { n.flags with pfail := false, fail := true }, failTime := env.mstime })
    (fun _ => ⟨rfl, rfl, rfl, rfl, rfl, rfl, rfl, rfl, rfl, rfl⟩) fun _ => rfl) ?_
  refine Quiet.trans ?_ (quiet_clusterDoBeforeSleep _)
  exact step_ite (fun _ => quiet_clusterSendFail _) fun _ => .refl env _

-- Handshakes and gossip

theorem quiet_clusterAddNode {n : ClusterNode} (fresh : FreshNode (env.randomName s.nextRef) n)
    (unreported : n.failReports = [])
    : Quiet env s (s.clusterAddNode n) := by
  refine step_ite (fun _ => .refl env s) fun _ => ?_
  have free : s.nodes s.nextRef = none := s.table.unused s.nextRef (le_refl _)
  have nodes : ∀ r, (s.table.insert n).node r = if r = s.nextRef then some n else s.nodes r :=
    fun r => Function.update_apply ..
  exact {
    Quiet.refl env s with
    nextRef := Nat.le_succ _
    kept := fun r n₀ found => by
      have other : r ≠ s.nextRef := by
        rintro rfl
        rw [free] at found
        cases found
      exact ⟨n₀, by rw [ClusterState.nodes, nodes, if_neg other, found], .refl n₀⟩
    added := fun r n' found missing => by
      rw [ClusterState.nodes, nodes] at found
      by_cases here : r = s.nextRef
      · rw [if_pos here, Option.some.injEq] at found
        subst here found
        exact ⟨le_refl _, Nat.lt_succ_self _, fresh⟩
      · rw [if_neg here, missing] at found
        cases found
    reports := fun r n' found report member => by
      rw [ClusterState.nodes, nodes] at found
      by_cases here : r = s.nextRef
      · rw [if_pos here, Option.some.injEq] at found
        rw [← found, unreported] at member
        cases member
      · rw [if_neg here] at found
        exact .inr ⟨n', found, List.mem_map_of_mem member⟩ }

/-- The link that a packet arrived on belongs to a node in the table. -/
def LinkLive (s : ClusterState) (linkNode : Option NodeRef) : Prop :=
  ∀ r, linkNode = some r → s.live r = true

theorem Quiet.linkLive (quiet : Quiet env s s') (live : LinkLive s linkNode)
    : LinkLive s' linkNode :=
  fun r is => quiet.live (live r is)

theorem quiet_clusterStartHandshake (ip : List UInt8) (port : Nat)
    : Quiet env s (s.clusterStartHandshake env ip port) := by
  unfold ClusterState.clusterStartHandshake
  cases env.normIp ip with
  | none => exact .refl env s
  | some normIp =>
      refine step_ite (fun _ => .refl env s) fun _ => ?_
      refine step_ite (fun _ => .refl env s) fun _ => ?_
      exact quiet_clusterAddNode ⟨rfl, rfl, rfl, rfl, rfl, rfl, rfl, rfl, rfl, rfl⟩ rfl

theorem quiet_clusterBlacklistCleanup : Quiet env s (s.clusterBlacklistCleanup env) :=
  { Quiet.refl env s with }

theorem quiet_clusterBlacklistAddNode (r : NodeRef)
    : Quiet env s (s.clusterBlacklistAddNode env r) :=
  { Quiet.refl env s with }

theorem quiet_handleFailureReport {sender : Option NodeRef} (live : LinkLive s sender)
    (node : NodeRef) (flags : NodeFlags)
    : Quiet env s (s.handleFailureReport env sender node flags) := by
  cases sender with
  | none => exact .refl env s
  | some sender =>
      refine step_ite (fun _ => ?_) fun _ => .refl env s
      refine step_ite (fun _ => ?_) fun _ => quiet_clusterNodeDelFailureReport _ _
      exact (quiet_clusterNodeAddFailureReport (live sender rfl)).trans
        (quiet_markNodeAsFailingIfNeeded _)

theorem quiet_processGossip {sender : Option NodeRef} (live : LinkLive s sender)
    (g : Gossip)
    : Quiet env s (s.processGossip env sender g) := by
  unfold ClusterState.processGossip
  cases s.clusterLookupNode g.nodename with
  | none =>
      refine step_ite (fun _ => ?_) fun _ => .refl env s
      have cleaned : Quiet env s (s.clusterBlacklistCleanup env) := quiet_clusterBlacklistCleanup
      refine cleaned.trans (step_ite (fun _ => .refl env _) fun _ => ?_)
      exact quiet_clusterStartHandshake g.ip g.port
  | some node =>
      have quiet : Quiet env s (s.handleFailureReport env sender node g.flags) :=
        quiet_handleFailureReport live node g.flags
      refine quiet.trans (step_ite (fun _ => ?_) fun _ => .refl env _)
      exact quiet_clusterStartHandshake g.ip g.port

theorem LinkLive.sender (live : LinkLive s linkNode) (name : NodeName)
    : LinkLive s (linkNode.or (s.clusterLookupNode name)) := by
  intro r is
  cases linkNode with
  | none => exact clusterLookupNode_live is
  | some node => exact live r is

/-- The gossip section leaves the configuration alone. -/
theorem quiet_clusterProcessGossipSection (live : LinkLive s linkNode) (gossip : List Gossip)
    : Quiet env s (s.clusterProcessGossipSection env linkNode hdr gossip) := by
  have from' := live.sender hdr.sender
  unfold ClusterState.clusterProcessGossipSection
  generalize linkNode.or (s.clusterLookupNode hdr.sender) = sender at from'
  simp only
  induction gossip generalizing s with
  | nil => exact .refl env s
  | cons g gossip ih =>
      have first : Quiet env s (s.processGossip env sender g) := quiet_processGossip from' g
      exact first.trans (ih (first.linkLive live) (first.linkLive from'))

-- Addresses and failure flags

theorem quiet_updateOwnAddress (arrival : ClusterState.Arrival) (isMeet : Bool)
    : Plain env s (s.updateOwnAddress arrival isMeet) := by
  refine step_ite (fun _ => ?_) fun _ => .refl env s
  cases arrival.sockName with
  | none => exact .refl env s
  | some ip =>
      refine step_ite (fun _ => .refl env s) fun _ => ?_
      exact quiet_modify_todo (fun _ => ⟨rfl, rfl, rfl, rfl, rfl, rfl, rfl, rfl, rfl, rfl⟩)
        fun _ => rfl

theorem quiet_meetSender {arrival : ClusterState.Arrival}
    (live : LinkLive s arrival.linkNode) (gossip : List Gossip)
    : Quiet env s (s.meetSender env arrival hdr gossip) := by
  have added : Quiet env s (s.clusterAddNode
      { createClusterNode (env.randomName s.nextRef) { handshake := true } env.mstime with
        ip := arrival.peerIp, port := hdr.port }) :=
    quiet_clusterAddNode ⟨rfl, rfl, rfl, rfl, rfl, rfl, rfl, rfl, rfl, rfl⟩ rfl
  have noted := added.trans (quiet_clusterDoBeforeSleep { saveConfig := true })
  exact noted.trans (quiet_clusterProcessGossipSection (noted.linkLive live) gossip)

theorem quiet_answerPing {arrival : ClusterState.Arrival}
    (live : LinkLive s arrival.linkNode) (sender : Option NodeRef) (isMeet : Bool)
    (gossip : List Gossip)
    : Quiet env s (s.answerPing env arrival hdr sender isMeet gossip) := by
  have address : Quiet env s (s.updateOwnAddress arrival isMeet) :=
    (quiet_updateOwnAddress arrival isMeet).toQuiet
  refine (address.trans (step_ite (fun _ => ?_) fun _ => .refl env _)).trans
    (quiet_clusterSendPing fun _ => .inr (.inl rfl))
  exact quiet_meetSender (address.linkLive live) gossip

theorem quiet_nodeUpdateAddressIfNeeded (arrival : ClusterState.Arrival) (r : NodeRef)
    (port : Nat)
    : Plain env s (s.nodeUpdateAddressIfNeeded arrival r port) := by
  refine step_ite (fun _ => .refl env s) fun _ => step_ite (fun _ => .refl env s) fun _ => ?_
  exact quiet_modify_todo (fun _ => ⟨rfl, rfl, rfl, rfl, rfl, rfl, rfl, rfl, rfl, rfl⟩)
    fun _ => rfl

theorem quiet_clearFail (r : NodeRef) : Plain env s (s.clearFail r) := by
  exact quiet_modify_todo (fun _ => ⟨rfl, rfl, rfl, rfl, rfl, rfl, rfl, rfl, rfl, rfl⟩)
    fun _ => rfl

theorem quiet_clearNodeFailureIfNeeded (r : NodeRef)
    : Plain env s (s.clearNodeFailureIfNeeded env r) := by
  have cleared : Plain env s
      (if s.nodeIsSlave r || s.numslots r == 0 then s.clearFail r else s) :=
    step_ite (fun _ => quiet_clearFail r) fun _ => .refl env s
  exact cleared.trans (step_ite (fun _ => quiet_clearFail r) fun _ => .refl env _)

theorem quiet_pongReceived (node : NodeRef) : Plain env s (s.pongReceived env node) := by
  have timed : Plain env s
      (s.modify node fun n => { n with pongReceived := env.mstime, pingSent := 0 }) :=
    quiet_modify_plain (fun _ => ⟨rfl, rfl, rfl, rfl, rfl, rfl, rfl, rfl, rfl, rfl⟩) fun _ => rfl
  refine timed.trans ?_
  refine step_ite (fun _ => ?_) fun _ => step_ite (fun _ => ?_) fun _ => .refl env _
  · exact quiet_modify_todo (fun _ => ⟨rfl, rfl, rfl, rfl, rfl, rfl, rfl, rfl, rfl, rfl⟩)
      fun _ => rfl
  · exact quiet_clearNodeFailureIfNeeded node

theorem quiet_updateSenderAddress (arrival : ClusterState.Arrival) (hdr : ClusterMsg)
    (sender : Option NodeRef) (isPing : Bool)
    : Plain env s (s.updateSenderAddress arrival hdr sender isPing) := by
  cases sender with
  | none => exact .refl env s
  | some sender =>
      exact step_ite (fun _ => quiet_nodeUpdateAddressIfNeeded _ _ _) fun _ => .refl env s

theorem quiet_updateLinkNode (arrival : ClusterState.Arrival) (isPong : Bool)
    : Plain env s (s.updateLinkNode env arrival isPong) := by
  unfold ClusterState.updateLinkNode
  cases arrival.linkNode with
  | none => exact .refl env s
  | some node => exact step_ite (fun _ => quiet_pongReceived node) fun _ => .refl env s

theorem quiet_processFail (about : NodeName) : Plain env s (s.processFail env about) := by
  unfold ClusterState.processFail
  cases s.clusterLookupNode about with
  | none => exact .refl env s
  | some failing =>
      refine step_ite (fun _ => .refl env s) fun _ => ?_
      exact quiet_modify_todo (fun _ => ⟨rfl, rfl, rfl, rfl, rfl, rfl, rfl, rfl, rfl, rfl⟩)
        fun _ => rfl

theorem quiet_informSender (hdr : ClusterMsg) (sender : NodeRef) (senderConfigEpoch : Nat)
    : Plain env s (s.informSender hdr sender senderConfigEpoch) := by
  unfold ClusterState.informSender
  cases s.outdatedClaim hdr sender senderConfigEpoch with
  | none => exact .refl env s
  | some owner => exact quiet_clusterSendUpdate sender owner

end Quiet

end Redis.Cluster
