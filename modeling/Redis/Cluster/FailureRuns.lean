import Redis.Cluster.FailureReports

/-! When a node is marked as failing: what the reports that are counted stand for, over the runs of
a node.
-/

namespace Redis.Cluster

-- What a node hears

/-- What a node said about another one in its gossip. -/
structure Statement where
  reporter : NodeRef
  about : NodeRef
  failing : Bool
  time : Int
deriving DecidableEq, Repr

/-- A report was made at a time and not withdrawn since. -/
def ReportStands (heard : List Statement) (reporter about : NodeRef) (time : Int) : Prop :=
  ∃ before after, heard = before ++ ⟨reporter, about, true, time⟩ :: after
    ∧ ∀ later ∈ after, later.reporter = reporter → later.about = about → later.failing = true

/-- A gossip entry that is processed, with what was heard in front of it. -/
structure GossipEntry where
  heard : List Statement
  state : ClusterState
  env : ClusterEnv
  sender : Option NodeRef
  gossip : Gossip

namespace GossipEntry

variable (e : GossipEntry)

/-- The node that the entry is about, if it is another node of the table. -/
def about : Option NodeRef :=
  (e.state.clusterLookupNode e.gossip.nodename).filter (· != e.state.myself)

def failing : Bool := e.gossip.flags.fail || e.gossip.flags.pfail

def statement : List Statement :=
  match e.sender, e.about with
  | some reporter, some about => [⟨reporter, about, e.failing, e.env.mstime⟩]
  | _, _ => []

def after : ClusterState := e.state.processGossip e.env e.sender e.gossip

/-- `markNodeAsFailingIfNeeded` sets the FAIL flag of a node. -/
def Marks (r : NodeRef) : Prop := e.state.nodeFailed r = false ∧ e.after.nodeFailed r = true

/-- The time of a report is in the validity window. -/
def valid (time : Int) : Prop := e.env.mstime - time ≤ e.env.nodeTimeout * 2

/-- More than half of the masters with slots say that a node is failing: this node, which has it
timed out, or others by a report that stands.
-/
def Quorum (r : NodeRef) : Prop :=
  ∃ voters : Finset NodeRef,
    e.state.votingMasters.length / 2 + 1 ≤ voters.card
    ∧ ∀ voter ∈ voters, voter ∈ e.state.votingMasters
      ∧ (voter = e.state.myself ∧ e.state.nodeTimedOut r = true
        ∨ ∃ time, e.valid time ∧ ReportStands (e.heard ++ e.statement) voter r time)

/-- The nodes whose reports are counted when a report of `reporter` comes. -/
def reporters (reporter about : NodeRef) : List NodeRef :=
  reporter :: ((e.state.failReports about).filter fun report =>
    decide (e.env.mstime - report.2 ≤ e.env.nodeTimeout * 2)).map (·.1)

/-- The condition under which the reports that are counted are those of masters with slots. -/
def votersCount (reporter about : NodeRef) : Bool :=
  e.state.size == e.state.votingMasters.length
  && (!e.state.nodeIsMaster e.state.myself || e.state.votingMasters.contains e.state.myself)
  && (e.reporters reporter about).all fun r =>
    e.state.votingMasters.contains r && r != e.state.myself

/-- A report of a master about a node that is timed out meets the condition, and nobody who is not a
master withdraws a report.
-/
def allowed : Bool :=
  match e.sender, e.about with
  | some reporter, some about =>
      if e.failing then
        !e.state.nodeIsMaster reporter || !e.state.nodeTimedOut about || e.state.nodeFailed about
        || e.votersCount reporter about
      else e.state.nodeIsMaster reporter || (e.state.failReports about).all (·.1 != reporter)
  | _, _ => true

end GossipEntry

def sectionEntries (env : ClusterEnv) (sender : Option NodeRef)
    : (heard : List Statement) → ClusterState → List Gossip → List GossipEntry
  | _, _, [] => []
  | heard, s, g :: gossip =>
      let e : GossipEntry := ⟨heard, s, env, sender, g⟩
      e :: sectionEntries env sender (heard ++ e.statement) e.after gossip

-- Runs

/-- A node, with what it heard since it was started. -/
structure ListeningNode where
  state : ClusterState
  heard : List Statement

inductive NodeEvent where
  | packet (env : ClusterEnv) (arrival : ClusterState.Arrival) (hdr : ClusterMsg)
  | cron (env : ClusterEnv) (step : ClusterState.CronStep)
  | beforeSleep (env : ClusterEnv) (call : ClusterState.SlaveCall)
  | command (env : ClusterEnv) (keys : ClusterState.KeyCounts)
      (sub : ClusterState.ClusterSubcommand)
  | restart (env : ClusterEnv) (authSent : Bool)

namespace ListeningNode

variable (n : ListeningNode)

/-- The gossip entries that a packet has processed. -/
def packetEntries (env : ClusterEnv) (arrival : ClusterState.Arrival) (hdr : ClusterMsg)
    : List GossipEntry :=
  let arrival := { arrival with linkNode := arrival.linkNode.filter n.state.live }
  match n.state.gossipCall env arrival hdr with
  | none => []
  | some (start, gossip) =>
      sectionEntries env (arrival.linkNode.or (start.clusterLookupNode hdr.sender)) n.heard start
        gossip

/-- The gossip entries that an event has processed. -/
def entries : NodeEvent → List GossipEntry
  | .packet env arrival hdr => n.packetEntries env arrival hdr
  | _ => []

def step : NodeEvent → ListeningNode
  | .packet env arrival hdr =>
      { state := n.state.clusterProcessPacket env arrival hdr
        heard := n.heard ++ (n.packetEntries env arrival hdr).flatMap (·.statement) }
  | .cron env step => { n with state := n.state.clusterCron env step }
  | .beforeSleep env call => { n with state := n.state.clusterBeforeSleep env call }
  | .command env keys sub => { n with state := n.state.clusterCommand env keys sub }
  | .restart env authSent =>
      { state := .clusterLoadConfig env n.state.conf authSent, heard := [] }

def trace : ListeningNode → List NodeEvent → List GossipEntry
  | _, [] => []
  | n, event :: events => n.entries event ++ (n.step event).trace events

end ListeningNode

def startListening (env : ClusterEnv) (name : NodeName) (authSent : Bool) : ListeningNode :=
  ⟨.clusterInit env name authSent, []⟩

section Reports

variable {env : ClusterEnv} {s s' : ClusterState} {heard : List Statement}
variable {reporter about r : NodeRef} {time : Int} {reports : List (NodeRef × Int)}
  {report : NodeRef × Int}

theorem ReportStands.append {more : List Statement}
    (stands : ReportStands heard reporter about time)
    (kept
      : ∀ later ∈ more, later.reporter = reporter → later.about = about → later.failing = true)
    : ReportStands (heard ++ more) reporter about time := by
  obtain ⟨before, after, rfl, standing⟩ := stands
  refine ⟨before, after ++ more, by simp, ?_⟩
  intro later member
  rcases List.mem_append.mp member with old | new
  · exact standing later old
  · exact kept later new

theorem reportStands_made
    : ReportStands (heard ++ [⟨reporter, about, true, time⟩]) reporter about time :=
  ⟨heard, [], rfl, by simp⟩

/-- Each report is of another node, and stands. -/
structure ReportsStand (heard : List Statement) (s : ClusterState) : Prop where
  distinct : ∀ r, ((s.failReports r).map (·.1)).Nodup
  stand : ∀ r, ∀ report ∈ s.failReports r, ReportStands heard report.1 r report.2

theorem ReportsStand.kept (stand : ReportsStand heard s) (kept : ReportsKept s s')
    : ReportsStand heard s' where
  distinct r := (stand.distinct r).sublist ((kept r).map _)
  stand r report member := stand.stand r report ((kept r).subset member)

theorem reportsStand_started (none_ : ∀ r, s.failReports r = []) : ReportsStand heard s where
  distinct r := by simp [none_ r]
  stand r report member := by simp [none_ r] at member

theorem failReports_modify (f : ClusterNode → ClusterNode) (r r' : NodeRef)
    : (s.modify r f).failReports r'
      = if r' = r then (s.nodes r).elim [] fun n => (f n).failReports else s.failReports r' := by
  rw [ClusterState.failReports, modify_nodes]
  split
  · cases s.nodes r <;> rfl
  · rfl

/-- `clusterNodeAddFailureReport` on a list of reports. -/
def addReport (reports : List (NodeRef × Int)) (reporter : NodeRef) (time : Int)
    : List (NodeRef × Int) :=
  if reports.any (·.1 == reporter) then
    reports.map fun report => if report.1 = reporter then (reporter, time) else report
  else reports ++ [(reporter, time)]

theorem addReport_mem (member : report ∈ addReport reports reporter time)
    : report = (reporter, time) ∨ report ∈ reports ∧ report.1 ≠ reporter := by
  unfold addReport at member
  split at member
  · obtain ⟨old, inside, rfl⟩ := List.mem_map.mp member
    split
    · exact .inl rfl
    · rename_i other
      exact .inr ⟨inside, other⟩
  · rename_i new
    rcases List.mem_append.mp member with old | last
    · refine .inr ⟨old, fun same => new ?_⟩
      exact List.any_eq_true.mpr ⟨report, old, by simp [same]⟩
    · exact .inl (List.mem_singleton.mp last)

theorem addReport_distinct (distinct : (reports.map (·.1)).Nodup)
    : ((addReport reports reporter time).map (·.1)).Nodup := by
  unfold addReport
  split
  · have same : (reports.map fun report =>
        if report.1 = reporter then (reporter, time) else report).map (·.1)
        = reports.map (·.1) := by
      rw [List.map_map]
      refine List.map_congr_left fun report _ => ?_
      simp only [Function.comp_apply]
      split
      · rename_i is
        exact is.symm
      · rfl
    rw [same]
    exact distinct
  · rename_i new
    rw [List.map_append, List.nodup_append]
    refine ⟨distinct, by simp, ?_⟩
    intro old inside last is
    obtain ⟨report, member, rfl⟩ := List.mem_map.mp inside
    rintro rfl
    refine new (List.any_eq_true.mpr ⟨report, member, ?_⟩)
    simpa using is

theorem failReports_add (sender : NodeRef) (there : s.live about = true)
    : (s.clusterNodeAddFailureReport env about sender).failReports r
      = if r = about then addReport (s.failReports about) sender env.mstime
        else s.failReports r := by
  obtain ⟨n, found⟩ := Option.isSome_iff_exists.mp there
  rw [ClusterState.clusterNodeAddFailureReport, failReports_modify]
  refine ite_congr rfl (fun _ => ?_) fun _ => rfl
  simp only [found, Option.elim, ClusterState.failReports, addReport]
  split <;> rfl

theorem eraseP_reporter (distinct : (reports.map (·.1)).Nodup)
    (member : report ∈ reports.eraseP (·.1 == reporter))
    : report.1 ≠ reporter := by
  induction reports with
  | nil => cases member
  | cons first reports ih =>
      rw [List.map_cons, List.nodup_cons] at distinct
      by_cases here : first.1 = reporter
      · rw [List.eraseP_cons_of_pos (by simpa using here)] at member
        rintro rfl
        exact distinct.1 (here ▸ List.mem_map_of_mem member)
      · rw [List.eraseP_cons_of_neg (by simpa using here)] at member
        rcases List.mem_cons.mp member with rfl | later
        · exact here
        · exact ih distinct.2 later

theorem failReports_withdrawn (distinct : ((s.failReports about).map (·.1)).Nodup)
    (member : report ∈ (s.clusterNodeDelFailureReport env about reporter).failReports about)
    : report.1 ≠ reporter := by
  unfold ClusterState.clusterNodeDelFailureReport at member
  cases found : s.nodes about with
  | none =>
      simp [ClusterState.failReports, found] at member
  | some n =>
      have reports : s.failReports about = n.failReports := by
        simp [ClusterState.failReports, found]
      rw [reports] at distinct
      split at member
      · have cleaned :=
          ((rearranged_clusterNodeCleanupFailureReports about).reports about).subset member
        rw [failReports_modify, if_pos rfl, found] at cleaned
        exact eraseP_reporter distinct cleaned
      · rename_i absent
        rintro rfl
        refine absent ?_
        simp only [found, Option.any_some]
        rw [reports] at member
        exact List.any_eq_true.mpr ⟨report, member, by simp⟩

end Reports

section Entries

variable {env : ClusterEnv} {s : ClusterState} {r : NodeRef} {e : GossipEntry}

theorem reportsKept_markNodeAsFailingIfNeeded
    : ReportsKept s (s.markNodeAsFailingIfNeeded env r) := by
  unfold ClusterState.markNodeAsFailingIfNeeded
  refine step_either (.refl s) ?_
  have cleaned : ReportsKept s (s.clusterNodeCleanupFailureReports env r) :=
    (rearranged_clusterNodeCleanupFailureReports r).reports
  refine step_either cleaned ?_
  have flagged : ∀ t : ClusterState, ReportsKept t (t.modify r fun n =>
      { n with flags := { n.flags with pfail := false, fail := true }, failTime := env.mstime }) :=
    fun _ => reportsKept_modify_same fun _ => rfl
  have told : ∀ t : ClusterState,
      ReportsKept t (if t.nodeIsMaster t.myself then t.clusterSendFail (t.name r) else t) :=
    fun t => step_either (reportsKept_clusterBroadcastMessage _) (.refl t)
  exact ((cleaned.trans (flagged _)).trans (told _)).trans (reportsKept_clusterDoBeforeSleep _)

theorem nodeFailed_modify {f : ClusterNode → ClusterNode} (r' : NodeRef)
    (same : ∀ n, (f n).flags.fail = n.flags.fail)
    : (s.modify r f).nodeFailed r' = s.nodeFailed r' := by
  rw [ClusterState.nodeFailed, modify_nodes, ClusterState.nodeFailed]
  split
  · rename_i here
    rw [here]
    cases s.nodes r with
    | none => rfl
    | some n => exact same n
  · rfl

theorem nodeFailed_clusterStartHandshake (ip : List UInt8) (port : Nat) (r : NodeRef)
    : (s.clusterStartHandshake env ip port).nodeFailed r = s.nodeFailed r := by
  unfold ClusterState.clusterStartHandshake
  cases env.normIp ip with
  | none => rfl
  | some normIp =>
      dsimp only
      split
      · rfl
      split
      · rfl
      unfold ClusterState.clusterAddNode
      split
      · rfl
      · rw [ClusterState.nodeFailed, ClusterState.nodes, ClusterState.nodeFailed, NodeTable.insert]
        by_cases here : r = s.table.next
        · have unused : s.nodes r = none := s.table.unused r (Nat.le_of_eq here.symm)
          rw [unused]
          simp [here, createClusterNode]
        · simp [here]

/-- What an entry does to the reports and to the FAIL flags: a master's report is added or taken
back, or nothing changes.
-/
inductive EntryOutcome (e : GossipEntry) : Prop where
  | kept (reports : ReportsKept e.state e.after)
    (failed : ∀ r, e.after.nodeFailed r = e.state.nodeFailed r)
    (silent
      : ∀ reporter about,
          e.sender = some reporter → e.about = some about
          → e.state.nodeIsMaster reporter = false)
  | reported (reporter about : NodeRef) (sender : e.sender = some reporter)
    (node : e.about = some about) (master : e.state.nodeIsMaster reporter = true)
    (failing : e.failing = true)
    (reports
      : ReportsKept (e.state.clusterNodeAddFailureReport e.env about reporter) e.after)
    (failed
      : ∀ r, e.after.nodeFailed r
          = ((e.state.clusterNodeAddFailureReport e.env about
              reporter).markNodeAsFailingIfNeeded e.env about).nodeFailed r)
  | withdrawn (reporter about : NodeRef) (sender : e.sender = some reporter)
    (node : e.about = some about) (failing : e.failing = false)
    (reports
      : ReportsKept (e.state.clusterNodeDelFailureReport e.env about reporter) e.after)
    (failed : ∀ r, e.after.nodeFailed r = e.state.nodeFailed r)

theorem nodeFailed_cleanup (r r' : NodeRef)
    : (s.clusterNodeCleanupFailureReports env r).nodeFailed r' = s.nodeFailed r' :=
  nodeFailed_modify r' fun _ => rfl

theorem nodeFailed_clusterNodeDelFailureReport (about reporter r : NodeRef)
    : (s.clusterNodeDelFailureReport env about reporter).nodeFailed r = s.nodeFailed r := by
  unfold ClusterState.clusterNodeDelFailureReport
  split
  · refine (nodeFailed_cleanup about r).trans ?_
    exact nodeFailed_modify r fun _ => rfl
  · rfl

theorem entryOutcome (e : GossipEntry) : EntryOutcome e := by
  have handshake : ∀ (t : ClusterState) (c : Bool),
      ReportsKept t (if c then t.clusterStartHandshake e.env e.gossip.ip e.gossip.port else t)
      ∧ ∀ r, (if c then t.clusterStartHandshake e.env e.gossip.ip e.gossip.port
          else t).nodeFailed r = t.nodeFailed r := by
    intro t c
    refine ⟨step_either (reportsKept_clusterStartHandshake _ _) (.refl t), fun r => ?_⟩
    split
    · exact nodeFailed_clusterStartHandshake _ _ r
    · rfl
  cases found : e.state.clusterLookupNode e.gossip.nodename with
  | none =>
      have unknown : e.about = none := by simp [GossipEntry.about, found]
      have silent : ∀ reporter about, e.sender = some reporter → e.about = some about
          → e.state.nodeIsMaster reporter = false := by
        intro reporter about _ is
        rw [unknown] at is
        cases is
      have cleaned : ReportsKept e.state (e.state.clusterBlacklistCleanup e.env) := .of_table rfl
      by_cases trusted : (e.sender.isSome && !e.gossip.flags.noaddr) = true
      · have after : e.after
            = if (e.state.clusterBlacklistCleanup e.env).blacklisted e.gossip.nodename then
                e.state.clusterBlacklistCleanup e.env
              else (e.state.clusterBlacklistCleanup e.env).clusterStartHandshake e.env e.gossip.ip
                e.gossip.port := by
          rw [GossipEntry.after, ClusterState.processGossip, found]
          exact if_pos trusted
        refine .kept ?_ (fun r => ?_) silent
        · rw [after]
          exact step_either cleaned (cleaned.trans (reportsKept_clusterStartHandshake _ _))
        · rw [after]
          split
          · rfl
          · exact nodeFailed_clusterStartHandshake _ _ r
      · have after : e.after = e.state := by
          rw [GossipEntry.after, ClusterState.processGossip, found]
          exact if_neg trusted
        exact .kept (after ▸ .refl e.state) (fun r => by rw [after]) silent
  | some node =>
      have after : e.after
          = (let s := e.state.handleFailureReport e.env e.sender node e.gossip.flags
             if (s.nodes node).any fun n => (n.flags.fail || n.flags.pfail)
                && (!e.env.sameIp n.ip e.gossip.ip || n.port != e.gossip.port) then
               s.clusterStartHandshake e.env e.gossip.ip e.gossip.port
             else s) := by
        rw [GossipEntry.after, ClusterState.processGossip, found]
      obtain ⟨reports, failed⟩ :=
        handshake (e.state.handleFailureReport e.env e.sender node e.gossip.flags)
          (((e.state.handleFailureReport e.env e.sender node e.gossip.flags).nodes node).any
            fun n => (n.flags.fail || n.flags.pfail)
              && (!e.env.sameIp n.ip e.gossip.ip || n.port != e.gossip.port))
      rw [← after] at reports failed
      cases sender : e.sender with
      | none =>
          rw [sender] at reports failed
          exact .kept reports failed fun _ _ is => by simp [sender] at is
      | some reporter =>
          rw [sender, ClusterState.handleFailureReport] at reports failed
          by_cases counts : (e.state.nodeIsMaster reporter && node != e.state.myself) = true
          · have ⟨master, other⟩ := Bool.and_eq_true_iff.mp counts
            have about : e.about = some node := by
              rw [GossipEntry.about, found]
              exact Option.filter_eq_some_iff.mpr ⟨rfl, other⟩
            simp only [counts, if_true] at reports failed
            cases failing : e.failing with
            | true =>
                have reported : (e.gossip.flags.fail || e.gossip.flags.pfail) = true := failing
                simp only [reported, if_true] at reports failed
                exact .reported reporter node sender about master failing
                  (reportsKept_markNodeAsFailingIfNeeded.trans reports) failed
            | false =>
                have fine : (e.gossip.flags.fail || e.gossip.flags.pfail) = false := failing
                simp only [fine, Bool.false_eq_true, if_false] at reports failed
                refine .withdrawn reporter node sender about failing reports fun r => ?_
                rw [failed, nodeFailed_clusterNodeDelFailureReport]
          · simp only [counts, Bool.false_eq_true, if_false] at reports failed
            refine .kept reports failed fun other about is known => ?_
            rw [sender] at is
            cases is
            rw [GossipEntry.about, found] at known
            obtain ⟨_, elsewhere⟩ := Option.filter_eq_some_iff.mp known
            cases master : e.state.nodeIsMaster reporter with
            | false => rfl
            | true =>
                cases Option.filter_eq_some_iff.mp known |>.1
                exact absurd (Bool.and_eq_true_iff.mpr ⟨master, elsewhere⟩) counts

-- The invariant

theorem live_of_about {about : NodeRef} (node : e.about = some about)
    : e.state.live about = true := by
  rw [GossipEntry.about] at node
  have found := (Option.filter_eq_some_iff.mp node).1
  have there := List.find?_some found
  obtain ⟨n, is, _⟩ := (Option.any_eq_true _ _).mp there
  exact Option.isSome_iff_exists.mpr ⟨n, is⟩

theorem statement_of {reporter about : NodeRef} (sender : e.sender = some reporter)
    (node : e.about = some about)
    : e.statement = [⟨reporter, about, e.failing, e.env.mstime⟩] := by
  rw [GossipEntry.statement, sender, node]

theorem ReportStands.heard {reporter r : NodeRef} {time : Int}
    (stands : ReportStands e.heard reporter r time) (other
      : ∀ sender about,
          e.sender = some sender → e.about = some about → e.failing = false
          → sender = reporter → about ≠ r)
    : ReportStands (e.heard ++ e.statement) reporter r time := by
  refine stands.append fun later member who whom => ?_
  cases sender : e.sender with
  | none => simp [GossipEntry.statement, sender] at member
  | some speaker =>
      cases node : e.about with
      | none => simp [GossipEntry.statement, sender, node] at member
      | some about =>
          rw [statement_of sender node] at member
          cases List.mem_singleton.mp member
          cases failing : e.failing with
          | true => rfl
          | false => exact absurd whom (other speaker about sender node failing who)

theorem ReportsStand.added {reporter about : NodeRef}
    (stand : ReportsStand e.heard e.state) (sender : e.sender = some reporter)
    (node : e.about = some about) (failing : e.failing = true)
    : ReportsStand (e.heard ++ e.statement)
        (e.state.clusterNodeAddFailureReport e.env about reporter) := by
  have stated := statement_of sender node
  refine ⟨fun r => ?_, fun r report member => ?_⟩
  · rw [failReports_add reporter (live_of_about node)]
    split
    · exact addReport_distinct (stand.distinct about)
    · exact stand.distinct r
  · have old : ∀ report ∈ e.state.failReports r,
        ReportStands (e.heard ++ e.statement) report.1 r report.2 := by
      intro report member
      refine (stand.stand r report member).heard fun _ _ _ _ fine => ?_
      rw [failing] at fine
      cases fine
    rw [failReports_add reporter (live_of_about node)] at member
    split at member
    · rename_i here
      subst here
      rcases addReport_mem member with rfl | ⟨inside, _⟩
      · rw [stated, failing]
        exact reportStands_made
      · exact old report inside
    · exact old report member

theorem ReportsStand.after (stand : ReportsStand e.heard e.state) (allowed : e.allowed = true)
    : ReportsStand (e.heard ++ e.statement) e.after := by
  cases entryOutcome e with
  | kept reports failed silent =>
      have still : ReportsStand (e.heard ++ e.statement) e.state := by
        refine ⟨stand.distinct, fun r report member => ?_⟩
        refine (stand.stand r report member).heard fun sender about is node failing who => ?_
        rintro rfl
        have guard := allowed
        simp only [GossipEntry.allowed, is, node, failing, Bool.false_eq_true, if_false,
          silent sender about is node, Bool.false_or, List.all_eq_true, bne_iff_ne] at guard
        exact guard report member who.symm
      exact still.kept reports
  | reported reporter about sender node master failing reports failed =>
      exact (stand.added sender node failing).kept reports
  | withdrawn reporter about sender node failing reports failed =>
      refine ReportsStand.kept ⟨fun r => ?_, fun r report member => ?_⟩ reports
      · exact (stand.distinct r).sublist
          (((rearranged_clusterNodeDelFailureReport about reporter).reports r).map _)
      · have before :=
          ((rearranged_clusterNodeDelFailureReport about reporter).reports r).subset member
        refine (stand.stand r report before).heard fun speaker other is whom _ who => ?_
        rintro rfl
        rw [sender] at is
        rw [node] at whom
        cases is
        cases whom
        exact failReports_withdrawn (stand.distinct _) member who.symm

-- The quorum

theorem clusterSendFail_table (nodename : NodeName)
    : (s.clusterSendFail nodename).table = s.table := by
  suffices sends : ∀ (message : ClusterMsg) (destinations : List NodeRef) (t : ClusterState),
      (destinations.foldl (fun t r => t.clusterSendMessage (some r) message) t).table = t.table from
    sends _ _ s
  intro message destinations
  induction destinations with
  | nil => exact fun _ => rfl
  | cons r destinations ih => exact fun t => ih (t.clusterSendMessage (some r) message)

theorem nodes_markNodeAsFailingIfNeeded {r r' : NodeRef} (other : r' ≠ r)
    : (s.markNodeAsFailingIfNeeded env r).nodes r' = s.nodes r' := by
  have modified : ∀ (t : ClusterState) (f : ClusterNode → ClusterNode),
      (t.modify r f).nodes r' = t.nodes r' := by
    intro t f
    rw [modify_nodes, if_neg other]
  have cleaned : (s.clusterNodeCleanupFailureReports env r).nodes r' = s.nodes r' := modified s _
  have told : ∀ t : ClusterState,
      (if t.nodeIsMaster t.myself then t.clusterSendFail (t.name r) else t).nodes r'
        = t.nodes r' := by
    intro t
    split
    · rw [ClusterState.nodes, clusterSendFail_table]
    · rfl
  have noted : ∀ (t : ClusterState) (flags : TodoBeforeSleep),
      (t.clusterDoBeforeSleep flags).nodes r' = t.nodes r' := fun _ _ => rfl
  unfold ClusterState.markNodeAsFailingIfNeeded
  split
  · rfl
  have chosen : ∀ (c : Prop) [Decidable c] (t u : ClusterState), t.nodes r' = s.nodes r'
      → u.nodes r' = s.nodes r' → (if c then t else u).nodes r' = s.nodes r' := by
    intro c _ t u first second
    split
    · exact first
    · exact second
  refine chosen _ _ _ cleaned ?_
  rw [noted, told, modified, cleaned]

theorem flags_clusterNodeAddFailureReport (about reporter r : NodeRef) (p : NodeFlags → Bool)
    : ((s.clusterNodeAddFailureReport env about reporter).nodes r).any (fun n => p n.flags)
      = (s.nodes r).any fun n => p n.flags := by
  rw [ClusterState.clusterNodeAddFailureReport, modify_nodes]
  split
  · rename_i here
    rw [here]
    cases s.nodes about with
    | none => rfl
    | some n =>
        simp only [Option.map_some, Option.any_some]
        split <;> rfl
  · rfl

theorem markNodeAsFailingIfNeeded_marks {r r' : NodeRef} (before : s.nodeFailed r' = false)
    (marked : (s.markNodeAsFailingIfNeeded env r).nodeFailed r' = true)
    : r' = r ∧ s.nodeTimedOut r = true
      ∧ s.size / 2 + 1
        ≤ ((s.failReports r).filter fun report =>
              decide (env.mstime - report.2 ≤ env.nodeTimeout * 2)).length
          + (if s.nodeIsMaster s.myself then 1 else 0) := by
  have here : r' = r := by
    by_contra other
    rw [ClusterState.nodeFailed, nodes_markNodeAsFailingIfNeeded other] at marked
    exact absurd (before.symm.trans marked) (by decide)
  unfold ClusterState.markNodeAsFailingIfNeeded at marked
  split at marked
  · rw [before] at marked
    cases marked
  rename_i guard
  rw [Bool.or_eq_true, not_or, Bool.not_eq_true', Bool.not_eq_false] at guard
  have cleaned : ((s.clusterNodeCleanupFailureReports env r).nodes r).elim 0
      (·.failReports.length)
      = ((s.failReports r).filter fun report =>
          decide (env.mstime - report.2 ≤ env.nodeTimeout * 2)).length := by
    rw [ClusterState.clusterNodeCleanupFailureReports, modify_nodes, if_pos rfl,
      ClusterState.failReports]
    cases s.nodes r <;> rfl
  have master : (s.clusterNodeCleanupFailureReports env r).nodeIsMaster
      (s.clusterNodeCleanupFailureReports env r).myself = s.nodeIsMaster s.myself := by
    rw [ClusterState.nodeIsMaster, ClusterState.clusterNodeCleanupFailureReports, modify_nodes,
      ClusterState.nodeIsMaster]
    split
    · rename_i here
      have same : s.myself = r := here
      rw [same]
      cases s.nodes r <;> rfl
    · rfl
  have size : (s.clusterNodeCleanupFailureReports env r).size = s.size := rfl
  have still : (s.clusterNodeCleanupFailureReports env r).nodeFailed r' = false :=
    (nodeFailed_cleanup r r').trans before
  dsimp only at marked
  rw [cleaned, master, size] at marked
  have enough : ¬ (if s.nodeIsMaster s.myself = true then
        ((s.failReports r).filter fun report =>
          decide (env.mstime - report.2 ≤ env.nodeTimeout * 2)).length + 1
      else
        ((s.failReports r).filter fun report =>
          decide (env.mstime - report.2 ≤ env.nodeTimeout * 2)).length) < s.size / 2 + 1 := by
    intro less
    rw [if_pos less, still] at marked
    cases marked
  refine ⟨here, guard.1, ?_⟩
  split
  · rename_i is
    rw [if_pos is] at enough
    omega
  · rename_i isNot
    rw [if_neg isNot] at enough
    omega

theorem quorum_of_marks {r : NodeRef} (stand : ReportsStand e.heard e.state)
    (allowed : e.allowed = true) (marks : e.Marks r)
    : e.Quorum r := by
  obtain ⟨before, marked⟩ := marks
  cases entryOutcome e with
  | kept reports failed silent =>
      rw [failed, before] at marked
      cases marked
  | withdrawn reporter about sender node failing reports failed =>
      rw [failed, before] at marked
      cases marked
  | reported reporter about sender node master failing reports failed =>
      have added := stand.added sender node failing
      rw [failed] at marked
      have there := live_of_about node
      have still : (e.state.clusterNodeAddFailureReport e.env about reporter).nodeFailed r
          = false :=
        (flags_clusterNodeAddFailureReport about reporter r (·.fail)).trans before
      obtain ⟨rfl, timedOut, enough⟩ := markNodeAsFailingIfNeeded_marks still marked
      have timed : e.state.nodeTimedOut r = true :=
        (flags_clusterNodeAddFailureReport r reporter r (·.pfail)).symm.trans timedOut
      have role : (e.state.clusterNodeAddFailureReport e.env r reporter).nodeIsMaster
            (e.state.clusterNodeAddFailureReport e.env r reporter).myself
          = e.state.nodeIsMaster e.state.myself :=
        flags_clusterNodeAddFailureReport r reporter e.state.myself (·.master)
      have sized : (e.state.clusterNodeAddFailureReport e.env r reporter).size = e.state.size := rfl
      rw [role, sized, failReports_add reporter there, if_pos rfl] at enough
      have guard := allowed
      simp only [GossipEntry.allowed, sender, node, failing, if_true, master, Bool.not_true, timed,
        before, Bool.false_or, GossipEntry.votersCount, Bool.and_eq_true, beq_iff_eq,
        List.all_eq_true, bne_iff_ne, List.contains_iff_mem] at guard
      obtain ⟨⟨size, own⟩, others⟩ := guard
      let reports := (addReport (e.state.failReports r) reporter e.env.mstime).filter fun report =>
        decide (e.env.mstime - report.2 ≤ e.env.nodeTimeout * 2)
      have distinct : (reports.map (·.1)).Nodup :=
        (addReport_distinct (stand.distinct r)).sublist (List.filter_sublist.map _)
      -- Each report that is counted is the new one, or an old one that is still valid.
      have counted : ∀ report ∈ reports, report.1 ∈ e.reporters reporter r
          ∧ e.valid report.2
          ∧ ReportStands (e.heard ++ e.statement) report.1 r report.2 := by
        intro report member
        obtain ⟨inside, valid⟩ := List.mem_filter.mp member
        have listed
            : report ∈ (e.state.clusterNodeAddFailureReport e.env r reporter).failReports r := by
          rw [failReports_add reporter there, if_pos rfl]
          exact inside
        have inTime : e.env.mstime - report.2 ≤ e.env.nodeTimeout * 2 := of_decide_eq_true valid
        refine ⟨?_, inTime, added.stand r report listed⟩
        rcases addReport_mem inside with rfl | ⟨old, _⟩
        · exact List.mem_cons_self
        · refine List.mem_cons_of_mem _ (List.mem_map.mpr ⟨report, ?_, rfl⟩)
          exact List.mem_filter.mpr ⟨old, valid⟩
      have reported : ∀ voter ∈ (reports.map (·.1)).toFinset,
          (voter ∈ e.state.votingMasters ∧ voter ≠ e.state.myself)
          ∧ ∃ time, e.valid time ∧ ReportStands (e.heard ++ e.statement) voter r time := by
        intro voter member
        obtain ⟨report, inside, rfl⟩ := List.mem_map.mp (List.mem_toFinset.mp member)
        obtain ⟨listed, valid, stands⟩ := counted report inside
        exact ⟨others report.1 listed, report.2, valid, stands⟩
      have card : (reports.map (·.1)).toFinset.card = reports.length := by
        rw [List.toFinset_card_of_nodup distinct, List.length_map]
      rw [size] at enough
      by_cases voting : e.state.nodeIsMaster e.state.myself = true
      · have self : e.state.myself ∈ e.state.votingMasters := by
          simpa only [voting, Bool.not_true, Bool.false_or, List.contains_iff_mem] using own
        refine ⟨insert e.state.myself (reports.map (·.1)).toFinset, ?_, ?_⟩
        · rw [Finset.card_insert_of_notMem fun member => (reported _ member).1.2 rfl, card]
          rw [if_pos voting] at enough
          exact enough
        · intro voter member
          rcases Finset.mem_insert.mp member with rfl | other
          · exact ⟨self, .inl ⟨rfl, timed⟩⟩
          · exact ⟨(reported voter other).1.1, .inr (reported voter other).2⟩
      · refine ⟨(reports.map (·.1)).toFinset, ?_, ?_⟩
        · rw [card]
          rw [if_neg voting] at enough
          exact enough
        · exact fun voter member => ⟨(reported voter member).1.1, .inr (reported voter member).2⟩

end Entries

section Runs

variable {env : ClusterEnv} {s : ClusterState} {sender : Option NodeRef} {n : ListeningNode}

theorem sectionEntries_stand {heard : List Statement} {gossip : List Gossip}
    (stand : ReportsStand heard s)
    (allowed : ∀ e ∈ sectionEntries env sender heard s gossip, e.allowed = true)
    : (∀ e ∈ sectionEntries env sender heard s gossip, ReportsStand e.heard e.state)
      ∧ ReportsStand (heard ++ (sectionEntries env sender heard s gossip).flatMap (·.statement))
          (gossip.foldl (fun s g => s.processGossip env sender g) s) := by
  induction gossip generalizing heard s with
  | nil => exact ⟨by simp [sectionEntries], by simpa [sectionEntries] using stand⟩
  | cons g gossip ih =>
      let e : GossipEntry := ⟨heard, s, env, sender, g⟩
      have first : ReportsStand (heard ++ e.statement) e.after :=
        ReportsStand.after stand (allowed e List.mem_cons_self)
      obtain ⟨entries, last⟩ := ih first fun later member =>
        allowed later (List.mem_cons_of_mem e member)
      refine ⟨?_, ?_⟩
      · intro later member
        rcases List.mem_cons.mp member with rfl | inside
        · exact stand
        · exact entries later inside
      · rw [sectionEntries, List.flatMap_cons, ← List.append_assoc]
        exact last

theorem packetEntries_stand {arrival : ClusterState.Arrival} {hdr : ClusterMsg}
    (stand : ReportsStand n.heard n.state)
    (allowed : ∀ e ∈ n.packetEntries env arrival hdr, e.allowed = true)
    : (∀ e ∈ n.packetEntries env arrival hdr, ReportsStand e.heard e.state)
      ∧ ReportsStand (n.heard ++ (n.packetEntries env arrival hdr).flatMap (·.statement))
          (n.state.clusterProcessPacket env arrival hdr) := by
  have around := keptAround_processChecked env n.state
    { arrival with linkNode := arrival.linkNode.filter n.state.live } hdr
  unfold ListeningNode.packetEntries at allowed ⊢
  dsimp only at allowed ⊢
  cases call : n.state.gossipCall env
      { arrival with linkNode := arrival.linkNode.filter n.state.live } hdr with
  | none =>
      rw [call] at around
      refine ⟨by simp, ?_⟩
      rw [List.flatMap_nil, List.append_nil]
      exact stand.kept around
  | some start =>
      rw [call] at around allowed
      obtain ⟨before, behind⟩ := around
      obtain ⟨entries, last⟩ := sectionEntries_stand (stand.kept before) allowed
      exact ⟨entries, last.kept behind⟩

theorem ListeningNode.step_stand {event : NodeEvent} (stand : ReportsStand n.heard n.state)
    (allowed : ∀ e ∈ n.entries event, e.allowed = true)
    : (∀ e ∈ n.entries event, ReportsStand e.heard e.state)
      ∧ ReportsStand (n.step event).heard (n.step event).state := by
  cases event with
  | packet env arrival hdr => exact packetEntries_stand stand allowed
  | cron env step => exact ⟨by simp [entries], stand.kept (reportsKept_clusterCron step)⟩
  | beforeSleep env call =>
      exact ⟨by simp [entries], stand.kept (reportsKept_clusterBeforeSleep call)⟩
  | command env keys sub =>
      exact ⟨by simp [entries], stand.kept (reportsKept_clusterCommand keys sub)⟩
  | restart env authSent =>
      exact ⟨by simp [entries], reportsStand_started (clusterLoadConfig_failReports _ _ _)⟩

theorem ListeningNode.trace_stand {events : List NodeEvent} (stand : ReportsStand n.heard n.state)
    (allowed : ∀ e ∈ n.trace events, e.allowed = true)
    : ∀ e ∈ n.trace events, ReportsStand e.heard e.state := by
  induction events generalizing n with
  | nil => simp [trace]
  | cons event events ih =>
      obtain ⟨here, next⟩ := step_stand stand fun e member =>
        allowed e (List.mem_append_left _ member)
      intro e member
      rcases List.mem_append.mp member with inside | later
      · exact here e inside
      · exact ih next (fun e member => allowed e (List.mem_append_right _ member)) e later

/-- In every run whose gossip entries are allowed, a node is marked as failing only when more than
half of the masters with slots say that it is failing.
-/
theorem fail_needs_majority (env : ClusterEnv) (name : NodeName) (authSent : Bool)
    (events : List NodeEvent)
    (allowed : ∀ e ∈ (startListening env name authSent).trace events, e.allowed = true)
    : ∀ e ∈ (startListening env name authSent).trace events, ∀ r, e.Marks r → e.Quorum r := by
  have started : ReportsStand [] (ClusterState.clusterInit env name authSent) :=
    reportsStand_started (clusterInit_failReports env name authSent)
  intro e member r marks
  exact quorum_of_marks (ListeningNode.trace_stand started allowed e member)
    (allowed e member) marks

-- Two runs

instance (e : GossipEntry) (r : NodeRef) : Decidable (e.Marks r) :=
  inferInstanceAs (Decidable (_ ∧ _))

/-- The names of three nodes; the first is the node that listens. -/
def nodeName (i : UInt8) : NodeName := List.replicate 40 (65 + i)

/-- A message of a master that serves some slots. -/
def masterSays (i : UInt8) (slots : Slot → Bool) (data : ClusterMsgData) : ClusterMsg where
  sender := nodeName i
  currentEpoch := 0
  configEpoch := 0
  offset := 0
  myslots := slots
  slaveof := nullName
  port := 7000
  flags := { master := true }
  paused := false
  forceack := false
  data := data

/-- A node is met: its MEET arrives, and its PONG on the link to it. -/
def meets (i : UInt8) : List NodeEvent :=
  [.packet (.still 1) ⟨none, [i], none⟩ (masterSays i (fun _ => false) (.meet [])),
    .packet (.still 1) ⟨some i.toNat, [i], none⟩ (masterSays i (fun _ => false) (.pong []))]

/-- The second node says that the third one is failing. -/
def reportsFailing (slots : Slot → Bool) : List NodeEvent :=
  [.packet (.still 1) ⟨some 1, [1], none⟩
    (masterSays 1 slots (.pong [⟨nodeName 2, [2], 7000, { pfail := true }⟩]))]

/-- Three masters without slots, of which two find that the third is failing. -/
def slotlessReport : List NodeEvent :=
  meets 1 ++ meets 2 ++ [.cron (.still 1) (.possiblyFailing 2)] ++ reportsFailing fun _ => false

/-- The same, but the two serve a slot each. -/
def votersReport : List NodeEvent :=
  meets 1 ++ meets 2
    ++ [.command (.still 1) ⟨0, fun _ => 0⟩ (.setslotNode ⟨0, by decide⟩ (nodeName 0)),
      .command (.still 1) ⟨0, fun _ => 0⟩ (.setslotNode ⟨1, by decide⟩ (nodeName 1)),
      .cron (.still 1) .updateState, .cron (.still 1) (.possiblyFailing 2)]
    ++ reportsFailing fun slot => slot == ⟨1, by decide⟩

theorem votersReport_marks
    : (∃ e ∈ (startListening (.still 1) (nodeName 0) false).trace votersReport, e.Marks 2)
      ∧ ∀ e ∈ (startListening (.still 1) (nodeName 0) false).trace votersReport,
          ∀ r, e.Marks r → e.Quorum r :=
  ⟨by decide +kernel, fail_needs_majority _ _ _ votersReport (by decide +kernel)⟩

theorem slotlessReport_marks
    : ∃ e ∈ (startListening (.still 1) (nodeName 0) false).trace slotlessReport,
        e.Marks 2 ∧ e.state.votingMasters = [] := by
  decide +kernel

/-- A node is marked as failing although no master serves a slot. -/
theorem slotless_masters_mark_failing
    : ∃ e ∈ (startListening (.still 1) (nodeName 0) false).trace slotlessReport,
        e.Marks 2 ∧ ¬ e.Quorum 2 := by
  obtain ⟨e, member, marks, noMasters⟩ := slotlessReport_marks
  refine ⟨e, member, marks, ?_⟩
  rintro ⟨voters, enough, voting⟩
  obtain ⟨voter, inside⟩ := Finset.card_pos.mp (Nat.lt_of_lt_of_le (Nat.succ_pos _) enough)
  have master := (voting voter inside).1
  rw [noMasters] at master
  cases master

end Runs

end Redis.Cluster
