import Redis.Cluster.FailureReports
import Redis.Cluster.Votes

/-! Votes across restarts: a node whose votes leave it only after they were saved votes at most
once in an epoch.
-/

namespace Redis.Cluster

-- Runs

/-- A node, with the messages that were written to its links since it was first started. -/
structure VotingNode where
  state : ClusterState
  left : List ClusterMsg

/-- What happens to a node. Links have buffers of their own, so any message can be the next one
that is written.
-/
inductive VotingEvent where
  | packet (env : ClusterEnv) (arrival : ClusterState.Arrival) (hdr : ClusterMsg)
  | cron (env : ClusterEnv) (step : ClusterState.CronStep)
  | beforeSleep (env : ClusterEnv) (call : ClusterState.SlaveCall)
  | write (index : Nat)
  | crash (env : ClusterEnv) (authSent : Bool)

namespace VotingNode

/-- A node that is started from a configuration. -/
def start (env : ClusterEnv) (conf : SavedConfig) (authSent : Bool) : VotingNode where
  state := .clusterLoadConfig env conf authSent
  left := []

def write (n : VotingNode) (index : Nat) : VotingNode :=
  match n.state.sent[index]? with
  | none => n
  | some m =>
      { state := { n.state with sent := n.state.sent.eraseIdx index }
        left := n.left ++ [m.2] }

/-- Nothing but a restart happens to a process that has ended. -/
def step (n : VotingNode) : VotingEvent → VotingNode
  | .crash env authSent =>
      { n with state := .clusterLoadConfig env n.state.conf authSent }
  | .packet env arrival hdr =>
      if n.state.failedAsserts = [] then
        { n with state := n.state.clusterProcessPacket env arrival hdr }
      else n
  | .cron env step =>
      if n.state.failedAsserts = [] then { n with state := n.state.clusterCron env step } else n
  | .beforeSleep env call =>
      if n.state.failedAsserts = [] then
        { n with state := n.state.clusterBeforeSleep env call }
      else n
  | .write index => if n.state.failedAsserts = [] then n.write index else n

def run (n : VotingNode) (events : List VotingEvent) : VotingNode := events.foldl step n

end VotingNode

def voteEpoch (m : ClusterMsg) : Option Nat :=
  match m.data with
  | .failoverAuthAck => some m.currentEpoch
  | _ => none

def VotingNode.votes (n : VotingNode) : List Nat := n.left.filterMap voteEpoch

/-- The epochs of the votes that wait in the buffers of a node. -/
def VotingNode.queuedVotes (n : VotingNode) : List Nat :=
  n.state.sent.filterMap fun m => voteEpoch m.2

/-- No epoch was voted in twice, and the votes that left are in the saved configuration. -/
structure VotingNode.VotesOnce (n : VotingNode) : Prop where
  once : n.votes.Nodup
  saved : ∀ epoch ∈ n.votes, epoch ≤ n.state.conf.lastVoteEpoch

/-- The votes that were given since a round of `clusterBeforeSleep` last found that the
configuration is to be saved, or since the last restart.
-/
def VotingNode.unsavedAfter (n : VotingNode) (unsaved : List Nat) : VotingEvent → List Nat
  | .packet env _ hdr => (n.state.grantedEpoch env hdr).toList ++ unsaved
  | .beforeSleep _ _ =>
      if n.state.failedAsserts = [] ∧ n.state.todo.saveConfig = true then [] else unsaved
  | .crash _ _ => []
  | .cron _ _ => unsaved
  | .write _ => unsaved

/-- The epoch of the vote that is written, if it is one. -/
def VotingNode.leaving (n : VotingNode) : VotingEvent → Option Nat
  | .write index => n.state.sent[index]?.bind fun m => voteEpoch m.2
  | _ => none

/-- Every vote that is written was given before a round of `clusterBeforeSleep` in which some
change had asked for the configuration to be saved.
-/
def VotingNode.votesWait (n : VotingNode) (unsaved : List Nat) : List VotingEvent → Bool
  | [] => true
  | event :: rest =>
      (n.leaving event).all (· ∉ unsaved)
      && (n.step event).votesWait (n.unsavedAfter unsaved event) rest

-- The invariant

/-- A vote that keeps a node with these epochs from voting again in its epoch. -/
structure VoteHeld (currentEpoch lastVoteEpoch epoch : Nat) : Prop where
  seen : epoch ≤ currentEpoch
  voted : epoch ≤ lastVoteEpoch
  blocks : epoch = currentEpoch → lastVoteEpoch = currentEpoch

theorem VoteHeld.later {currentEpoch later lastVoteEpoch epoch : Nat}
    (held : VoteHeld currentEpoch lastVoteEpoch epoch) (le : currentEpoch ≤ later)
    : VoteHeld later lastVoteEpoch epoch where
  seen := held.seen.trans le
  voted := held.voted
  blocks is := by
    have same : currentEpoch = later := le_antisymm le (is ▸ held.seen)
    exact same ▸ held.blocks (is.trans same.symm)

/-- Votes are in different epochs, are noted in memory, and are noted in the saved configuration
when they left or count as saved.
-/
structure VoteInvariant (unsaved : List Nat) (n : VotingNode) : Prop where
  distinct : (n.votes ++ n.queuedVotes).Nodup
  held : ∀ epoch ∈ n.votes ++ n.queuedVotes,
    VoteHeld n.state.currentEpoch n.state.lastVoteEpoch epoch
  saved : ∀ epoch ∈ n.votes,
    VoteHeld n.state.conf.currentEpoch n.state.conf.lastVoteEpoch epoch
  queued : ∀ epoch ∈ n.queuedVotes,
    VoteHeld n.state.conf.currentEpoch n.state.conf.lastVoteEpoch epoch ∨ epoch ∈ unsaved

section Invariant

variable {unsaved : List Nat} {n : VotingNode} {s : ClusterState}

theorem VoteKept.queuedVotes {left : List ClusterMsg} (kept : VoteKept n.state s)
    : VotingNode.queuedVotes ⟨s, left⟩ = n.queuedVotes := by
  obtain ⟨more, sent, plain⟩ := kept.sent
  have none : more.filterMap (fun m => voteEpoch m.2) = [] := by
    refine List.filterMap_eq_nil_iff.mpr fun m member => ?_
    cases data : m.2.data <;> simp [voteEpoch, data]
    exact plain m member data
  simp only [VotingNode.queuedVotes, sent, List.filterMap_append, none, List.append_nil]

theorem VoteKept.confHeld {epoch : Nat} (kept : VoteKept n.state s)
    (held : VoteHeld n.state.currentEpoch n.state.lastVoteEpoch epoch)
    (old : VoteHeld n.state.conf.currentEpoch n.state.conf.lastVoteEpoch epoch)
    : VoteHeld s.conf.currentEpoch s.conf.lastVoteEpoch epoch := by
  rcases kept.conf with ⟨vote, current, _⟩ | ⟨vote, later⟩
  · rwa [vote, current]
  · rw [vote]
    exact held.later later

theorem VoteInvariant.keep (invariant : VoteInvariant unsaved n) (kept : VoteKept n.state s)
    : VoteInvariant unsaved { n with state := s } where
  distinct := by
    rw [kept.queuedVotes]
    exact invariant.distinct
  held epoch member := by
    rw [kept.queuedVotes] at member
    rw [kept.lastVote]
    exact (invariant.held epoch member).later kept.epoch
  saved epoch member :=
    kept.confHeld (invariant.held epoch (List.mem_append_left _ member))
      (invariant.saved epoch member)
  queued epoch member := by
    rw [kept.queuedVotes] at member
    rcases invariant.queued epoch member with old | pending
    · exact .inl
        (kept.confHeld (invariant.held epoch (List.mem_append_right _ member)) old)
    · exact .inr pending

theorem VoteInvariant.grant {epoch : Nat} (invariant : VoteInvariant unsaved n)
    (granted : VoteGranted n.state s epoch)
    : VoteInvariant (epoch :: unsaved) { n with state := s } := by
  obtain ⟨more, sent, shape⟩ := granted.sent
  have old : ∀ e ∈ n.votes ++ n.queuedVotes, e < epoch := by
    intro e member
    have held := (invariant.held e member).later granted.later
    exact lt_of_le_of_ne held.seen fun same => granted.fresh (held.blocks same)
  have held : ∀ e, e ≤ epoch → VoteHeld s.currentEpoch s.lastVoteEpoch e := by
    intro e le
    rw [granted.current, granted.lastVote]
    exact ⟨le, le, fun _ => rfl⟩
  have queued : VotingNode.queuedVotes ⟨s, n.left⟩ = n.queuedVotes
      ∨ VotingNode.queuedVotes ⟨s, n.left⟩ = n.queuedVotes ++ [epoch] := by
    rcases shape with rfl | ⟨r, m, rfl, data, is⟩
    · exact .inl (by simp [VotingNode.queuedVotes, sent])
    · exact .inr (by simp [VotingNode.queuedVotes, sent, voteEpoch, data, is])
  have saved : ∀ e ∈ n.votes, VoteHeld s.conf.currentEpoch s.conf.lastVoteEpoch e := by
    rw [granted.conf]
    exact invariant.saved
  have waiting : ∀ e ∈ n.queuedVotes,
      VoteHeld s.conf.currentEpoch s.conf.lastVoteEpoch e ∨ e ∈ epoch :: unsaved := by
    rw [granted.conf]
    intro e member
    exact (invariant.queued e member).imp_right (List.mem_cons_of_mem epoch)
  rcases queued with same | one
  · refine ⟨?_, fun e member => ?_, saved, ?_⟩
    · rw [same]
      exact invariant.distinct
    · rw [same] at member
      exact held e (old e member).le
    · rw [same]
      exact waiting
  · refine ⟨?_, fun e member => ?_, saved, fun e member => ?_⟩
    · rw [one, ← List.append_assoc]
      refine List.nodup_append'.mpr ⟨invariant.distinct, List.nodup_singleton epoch, ?_⟩
      intro e member new
      exact (old e member).ne (List.mem_singleton.mp new)
    · rw [one, ← List.append_assoc] at member
      rcases List.mem_append.mp member with before | new
      · exact held e (old e before).le
      · exact held e (List.mem_singleton.mp new).le
    · rw [one] at member
      rcases List.mem_append.mp member with before | new
      · exact waiting e before
      · exact .inr (by simp [List.mem_singleton.mp new])

theorem VoteInvariant.processPacket (invariant : VoteInvariant unsaved n) (env : ClusterEnv)
    (arrival : ClusterState.Arrival) (hdr : ClusterMsg)
    : VoteInvariant ((n.state.grantedEpoch env hdr).toList ++ unsaved)
        { n with state := n.state.clusterProcessPacket env arrival hdr } := by
  cases granted : n.state.grantedEpoch env hdr with
  | none => exact invariant.keep (voteKept_clusterProcessPacket arrival granted)
  | some epoch => exact invariant.grant (clusterProcessPacket_granted arrival granted)

theorem VoteInvariant.weaken {more : List Nat} (invariant : VoteInvariant unsaved n)
    (contained : ∀ epoch ∈ unsaved, epoch ∈ more)
    : VoteInvariant more n :=
  { invariant with
    queued := fun epoch member => (invariant.queued epoch member).imp_right (contained epoch) }

theorem clusterBeforeSleep_saved (env : ClusterEnv) (call : ClusterState.SlaveCall)
    : ∃ t, VoteKept s t ∧ (s.clusterBeforeSleep env call) = { t with todo := {} }
      ∧ (s.todo.saveConfig = true →
          t.conf.lastVoteEpoch = s.lastVoteEpoch ∧ s.currentEpoch ≤ t.conf.currentEpoch) := by
  have failover : VoteKept s
      (if s.todo.handleFailover then s.clusterHandleSlaveFailover env call else s) :=
    step_ite (fun _ => voteKept_clusterHandleSlaveFailover call) fun _ => .refl s
  unfold ClusterState.clusterBeforeSleep
  generalize (if s.todo.handleFailover then s.clusterHandleSlaveFailover env call else s) = t
    at failover
  have updated : VoteKept t (if t.todo.updateState then t.clusterUpdateState env else t) :=
    step_ite (fun _ => voteKept_clusterUpdateState) fun _ => .refl t
  have both := failover.trans updated
  dsimp only
  generalize (if t.todo.updateState then t.clusterUpdateState env else t) = u at both
  refine ⟨_, both.trans (step_ite (fun _ => voteKept_clusterSaveConfig _)
    fun _ => .refl u), rfl, fun due => ?_⟩
  split
  · exact ⟨both.lastVote, both.epoch⟩
  · rename_i unraised
    rcases both.conf with ⟨_, _, raised⟩ | saved
    · exact absurd (raised due) unraised
    · exact saved

theorem VoteInvariant.beforeSleep (invariant : VoteInvariant unsaved n) (env : ClusterEnv)
    (call : ClusterState.SlaveCall)
    : VoteInvariant (if n.state.todo.saveConfig then [] else unsaved)
        { n with state := n.state.clusterBeforeSleep env call } := by
  obtain ⟨t, kept, same, saved⟩ := clusterBeforeSleep_saved (s := n.state) env call
  have next := invariant.keep kept
  rw [same]
  split
  · rename_i due
    obtain ⟨vote, current⟩ := saved due
    refine ⟨next.distinct, next.held, next.saved, fun epoch member => .inl ?_⟩
    have before : epoch ∈ n.queuedVotes := by
      have same : VotingNode.queuedVotes ⟨t, n.left⟩ = n.queuedVotes := kept.queuedVotes
      rwa [← same]
    have noted := (invariant.held epoch (List.mem_append_right _ before)).later current
    rwa [← vote] at noted
  · exact ⟨next.distinct, next.held, next.saved, next.queued⟩

theorem write_votes {index : Nat} {m : Option NodeRef × ClusterMsg}
    (there : n.state.sent[index]? = some m)
    : ((n.write index).votes ++ (n.write index).queuedVotes).Perm (n.votes ++ n.queuedVotes) := by
  obtain ⟨inside, is⟩ := List.getElem?_eq_some_iff.mp there
  have moved : (m :: n.state.sent.eraseIdx index).Perm n.state.sent := by
    rw [← is]
    exact List.getElem_cons_eraseIdx_perm inside
  have votes := moved.filterMap fun m => voteEpoch m.2
  simp only [VotingNode.write, there, VotingNode.votes, VotingNode.queuedVotes,
    List.filterMap_append, List.append_assoc]
  refine List.Perm.append_left _ (List.Perm.trans (List.Perm.of_eq ?_) votes)
  simp only [List.filterMap_cons, List.filterMap_nil]
  cases voteEpoch m.2 <;> rfl

theorem VoteInvariant.write {index : Nat} (invariant : VoteInvariant unsaved n)
    (waited : (n.leaving (.write index)).all (· ∉ unsaved) = true)
    : VoteInvariant unsaved (n.write index) := by
  cases there : n.state.sent[index]? with
  | none =>
      have same : n.write index = n := by simp [VotingNode.write, there]
      rw [same]
      exact invariant
  | some m =>
      have moved := write_votes there
      have member : m ∈ n.state.sent := List.mem_of_getElem? there
      refine ⟨moved.nodup_iff.mpr invariant.distinct, fun epoch inside => ?_,
        fun epoch inside => ?_, fun epoch inside => ?_⟩
      · have held := invariant.held epoch (moved.mem_iff.mp inside)
        simpa [VotingNode.write, there] using held
      · simp only [VotingNode.write, there, VotingNode.votes, List.filterMap_append,
          List.mem_append, List.mem_filterMap, List.mem_singleton] at inside ⊢
        rcases inside with ⟨m', left, is⟩ | ⟨_, rfl, is⟩
        · exact invariant.saved epoch (List.mem_filterMap.mpr ⟨m', left, is⟩)
        · have queued : epoch ∈ n.queuedVotes := List.mem_filterMap.mpr ⟨m, member, is⟩
          refine (invariant.queued epoch queued).resolve_right ?_
          simpa [VotingNode.leaving, there, is] using waited
      · simp only [VotingNode.write, there, VotingNode.queuedVotes, List.mem_filterMap]
          at inside ⊢
        obtain ⟨m', left, is⟩ := inside
        exact invariant.queued epoch
          (List.mem_filterMap.mpr ⟨m', List.mem_of_mem_eraseIdx left, is⟩)

end Invariant

-- Restarts

theorem clusterLoadConfig_file (env : ClusterEnv) (conf : SavedConfig) (authSent : Bool)
    : (ClusterState.clusterLoadConfig env conf authSent).conf = conf
      ∧ (ClusterState.clusterLoadConfig env conf authSent).sent = []
      ∧ (ClusterState.clusterLoadConfig env conf authSent).lastVoteEpoch = conf.lastVoteEpoch
      ∧ conf.currentEpoch
          ≤ (ClusterState.clusterLoadConfig env conf authSent).currentEpoch := by
  have lines : LoadStep (.empty conf authSent)
      ((ClusterState.empty conf authSent).loadNodes env conf.nodes) :=
    loadStep_loadNodes conf.nodes
  exact ⟨lines.conf, lines.sent, rfl, le_max_left _ _⟩

theorem VoteInvariant.crash {unsaved : List Nat} {n : VotingNode}
    (invariant : VoteInvariant unsaved n) (env : ClusterEnv) (authSent : Bool)
    : VoteInvariant [] (n.step (.crash env authSent)) := by
  obtain ⟨conf, sent, lastVote, current⟩ :=
    clusterLoadConfig_file env n.state.conf authSent
  have empty : (n.step (.crash env authSent)).queuedVotes = [] := by
    simp [VotingNode.step, VotingNode.queuedVotes, sent]
  have distinct := (List.nodup_append'.mp invariant.distinct).1
  refine ⟨?_, fun epoch member => ?_, fun epoch member => ?_, ?_⟩
  · rw [empty, List.append_nil]
    exact distinct
  · rw [empty, List.append_nil] at member
    rw [show (n.step (.crash env authSent)).state.lastVoteEpoch = _ from lastVote]
    exact (invariant.saved epoch member).later current
  · rw [show (n.step (.crash env authSent)).state.conf = _ from conf]
    exact invariant.saved epoch member
  · rw [empty]
    nofun

theorem voteInvariant_start (env : ClusterEnv) (conf : SavedConfig) (authSent : Bool)
    : VoteInvariant [] (.start env conf authSent) := by
  have empty : (VotingNode.start env conf authSent).queuedVotes = [] := by
    simp [VotingNode.start, VotingNode.queuedVotes, (clusterLoadConfig_file env conf authSent).2.1]
  refine ⟨?_, ?_, nofun, ?_⟩
  · rw [empty]
    exact List.nodup_nil
  · rw [empty]
    nofun
  · rw [empty]
    nofun

-- The invariant of a run

theorem VoteInvariant.step {unsaved : List Nat} {n : VotingNode}
    (invariant : VoteInvariant unsaved n) {event : VotingEvent}
    (waited : (n.leaving event).all (· ∉ unsaved) = true)
    : VoteInvariant (n.unsavedAfter unsaved event) (n.step event) := by
  by_cases running : n.state.failedAsserts = []
  · cases event with
    | packet env arrival hdr =>
        simp only [VotingNode.step, running, if_true]
        exact invariant.processPacket env arrival hdr
    | cron env step =>
        simp only [VotingNode.step, running, if_true]
        exact invariant.keep (voteKept_clusterCron step)
    | beforeSleep env call =>
        simp only [VotingNode.step, VotingNode.unsavedAfter, running, if_true, true_and]
        exact invariant.beforeSleep env call
    | write index =>
        simp only [VotingNode.step, running, if_true]
        exact invariant.write waited
    | crash env authSent => exact invariant.crash env authSent
  · cases event with
    | packet env arrival hdr =>
        simp only [VotingNode.step, running, if_false]
        exact invariant.weaken fun epoch member => List.mem_append_right _ member
    | cron env step =>
        simp only [VotingNode.step, running, if_false]
        exact invariant
    | beforeSleep env call =>
        simp only [VotingNode.step, VotingNode.unsavedAfter, running, if_false, false_and]
        exact invariant
    | write index =>
        simp only [VotingNode.step, running, if_false]
        exact invariant
    | crash env authSent => exact invariant.crash env authSent

theorem VoteInvariant.run {unsaved : List Nat} {n : VotingNode} {events : List VotingEvent}
    (invariant : VoteInvariant unsaved n) (waits : n.votesWait unsaved events = true)
    : (n.run events).VotesOnce := by
  induction events generalizing n unsaved with
  | nil =>
      exact
        { once := (List.nodup_append'.mp invariant.distinct).1
          saved := fun epoch member => (invariant.saved epoch member).voted }
  | cons event rest ih =>
      simp only [VotingNode.votesWait, Bool.and_eq_true] at waits
      exact ih (invariant.step waits.1) waits.2

-- A vote that is given twice

/-- The line of a node that serves at most one slot. -/
def NodeLine.plain (name : NodeName) (flags : NodeFlags) (slaveof : Option NodeName)
    (slot : Option Slot) : NodeLine where
  name := name
  ip := [49]
  port := 7000
  flags := flags
  slaveof := slaveof
  pingSent := 0
  pongReceived := 0
  configEpoch := 1
  slots other := slot == some other
  migrating _ := none
  importing _ := none

/-- The voter, a master that failed, and two slaves of it. -/
def failedMasterConf : SavedConfig where
  nodes :=
    [.plain (List.replicate 40 65) { myself := true, master := true } none
      (some ⟨0, zero_lt_slots⟩),
      .plain (List.replicate 40 66) { master := true, fail := true } none (some ⟨1, one_lt_slots⟩),
      .plain (List.replicate 40 67) { slave := true } (some (List.replicate 40 66)) none,
      .plain (List.replicate 40 68) { slave := true } (some (List.replicate 40 66)) none]
  currentEpoch := 6
  lastVoteEpoch := 0

/-- A slave of the failed master asks for votes. -/
def voteRequest (sender : NodeName) (currentEpoch configEpoch : Nat) : ClusterMsg where
  sender := sender
  currentEpoch := currentEpoch
  configEpoch := configEpoch
  offset := 0
  myslots slot := slot.val == 1
  slaveof := List.replicate 40 66
  port := 7000
  flags := { slave := true }
  paused := false
  forceack := false
  data := .failoverAuthRequest

/-- A link to a slave is set up, and its request arrives. -/
def asksFor (slave : NodeRef) (name : NodeName) (configEpoch : Nat) : List VotingEvent :=
  [.cron (.still 7000) (.connect slave),
    .packet (.still 7000) ⟨none, [49], none⟩ (voteRequest name 7 configEpoch)]

/-- The request of a slave arrives, and the vote is written. -/
def voteFor (slave : NodeRef) (name : NodeName) : List VotingEvent :=
  asksFor slave name 1 ++ [.write 1]

/-- The configuration is saved before the vote is written, since the epoch of the slave is new. -/
def voteAfterSave : List VotingEvent :=
  asksFor 2 (List.replicate 40 67) 2 ++ [.beforeSleep (.still 7000) ⟨10, 10, 0, 0, 0⟩, .write 1]

/-- A crash between two requests of the same epoch. -/
def crashBetweenRequests : List VotingEvent :=
  voteFor 2 (List.replicate 40 67) ++ .crash (.still 7000) false :: voteFor 3 (List.replicate 40 68)

theorem forSlots_single {s : ClusterState} {body : Slot → ClusterState → ClusterState}
    (slot : Slot) (idle : ∀ other, other ≠ slot → ∀ s, body other s = s)
    : s.forSlots body = body slot s := by
  have skip : ∀ (slots : List Slot) (s : ClusterState), slot ∉ slots →
      slots.foldl (fun s slot => body slot s) s = s := by
    intro slots
    induction slots with
    | nil => exact fun s _ => rfl
    | cons other rest ih =>
        intro s outside
        have different : other ≠ slot := fun same => outside (same ▸ List.mem_cons_self)
        rw [List.foldl_cons, idle other different]
        exact ih s fun member => outside (List.mem_cons_of_mem other member)
  obtain ⟨before, after, split⟩ := List.append_of_mem (List.mem_finRange slot)
  have distinct := split ▸ List.nodup_finRange redisClusterSlots
  have apart := List.nodup_append'.mp distinct
  have once := List.nodup_cons.mp apart.2.1
  unfold ClusterState.forSlots
  rw [split, List.foldl_append, skip before s fun member => apart.2.2 member List.mem_cons_self,
    List.foldl_cons, skip after _ once.1]

theorem forSlots_idle {s : ClusterState} {body : Slot → ClusterState → ClusterState}
    (idle : ∀ slot s, body slot s = s)
    : s.forSlots body = s :=
  (forSlots_single ⟨0, by decide⟩ fun other _ => idle other).trans (idle _ s)

theorem loadLine_plain (s : ClusterState) (env : ClusterEnv) (name : NodeName)
    (flags : NodeFlags) (slaveof : Option NodeName) (slot : Option Slot)
    : s.loadLine env (.plain name flags slaveof slot)
      = slot.elim id
          (fun slot s' => s'.clusterAddSlot (s.lookupOrCreate env name).1 slot)
          ((((s.lookupOrCreate env name).2.loadFields env (.plain name flags slaveof slot)
            (s.lookupOrCreate env name).1).loadMaster env slaveof
            (s.lookupOrCreate env name).1).loadTimes env (.plain name flags slaveof slot)
            (s.lookupOrCreate env name).1) := by
  have closed : ∀ t, ClusterState.loadOpenSlots t env (.plain name flags slaveof slot) = t :=
    fun t => forSlots_idle fun _ _ => rfl
  have served : ∀ t r, ClusterState.loadSlots t (NodeLine.plain name flags slaveof slot).slots r
      = slot.elim id (fun slot t => t.clusterAddSlot r slot) t := by
    intro t r
    cases slot with
    | none => exact forSlots_idle fun _ _ => by simp [NodeLine.plain]
    | some slot =>
        refine (forSlots_single slot fun other different t => ?_).trans ?_
        · simp [NodeLine.plain, different.symm]
        · simp [NodeLine.plain]
  unfold ClusterState.loadLine
  dsimp only
  rw [closed, served]
  rfl

theorem voteRequest_conf (s : ClusterState) (env : ClusterEnv) (arrival : ClusterState.Arrival)
    (name : NodeName) (currentEpoch configEpoch : Nat)
    : (s.clusterProcessPacket env arrival (voteRequest name currentEpoch configEpoch)).conf
      = s.conf := by
  unfold ClusterState.clusterProcessPacket
  cases found : s.clusterLookupNode (voteRequest name currentEpoch configEpoch).sender with
  | none =>
      simp only [ClusterState.processChecked, found]
      rfl
  | some sender =>
      obtain ⟨_, _, same⟩ := processChecked_known env
        { arrival with linkNode := arrival.linkNode.filter s.live } found
      rw [same]
      refine Eq.trans ?_ (headerSeen_conf s (voteRequest name currentEpoch configEpoch)
        sender).1
      generalize s.headerSeen (voteRequest name currentEpoch configEpoch) sender = t
      simp only [ClusterState.processData, voteRequest]
      by_cases granted : t.grantsVote env sender (voteRequest name currentEpoch configEpoch) = true
      · exact (clusterSendFailoverAuthIfNeeded_granted granted).conf
      · exact congrArg ClusterState.conf (if_neg granted)

theorem voteFor_conf (n : VotingNode) (slave : NodeRef) (name : NodeName)
    : (n.run (voteFor slave name)).state.conf = n.state.conf := by
  have connected : (n.step (.cron (.still 7000) (.connect slave))).state.conf = n.state.conf := by
    simp only [VotingNode.step, ClusterState.clusterCron]
    split
    · split <;> rfl
    · rfl
  have asked : ∀ n : VotingNode,
      (n.step (.packet (.still 7000) ⟨none, [49], none⟩ (voteRequest name 7 1))).state.conf
        = n.state.conf := by
    intro n
    simp only [VotingNode.step]
    split
    · exact voteRequest_conf n.state _ _ _ _ _
    · rfl
  have written : ∀ n : VotingNode, (n.step (.write 1)).state.conf = n.state.conf := by
    intro n
    simp only [VotingNode.step, VotingNode.write]
    split
    · split <;> rfl
    · rfl
  exact ((written _).trans (asked _)).trans connected

theorem loadNodes_cons (s : ClusterState) (env : ClusterEnv) (line : NodeLine)
    (lines : List NodeLine)
    : s.loadNodes env (line :: lines) = (s.loadLine env line).loadNodes env lines := by
  simp only [ClusterState.loadNodes, List.foldl_cons]

theorem loadNodes_nil (s : ClusterState) (env : ClusterEnv) : s.loadNodes env [] = s := by
  simp only [ClusterState.loadNodes, List.foldl_nil]

theorem crash_votes
    : ((VotingNode.start (.still 7000) failedMasterConf false).run crashBetweenRequests).votes
      = [7, 7] := by
  have first := voteFor_conf (.start (.still 7000) failedMasterConf false) 2 (List.replicate 40 67)
  have started : (VotingNode.start (.still 7000) failedMasterConf false).state.conf
      = failedMasterConf :=
    (clusterLoadConfig_file (.still 7000) failedMasterConf false).1
  have restart : (VotingNode.start (.still 7000) failedMasterConf false).run crashBetweenRequests
      = VotingNode.run
          { state := .clusterLoadConfig (.still 7000) failedMasterConf false
            left := ((VotingNode.start (.still 7000) failedMasterConf false).run
              (voteFor 2 (List.replicate 40 67))).left }
          (voteFor 3 (List.replicate 40 68)) := by
    simp only [VotingNode.run] at first
    simp only [crashBetweenRequests, VotingNode.run, List.foldl_append, List.foldl_cons,
      VotingNode.step, first, started]
  rw [restart]
  -- The loops over the slots are taken out before the run is evaluated.
  simp only [VotingNode.start, ClusterState.clusterLoadConfig, failedMasterConf,
    loadNodes_cons, loadNodes_nil, loadLine_plain]
  decide +kernel

/-- A master that restarts votes for two slaves in the same epoch. -/
theorem crash_votes_twice
    : ¬ ((VotingNode.start (.still 7000) failedMasterConf false).run
      crashBetweenRequests).VotesOnce := by
  intro holds
  have once := holds.once
  rw [crash_votes] at once
  exact absurd once (by decide)

-- Votes that wait

/-- In a run in which votes leave only after they were saved, no epoch is voted in twice, restarts
included, and every vote that left is in the saved configuration.
-/
theorem votes_once (env : ClusterEnv) (conf : SavedConfig) (authSent : Bool)
    (events : List VotingEvent)
    (waits : (VotingNode.start env conf authSent).votesWait [] events = true)
    : ((VotingNode.start env conf authSent).run events).VotesOnce :=
  (voteInvariant_start env conf authSent).run waits

theorem votes_once_saved
    : ((VotingNode.start (.still 7000) failedMasterConf false).run voteAfterSave).VotesOnce :=
  votes_once (.still 7000) failedMasterConf false voteAfterSave (by
    simp only [VotingNode.start, ClusterState.clusterLoadConfig, failedMasterConf,
      loadNodes_cons, loadNodes_nil, loadLine_plain]
    decide +kernel)

end Redis.Cluster
