import Redis.Library.Majorities
import Redis.Sentinel.Leader

/-! Sentinels that exchange messages in any order: the leaders that are elected in an epoch. -/

namespace Redis.Sentinel

open Redis.Library

variable {S M : Type} [DecidableEq S] [DecidableEq M]

-- Messages and events

/-- What sentinels send. A master is named where the message has its name or its address. -/
inductive Message (S M : Type) where
  /-- A hello message, with `current_epoch`. -/
  | hello (epoch : Nat)
  /-- `SENTINEL IS-MASTER-DOWN-BY-ADDR`, with the `runid` that seeks a vote, or `*`. -/
  | isMasterDown (sender voter : S) (master : M) (epoch : Nat) (runid : Option S)
  /-- The reply: the vote, or `*`. -/
  | downReply (voter sender : S) (master : M) (vote : Vote S)
deriving DecidableEq, Repr

/-- The sentinels, and all that they have sent. A message that is not delivered is lost or late. -/
structure Net (S M : Type) where
  sentinels : S → SentinelState S M
  sent : List (Message S M)

/-- What happens. When a master is found to be down, when an attempt times out, how the promotion
goes on and when the address of a master changes depends on other replies and on the clock.
-/
inductive Event (S M : Type) where
  /-- `sentinelStartFailover`. -/
  | startFailover (me : S) (master : M)
  /-- `sentinelFailoverWaitStart`. -/
  | waitStart (me : S) (master : M) (timedOut : Bool)
  /-- A failover that has a leader goes on. -/
  | goesOn (me : S) (master : M)
  /-- `sentinelAbortFailover`. -/
  | abort (me : S) (master : M)
  /-- `sentinelResetMasterAndChangeAddress`. -/
  | changeAddress (me : S) (master : M)
  /-- `sentinelAskMasterStateToOtherSentinels` asks one of them. -/
  | ask (me : S) (master : M) (voter : S)
  /-- It finds the last reply of one too old. -/
  | forget (me : S) (master : M) (voter : S)
  /-- `sentinelSendHello`. -/
  | sendHello (me : S)
  /-- A message arrives; everyone hears a hello message. -/
  | deliver (message : Message S M) (receiver : S)
deriving DecidableEq, Repr

/-- The state behind another one of a failover. -/
def FailoverState.next : FailoverState → FailoverState
  | .selectSlave => .sendSlaveofNoone
  | .sendSlaveofNoone => .waitPromotion
  | .waitPromotion => .reconfSlaves
  | .reconfSlaves => .updateConfig
  | state => state

section Steps

variable (setting : Setting S M) (net : Net S M)

def Net.setSentinel (me : S) (s : SentinelState S M) : Net S M :=
  { net with sentinels := Function.update net.sentinels me s }

def Net.send (message : Message S M) : Net S M := { net with sent := net.sent ++ [message] }

def SentinelState.sentinelStartFailover (s : SentinelState S M) (master : M) : SentinelState S M :=
  let s := { s with currentEpoch := s.currentEpoch + 1 }
  s.setMaster master
    { s.masters master with failoverState := .waitStart, failoverEpoch := s.currentEpoch }

/-- The request of `sentinelAskMasterStateToOtherSentinels`. It carries the current epoch. -/
def SentinelState.askMessage (s : SentinelState S M) (me : S) (master : M) (voter : S)
    : Message S M :=
  .isMasterDown me voter master s.currentEpoch
    (if (s.masters master).failoverState = .none then none else some me)

def Net.receive (receiver : S) : Message S M → Net S M
  | .hello epoch =>
      let s := net.sentinels receiver
      if s.currentEpoch < epoch then net.setSentinel receiver { s with currentEpoch := epoch }
      else net
  | .isMasterDown sender voter master epoch runid =>
      if voter = receiver then
        match runid with
        | none => net.send (.downReply voter sender master ⟨none, 0⟩)
        | some runid =>
            let s := (net.sentinels voter).sentinelVoteLeader master epoch runid
            (net.setSentinel voter s).send (.downReply voter sender master (s.masters master).vote)
      else net
  | .downReply voter sender master vote =>
      if sender = receiver ∧ vote.leader ≠ none then
        let s := net.sentinels sender
        let ri := s.masters master
        net.setSentinel sender
          (s.setMaster master { ri with sentinels := Function.update ri.sentinels voter vote })
      else net

/-- One event; an event that is not possible in a state changes nothing. -/
def Net.step : Event S M → Net S M
  | .startFailover me master =>
      let s := net.sentinels me
      if me ∈ setting.sentinels master ∧ (s.masters master).failoverState = .none then
        net.setSentinel me (s.sentinelStartFailover master)
      else net
  | .waitStart me master timedOut =>
      let s := net.sentinels me
      if me ∈ setting.sentinels master ∧ (s.masters master).failoverState = .waitStart then
        net.setSentinel me (s.sentinelFailoverWaitStart master setting me timedOut)
      else net
  | .goesOn me master =>
      let s := net.sentinels me
      let ri := s.masters master
      net.setSentinel me (s.setMaster master { ri with failoverState := ri.failoverState.next })
  | .abort me master =>
      let s := net.sentinels me
      net.setSentinel me (s.setMaster master { s.masters master with failoverState := .none })
  | .changeAddress me master =>
      let s := net.sentinels me
      let ri := s.masters master
      net.setSentinel me
        (s.setMaster master
          { ri with failoverState := .none, vote := ⟨none, ri.vote.leaderEpoch⟩ })
  | .ask me master voter =>
      if voter ∈ setting.others me master then
        net.send ((net.sentinels me).askMessage me master voter)
      else net
  | .forget me master voter =>
      let s := net.sentinels me
      let ri := s.masters master
      net.setSentinel me
        (s.setMaster master
          { ri with
            sentinels :=
              Function.update ri.sentinels voter ⟨none, (ri.sentinels voter).leaderEpoch⟩ })
  | .sendHello me => net.send (.hello (net.sentinels me).currentEpoch)
  | .deliver message receiver =>
      if message ∈ net.sent then net.receive receiver message else net

def Net.run (events : List (Event S M)) : Net S M := events.foldl (Net.step setting) net

/-- Sentinels that have just started, with the epochs of their configuration files. -/
def Net.start (currentEpoch : S → Nat) (leaderEpoch : S → M → Nat) : Net S M where
  sentinels me :=
    { currentEpoch := currentEpoch me
      masters := fun master =>
        { vote := ⟨none, leaderEpoch me master⟩
          failoverEpoch := 0
          failoverState := .none
          sentinels := fun _ => ⟨none, 0⟩ }
      log := [] }
  sent := []

-- Agreement

def SentinelState.Voted (s : SentinelState S M) (master : M) (epoch : Nat) (leader : S) : Prop :=
  .voteForLeader master leader epoch ∈ s.log

instance (s : SentinelState S M) (master : M) (epoch : Nat) (leader : S)
    : Decidable (s.Voted master epoch leader) :=
  inferInstanceAs (Decidable (_ ∈ _))

/-- The sentinels of a master that have voted for a leader in an epoch. -/
def Net.supporters (master : M) (epoch : Nat) (leader : S) : List S :=
  (setting.sentinels master).filter (fun voter => (net.sentinels voter).Voted master epoch leader)

/-- A sentinel has passed `sentinelFailoverWaitStart` as the elected leader. -/
def Net.Elected (leader : S) (master : M) (epoch : Nat) : Prop :=
  .electedLeader master epoch ∈ (net.sentinels leader).log

/-- An epoch has one leader of a master at most, and a majority and the quorum voted for it. -/
structure Net.Agrees : Prop where
  unique
    : ∀ master epoch leader other,
        net.Elected leader master epoch → net.Elected other master epoch → leader = other
  supported
    : ∀ master epoch leader,
        net.Elected leader master epoch
        → (setting.sentinels master).length / 2 + 1
            ≤ (net.supporters setting master epoch leader).length
          ∧ setting.quorum leader master ≤ (net.supporters setting master epoch leader).length

/-- `sentinelFailoverWaitStart` counts no vote of another epoch for its own sentinel: the current
epoch is that of the attempt, or no other sentinel has replied that it voted for this one in the
current epoch.
-/
def Net.CountsOwnEpoch : Event S M → Prop
  | .waitStart me master _ =>
      (net.sentinels me).currentEpoch = ((net.sentinels me).masters master).failoverEpoch
      ∨ ∀ voter ∈ setting.others me master,
          ((net.sentinels me).masters master).sentinels voter
          ≠ ⟨some me, (net.sentinels me).currentEpoch⟩
  | _ => True

/-- All the steps of a run do. -/
def Net.CountsOwnEpochs : Net S M → List (Event S M) → Prop
  | _, [] => True
  | net, event :: events =>
      net.CountsOwnEpoch setting event ∧ Net.CountsOwnEpochs (net.step setting event) events

end Steps

section Votes

variable {setting : Setting S M} {s t : SentinelState S M} {master : M} {epoch : Nat} {leader : S}

/-- A sentinel votes once in an epoch, and its vote for a master is its last one. -/
structure SentinelState.VotesOnce (s : SentinelState S M) : Prop where
  once
    : ∀ master epoch leader other,
        s.Voted master epoch leader → s.Voted master epoch other → leader = other
  recorded
    : ∀ master epoch leader,
        s.Voted master epoch leader → epoch ≤ (s.masters master).vote.leaderEpoch
  own
    : ∀ master leader,
        (s.masters master).vote.leader = some leader
        → s.Voted master (s.masters master).vote.leaderEpoch leader

omit [DecidableEq S] [DecidableEq M] in
theorem SentinelState.VotesOnce.congr (votes : s.VotesOnce)
    (voted : ∀ master epoch leader, t.Voted master epoch leader ↔ s.Voted master epoch leader)
    (own : ∀ master,
      (t.masters master).vote = (s.masters master).vote
      ∨ (t.masters master).vote = ⟨none, (s.masters master).vote.leaderEpoch⟩)
    : t.VotesOnce where
  once master epoch leader other first second :=
    votes.once master epoch leader other ((voted ..).mp first) ((voted ..).mp second)
  recorded master epoch leader vote := by
    have bound := votes.recorded master epoch leader ((voted ..).mp vote)
    obtain same | reset := own master
    · rw [same]
      exact bound
    · rw [reset]
      exact bound
  own master leader vote := by
    obtain same | reset := own master
    · rw [same] at vote ⊢
      exact (voted ..).mpr (votes.own master leader vote)
    · rw [reset] at vote
      cases vote

omit [DecidableEq S] in
theorem setMaster_votesOnce (votes : s.VotesOnce) (master : M) (ri : MasterInstance S)
    (own : ri.vote = (s.masters master).vote
      ∨ ri.vote = ⟨none, (s.masters master).vote.leaderEpoch⟩)
    : (s.setMaster master ri).VotesOnce := by
  refine votes.congr (fun _ _ _ => .rfl) ?_
  intro other
  by_cases same : other = master
  · subst same
    simpa [SentinelState.setMaster] using own
  · simp [SentinelState.setMaster, same]

omit [DecidableEq S] in
theorem setMaster_masters (s : SentinelState S M) (master : M) (ri : MasterInstance S)
    : (s.setMaster master ri).masters master = ri :=
  Function.update_self ..

omit [DecidableEq S] in
theorem sentinelVoteLeader_votesOnce (votes : s.VotesOnce) (master : M) (reqEpoch : Nat)
    (reqRunid : S)
    : (s.sentinelVoteLeader master reqEpoch reqRunid).VotesOnce := by
  obtain ⟨epoch, refused⟩ | ⟨first, cast⟩ :=
    sentinelVoteLeader_cases s master reqEpoch reqRunid
  · rw [refused]
    exact votes.congr (fun _ _ _ => .rfl) fun _ => .inl rfl
  · rw [cast]
    have voted
        : ∀ m e r,
            LogLine.voteForLeader m r e ∈ s.log ++ [.voteForLeader master reqRunid reqEpoch]
            ↔ s.Voted m e r ∨ (m = master ∧ r = reqRunid ∧ e = reqEpoch) := by
      intro m e r
      simp [SentinelState.Voted]
    have noVote : ∀ r, ¬ s.Voted master reqEpoch r := fun r vote =>
      absurd (votes.recorded master reqEpoch r vote) (Nat.not_le_of_lt first)
    constructor
    · intro m e r r' one two
      obtain old | ⟨rfl, rfl, rfl⟩ := (voted m e r).mp one
      · obtain old' | ⟨rfl, rfl, rfl⟩ := (voted m e r').mp two
        · exact votes.once m e r r' old old'
        · exact absurd old (noVote r)
      · obtain old' | ⟨_, rfl, _⟩ := (voted m e r').mp two
        · exact absurd old' (noVote r')
        · rfl
    · intro m e r vote
      obtain old | ⟨rfl, rfl, rfl⟩ := (voted m e r).mp vote
      · have bound := votes.recorded m e r old
        by_cases same : m = master
        · subst same
          simpa using bound.trans first.le
        · simpa [same] using bound
      · simp
    · intro m r vote
      refine (voted m _ r).mpr ?_
      by_cases same : m = master
      · subst same
        simp only [Function.update_self] at vote ⊢
        injection vote with isRunid
        exact .inr (by simp [isRunid])
      · simp only [Function.update_of_ne same] at vote ⊢
        exact .inl (votes.own m r vote)

/-- What one sentinel does leaves its log, and its instances of the other sentinels, but for what it
adds.
-/
structure Extends (s t : SentinelState S M) : Prop where
  log : s.log ⊆ t.log
  heard : ∀ master, (t.masters master).sentinels = (s.masters master).sentinels

omit [DecidableEq S] in
theorem sentinelVoteLeader_extends (s : SentinelState S M) (master : M) (reqEpoch : Nat)
    (reqRunid : S)
    : Extends s (s.sentinelVoteLeader master reqEpoch reqRunid)
      ∧ ((s.sentinelVoteLeader master reqEpoch reqRunid).masters master).failoverEpoch
        = (s.masters master).failoverEpoch
      ∧ ∀ other epoch,
          .electedLeader other epoch ∈ (s.sentinelVoteLeader master reqEpoch reqRunid).log
          → .electedLeader other epoch ∈ s.log := by
  obtain ⟨epoch, refused⟩ | ⟨_, cast⟩ := sentinelVoteLeader_cases s master reqEpoch reqRunid
  · rw [refused]
    exact ⟨⟨fun _ member => member, fun _ => rfl⟩, rfl, fun _ _ member => member⟩
  · rw [cast]
    refine ⟨⟨fun _ member => List.mem_append_left _ member, fun other => ?_⟩, ?_, ?_⟩
    · by_cases same : other = master
      · subst same
        simp
      · simp [same]
    · simp
    · intro other epoch member
      simpa using member

end Votes

section Invariant

variable {setting : Setting S M} {net net' : Net S M} {me : S} {master : M} {epoch : Nat}
  {leader : S}
  {s : SentinelState S M}

/-- A majority of the sentinels of a master, and as many as the quorum, voted for a leader. -/
def Net.Supported (setting : Setting S M) (net : Net S M) (leader : S) (master : M) (epoch : Nat)
    : Prop :=
  (setting.sentinels master).length / 2 + 1
    ≤ (net.supporters setting master epoch leader).length
  ∧ setting.quorum leader master ≤ (net.supporters setting master epoch leader).length

/-- What sentinels reply and keep of the votes of the others are votes, and a leader is supported.
-/
structure Net.Truthful (setting : Setting S M) (net : Net S M) : Prop where
  votes : ∀ voter, (net.sentinels voter).VotesOnce
  replies
    : ∀ voter sender master vote leader,
        .downReply voter sender master vote ∈ net.sent
        → vote.leader = some leader
        → (net.sentinels voter).Voted master vote.leaderEpoch leader
  heard
    : ∀ me master voter leader,
        (((net.sentinels me).masters master).sentinels voter).leader = some leader
        → (net.sentinels voter).Voted master
            (((net.sentinels me).masters master).sentinels voter).leaderEpoch leader
  supported
    : ∀ leader master epoch, net.Elected leader master epoch
      → net.Supported setting leader master epoch

/-- No sentinel loses a line of its log. -/
def Net.Grows (net net' : Net S M) : Prop :=
  ∀ voter, (net.sentinels voter).log ⊆ (net'.sentinels voter).log

theorem Net.Grows.supporters (grows : net.Grows net') (master : M) (epoch : Nat) (leader : S)
    : (net.supporters setting master epoch leader).length
      ≤ (net'.supporters setting master epoch leader).length := by
  refine (List.monotone_filter_right _ fun voter voted => ?_).length_le
  exact decide_eq_true (grows voter (of_decide_eq_true voted))

theorem Net.Grows.supported (grows : net.Grows net')
    (supported : net.Supported setting leader master epoch)
    : net'.Supported setting leader master epoch :=
  ⟨supported.1.trans (grows.supporters ..), supported.2.trans (grows.supporters ..)⟩

omit [DecidableEq M] in
theorem setSentinel_self (net : Net S M) (me : S) (s : SentinelState S M)
    : (net.setSentinel me s).sentinels me = s :=
  Function.update_self ..

omit [DecidableEq M] in
theorem setSentinel_other {other : S} (different : other ≠ me) (net : Net S M)
    (s : SentinelState S M)
    : (net.setSentinel me s).sentinels other = net.sentinels other :=
  Function.update_of_ne different ..

omit [DecidableEq M] in
theorem setSentinel_grows (log : (net.sentinels me).log ⊆ s.log)
    : net.Grows (net.setSentinel me s) := by
  intro voter
  by_cases same : voter = me
  · subst same
    rw [setSentinel_self]
    exact log
  · rw [setSentinel_other same]
    exact fun _ member => member

theorem Net.Truthful.setSentinel (truthful : net.Truthful setting)
    (votes : s.VotesOnce) (log : (net.sentinels me).log ⊆ s.log) (heard
      : ∀ master voter,
          (s.masters master).sentinels voter
            = ((net.sentinels me).masters master).sentinels voter
          ∨ (∀ leader,
              ((s.masters master).sentinels voter).leader = some leader
              → (net.sentinels voter).Voted master
                  ((s.masters master).sentinels voter).leaderEpoch leader))
    (supported
      : ∀ master epoch,
          .electedLeader master epoch ∈ s.log
          → .electedLeader master epoch ∈ (net.sentinels me).log
            ∨ (net.setSentinel me s).Supported setting me master epoch)
    : (net.setSentinel me s).Truthful setting := by
  have grows := setSentinel_grows log
  constructor
  · intro voter
    by_cases same : voter = me
    · subst same
      rw [setSentinel_self]
      exact votes
    · rw [setSentinel_other same]
      exact truthful.votes voter
  · intro voter sender master vote leader member voted
    exact grows voter (truthful.replies voter sender master vote leader member voted)
  · intro other master voter leader voted
    by_cases same : other = me
    · subst same
      rw [setSentinel_self] at voted ⊢
      obtain old | new := heard master voter
      · rw [old] at voted ⊢
        exact grows voter (truthful.heard other master voter leader voted)
      · exact grows voter (new leader voted)
    · rw [setSentinel_other same] at voted ⊢
      exact grows voter (truthful.heard other master voter leader voted)
  · intro leader master epoch elected
    by_cases same : leader = me
    · subst same
      rw [Net.Elected, setSentinel_self] at elected
      obtain old | new := supported master epoch elected
      · exact grows.supported (truthful.supported leader master epoch old)
      · exact new
    · rw [Net.Elected, setSentinel_other same] at elected
      exact grows.supported (truthful.supported leader master epoch elected)

theorem Net.Truthful.setQuietly (truthful : net.Truthful setting)
    (log : s.log = (net.sentinels me).log) (own
      : ∀ master,
          (s.masters master).vote = ((net.sentinels me).masters master).vote
          ∨ (s.masters master).vote
            = ⟨none, ((net.sentinels me).masters master).vote.leaderEpoch⟩)
    (heard
      : ∀ master voter,
          (s.masters master).sentinels voter
            = ((net.sentinels me).masters master).sentinels voter
          ∨ (∀ leader,
              ((s.masters master).sentinels voter).leader = some leader
              → (net.sentinels voter).Voted master
                  ((s.masters master).sentinels voter).leaderEpoch leader))
    : (net.setSentinel me s).Truthful setting := by
  refine truthful.setSentinel ?_ ?_ heard ?_
  · refine (truthful.votes me).congr (fun master epoch leader => ?_) own
    rw [SentinelState.Voted, log]
    exact .rfl
  · rw [log]
    exact fun _ member => member
  · intro master epoch elected
    rw [log] at elected
    exact .inl elected

theorem Net.Truthful.setMaster (truthful : net.Truthful setting) {master : M}
    {ri : MasterInstance S}
    (own : ri.vote = ((net.sentinels me).masters master).vote
      ∨ ri.vote = ⟨none, ((net.sentinels me).masters master).vote.leaderEpoch⟩)
    (heard
      : ∀ voter,
          ri.sentinels voter = ((net.sentinels me).masters master).sentinels voter
          ∨ (∀ leader,
              (ri.sentinels voter).leader = some leader
              → (net.sentinels voter).Voted master (ri.sentinels voter).leaderEpoch leader))
    : (net.setSentinel me ((net.sentinels me).setMaster master ri)).Truthful setting := by
  refine truthful.setQuietly rfl ?_ ?_
  · intro other
    by_cases same : other = master
    · subst same
      rw [setMaster_masters]
      exact own
    · exact .inl (congrArg MasterInstance.vote (Function.update_of_ne same ..))
  · intro other voter
    by_cases same : other = master
    · subst same
      rw [setMaster_masters]
      exact heard voter
    · have kept : ((net.sentinels me).setMaster master ri).masters other
          = (net.sentinels me).masters other :=
        Function.update_of_ne same ..
      exact .inl (congrArg (fun ri : MasterInstance S => ri.sentinels voter) kept)

theorem Net.Truthful.send (truthful : net.Truthful setting) {message : Message S M}
    (reply
      : ∀ voter sender master vote leader,
          message = .downReply voter sender master vote
          → vote.leader = some leader
          → (net.sentinels voter).Voted master vote.leaderEpoch leader)
    : (net.send message).Truthful setting where
  votes := truthful.votes
  replies voter sender master vote leader member voted := by
    obtain old | new := List.mem_append.mp member
    · exact truthful.replies voter sender master vote leader old voted
    · exact reply voter sender master vote leader (List.mem_singleton.mp new).symm voted
  heard := truthful.heard
  supported := truthful.supported

theorem Net.Truthful.vote (truthful : net.Truthful setting) (voter : S) (master : M)
    (reqEpoch : Nat) (reqRunid : S)
    : (net.setSentinel voter
        ((net.sentinels voter).sentinelVoteLeader master reqEpoch reqRunid)).Truthful setting := by
  obtain ⟨extends', _, elected⟩ :=
    sentinelVoteLeader_extends (net.sentinels voter) master reqEpoch reqRunid
  refine truthful.setSentinel ?_ extends'.log ?_ ?_
  · exact sentinelVoteLeader_votesOnce (truthful.votes voter) master reqEpoch reqRunid
  · intro other v
    exact .inl (congrFun (extends'.heard other) v)
  · intro other epoch member
    exact .inl (elected other epoch member)

theorem start_truthful (setting : Setting S M) (currentEpoch : S → Nat)
    (leaderEpoch : S → M → Nat)
    : (Net.start currentEpoch leaderEpoch).Truthful setting where
  votes _ :=
    { once := fun _ _ _ _ member => absurd member List.not_mem_nil
      recorded := fun _ _ _ member => absurd member List.not_mem_nil
      own := fun _ _ vote => by cases vote }
  replies _ _ _ _ _ member := absurd member List.not_mem_nil
  heard _ _ _ _ vote := by cases vote
  supported _ _ _ member := absurd member List.not_mem_nil

theorem Net.Truthful.receive (truthful : net.Truthful setting) {message : Message S M}
    (sent : message ∈ net.sent) (receiver : S)
    : (net.receive receiver message).Truthful setting := by
  cases message with
  | hello epoch =>
      rw [Net.receive]
      split
      · exact truthful.setQuietly rfl (fun _ => .inl rfl) fun _ _ => .inl rfl
      · exact truthful
  | isMasterDown sender voter master epoch runid =>
      cases runid with
      | none =>
          rw [Net.receive]
          split
          · refine truthful.send ?_
            intro _ _ _ vote _ isReply voted
            cases isReply
            cases voted
          · exact truthful
      | some runid =>
          have voting := truthful.vote voter master epoch runid
          rw [Net.receive]
          split
          · refine voting.send ?_
            intro v _ m vote leader isReply voted
            cases isReply
            rw [setSentinel_self]
            have own := (voting.votes voter).own master leader
            rw [setSentinel_self] at own
            exact own voted
          · exact truthful
  | downReply voter sender master vote =>
      rw [Net.receive]
      split
      · refine truthful.setMaster (.inl rfl) ?_
        intro v
        by_cases same : v = voter
        · subst same
          refine .inr fun leader voted => ?_
          simp only [Function.update_self] at voted ⊢
          exact truthful.replies v sender master vote leader sent voted
        · exact .inl (Function.update_of_ne same ..)
      · exact truthful

end Invariant

section Election

variable {setting : Setting S M} {net net' : Net S M} {me : S} {master : M} {epoch : Nat}
  {leader : S}

omit [DecidableEq M] in
theorem others_length (member : me ∈ setting.sentinels master)
    : (setting.others me master).length + 1 = (setting.sentinels master).length := by
  have nodup := setting.sentinels_nodup master
  have erased : setting.others me master = (setting.sentinels master).erase me := by
    rw [Setting.others, nodup.erase_eq_filter]
    exact List.filter_congr fun v _ => by by_cases same : v = me <;> simp [same]
  rw [erased, List.length_erase_of_mem member]
  have pos := List.length_pos_of_mem member
  omega

theorem tally_le_supporters (truthful : net.Truthful setting)
    (member : me ∈ setting.sentinels master) {t : SentinelState S M}
    (voted : (net.setSentinel me t).Truthful setting) (log : (net.sentinels me).log ⊆ t.log)
    (counts
      : (net.sentinels me).currentEpoch = epoch
        ∨ ∀ voter ∈ setting.others me master,
            ((net.sentinels me).masters master).sentinels voter
            ≠ ⟨some me, (net.sentinels me).currentEpoch⟩)
    : (net.sentinels me).tally setting master me (t.masters master).vote epoch me
      ≤ ((net.setSentinel me t).supporters setting master epoch me).length := by
  have grows := setSentinel_grows log
  have own
      : (t.masters master).vote = ⟨some me, epoch⟩
        → ((net.setSentinel me t).sentinels me).Voted master epoch me := by
    intro vote
    have mine := (voted.votes me).own master me
    rw [setSentinel_self, vote] at mine
    rw [setSentinel_self]
    exact mine rfl
  have others
      : ∀ v ∈ setting.others me master,
          (net.sentinels me).countedVote master v = some me
          → ((net.setSentinel me t).sentinels v).Voted master epoch me := by
    intro v isOther counted
    unfold SentinelState.countedVote at counted
    dsimp only at counted
    split at counted
    · rename_i current
      have vote := truthful.heard me master v me counted
      obtain same | noVote := counts
      · rw [current, same] at vote
        exact grows v vote
      · refine absurd ?_ (noVote v isOther)
        rw [← counted, ← current]
    · cases counted
  rw [Net.supporters, ← List.countP_eq_length_filter]
  refine le_trans ?_ (countP_apart member _)
  refine Nat.add_le_add ?_ ?_
  · rw [SentinelState.countedVotes, List.count, List.countP_filterMap]
    refine List.countP_mono_left fun v isOther counted => ?_
    refine decide_eq_true (others v isOther ?_)
    cases vote : (net.sentinels me).countedVote master v with
    | none => simp [vote] at counted
    | some leader => simpa [vote] using counted
  · by_cases vote : (t.masters master).vote = ⟨some me, epoch⟩
    · rw [if_pos vote, if_pos (decide_eq_true (own vote))]
    · rw [if_neg vote]
      exact Nat.zero_le _

theorem Net.Truthful.waitStart (truthful : net.Truthful setting)
    (member : me ∈ setting.sentinels master) {timedOut : Bool}
    (counts : net.CountsOwnEpoch setting (.waitStart me master timedOut))
    : (net.setSentinel me
        ((net.sentinels me).sentinelFailoverWaitStart master setting me timedOut)).Truthful
          setting := by
  have elected := @sentinelGetLeader_some _ _ _ _ setting (net.sentinels me) master me me
    ((net.sentinels me).masters master).failoverEpoch
  unfold SentinelState.sentinelFailoverWaitStart
  dsimp only
  -- the sentinel votes
  have voting : ∃ runid,
      ((net.sentinels me).sentinelGetLeader master setting me
        ((net.sentinels me).masters master).failoverEpoch).1
      = (net.sentinels me).sentinelVoteLeader master
          ((net.sentinels me).masters master).failoverEpoch runid := ⟨_, rfl⟩
  obtain ⟨runid, isVote⟩ := voting
  obtain ⟨extends', epoch, lines⟩ := sentinelVoteLeader_extends (net.sentinels me) master
    ((net.sentinels me).masters master).failoverEpoch runid
  have voted := truthful.vote me master ((net.sentinels me).masters master).failoverEpoch runid
  rw [← isVote] at extends' epoch lines voted
  generalize (net.sentinels me).sentinelGetLeader master setting me
    ((net.sentinels me).masters master).failoverEpoch = result at *
  obtain ⟨t, found⟩ := result
  dsimp only at *
  have once := voted.votes me
  rw [setSentinel_self] at once
  have heard
      : ∀ other v,
          (t.masters other).sentinels v = ((net.sentinels me).masters other).sentinels v :=
    fun other v => congrFun (extends'.heard other) v
  have keeps
      : ∀ {ri : MasterInstance S} (other : M) (v : S),
          ri.sentinels = (t.masters master).sentinels
          → ((t.setMaster master ri).masters other).sentinels v
            = ((net.sentinels me).masters other).sentinels v := by
    intro ri other v same
    rw [← heard]
    by_cases here : other = master
    · subst here
      rw [setMaster_masters, same]
    · exact congrArg (fun ri : MasterInstance S => ri.sentinels v) (Function.update_of_ne here ..)
  split
  · rename_i isLeader
    have support := elected isLeader
    rw [others_length member] at support
    have tally := tally_le_supporters truthful member voted extends'.log counts
    refine truthful.setSentinel ?_ ?_ ?_ ?_
    · have stays := setMaster_votesOnce once master
        { t.masters master with failoverState := .selectSlave } (.inl rfl)
      refine stays.congr ?_ fun _ => .inl rfl
      intro m e r
      simp [SentinelState.Voted, SentinelState.setMaster]
    · exact fun _ line => List.mem_append_left _ (extends'.log line)
    · exact fun other v => .inl (keeps other v rfl)
    · intro other e line
      obtain old | new := List.mem_append.mp line
      · exact .inl (lines other e old)
      · obtain ⟨rfl, rfl⟩ := LogLine.electedLeader.inj (List.mem_singleton.mp new)
        have grows : Net.Grows (net.setSentinel me t)
            (net.setSentinel me
              { t.setMaster other { t.masters other with failoverState := .selectSlave } with
                log := t.log ++ [.electedLeader other (t.masters other).failoverEpoch] }) := by
          intro v
          by_cases same : v = me
          · subst same
            rw [setSentinel_self, setSentinel_self]
            exact List.subset_append_left ..
          · rw [setSentinel_other same, setSentinel_other same]
            exact fun _ kept => kept
        refine .inr (grows.supported ?_)
        rw [epoch]
        exact ⟨support.1.trans tally, support.2.trans tally⟩
  · split
    · refine truthful.setSentinel ?_ extends'.log ?_ ?_
      · exact setMaster_votesOnce once master _ (.inl rfl)
      · exact fun other v => .inl (keeps other v rfl)
      · exact fun other e line => .inl (lines other e line)
    · exact voted

omit [DecidableEq S] in
theorem startFailover_kept (s : SentinelState S M) (master other : M)
    : ((s.sentinelStartFailover master).masters other).vote = (s.masters other).vote
      ∧ ((s.sentinelStartFailover master).masters other).sentinels
        = (s.masters other).sentinels := by
  by_cases same : other = master
  · subst same
    simp [SentinelState.sentinelStartFailover, SentinelState.setMaster]
  · simp [SentinelState.sentinelStartFailover, SentinelState.setMaster, same]

theorem Net.Truthful.step (truthful : net.Truthful setting) {event : Event S M}
    (counts : net.CountsOwnEpoch setting event)
    : (net.step setting event).Truthful setting := by
  cases event with
  | startFailover me master =>
      rw [Net.step]
      split
      · have kept := startFailover_kept (net.sentinels me) master
        exact truthful.setQuietly rfl (fun other => .inl (kept other).1)
          fun other v => .inl (congrFun (kept other).2 v)
      · exact truthful
  | waitStart me master timedOut =>
      rw [Net.step]
      split
      · rename_i possible
        exact truthful.waitStart possible.1 counts
      · exact truthful
  | goesOn me master => exact truthful.setMaster (.inl rfl) fun _ => .inl rfl
  | abort me master => exact truthful.setMaster (.inl rfl) fun _ => .inl rfl
  | changeAddress me master => exact truthful.setMaster (.inr rfl) fun _ => .inl rfl
  | ask me master voter =>
      rw [Net.step]
      split
      · refine truthful.send ?_
        intro _ _ _ _ _ isReply
        cases isReply
      · exact truthful
  | forget me master voter =>
      refine truthful.setMaster (.inl rfl) fun v => ?_
      by_cases same : v = voter
      · subst same
        refine .inr fun leader voted => ?_
        simp only [Function.update_self] at voted
        cases voted
      · exact .inl (Function.update_of_ne same ..)
  | sendHello me =>
      refine truthful.send ?_
      intro _ _ _ _ _ isReply
      cases isReply
  | deliver message receiver =>
      rw [Net.step]
      split
      · rename_i sent
        exact truthful.receive sent receiver
      · exact truthful

theorem Net.Truthful.run (truthful : net.Truthful setting) {events : List (Event S M)}
    (counts : net.CountsOwnEpochs setting events)
    : (net.run setting events).Truthful setting := by
  induction events generalizing net with
  | nil => exact truthful
  | cons event events ih => exact ih (truthful.step counts.1) counts.2

theorem Net.Truthful.agrees (truthful : net.Truthful setting) : net.Agrees setting where
  unique master epoch leader other first second := by
    obtain ⟨voter, _, voted, voted'⟩ :=
      majorities_meet (setting.sentinels master) _ _
        (truthful.supported leader master epoch first).1
        (truthful.supported other master epoch second).1
    exact (truthful.votes voter).once master epoch leader other (of_decide_eq_true voted)
      (of_decide_eq_true voted')
  supported master epoch leader elected := truthful.supported leader master epoch elected

/-- An epoch has one leader of a master, which a majority and the quorum voted for, in every state
of a run in which no sentinel counts votes of another epoch for its attempt.
-/
theorem leaders_agree (setting : Setting S M) (currentEpoch : S → Nat) (leaderEpoch : S → M → Nat)
    (events : List (Event S M))
    (counts : (Net.start currentEpoch leaderEpoch).CountsOwnEpochs setting events)
    : ((Net.start currentEpoch leaderEpoch).run setting events).Agrees setting :=
  ((start_truthful setting currentEpoch leaderEpoch).run counts).agrees

end Election

section Runs

instance (setting : Setting S M) (net : Net S M) (event : Event S M)
    : Decidable (net.CountsOwnEpoch setting event) :=
  match event with
  | .waitStart _ _ _ => inferInstanceAs (Decidable (_ ∨ _))
  | .startFailover .. | .goesOn .. | .abort .. | .changeAddress .. | .ask .. | .forget ..
  | .sendHello .. | .deliver .. => .isTrue trivial

instance decideCountsOwnEpochs (setting : Setting S M)
    : (net : Net S M) → (events : List (Event S M)) → Decidable (net.CountsOwnEpochs setting events)
  | _, [] => .isTrue trivial
  | net, event :: events =>
      have := decideCountsOwnEpochs setting (net.step setting event) events
      inferInstanceAs (Decidable (_ ∧ _))

/-- Three sentinels that monitor the same masters, with a quorum of 2. -/
def threeSentinels : Setting Nat Nat where
  sentinels _ := [0, 1, 2]
  sentinels_nodup _ := by decide
  quorum _ _ := 2
  iterate := id
  iterate_perm _ := .rfl

/-- Sentinels 0 and 1 start a failover of master 0 and vote for themselves; sentinel 2 votes for
sentinel 0, which is elected in epoch 1.
-/
def firstElection : List (Event Nat Nat) :=
  [.startFailover 0 0, .startFailover 1 0, .waitStart 1 0 false,
    .ask 0 0 2, .deliver (.isMasterDown 0 2 0 1 (some 0)) 2,
    .deliver (.downReply 2 0 0 ⟨some 0, 1⟩) 0, .waitStart 0 0 false]

/-- Sentinel 2 starts a failover of master 1, in epoch 2, and tells sentinel 1 of the epoch;
sentinel 1 asks for a vote with the new epoch and gets it.
-/
def secondElection : List (Event Nat Nat) :=
  [.startFailover 2 1, .sendHello 2, .deliver (.hello 2) 1,
    .ask 1 0 2, .deliver (.isMasterDown 1 2 0 2 (some 1)) 2,
    .deliver (.downReply 2 1 0 ⟨some 1, 2⟩) 1, .waitStart 1 0 false]

/-- Both sentinels are the leader of master 0 with the failover epoch 1. -/
theorem two_leaders
    : ¬ ∀ events : List (Event Nat Nat),
        ((Net.start (fun _ => 0) fun _ _ => 0).run threeSentinels events).Agrees
          threeSentinels := by
  intro agrees
  have first
      : ((Net.start (fun _ => 0) fun _ _ => 0).run threeSentinels
          (firstElection ++ secondElection)).Elected 0 0 1 := by
    unfold Net.Elected
    decide +kernel
  have second
      : ((Net.start (fun _ => 0) fun _ _ => 0).run threeSentinels
          (firstElection ++ secondElection)).Elected 1 0 1 := by
    unfold Net.Elected
    decide +kernel
  exact absurd ((agrees _).unique 0 1 0 1 first second) (by decide)

/-- The first election alone has one leader. -/
theorem one_leader
    : ((Net.start (fun _ => 0) fun _ _ => 0).run threeSentinels firstElection).Agrees
        threeSentinels :=
  leaders_agree threeSentinels (fun _ => 0) (fun _ _ => 0) firstElection (by decide +kernel)

end Runs

end Redis.Sentinel
