import Mathlib.Data.Finset.Card
import Mathlib.Data.List.Basic
import Mathlib.Logic.Function.Basic
import Mathlib.Tactic

/-! Elections of the cluster: what a slave of a failed master does with the votes it gets,
which requests a master answers, and the messages between them. Everybody agrees on the
masters that serve slots.
-/

namespace Redis.Cluster

-- A slave's attempt

/-- The fields of `clusterState` that take the slave state on elections. -/
structure Election where
  failoverAuthTime : Int
  failoverAuthCount : Nat
  failoverAuthSent : Bool
  failoverAuthRank : Int
  failoverAuthEpoch : Nat
deriving DecidableEq, Repr

/-- The state after `clusterInit`, which leaves `failover_auth_sent` as the allocator gave it. -/
def Election.initial (sent : Bool) : Election where
  failoverAuthTime := 0
  failoverAuthCount := 0
  failoverAuthSent := sent
  failoverAuthRank := 0
  failoverAuthEpoch := 0

/-- What a call of `clusterHandleSlaveFailover` reads besides the state on elections and the
node table: the clock, the configuration, the age of the data, and the manual failover.
-/
structure FailoverCall where
  mstime : Int
  clusterNodeTimeout : Int
  clusterSlaveValidityFactor : Int
  replPingSlavePeriod : Int
  /-- `data_age` before the node timeout is taken off. -/
  dataAge : Int
  /-- Whether `mf_end` is set. -/
  mfEnd : Bool
  mfCanStart : Bool
  /-- `random() % 500`. -/
  random : Int
  /-- `clusterGetSlaveRank()`. -/
  slaveRank : Int
deriving DecidableEq, Repr

namespace FailoverCall

variable (call : FailoverCall)

def manualFailover : Bool := call.mfEnd && call.mfCanStart

def authTimeout : Int := max (call.clusterNodeTimeout * 2) 2000

def authRetryTime : Int := call.authTimeout * 2

/-- The data is too old for an automatic failover. -/
def dataTooOld : Bool :=
  let dataAge :=
    if call.clusterNodeTimeout < call.dataAge then call.dataAge - call.clusterNodeTimeout
    else call.dataAge
  call.clusterSlaveValidityFactor != 0
  && decide (call.replPingSlavePeriod * 1000
      + call.clusterNodeTimeout * call.clusterSlaveValidityFactor < dataAge)
  && !call.manualFailover

end FailoverCall

/-- How far a call of `clusterHandleSlaveFailover` gets. The first constructor covers the
`CANT_FAILOVER` reasons.
-/
inductive Attempt where
  | waits
  | scheduled
  | requested
  | won
deriving DecidableEq, Repr

/-- The new election that is set up when the retry time of the last one has elapsed. -/
def Election.schedule (call : FailoverCall) (e : Election) : Election :=
  { e with
    failoverAuthTime :=
      if call.mfEnd then call.mstime
      else call.mstime + 500 + call.random + call.slaveRank * 1000
    failoverAuthCount := 0
    failoverAuthSent := false
    failoverAuthRank := if call.mfEnd then 0 else call.slaveRank }

/-- The delay that is added when other slaves turn out to have better data. -/
def Election.rerank (call : FailoverCall) (e : Election) : Election :=
  if !e.failoverAuthSent && !call.mfEnd && decide (e.failoverAuthRank < call.slaveRank) then
    { e with
      failoverAuthTime :=
        e.failoverAuthTime + (call.slaveRank - e.failoverAuthRank) * 1000
      failoverAuthRank := call.slaveRank }
  else e

/-- The guards in front of the request for votes: the data is recent, the attempt is due and
neither expired nor to be replaced by a new one, and votes were not asked for yet.
-/
def Election.asksForVotes (call : FailoverCall) (e : Election) : Bool :=
  let authAge := call.mstime - e.failoverAuthTime
  !call.dataTooOld
  && decide (authAge ≤ call.authRetryTime)
  && decide ((e.rerank call).failoverAuthTime ≤ call.mstime)
  && decide (authAge ≤ call.authTimeout)
  && !e.failoverAuthSent

/-- `clusterHandleSlaveFailover` behind its preconditions on the node table, on `currentEpoch`
and the state on elections.
-/
def slaveFailover (call : FailoverCall) (size currentEpoch : Nat) (e : Election)
    : Attempt × Nat × Election :=
  let authAge := call.mstime - e.failoverAuthTime
  if call.dataTooOld then (.waits, currentEpoch, e)
  else if call.authRetryTime < authAge then (.scheduled, currentEpoch, e.schedule call)
  else
    let e := e.rerank call
    if call.mstime < e.failoverAuthTime then (.waits, currentEpoch, e)
    else if call.authTimeout < authAge then (.waits, currentEpoch, e)
    else if !e.failoverAuthSent then
      (.requested, currentEpoch + 1,
        { e with failoverAuthEpoch := currentEpoch + 1, failoverAuthSent := true })
    else if size / 2 + 1 ≤ e.failoverAuthCount then (.won, currentEpoch, e)
    else (.waits, currentEpoch, e)

/-- A vote that arrived: it counts when the voter is a master with slots whose `currentEpoch`
is not below `failover_auth_epoch`.
-/
def Election.countVote (voterServes : Bool) (senderCurrentEpoch : Nat) (e : Election)
    : Election :=
  if voterServes && decide (e.failoverAuthEpoch ≤ senderCurrentEpoch) then
    { e with failoverAuthCount := e.failoverAuthCount + 1 }
  else e

/-- The epoch checks of `clusterSendFailoverAuthIfNeeded`: the request is not of an earlier
epoch, and no vote was given in the current one.
-/
def epochAllowsVote (requestCurrentEpoch currentEpoch lastVoteEpoch : Nat) : Bool :=
  decide (currentEpoch ≤ requestCurrentEpoch) && decide (lastVoteEpoch ≠ currentEpoch)

/-- Two states on elections with the same votes, of the same attempt. -/
structure SameAttempt (e e' : Election) : Prop where
  count : e'.failoverAuthCount = e.failoverAuthCount
  sent : e'.failoverAuthSent = e.failoverAuthSent
  epoch : e'.failoverAuthEpoch = e.failoverAuthEpoch

theorem rerank_sameAttempt (call : FailoverCall) (e : Election)
    : SameAttempt e (e.rerank call) := by
  unfold Election.rerank
  split <;> exact ⟨rfl, rfl, rfl⟩

/-- The outcomes of a call: nothing happens to the votes, they are thrown away, the votes of
a new epoch are asked for, or a quorum has been reached.
-/
theorem slaveFailover_cases {call : FailoverCall} {size currentEpoch epoch' : Nat}
    {e e' : Election} {attempt : Attempt}
    (run : slaveFailover call size currentEpoch e = (attempt, epoch', e'))
    : (attempt = .waits ∧ epoch' = currentEpoch ∧ SameAttempt e e')
      ∨ (attempt = .scheduled ∧ epoch' = currentEpoch ∧ e' = e.schedule call)
      ∨ (attempt = .requested ∧ epoch' = currentEpoch + 1 ∧ e.asksForVotes call = true
          ∧ e'.failoverAuthCount = e.failoverAuthCount ∧ e'.failoverAuthSent = true
          ∧ e'.failoverAuthEpoch = currentEpoch + 1)
      ∨ (attempt = .won ∧ epoch' = currentEpoch ∧ SameAttempt e e'
          ∧ e.failoverAuthSent = true ∧ size / 2 + 1 ≤ e.failoverAuthCount) := by
  obtain ⟨count, sent, epoch⟩ := rerank_sameAttempt call e
  simp only [slaveFailover] at run
  split at run
  · cases run
    exact .inl ⟨rfl, rfl, ⟨rfl, rfl, rfl⟩⟩
  rename_i recent
  split at run
  · cases run
    exact .inr (.inl ⟨rfl, rfl, rfl⟩)
  rename_i current
  split at run
  · cases run
    exact .inl ⟨rfl, rfl, ⟨count, sent, epoch⟩⟩
  rename_i due
  split at run
  · cases run
    exact .inl ⟨rfl, rfl, ⟨count, sent, epoch⟩⟩
  rename_i valid
  split at run
  · rename_i unsent
    cases run
    refine .inr (.inr (.inl ⟨rfl, rfl, ?_, count, rfl, rfl⟩))
    simp [Election.asksForVotes, recent, not_lt.mp current, not_lt.mp due, not_lt.mp valid]
    simpa [sent] using unsent
  split at run
  · rename_i asked quorum
    cases run
    refine .inr (.inr (.inr ⟨rfl, rfl, ⟨count, sent, epoch⟩, ?_, ?_⟩))
    · simpa [sent] using asked
    · rwa [← count]
  · cases run
    exact .inl ⟨rfl, rfl, ⟨count, sent, epoch⟩⟩

theorem countVote_cases (voterServes : Bool) (senderCurrentEpoch : Nat) (e : Election)
    : e.countVote voterServes senderCurrentEpoch = e
      ∨ (voterServes = true ∧ e.failoverAuthEpoch ≤ senderCurrentEpoch
        ∧ e.countVote voterServes senderCurrentEpoch
          = { e with failoverAuthCount := e.failoverAuthCount + 1 }) := by
  unfold Election.countVote
  split
  · rename_i counts
    simp only [Bool.and_eq_true, decide_eq_true_eq] at counts
    exact .inr ⟨counts.1, counts.2, rfl⟩
  · exact .inl rfl

end Redis.Cluster
