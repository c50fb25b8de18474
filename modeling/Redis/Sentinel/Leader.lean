import Mathlib.Tactic

/-! `sentinel.c`: the votes of a sentinel, and how it counts the votes of the others. -/

namespace Redis.Sentinel

variable {S M : Type} [DecidableEq S] [DecidableEq M]

-- The state of a sentinel

/-- `SENTINEL_FAILOVER_STATE_NONE` and the states behind it, in their order. -/
inductive FailoverState where
  | none
  | waitStart
  | selectSlave
  | sendSlaveofNoone
  | waitPromotion
  | reconfSlaves
  | updateConfig
deriving DecidableEq, Repr

/-- `leader` and `leader_epoch`. A sentinel is named by its `runid`. -/
structure Vote (S : Type) where
  leader : Option S
  leaderEpoch : Nat
deriving DecidableEq, Repr

/-- `sentinelRedisInstance` of a master. -/
structure MasterInstance (S : Type) where
  /-- The vote of this sentinel. -/
  vote : Vote S
  failoverEpoch : Nat
  failoverState : FailoverState
  /-- What `master->sentinels` has of the votes of the other sentinels. -/
  sentinels : S → Vote S

/-- The lines of the log that tell of votes and of elections. -/
inductive LogLine (S M : Type) where
  /-- `+vote-for-leader`. -/
  | voteForLeader (master : M) (leader : S) (epoch : Nat)
  /-- `+elected-leader`, with `failover_epoch`. -/
  | electedLeader (master : M) (epoch : Nat)
deriving DecidableEq, Repr

structure SentinelState (S M : Type) where
  currentEpoch : Nat
  masters : M → MasterInstance S
  log : List (LogLine S M)

/-- The sentinels of each master, which all of them know, their quorums, and the order in which a
dictionary is iterated.
-/
structure Setting (S M : Type) where
  sentinels : M → List S
  sentinels_nodup : ∀ master, (sentinels master).Nodup
  quorum : S → M → Nat
  iterate : List (S × Nat) → List (S × Nat)
  iterate_perm : ∀ counters, (iterate counters).Perm counters

-- Voting

variable (s : SentinelState S M) (master : M)

def SentinelState.setMaster (ri : MasterInstance S) : SentinelState S M :=
  { s with masters := Function.update s.masters master ri }

/-- `sentinelVoteLeader`; the vote that it returns is that of the state which it leaves. -/
def SentinelState.sentinelVoteLeader (reqEpoch : Nat) (reqRunid : S) : SentinelState S M :=
  let s := if s.currentEpoch < reqEpoch then { s with currentEpoch := reqEpoch } else s
  let ri := s.masters master
  if ri.vote.leaderEpoch < reqEpoch ∧ s.currentEpoch ≤ reqEpoch then
    let s := s.setMaster master { ri with vote := ⟨some reqRunid, s.currentEpoch⟩ }
    { s with log := s.log ++ [.voteForLeader master reqRunid s.currentEpoch] }
  else s

-- Counting

def sentinelLeaderIncr : List (S × Nat) → S → List (S × Nat)
  | [], runid => [(runid, 1)]
  | (other, votes) :: counters, runid =>
      if other = runid then (other, votes + 1) :: counters
      else (other, votes) :: sentinelLeaderIncr counters runid

/-- The counter of a `runid`. -/
def votesOf : List (S × Nat) → S → Nat
  | [], _ => 0
  | (other, votes) :: counters, runid => if other = runid then votes else votesOf counters runid

/-- One round of the loop over the counters. -/
def moreVotes (best : Option S × Nat) (counter : S × Nat) : Option S × Nat :=
  if best.2 < counter.2 then (some counter.1, counter.2) else best

/-- The other sentinels of the master. -/
def Setting.others (setting : Setting S M) (me : S) (master : M) : List S :=
  (setting.sentinels master).filter (fun v => v ≠ me)

/-- The vote of another sentinel, if it is of the current epoch. -/
def SentinelState.countedVote (v : S) : Option S :=
  let vote := (s.masters master).sentinels v
  if vote.leaderEpoch = s.currentEpoch then vote.leader else none

def SentinelState.countedVotes (setting : Setting S M) (me : S) : List S :=
  (setting.others me master).filterMap (s.countedVote master)

/-- The winner behind the vote of this sentinel, with its votes. -/
def withOwnVote (counters : List (S × Nat)) (own : Vote S) (epoch : Nat) (best : Option S × Nat)
    : Option S × Nat :=
  match own.leader with
  | none => best
  | some myvote =>
      if own.leaderEpoch = epoch then moreVotes best (myvote, votesOf counters myvote + 1) else best

/-- `sentinelGetLeader` of the sentinel `me`, with what it leaves: it votes itself. -/
def SentinelState.sentinelGetLeader (setting : Setting S M) (me : S) (epoch : Nat)
    : SentinelState S M × Option S :=
  let voters := (setting.others me master).length + 1
  let counters := (s.countedVotes master setting me).foldl sentinelLeaderIncr []
  let best := (setting.iterate counters).foldl moreVotes (none, 0)
  let s := s.sentinelVoteLeader master epoch (best.1.getD me)
  let best := withOwnVote counters (s.masters master).vote epoch best
  (s, if best.2 < voters / 2 + 1 ∨ best.2 < setting.quorum me master then none else best.1)

/-- `sentinelFailoverWaitStart`; an attempt that is not elected in time is aborted. -/
def SentinelState.sentinelFailoverWaitStart (setting : Setting S M) (me : S) (timedOut : Bool)
    : SentinelState S M :=
  let epoch := (s.masters master).failoverEpoch
  let (s, leader) := s.sentinelGetLeader master setting me epoch
  let ri := s.masters master
  if leader = some me then
    let s := s.setMaster master { ri with failoverState := .selectSlave }
    { s with log := s.log ++ [.electedLeader master ri.failoverEpoch] }
  else if timedOut then s.setMaster master { ri with failoverState := .none }
  else s

-- What a vote leaves

omit [DecidableEq S] in
theorem sentinelVoteLeader_cases (s : SentinelState S M) (master : M) (reqEpoch : Nat)
    (reqRunid : S)
    : (∃ epoch, s.sentinelVoteLeader master reqEpoch reqRunid = { s with currentEpoch := epoch })
      ∨ ((s.masters master).vote.leaderEpoch < reqEpoch
        ∧ s.sentinelVoteLeader master reqEpoch reqRunid
          = { currentEpoch := reqEpoch
              masters :=
                Function.update s.masters master
                  { s.masters master with vote := ⟨some reqRunid, reqEpoch⟩ }
              log := s.log ++ [.voteForLeader master reqRunid reqEpoch] }) := by
  unfold SentinelState.sentinelVoteLeader
  by_cases newer : s.currentEpoch < reqEpoch
  · simp only [if_pos newer, le_refl, and_true]
    split
    · rename_i first
      exact .inr ⟨first, rfl⟩
    · exact .inl ⟨reqEpoch, rfl⟩
  · simp only [if_neg newer]
    split
    · rename_i votes
      have same : s.currentEpoch = reqEpoch := Nat.le_antisymm votes.2 (Nat.le_of_not_lt newer)
      subst same
      exact .inr ⟨votes.1, rfl⟩
    · exact .inl ⟨s.currentEpoch, rfl⟩

section Counting

theorem votesOf_incr (counters : List (S × Nat)) (runid other : S)
    : votesOf (sentinelLeaderIncr counters runid) other
      = votesOf counters other + if other = runid then 1 else 0 := by
  induction counters with
  | nil =>
      by_cases same : other = runid
      · simp [sentinelLeaderIncr, votesOf, same]
      · simp [sentinelLeaderIncr, votesOf, same, Ne.symm same]
  | cons counter counters ih =>
      obtain ⟨first, votes⟩ := counter
      by_cases here : first = runid
      · by_cases same : other = runid
        · simp [sentinelLeaderIncr, votesOf, here, same]
        · have different : runid ≠ other := Ne.symm same
          simp [sentinelLeaderIncr, votesOf, here, same, different]
      · by_cases found : first = other
        · have different : other ≠ runid := found ▸ here
          simp [sentinelLeaderIncr, votesOf, found, different]
        · simp [sentinelLeaderIncr, votesOf, here, found, ih]

theorem votesOf_count (votes : List S) (runid : S)
    : votesOf (votes.foldl sentinelLeaderIncr []) runid = votes.count runid := by
  induction votes using List.reverseRecOn with
  | nil => rfl
  | append_singleton votes vote ih =>
      rw [List.foldl_append, List.foldl_cons, List.foldl_nil, votesOf_incr, ih, List.count_append,
        List.count_singleton]
      by_cases same : runid = vote
      · simp [same]
      · simp [same, Ne.symm same]

theorem incr_keys {counters : List (S × Nat)} (nodup : (counters.map Prod.fst).Nodup) (runid : S)
    : ((sentinelLeaderIncr counters runid).map Prod.fst).Nodup
      ∧ ∀ other ∈ (sentinelLeaderIncr counters runid).map Prod.fst,
          other = runid ∨ other ∈ counters.map Prod.fst := by
  induction counters with
  | nil => simp [sentinelLeaderIncr]
  | cons counter counters ih =>
      obtain ⟨first, votes⟩ := counter
      simp only [List.map_cons, List.nodup_cons] at nodup
      obtain ⟨fresh, rest⟩ := nodup
      obtain ⟨nodup', keys⟩ := ih rest
      unfold sentinelLeaderIncr
      split
      · rename_i same
        refine ⟨by simpa using ⟨by simpa using fresh, rest⟩, ?_⟩
        intro other member
        exact .inr member
      · rename_i different
        constructor
        · simp only [List.map_cons, List.nodup_cons]
          refine ⟨fun member => ?_, nodup'⟩
          exact (keys first member).elim different fresh
        · intro other member
          simp only [List.map_cons, List.mem_cons] at member ⊢
          obtain same | later := member
          · exact .inr (.inl same)
          · exact (keys other later).imp id .inr

theorem foldl_incr_keys (votes : List S)
    : ((votes.foldl sentinelLeaderIncr []).map Prod.fst).Nodup := by
  induction votes using List.reverseRecOn with
  | nil => exact List.nodup_nil
  | append_singleton votes vote ih =>
      rw [List.foldl_append, List.foldl_cons, List.foldl_nil]
      exact (incr_keys ih vote).1

theorem votesOf_mem {counters : List (S × Nat)} (nodup : (counters.map Prod.fst).Nodup)
    {counter : S × Nat} (member : counter ∈ counters)
    : votesOf counters counter.1 = counter.2 := by
  induction counters with
  | nil => exact absurd member List.not_mem_nil
  | cons first counters ih =>
      simp only [List.map_cons, List.nodup_cons] at nodup
      unfold votesOf
      obtain rfl | later := List.mem_cons.mp member
      · exact if_pos rfl
      · have different : first.1 ≠ counter.1 := fun same =>
          nodup.1 (same ▸ List.mem_map_of_mem later)
        rw [if_neg different]
        exact ih nodup.2 later

omit [DecidableEq S] in
theorem moreVotes_mem (counters : List (S × Nat)) (best : Option S × Nat) {winner : S}
    (found : (counters.foldl moreVotes best).1 = some winner)
    : counters.foldl moreVotes best = best
      ∨ (winner, (counters.foldl moreVotes best).2) ∈ counters := by
  induction counters generalizing best with
  | nil => exact .inl rfl
  | cons counter counters ih =>
      rw [List.foldl_cons] at found ⊢
      obtain same | member := ih (moreVotes best counter) found
      · rw [same] at found ⊢
        unfold moreVotes at found ⊢
        split at found
        · rename_i more
          rw [if_pos more]
          refine .inr (List.mem_cons.mpr (.inl ?_))
          injection found with isWinner
          rw [← isWinner]
        · rename_i less
          exact .inl (if_neg less)
      · exact .inr (List.mem_cons_of_mem _ member)

/-- The votes for a candidate: those of the others that are counted, and the own one. -/
def SentinelState.tally (setting : Setting S M) (s : SentinelState S M) (master : M) (me : S)
    (own : Vote S) (epoch : Nat) (candidate : S) : Nat :=
  (s.countedVotes master setting me).count candidate
  + if own = ⟨some candidate, epoch⟩ then 1 else 0

/-- A leader has a majority of the votes, and the quorum. -/
theorem sentinelGetLeader_some {setting : Setting S M} {s : SentinelState S M} {master : M}
    {me leader : S} {epoch : Nat}
    (elected : (s.sentinelGetLeader master setting me epoch).2 = some leader)
    : let own := ((s.sentinelGetLeader master setting me epoch).1.masters master).vote
      ((setting.others me master).length + 1) / 2 + 1 ≤ s.tally setting master me own epoch leader
      ∧ setting.quorum me master ≤ s.tally setting master me own epoch leader := by
  unfold SentinelState.sentinelGetLeader at elected ⊢
  dsimp only at elected ⊢
  generalize s.sentinelVoteLeader master epoch _ = t at elected ⊢
  generalize counted : (s.countedVotes master setting me).foldl sentinelLeaderIncr [] = counters
    at elected
  have count : votesOf counters leader = (s.countedVotes master setting me).count leader :=
    counted ▸ votesOf_count _ leader
  have keys : (counters.map Prod.fst).Nodup := counted ▸ foldl_incr_keys _
  split at elected
  · cases elected
  · rename_i enough
    obtain ⟨majority, quorum⟩ := not_or.mp enough
    -- the votes of the winner are counted at most
    have counts
        : (withOwnVote counters (t.masters master).vote epoch
            ((setting.iterate counters).foldl moreVotes (none, 0))).2
          ≤ s.tally setting master me (t.masters master).vote epoch leader := by
      have others
          : ((setting.iterate counters).foldl moreVotes (none, 0)).1 = some leader
            → ((setting.iterate counters).foldl moreVotes (none, 0)).2
              ≤ (s.countedVotes master setting me).count leader := by
        intro found
        obtain same | member := moreVotes_mem _ _ found
        · rw [same] at found
          cases found
        · have known := votesOf_mem keys ((setting.iterate_perm counters).mem_iff.mp member)
          rw [← count, ← known]
      unfold withOwnVote at elected ⊢
      split at elected
      · exact (others elected).trans (Nat.le_add_right _ _)
      · rename_i myvote voted
        split at elected
        · rename_i inEpoch
          unfold moreVotes at elected ⊢
          split at elected
          · rename_i more
            injection elected with same
            subst same
            have own : (t.masters master).vote = ⟨some myvote, epoch⟩ := by
              rw [← voted, ← inEpoch]
            rw [if_pos inEpoch, if_pos more, SentinelState.tally, if_pos own, count]
          · rename_i less
            rw [if_pos inEpoch, if_neg less]
            exact (others elected).trans (Nat.le_add_right _ _)
        · rename_i otherEpoch
          rw [if_neg otherEpoch]
          exact (others elected).trans (Nat.le_add_right _ _)
    exact ⟨(Nat.le_of_not_lt majority).trans counts, (Nat.le_of_not_lt quorum).trans counts⟩

end Counting

end Redis.Sentinel
