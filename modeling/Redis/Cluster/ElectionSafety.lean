import Redis.Cluster.Election
import Redis.Library.Majorities

/-! Election safety: in a run in which every request for votes starts from a count of zero, at
most one slave becomes master in an epoch, and a majority of the masters voted for it.
-/

namespace Redis.Cluster

variable {Id : Type} [DecidableEq Id]

-- Nodes and links

/-- The messages of an election, with the `currentEpoch` of their header. -/
inductive ElectionMessage where
  | ping (currentEpoch : Nat)
  | failoverAuthRequest (currentEpoch : Nat)
  | failoverAuthAck (currentEpoch : Nat)
deriving DecidableEq, Repr

def ElectionMessage.currentEpoch : ElectionMessage → Nat
  | .ping epoch => epoch
  | .failoverAuthRequest epoch => epoch
  | .failoverAuthAck epoch => epoch

structure ElectionNode where
  currentEpoch : Nat
  lastVoteEpoch : Nat
  /-- `myself->configEpoch`. -/
  configEpoch : Nat
  /-- `nodeIsMaster(myself)`. -/
  master : Bool
  election : Election
deriving DecidableEq, Repr

/-- The nodes and the FIFO links between them. The last two fields are not part of the program:
the votes given so far, as voter, slave and epoch, and the elections won, as slave and
`failover_auth_epoch`.
-/
structure ElectionWorld (Id : Type) where
  node : Id → ElectionNode
  link : Id → Id → List ElectionMessage
  votes : List (Id × Id × Nat)
  won : List (Id × Nat)

/-- What decides about a vote besides the epochs: whether the remaining checks of
`clusterSendFailoverAuthIfNeeded` pass, and whether there is a link to answer on.
-/
structure VoteCall where
  eligible : Bool
  linked : Bool
deriving DecidableEq, Repr

namespace ElectionWorld

variable (w : ElectionWorld Id)

def setNode (id : Id) (node : ElectionNode) : ElectionWorld Id :=
  { w with node := Function.update w.node id node }

/-- `clusterSendMessage` to every node in `receivers`. -/
def send (sender : Id) (receivers : List Id) (message : ElectionMessage) : ElectionWorld Id :=
  { w with
    link := fun a b =>
      if a = sender ∧ b ∈ receivers then w.link a b ++ [message] else w.link a b }

def setLink (sender receiver : Id) (messages : List ElectionMessage) : ElectionWorld Id :=
  { w with link := fun a b => if a = sender ∧ b = receiver then messages else w.link a b }

/-- The update of `currentEpoch` from the header of a packet. -/
def seeEpoch (receiver : Id) (currentEpoch : Nat) : ElectionWorld Id :=
  let node := w.node receiver
  if node.currentEpoch < currentEpoch then w.setNode receiver { node with currentEpoch } else w

/-- The end of `clusterSendFailoverAuthIfNeeded`: `clusterSendFailoverAuth`, which sends nothing
without a link, and the epoch of the vote.
-/
def castVote (slave voter : Id) (linked : Bool) : ElectionWorld Id :=
  let epoch := (w.node voter).currentEpoch
  { node := Function.update w.node voter { w.node voter with lastVoteEpoch := epoch }
    link := if linked then (w.send voter [slave] (.failoverAuthAck epoch)).link else w.link
    votes := (voter, slave, epoch) :: w.votes
    won := w.won }

def clusterSendFailoverAuthIfNeeded (slave voter : Id) (requestCurrentEpoch : Nat)
    (call : VoteCall) : ElectionWorld Id :=
  if !(w.node voter).master then w
  else if !epochAllowsVote requestCurrentEpoch (w.node voter).currentEpoch
      (w.node voter).lastVoteEpoch then w
  else if !call.eligible then w
  else w.castVote slave voter call.linked

/-- A `FAILOVER_AUTH_ACK` in `clusterProcessPacket`. -/
def processAck (masters : Finset Id) (voter slave : Id) (senderCurrentEpoch : Nat)
    : ElectionWorld Id :=
  let node := w.node slave
  w.setNode slave
    { node with election := node.election.countVote (voter ∈ masters) senderCurrentEpoch }

/-- The first message on a link is processed by `clusterProcessPacket`. -/
def deliver (masters : Finset Id) (sender receiver : Id) (call : VoteCall) : ElectionWorld Id :=
  match w.link sender receiver with
  | [] => w
  | message :: rest =>
      let w := (w.setLink sender receiver rest).seeEpoch receiver message.currentEpoch
      match message with
      | .ping _ => w
      | .failoverAuthRequest epoch =>
          w.clusterSendFailoverAuthIfNeeded sender receiver epoch call
      | .failoverAuthAck epoch => w.processAck masters sender receiver epoch

/-- `clusterHandleSlaveFailover`. `ready` says that the master is known, failed or in a manual
failover, and has slots; `reached` are the nodes to which a link exists.
-/
def clusterHandleSlaveFailover (masters : Finset Id) (slave : Id) (ready : Bool)
    (call : FailoverCall) (reached : List Id) : ElectionWorld Id :=
  let node := w.node slave
  if node.master || !ready then w
  else
    match slaveFailover call masters.card node.currentEpoch node.election with
    | (.requested, currentEpoch, election) =>
        (w.setNode slave { node with currentEpoch, election }).send slave reached
          (.failoverAuthRequest currentEpoch)
    | (.won, currentEpoch, election) =>
        { w.setNode slave
            { node with
              currentEpoch, election
              configEpoch := max node.configEpoch election.failoverAuthEpoch
              master := true } with
          won := (slave, election.failoverAuthEpoch) :: w.won }
    | (_, currentEpoch, election) => w.setNode slave { node with currentEpoch, election }

end ElectionWorld

/-- The events of an election, in any order. -/
inductive ElectionEvent (Id : Type) where
  | ping (sender receiver : Id)
  | deliver (sender receiver : Id) (call : VoteCall)
  | failover (slave : Id) (ready : Bool) (call : FailoverCall) (reached : List Id)
deriving DecidableEq, Repr

def ElectionWorld.step (masters : Finset Id) (w : ElectionWorld Id)
    : ElectionEvent Id → ElectionWorld Id
  | .ping sender receiver => w.send sender [receiver] (.ping (w.node sender).currentEpoch)
  | .deliver sender receiver call => w.deliver masters sender receiver call
  | .failover slave ready call reached =>
      w.clusterHandleSlaveFailover masters slave ready call reached

/-- What a node starts with: its epochs, and whatever `failover_auth_sent` happens to be. -/
structure ElectionStart where
  currentEpoch : Nat
  lastVoteEpoch : Nat
  configEpoch : Nat
  sent : Bool
  voted : lastVoteEpoch ≤ currentEpoch

def startElections (masters : Finset Id) (start : Id → ElectionStart) : ElectionWorld Id where
  node id :=
    { currentEpoch := (start id).currentEpoch
      lastVoteEpoch := (start id).lastVoteEpoch
      configEpoch := (start id).configEpoch
      master := id ∈ masters
      election := .initial (start id).sent }
  link _ _ := []
  votes := []
  won := []

-- Safety and the condition

/-- A majority of the masters voted for the slave in the epoch. -/
def Majority (masters : Finset Id) (votes : List (Id × Id × Nat)) (slave : Id) (epoch : Nat)
    : Prop :=
  ∃ voters ⊆ masters, masters.card / 2 + 1 ≤ voters.card
    ∧ ∀ voter ∈ voters, (voter, slave, epoch) ∈ votes

/-- At most one slave wins an epoch, with the votes of a majority. -/
structure ElectionSafe (masters : Finset Id) (w : ElectionWorld Id) : Prop where
  unique : ∀ slave other epoch, (slave, epoch) ∈ w.won → (other, epoch) ∈ w.won → slave = other
  majority : ∀ slave epoch, (slave, epoch) ∈ w.won → Majority masters w.votes slave epoch

/-- A call that asks for votes finds that none has been counted. -/
def RequestsClean (w : ElectionWorld Id) : ElectionEvent Id → Prop
  | .failover slave ready call _ =>
      (w.node slave).master = false → ready = true →
        (w.node slave).election.asksForVotes call = true →
          (w.node slave).election.failoverAuthCount = 0
  | _ => True

/-- Every event of a run meets the condition where it happens. -/
def CleanRun (masters : Finset Id) : ElectionWorld Id → List (ElectionEvent Id) → Prop
  | _, [] => True
  | w, event :: events => RequestsClean w event ∧ CleanRun masters (w.step masters event) events

-- The invariant

/-- The votes a slave counted in its attempt: distinct masters that voted for it in the epoch
of the attempt, and none of whose votes is still to arrive.
-/
def Counted (masters : Finset Id) (w : ElectionWorld Id) (slave : Id) (e : Election) : Prop :=
  ∃ voters ⊆ masters, voters.card = e.failoverAuthCount
    ∧ ∀ voter ∈ voters, (voter, slave, e.failoverAuthEpoch) ∈ w.votes
      ∧ .failoverAuthAck e.failoverAuthEpoch ∉ w.link voter slave

/-- Every vote is one of the voter's last epoch or before and was asked for, what is on the
links repeats the history, and the count of an attempt is right.
-/
structure ElectionInvariant (masters : Finset Id) (w : ElectionWorld Id) : Prop where
  lastVote : ∀ id, (w.node id).lastVoteEpoch ≤ (w.node id).currentEpoch
  attempt : ∀ id, (w.node id).election.failoverAuthEpoch ≤ (w.node id).currentEpoch
  voted : ∀ voter slave epoch, (voter, slave, epoch) ∈ w.votes →
    epoch ≤ (w.node voter).lastVoteEpoch
    ∧ epoch ≤ (w.node slave).election.failoverAuthEpoch
  once : ∀ voter slave other epoch, (voter, slave, epoch) ∈ w.votes →
    (voter, other, epoch) ∈ w.votes → slave = other
  requests : ∀ slave voter epoch, .failoverAuthRequest epoch ∈ w.link slave voter →
    epoch ≤ (w.node slave).election.failoverAuthEpoch
  acks : ∀ voter slave epoch, .failoverAuthAck epoch ∈ w.link voter slave →
    (voter, slave, epoch) ∈ w.votes
  ackOnce : ∀ voter slave epoch, (w.link voter slave).count (.failoverAuthAck epoch) ≤ 1
  counted : ∀ slave, (w.node slave).election.failoverAuthSent = true →
    Counted masters w slave (w.node slave).election
  winners : ∀ slave epoch, (slave, epoch) ∈ w.won → Majority masters w.votes slave epoch

variable {masters : Finset Id} {w : ElectionWorld Id} {rest : List ElectionMessage}

theorem startElections_invariant (masters : Finset Id) (start : Id → ElectionStart)
    : ElectionInvariant masters (startElections masters start) where
  lastVote id := (start id).voted
  attempt _ := Nat.zero_le _
  voted _ _ _ member := absurd member List.not_mem_nil
  once _ _ _ _ member := absurd member List.not_mem_nil
  requests _ _ _ member := absurd member List.not_mem_nil
  acks _ _ _ member := absurd member List.not_mem_nil
  ackOnce _ _ _ := Nat.zero_le _
  counted _ _ := ⟨∅, Finset.empty_subset _, rfl, by simp⟩
  winners _ _ member := absurd member List.not_mem_nil

theorem ElectionInvariant.safe (inv : ElectionInvariant masters w) : ElectionSafe masters w := by
  refine ⟨?_, inv.winners⟩
  intro slave other epoch first second
  obtain ⟨voters, inside, quorum, votes⟩ := inv.winners slave epoch first
  obtain ⟨voters', inside', quorum', votes'⟩ := inv.winners other epoch second
  obtain ⟨voter, left, right⟩ := Library.majority_sets_meet inside inside' quorum quorum'
  exact inv.once voter slave other epoch (votes voter left) (votes' voter right)

-- What the parts of a step keep

/-- Some nodes raise their `currentEpoch`, and nothing else happens. -/
structure EpochsRise (w w' : ElectionWorld Id) : Prop where
  link : w'.link = w.link
  votes : w'.votes = w.votes
  won : w'.won = w.won
  lastVote : ∀ id, (w'.node id).lastVoteEpoch = (w.node id).lastVoteEpoch
  election : ∀ id, (w'.node id).election = (w.node id).election
  epoch : ∀ id, (w.node id).currentEpoch ≤ (w'.node id).currentEpoch

theorem seeEpoch_rise (w : ElectionWorld Id) (receiver : Id) (epoch : Nat)
    : EpochsRise w (w.seeEpoch receiver epoch)
      ∧ epoch ≤ ((w.seeEpoch receiver epoch).node receiver).currentEpoch := by
  unfold ElectionWorld.seeEpoch
  by_cases behind : (w.node receiver).currentEpoch < epoch
  · simp only [behind, if_true, ElectionWorld.setNode, Function.update_self, le_refl, and_true]
    refine ⟨rfl, rfl, rfl, ?_, ?_, ?_⟩ <;> intro id <;> by_cases here : id = receiver
    all_goals simp [here, behind.le]
  · simp only [behind, if_false]
    exact ⟨⟨rfl, rfl, rfl, fun _ => rfl, fun _ => rfl, fun _ => le_refl _⟩, not_lt.mp behind⟩

omit [DecidableEq Id] in
theorem ElectionInvariant.rise {w' : ElectionWorld Id} (inv : ElectionInvariant masters w)
    (rise : EpochsRise w w')
    : ElectionInvariant masters w' where
  lastVote id := by
    rw [rise.lastVote]
    exact (inv.lastVote id).trans (rise.epoch id)
  attempt id := by
    rw [rise.election]
    exact (inv.attempt id).trans (rise.epoch id)
  voted voter slave epoch member := by
    rw [rise.lastVote, rise.election]
    exact inv.voted voter slave epoch (rise.votes ▸ member)
  once voter slave other epoch first second :=
    inv.once voter slave other epoch (rise.votes ▸ first) (rise.votes ▸ second)
  requests slave voter epoch member := by
    rw [rise.election]
    exact inv.requests slave voter epoch (rise.link ▸ member)
  acks voter slave epoch member := by
    rw [rise.votes]
    exact inv.acks voter slave epoch (rise.link ▸ member)
  ackOnce voter slave epoch := by
    rw [rise.link]
    exact inv.ackOnce voter slave epoch
  counted slave sent := by
    rw [rise.election] at sent ⊢
    unfold Counted
    rw [rise.votes, rise.link]
    exact inv.counted slave sent
  winners slave epoch member := by
    rw [rise.votes]
    exact inv.winners slave epoch (rise.won ▸ member)

/-- The first message of a link is taken off. An acknowledgement that was taken off is of a
vote that was given, and there is no other one of it.
-/
theorem ElectionInvariant.pop {sender receiver : Id} {message : ElectionMessage}
    (inv : ElectionInvariant masters w)
    (first : w.link sender receiver = message :: rest)
    : ElectionInvariant masters (w.setLink sender receiver rest) := by
  have fewer : ∀ a b, ((w.setLink sender receiver rest).link a b).Sublist (w.link a b) := by
    intro a b
    simp only [ElectionWorld.setLink]
    split
    · rename_i here
      rw [here.1, here.2, first]
      exact List.sublist_cons_self _ _
    · exact List.Sublist.refl _
  exact {
    lastVote := inv.lastVote
    attempt := inv.attempt
    voted := inv.voted
    once := inv.once
    requests := fun slave voter epoch member =>
      inv.requests slave voter epoch ((fewer slave voter).subset member)
    acks := fun voter slave epoch member =>
      inv.acks voter slave epoch ((fewer voter slave).subset member)
    ackOnce := fun voter slave epoch =>
      ((fewer voter slave).count_le _).trans (inv.ackOnce voter slave epoch)
    counted := fun slave sent => by
      obtain ⟨voters, inside, count, voted⟩ := inv.counted slave sent
      refine ⟨voters, inside, count, fun voter member => ?_⟩
      obtain ⟨vote, arrived⟩ := voted voter member
      exact ⟨vote, fun still => arrived ((fewer voter slave).subset still)⟩
    winners := inv.winners }

omit [DecidableEq Id] in
theorem ElectionInvariant.pop_ack {voter slave : Id} {epoch : Nat}
    (inv : ElectionInvariant masters w)
    (first : w.link voter slave = .failoverAuthAck epoch :: rest)
    : (voter, slave, epoch) ∈ w.votes ∧ .failoverAuthAck epoch ∉ rest := by
  refine ⟨inv.acks voter slave epoch (first ▸ List.mem_cons_self), ?_⟩
  have once := inv.ackOnce voter slave epoch
  rw [first, List.count_cons_self] at once
  exact List.count_eq_zero.mp (by omega)

theorem ElectionInvariant.send {sender : Id} {receivers : List Id} {message : ElectionMessage}
    (inv : ElectionInvariant masters w)
    (noAck : ∀ epoch, message ≠ .failoverAuthAck epoch)
    (request : ∀ epoch, message = .failoverAuthRequest epoch →
      epoch ≤ (w.node sender).election.failoverAuthEpoch)
    : ElectionInvariant masters (w.send sender receivers message) := by
  have ack : ∀ a b epoch, .failoverAuthAck epoch ∈ (w.send sender receivers message).link a b ↔
      .failoverAuthAck epoch ∈ w.link a b := by
    intro a b epoch
    simp only [ElectionWorld.send]
    split <;> simp [(noAck epoch).symm]
  exact {
    lastVote := inv.lastVote
    attempt := inv.attempt
    voted := inv.voted
    once := inv.once
    requests := fun slave voter epoch member => by
      simp only [ElectionWorld.send] at member
      split at member
      · rename_i here
        rcases List.mem_append.mp member with old | new
        · exact inv.requests slave voter epoch old
        · rw [here.1]
          exact request epoch (List.mem_singleton.mp new).symm
      · exact inv.requests slave voter epoch member
    acks := fun voter slave epoch member => inv.acks voter slave epoch ((ack _ _ _).mp member)
    ackOnce := fun voter slave epoch => by
      simp only [ElectionWorld.send]
      split
      · rw [List.count_append, List.count_singleton, if_neg (by simpa using noAck epoch)]
        exact inv.ackOnce voter slave epoch
      · exact inv.ackOnce voter slave epoch
    counted := fun slave sent => by
      obtain ⟨voters, inside, count, voted⟩ := inv.counted slave sent
      refine ⟨voters, inside, count, fun voter member => ?_⟩
      obtain ⟨vote, arrived⟩ := voted voter member
      exact ⟨vote, fun still => arrived ((ack _ _ _).mp still)⟩
    winners := inv.winners }

theorem castVote_link (w : ElectionWorld Id) (slave voter : Id) (linked : Bool) (a b : Id)
    : (w.castVote slave voter linked).link a b = w.link a b
      ∨ a = voter ∧ b = slave ∧ (w.castVote slave voter linked).link a b
        = w.link a b ++ [.failoverAuthAck (w.node voter).currentEpoch] := by
  cases linked with
  | false => exact .inl rfl
  | true =>
      by_cases here : a = voter ∧ b ∈ [slave]
      · exact .inr ⟨here.1, List.mem_singleton.mp here.2, if_pos here⟩
      · exact .inl (if_neg here)

theorem ElectionInvariant.castVote {slave voter : Id} (inv : ElectionInvariant masters w)
    (linked : Bool)
    (fresh : (w.node voter).lastVoteEpoch ≠ (w.node voter).currentEpoch)
    (asked : (w.node voter).currentEpoch ≤ (w.node slave).election.failoverAuthEpoch)
    : ElectionInvariant masters (w.castVote slave voter linked) := by
  have first : ∀ other epoch, (voter, other, epoch) ∈ w.votes →
      epoch < (w.node voter).currentEpoch := by
    intro other epoch member
    have bound := (inv.voted voter other epoch member).1
    have later := inv.lastVote voter
    omega
  have kept : ∀ id, ((w.castVote slave voter linked).node id).election = (w.node id).election
      ∧ ((w.castVote slave voter linked).node id).currentEpoch = (w.node id).currentEpoch
      ∧ (w.node id).lastVoteEpoch ≤ ((w.castVote slave voter linked).node id).lastVoteEpoch := by
    intro id
    by_cases here : id = voter
    · subst here
      simp [ElectionWorld.castVote, inv.lastVote]
    · simp [ElectionWorld.castVote, here]
  have onLink : ∀ a b message, message ∈ (w.castVote slave voter linked).link a b →
      message ∈ w.link a b
      ∨ (a = voter ∧ b = slave ∧ message = .failoverAuthAck (w.node voter).currentEpoch) := by
    intro a b message member
    rcases castVote_link w slave voter linked a b with same | ⟨sender, receiver, more⟩
    · exact .inl (same ▸ member)
    · rcases List.mem_append.mp (more ▸ member) with old | new
      · exact .inl old
      · exact .inr ⟨sender, receiver, List.mem_singleton.mp new⟩
  exact {
    lastVote := fun id => by
      by_cases here : id = voter
      · simp [ElectionWorld.castVote, here]
      · simpa [ElectionWorld.castVote, here] using inv.lastVote id
    attempt := fun id => by
      rw [(kept id).1, (kept id).2.1]
      exact inv.attempt id
    voted := fun a b epoch member => by
      rw [(kept b).1]
      rcases List.mem_cons.mp member with new | old
      · cases new
        exact ⟨by simp [ElectionWorld.castVote], asked⟩
      · exact ⟨(inv.voted a b epoch old).1.trans (kept a).2.2, (inv.voted a b epoch old).2⟩
    once := fun a b other epoch one two => by
      rcases List.mem_cons.mp one with new | old <;> rcases List.mem_cons.mp two with new' | old'
      · cases new
        cases new'
        rfl
      · cases new
        exact absurd (first other _ old') (lt_irrefl _)
      · cases new'
        exact absurd (first b _ old) (lt_irrefl _)
      · exact inv.once a b other epoch old old'
    requests := fun a b epoch member => by
      rw [(kept a).1]
      rcases onLink a b _ member with old | ⟨_, _, new⟩
      · exact inv.requests a b epoch old
      · cases new
    acks := fun a b epoch member => by
      rcases onLink a b _ member with old | ⟨rfl, rfl, new⟩
      · exact List.mem_cons_of_mem _ (inv.acks a b epoch old)
      · cases new
        exact List.mem_cons_self
    ackOnce := fun a b epoch => by
      rcases castVote_link w slave voter linked a b with same | ⟨rfl, _, more⟩
      · rw [same]
        exact inv.ackOnce a b epoch
      · rw [more, List.count_append, List.count_singleton]
        split
        · rename_i new
          obtain rfl := ElectionMessage.failoverAuthAck.inj (eq_of_beq new)
          have absent : .failoverAuthAck (w.node a).currentEpoch ∉ w.link a b :=
            fun old => absurd (first b _ (inv.acks a b _ old)) (lt_irrefl _)
          rw [List.count_eq_zero.mpr absent]
        · exact inv.ackOnce a b epoch
    counted := fun id sent => by
      rw [(kept id).1] at sent ⊢
      obtain ⟨voters, inside, count, voted⟩ := inv.counted id sent
      refine ⟨voters, inside, count, fun a member => ?_⟩
      obtain ⟨vote, arrived⟩ := voted a member
      refine ⟨List.mem_cons_of_mem _ vote, fun still => ?_⟩
      rcases onLink a id _ still with old | ⟨rfl, rfl, new⟩
      · exact arrived old
      · have epoch := ElectionMessage.failoverAuthAck.inj new
        have earlier := first id _ vote
        omega
    winners := fun id epoch member => by
      obtain ⟨voters, inside, quorum, voted⟩ := inv.winners id epoch member
      exact ⟨voters, inside, quorum, fun a member => List.mem_cons_of_mem _ (voted a member)⟩ }

theorem ElectionInvariant.vote {slave voter : Id} {requestCurrentEpoch : Nat}
    (inv : ElectionInvariant masters w) (call : VoteCall)
    (asked : requestCurrentEpoch ≤ (w.node slave).election.failoverAuthEpoch)
    : ElectionInvariant masters
        (w.clusterSendFailoverAuthIfNeeded slave voter requestCurrentEpoch call) := by
  unfold ElectionWorld.clusterSendFailoverAuthIfNeeded
  split
  · exact inv
  split
  · exact inv
  rename_i allowed
  split
  · exact inv
  simp only [Bool.not_eq_true, Bool.not_eq_false', epochAllowsVote, Bool.and_eq_true,
    decide_eq_true_eq] at allowed
  exact inv.castVote call.linked allowed.2 (allowed.1.trans asked)

theorem ElectionInvariant.setNode {id : Id} {node : ElectionNode}
    (inv : ElectionInvariant masters w)
    (lastVote : node.lastVoteEpoch = (w.node id).lastVoteEpoch)
    (epoch : (w.node id).currentEpoch ≤ node.currentEpoch)
    (attempt : node.election.failoverAuthEpoch ≤ node.currentEpoch)
    (later : (w.node id).election.failoverAuthEpoch ≤ node.election.failoverAuthEpoch)
    (counted : node.election.failoverAuthSent = true → Counted masters w id node.election)
    : ElectionInvariant masters (w.setNode id node) := by
  have votes : ∀ a, ((w.setNode id node).node a).lastVoteEpoch = (w.node a).lastVoteEpoch := by
    intro a
    by_cases here : a = id
    · subst here
      simpa [ElectionWorld.setNode] using lastVote
    · simp [ElectionWorld.setNode, here]
  have grows : ∀ a, (w.node a).election.failoverAuthEpoch
      ≤ ((w.setNode id node).node a).election.failoverAuthEpoch := by
    intro a
    by_cases here : a = id
    · subst here
      simpa [ElectionWorld.setNode] using later
    · simp [ElectionWorld.setNode, here]
  exact {
    lastVote := fun a => by
      rw [votes]
      by_cases here : a = id
      · subst here
        simpa [ElectionWorld.setNode] using (inv.lastVote a).trans epoch
      · simpa [ElectionWorld.setNode, here] using inv.lastVote a
    attempt := fun a => by
      by_cases here : a = id
      · subst here
        simpa [ElectionWorld.setNode] using attempt
      · simpa [ElectionWorld.setNode, here] using inv.attempt a
    voted := fun voter slave epoch member => by
      obtain ⟨given, asked⟩ := inv.voted voter slave epoch member
      exact ⟨(votes voter).symm ▸ given, asked.trans (grows slave)⟩
    once := inv.once
    requests := fun slave voter epoch member =>
      (inv.requests slave voter epoch member).trans (grows slave)
    acks := inv.acks
    ackOnce := inv.ackOnce
    counted := fun slave sent => by
      by_cases here : slave = id
      · subst here
        simp only [ElectionWorld.setNode, Function.update_self] at sent ⊢
        exact counted sent
      · simp only [ElectionWorld.setNode, Function.update_of_ne here] at sent ⊢
        exact inv.counted slave sent
    winners := inv.winners }

/-- A vote that arrives is of the epoch of the attempt, when one is under way: no vote was asked
for in a later one. It was not counted before, since it had not arrived.
-/
theorem ElectionInvariant.ack {voter slave : Id} {epoch : Nat} (inv : ElectionInvariant masters w)
    (first : w.link voter slave = .failoverAuthAck epoch :: rest)
    : ElectionInvariant masters
        (((w.setLink voter slave rest).seeEpoch slave epoch).processAck masters voter slave
          epoch) := by
  obtain ⟨vote, gone⟩ := inv.pop_ack first
  have rise := (seeEpoch_rise (w.setLink voter slave rest) slave epoch).1
  have seen := (inv.pop first).rise rise
  generalize (w.setLink voter slave rest).seeEpoch slave epoch = seenWorld at rise seen ⊢
  have election : (seenWorld.node slave).election = (w.node slave).election := rise.election slave
  simp only [ElectionWorld.processAck]
  rcases countVote_cases (decide (voter ∈ masters)) epoch (seenWorld.node slave).election
    with same | ⟨serves, current, counts⟩
  · rw [same]
    exact seen.setNode rfl (le_refl _) (seen.attempt slave) (le_refl _) (seen.counted slave)
  · rw [counts]
    refine seen.setNode rfl (le_refl _) (seen.attempt slave) (le_refl _) (fun sent => ?_)
    simp only [election] at sent current ⊢
    obtain ⟨voters, inside, count, voted⟩ := inv.counted slave sent
    obtain rfl : epoch = (w.node slave).election.failoverAuthEpoch :=
      le_antisymm (inv.voted voter slave epoch vote).2 current
    have other : voter ∉ voters := by
      intro member
      exact (voted voter member).2 (first ▸ List.mem_cons_self)
    refine ⟨insert voter voters, ?_, ?_, ?_⟩
    · exact Finset.insert_subset (of_decide_eq_true serves) inside
    · rw [Finset.card_insert_of_notMem other, count]
    · intro a member
      rw [rise.votes, rise.link]
      rcases Finset.mem_insert.mp member with rfl | old
      · exact ⟨vote, by simpa [ElectionWorld.setLink] using gone⟩
      · obtain ⟨given, arrived⟩ := voted a old
        refine ⟨given, fun still => ?_⟩
        simp only [ElectionWorld.setLink] at still
        split at still
        · exact gone still
        · exact arrived still

theorem ElectionInvariant.deliver (inv : ElectionInvariant masters w) (sender receiver : Id)
    (call : VoteCall)
    : ElectionInvariant masters (w.deliver masters sender receiver call) := by
  unfold ElectionWorld.deliver
  split
  · exact inv
  · rename_i message rest first
    have rise := (seeEpoch_rise (w.setLink sender receiver rest) receiver
      message.currentEpoch).1
    have seen := (inv.pop first).rise rise
    cases message with
    | ping epoch => exact seen
    | failoverAuthRequest epoch =>
        refine seen.vote call ?_
        rw [rise.election]
        exact inv.requests sender receiver epoch (first ▸ List.mem_cons_self)
    | failoverAuthAck epoch => exact inv.ack first

theorem ElectionInvariant.failover (inv : ElectionInvariant masters w) (slave : Id)
    (ready : Bool) (call : FailoverCall) (reached : List Id)
    (clean : RequestsClean w (.failover slave ready call reached))
    : ElectionInvariant masters
        (w.clusterHandleSlaveFailover masters slave ready call reached) := by
  unfold ElectionWorld.clusterHandleSlaveFailover
  by_cases stops : ((w.node slave).master || !ready) = true
  · simp only [stops, if_true]
    exact inv
  · simp only [stops]
    simp only [Bool.or_eq_true, Bool.not_eq_true', not_or, Bool.not_eq_true,
      Bool.not_eq_false] at stops
    rcases run : slaveFailover call masters.card (w.node slave).currentEpoch
      (w.node slave).election with ⟨attempt, epoch', e'⟩
    have old := inv.attempt slave
    rcases slaveFailover_cases run with ⟨rfl, rfl, same⟩ | ⟨rfl, rfl, rfl⟩
      | ⟨rfl, rfl, asks, count, sent, epoch⟩ | ⟨rfl, rfl, same, sent, quorum⟩
    · refine inv.setNode rfl (le_refl _) (same.epoch ▸ old) same.epoch.ge (fun sent => ?_)
      rw [same.sent] at sent
      simpa [Counted, same.count, same.epoch] using inv.counted slave sent
    · exact inv.setNode rfl (le_refl _) old (le_refl _) (fun sent => Bool.noConfusion sent)
    · refine ElectionInvariant.send ?_ (fun _ same => nomatch same) ?_
      · refine inv.setNode rfl (Nat.le_succ _) epoch.le ((old.trans (Nat.le_succ _)).trans epoch.ge)
          (fun _ => ?_)
        refine ⟨∅, Finset.empty_subset _, ?_, by simp⟩
        rw [count, clean stops.1 stops.2 asks]
        rfl
      · intro asked same
        cases same
        simp [ElectionWorld.setNode, epoch]
    · have kept : Counted masters w slave e' := by
        simpa [Counted, same.count, same.epoch] using inv.counted slave sent
      have next : ElectionInvariant masters
          (w.setNode slave
            { w.node slave with
              currentEpoch := (w.node slave).currentEpoch, election := e'
              configEpoch := max (w.node slave).configEpoch e'.failoverAuthEpoch
              master := true }) :=
        inv.setNode rfl (le_refl _) (same.epoch ▸ old) same.epoch.ge (fun _ => kept)
      refine { next with winners := fun winner epoch member => ?_ }
      rcases List.mem_cons.mp member with new | earlier
      · cases new
        obtain ⟨voters, inside, count, voted⟩ := kept
        refine ⟨voters, inside, ?_, fun voter member => (voted voter member).1⟩
        rw [count, same.count]
        exact quorum
      · exact inv.winners winner epoch earlier

theorem ElectionInvariant.step (inv : ElectionInvariant masters w) (event : ElectionEvent Id)
    (clean : RequestsClean w event)
    : ElectionInvariant masters (w.step masters event) := by
  cases event with
  | ping sender receiver =>
      exact inv.send (fun _ same => nomatch same) (fun _ same => nomatch same)
  | deliver sender receiver call => exact inv.deliver sender receiver call
  | failover slave ready call reached => exact inv.failover slave ready call reached clean

theorem ElectionInvariant.run (inv : ElectionInvariant masters w)
    (events : List (ElectionEvent Id)) (clean : CleanRun masters w events)
    : ElectionInvariant masters (events.foldl (ElectionWorld.step masters) w) := by
  induction events generalizing w with
  | nil => exact inv
  | cons event events ih =>
      obtain ⟨first, rest⟩ := clean
      exact ih (inv.step event first) rest

-- Election safety

/-- In every run in which a slave that asks for votes has counted none, at most one slave wins an
epoch, and a majority of the masters voted for it.
-/
theorem election_safe (masters : Finset Id) (start : Id → ElectionStart)
    (events : List (ElectionEvent Id))
    (clean : CleanRun masters (startElections masters start) events)
    : ElectionSafe masters
        (events.foldl (ElectionWorld.step masters) (startElections masters start)) :=
  ((startElections_invariant masters start).run events clean).safe

/-- A call for a slave whose master failed, with a node timeout of 15 seconds. -/
def failoverAt (mstime : Int) : FailoverCall where
  mstime := mstime
  clusterNodeTimeout := 15000
  clusterSlaveValidityFactor := 10
  replPingSlavePeriod := 10
  dataAge := 0
  mfEnd := false
  mfCanStart := false
  random := 0
  slaveRank := 0

def freshNode : ElectionStart where
  currentEpoch := 0
  lastVoteEpoch := 0
  configEpoch := 0
  sent := false
  voted := le_refl _

/-- Slave 4 of master 1 asks the masters 2 and 3 for their votes, and gets both. -/
def wonElection : List (ElectionEvent Nat) :=
  [.failover 4 true (failoverAt 1000000) [2, 3], .failover 4 true (failoverAt 1000500) [2, 3],
    .deliver 4 2 ⟨true, true⟩, .deliver 4 3 ⟨true, true⟩, .deliver 2 4 ⟨true, true⟩,
    .deliver 3 4 ⟨true, true⟩, .failover 4 true (failoverAt 1000600) [2, 3]]

theorem election_safe_won
    : ElectionSafe {1, 2, 3}
        (wonElection.foldl (ElectionWorld.step {1, 2, 3})
          (startElections {1, 2, 3} fun _ => freshNode)) :=
  election_safe {1, 2, 3} (fun _ => freshNode) wonElection
    ⟨fun _ _ _ => rfl, fun _ _ _ => rfl, trivial, trivial, trivial, trivial,
      fun _ _ asks => by revert asks; decide, trivial⟩

/-- The vote of master 2 for slave 4 in epoch 1 arrives after the attempt was given up, and
master 3, which did not see the failure before, votes in epoch 2.
-/
def lateVote : List (ElectionEvent Nat) :=
  [.failover 4 true (failoverAt 1000000) [2, 3], .failover 4 true (failoverAt 1000500) [2, 3],
    .deliver 4 2 ⟨true, true⟩, .deliver 4 3 ⟨false, true⟩,
    .failover 4 true (failoverAt 1061000) [2, 3], .deliver 2 4 ⟨true, true⟩,
    .failover 4 true (failoverAt 1061500) [2, 3], .deliver 4 3 ⟨true, true⟩,
    .deliver 3 4 ⟨true, true⟩, .failover 4 true (failoverAt 1061600) [2, 3]]

/-- Slave 4 becomes master in epoch 2 with one vote of that epoch. -/
theorem late_vote_elects
    : ¬ ElectionSafe {1, 2, 3}
        (lateVote.foldl (ElectionWorld.step {1, 2, 3})
          (startElections {1, 2, 3} fun _ => freshNode)) := by
  intro safe
  obtain ⟨voters, _, quorum, voted⟩ := safe.majority 4 2 (by decide)
  have only : voters ⊆ {3} := by
    intro voter member
    have vote := voted voter member
    have votes : (lateVote.foldl (ElectionWorld.step {1, 2, 3})
        (startElections {1, 2, 3} fun _ => freshNode)).votes = [(3, 4, 2), (2, 4, 1)] := by decide
    rw [votes] at vote
    simpa using vote
  have small := Finset.card_le_card only
  have size : ({1, 2, 3} : Finset Nat).card = 3 := by decide
  rw [size] at quorum
  simp at small
  omega

end Redis.Cluster
