import Redis.Cluster.TakenEpochs

/-! Networks of cluster nodes: in every run `currentEpoch` bounds the epochs that a node knows, so
the epochs that nodes take for themselves are new to them.
-/

namespace Redis.Cluster

-- Networks

/-- What happens in a network. Any message that was ever sent may arrive anywhere, on any link, and
more than once.
-/
inductive NetworkEvent (ι : Type) where
  | deliver (receiver sender : ι) (index : Nat) (env : ClusterEnv)
      (arrival : ClusterState.Arrival)
  | cron (i : ι) (env : ClusterEnv) (step : ClusterState.CronStep)
  | beforeSleep (i : ι) (env : ClusterEnv) (call : ClusterState.SlaveCall)
  | command (i : ι) (env : ClusterEnv) (keys : ClusterState.KeyCounts)
      (sub : ClusterState.ClusterSubcommand)

namespace NetworkEvent

variable {ι : Type}

def env : NetworkEvent ι → ClusterEnv
  | .deliver _ _ _ env _ => env
  | .cron _ env _ => env
  | .beforeSleep _ env _ => env
  | .command _ env _ _ => env

/-- The names that are drawn at random are not those of nodes, and no node is reset hard. -/
structure Allowed (names : ι → NodeName) (event : NetworkEvent ι) : Prop where
  fresh : ∀ r, event.env.randomName r ∉ Set.range names
  soft : ∀ i env keys sub, event = .command i env keys sub → sub ≠ .reset true

end NetworkEvent

abbrev ClusterNetwork (ι : Type) := ι → ClusterState

namespace ClusterNetwork

variable {ι : Type} [DecidableEq ι]

/-- Every node was started by `clusterInit`. -/
def init (names : ι → NodeName) (env : ι → ClusterEnv) (authSent : ι → Bool)
    : ClusterNetwork ι :=
  fun i => .clusterInit (env i) (names i) (authSent i)

def step (net : ClusterNetwork ι) : NetworkEvent ι → ClusterNetwork ι
  | .deliver receiver sender index env arrival =>
      match (net sender).sent[index]? with
      | none => net
      | some m =>
          Function.update net receiver ((net receiver).clusterProcessPacket env arrival m.2)
  | .cron i env step => Function.update net i ((net i).clusterCron env step)
  | .beforeSleep i env call => Function.update net i ((net i).clusterBeforeSleep env call)
  | .command i env keys sub => Function.update net i ((net i).clusterCommand env keys sub)

def run (net : ClusterNetwork ι) (events : List (NetworkEvent ι)) : ClusterNetwork ι :=
  events.foldl step net

end ClusterNetwork

section Network

variable {ι : Type} {names : ι → NodeName}

/-- `currentEpoch` of every node bounds the epochs that it knows. -/
def NetworkBounded (names : ι → NodeName) (net : ClusterNetwork ι) : Prop :=
  ∀ i, EpochsBounded (Set.range names) (names i) (net i)

theorem clusterInit_nodes (env : ClusterEnv) (name : NodeName) (authSent : Bool) (r : NodeRef)
    : (ClusterState.clusterInit env name authSent).nodes r
      = if r = 0 then
          some { createClusterNode name { myself := true, master := true } env.mstime with
            port := env.port }
        else none := by
  have added : ∀ r, (((ClusterState.empty ⟨[], 0, 0⟩ authSent).clusterAddNode (createClusterNode
      name { myself := true, master := true } env.mstime)).clusterSaveConfig true).nodes r
        = if r = 0 then some (createClusterNode name { myself := true, master := true } env.mstime)
          else none :=
    fun r => Function.update_apply ..
  rw [ClusterState.clusterInit, modify_nodes, added, added]
  split <;> rfl

theorem epochsBounded_clusterInit {all : Set NodeName} (env : ClusterEnv) (name : NodeName)
    (authSent : Bool)
    : EpochsBounded all name (.clusterInit env name authSent) := by
  have node : ∀ r n, (ClusterState.clusterInit env name authSent).nodes r = some n →
      n.configEpoch = 0 ∧ n.flags.handshake = false := by
    intro r n found
    rw [clusterInit_nodes] at found
    split at found
    · cases found
      exact ⟨rfl, rfl⟩
    · cases found
  exact
    { epochs := fun r n found => (node r n found).1 ▸ Nat.zero_le _
      election := Nat.zero_le _
      myself := ⟨_, clusterInit_nodes env name authSent 0, rfl, rfl⟩
      handshake := fun r n found shaking => by
        rw [(node r n found).2] at shaking
        cases shaking
      sent := fun m member => by
        have unsent : (ClusterState.clusterInit env name authSent).sent = [] := rfl
        rw [unsent] at member
        cases member }

theorem networkBounded_init (names : ι → NodeName) (env : ι → ClusterEnv) (authSent : ι → Bool)
    : NetworkBounded names (.init names env authSent) :=
  fun i => epochsBounded_clusterInit (env i) (names i) (authSent i)

variable [DecidableEq ι] {net : ClusterNetwork ι}

theorem NetworkBounded.update (bounded : NetworkBounded names net) {i : ι} {s : ClusterState}
    (step : EpochStep (Set.range names) (names i) (net i) s)
    : NetworkBounded names (Function.update net i s)
      ∧ ∀ j, (net j).currentEpoch ≤ (Function.update net i s j).currentEpoch := by
  refine ⟨fun j => ?_, fun j => ?_⟩
  · by_cases here : j = i
    · subst here
      rw [Function.update_self]
      exact step.bounded (bounded j)
    · rw [Function.update_of_ne here]
      exact bounded j
  · by_cases here : j = i
    · subst here
      rw [Function.update_self]
      exact step.later
    · rw [Function.update_of_ne here]

theorem NetworkBounded.step (bounded : NetworkBounded names net) {event : NetworkEvent ι}
    (allowed : event.Allowed names)
    : NetworkBounded names (net.step event)
      ∧ ∀ i, (net i).currentEpoch ≤ (net.step event i).currentEpoch := by
  have known : ∀ i, names i ∈ Set.range names := Set.mem_range_self
  cases event with
  | deliver receiver sender index env arrival =>
      simp only [ClusterNetwork.step]
      cases there : (net sender).sent[index]? with
      | none => exact ⟨bounded, fun _ => le_refl _⟩
      | some m =>
          have message := (bounded sender).sent m (List.mem_of_getElem? there)
          exact bounded.update (epochStep_clusterProcessPacket allowed.fresh (known receiver)
            (bounded receiver) message arrival)
  | cron i env step => exact bounded.update (epochStep_clusterCron allowed.fresh (known i) step)
  | beforeSleep i env call =>
      exact bounded.update (epochStep_clusterBeforeSleep allowed.fresh (known i) call)
  | command i env keys sub =>
      exact bounded.update (epochStep_clusterCommand allowed.fresh (known i) keys
        (allowed.soft i env keys sub rfl))

theorem NetworkBounded.run (bounded : NetworkBounded names net) {events : List (NetworkEvent ι)}
    (allowed : ∀ event ∈ events, event.Allowed names)
    : NetworkBounded names (net.run events) := by
  induction events generalizing net with
  | nil => exact bounded
  | cons event events ih =>
      have first := (bounded.step (allowed event List.mem_cons_self)).1
      exact ih first fun later member => allowed later (List.mem_cons_of_mem event member)

/-- What holds about epochs in every state of a network. -/
structure NetworkEpochs (names : ι → NodeName) (net : ClusterNetwork ι) : Prop where
  bounded : ∀ i r n, (net i).nodes r = some n → n.configEpoch ≤ (net i).currentEpoch
  later : ∀ event : NetworkEvent ι, event.Allowed names → ∀ i,
    (net i).currentEpoch ≤ (net.step event i).currentEpoch
  setslot : ∀ i keys slot node, TakesGreatest (net i) ((net i).setslotNode keys slot node)
  takeover : ∀ i env force, TakesGreatest (net i) ((net i).clusterFailover env force true)
  collision : ∀ i j env arrival, (∀ r, env.randomName r ∉ Set.range names) →
    ∀ m ∈ (net j).sent, m.2.data.isPing = true → m.2.sender ≠ names i →
      TakesGreatest (net i) ((net i).clusterProcessPacket env arrival m.2)
  election : ∀ i env call,
    StartsAbove (net i) ((net i).clusterCron env (.failover call))
    ∧ StartsAbove (net i) ((net i).clusterBeforeSleep env call)

/-- In every run `currentEpoch` bounds the epochs that are known and does not decrease, and the
epochs that SETSLOT NODE, a takeover, a collision and the start of an election take are greater than
all that are known.
-/
theorem network_epochs (names : ι → NodeName) (env : ι → ClusterEnv) (authSent : ι → Bool)
    (events : List (NetworkEvent ι)) (allowed : ∀ event ∈ events, event.Allowed names)
    : NetworkEpochs names ((ClusterNetwork.init names env authSent).run events) := by
  have invariant := (networkBounded_init names env authSent).run allowed
  generalize (ClusterNetwork.init names env authSent).run events = net at invariant
  exact
    { bounded := fun i => (invariant i).epochs
      later := fun event allowed => (invariant.step allowed).2
      setslot := fun i keys slot node => takesGreatest_setslotNode (invariant i) keys slot node
      takeover := fun i env force => takesGreatest_takeover (invariant i) force
      collision := fun i j env arrival fresh m member isPing other =>
        takesGreatest_clusterProcessPacket isPing other (invariant i)
          ((invariant j).sent m member) fresh (Set.mem_range_self i) arrival
      election := fun i env call =>
        ⟨startsAbove_clusterCron (invariant i) call,
          startsAbove_clusterBeforeSleep (invariant i) call⟩ }

end Network

-- An election that is overtaken

/-- Two nodes: a master, and one that becomes its slave. -/
def twoNames (slave : Bool) : NodeName := List.replicate 40 (if slave then 66 else 65)

def twoNodes : ClusterNetwork Bool :=
  .init twoNames (fun slave => .still (if slave then 2 else 1)) fun _ => false

/-- A message of the other node arrives on a connection that it opened. -/
def arrives (slave : Bool) (index : Nat) : NetworkEvent Bool :=
  .deliver slave (!slave) index (.still (if slave then 2 else 1))
    ⟨none, [if slave then 1 else 2], none⟩

/-- The reply of the other node arrives on the own link to it. -/
def replies (slave : Bool) (index : Nat) : NetworkEvent Bool :=
  .deliver slave (!slave) index (.still (if slave then 2 else 1))
    ⟨some 1, [if slave then 1 else 2], none⟩

def commands (slave : Bool) (sub : ClusterState.ClusterSubcommand) : NetworkEvent Bool :=
  .command slave (.still (if slave then 2 else 1)) ⟨0, fun _ => 0⟩ sub

def cron (slave : Bool) (step : ClusterState.CronStep) : NetworkEvent Bool :=
  .cron slave (.still (if slave then 2 else 1)) step

/-- A node becomes the slave of another one, which takes an epoch by importing a slot, while the
slave asks it for a vote in the same epoch.
-/
def overtakenElection : List (NetworkEvent Bool) :=
  [commands true (.meet [1] 1), cron true (.connect 1), arrives false 0, replies true 0,
    commands true (.replicate (twoNames false)), cron false (.connect 1), arrives true 1,
    replies false 1, cron true (.ping 1), arrives false 2,
    commands true (.setslotNode ⟨0, zero_lt_slots⟩ (twoNames false)),
    commands false (.setslotImporting ⟨5, by decide⟩ (twoNames true)),
    commands false (.setslotNode ⟨5, by decide⟩ (twoNames false)),
    commands true (.failover true false),
    cron true (.failover ⟨10, 10, 0, 0, 0⟩), cron true (.failover ⟨10, 10, 0, 0, 0⟩),
    arrives false 3, arrives true 3]

theorem twoNames_fresh (port : Nat) (r : NodeRef)
    : (ClusterEnv.still port).randomName r ∉ Set.range twoNames := by
  rintro ⟨slave, same⟩
  have tails : (twoNames slave).tail = List.replicate 39 200 := congrArg List.tail same
  cases slave <;> exact absurd tails (by decide)

theorem overtakenElection_allowed : ∀ event ∈ overtakenElection, event.Allowed twoNames := by
  intro event member
  have fresh : ∃ port, event.env = .still port := by
    fin_cases member <;> exact ⟨_, rfl⟩
  obtain ⟨port, still⟩ := fresh
  refine ⟨fun r => still ▸ twoNames_fresh port r, ?_⟩
  intro i env keys sub is
  fin_cases member <;> cases is <;> nofun

theorem network_epochs_overtaken : NetworkEpochs twoNames (twoNodes.run overtakenElection) :=
  network_epochs twoNames _ _ overtakenElection overtakenElection_allowed

theorem not_takesGreatest {s s' : ClusterState} {r : NodeRef} (other : r ≠ s'.myself)
    (behind : s'.ownEpoch ≤ s'.configEpoch r) (taken : s'.ownEpoch ≠ s.ownEpoch)
    : ¬ TakesGreatest s s' := by
  rintro (same | greatest)
  · exact taken same
  · cases found : s'.nodes r with
    | none =>
        have zero : s'.configEpoch r = 0 := by simp [ClusterState.configEpoch, found]
        exact absurd greatest.positive (not_lt.mpr (behind.trans zero.le))
    | some n =>
        have known : s'.configEpoch r = n.configEpoch := by simp [ClusterState.configEpoch, found]
        exact absurd (greatest.others r n found other) (not_lt.mpr (known ▸ behind))

theorem overtakenElection_state
    : (twoNodes.run overtakenElection true).todo.handleFailover = true
      ∧ (twoNodes.run overtakenElection true).mayFailover = true
      ∧ (slaveFailover ((twoNodes.run overtakenElection true).failoverCall (.still 2)
          ⟨10, 10, 0, 0, 0⟩) (twoNodes.run overtakenElection true).size
          (twoNodes.run overtakenElection true).currentEpoch
          (twoNodes.run overtakenElection true).election).1 = .won
      ∧ (twoNodes.run overtakenElection true).ownEpoch = 0
      ∧ (twoNodes.run overtakenElection true).election.failoverAuthEpoch = 1
      ∧ (twoNodes.run overtakenElection true).configEpoch 1 = 1
      ∧ (twoNodes.run overtakenElection true).live 1 = true
      ∧ (twoNodes.run overtakenElection true).live 0 = true
      ∧ (twoNodes.run overtakenElection true).myself = 0
      ∧ (twoNodes.run overtakenElection true).failedAsserts = [] := by
  decide +kernel

/-- The slave wins with an epoch that its old master has taken in the meantime. -/
theorem won_election_behind
    : (∀ event ∈ overtakenElection, event.Allowed twoNames)
      ∧ (twoNodes.run overtakenElection true).failedAsserts = []
      ∧ ((twoNodes.run overtakenElection true).clusterBeforeSleep (.still 2)
          ⟨10, 10, 0, 0, 0⟩).ownEpoch
        = (twoNodes.run overtakenElection true).election.failoverAuthEpoch
      ∧ ¬ TakesGreatest (twoNodes.run overtakenElection true)
          ((twoNodes.run overtakenElection true).clusterBeforeSleep (.still 2)
            ⟨10, 10, 0, 0, 0⟩) := by
  obtain ⟨raised, may, won, own, epoch, known, live, there, myself, running⟩ :=
    overtakenElection_state
  have behind : (twoNodes.run overtakenElection true).ownEpoch
      < (twoNodes.run overtakenElection true).election.failoverAuthEpoch := by
    rw [own, epoch]
    exact Nat.one_pos
  obtain ⟨taken, others⟩ := clusterBeforeSleep_won raised may won behind (myself.symm ▸ there)
  obtain ⟨same, kept⟩ := others 1 (by rw [myself]; exact Nat.one_ne_zero) live
  refine ⟨overtakenElection_allowed, running, taken, not_takesGreatest (r := 1) ?_ ?_ ?_⟩
  · rw [same, myself]
    exact Nat.one_ne_zero
  · rw [taken, kept, epoch, known]
  · rw [taken, own, epoch]
    exact Nat.one_ne_zero

end Redis.Cluster
