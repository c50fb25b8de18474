import Mathlib.Data.List.Count
import Mathlib.Logic.Function.Basic
import Mathlib.Tactic

/-! `WAIT`: a client waits until its writes are acknowledged by slaves. The server remembers for
each client the replication offset behind its last command, but blocked pops are propagated in the
turn of another client.
-/

namespace Redis.Wait

-- The state

/-- A slave in `server.slaves`. -/
structure Slave where
  id : Nat
  /-- `replstate == REDIS_REPL_ONLINE`. -/
  online : Bool
  ackOff : Int
deriving DecidableEq, Repr

/-- A client in `server.clients_waiting_acks`. -/
structure Waiting where
  client : Nat
  /-- The argument of `WAIT`. -/
  requested : Int
  reploffset : Int
  /-- `bpop.numreplicas`, an `int`. -/
  numreplicas : Int
deriving DecidableEq, Repr

inductive Way where
  /-- By `waitCommand`, outside a transaction. -/
  | atOnce
  | inTransaction
  /-- By `processClientsWaitingReplicas`. -/
  | acknowledged
  | timedOut
deriving DecidableEq, Repr

/-- An answer to `WAIT`, with the state of the slaves at that moment. -/
structure Reply where
  client : Nat
  requested : Int
  count : Int
  way : Way
  /-- What `replicationCountAcksByOffset` returns for the offset of the client. -/
  fresh : Int
  /-- The slaves that have every command that was propagated on behalf of the client. -/
  reached : Int
deriving DecidableEq, Repr

/-- The part of the server that `WAIT` uses, with the history of what was propagated for whom. -/
structure Server where
  masterReplOffset : Int
  /-- `repl_backlog` is not `NULL`; without it nothing is fed. -/
  backlog : Bool
  slaves : List Slave
  /-- `c->woff`. -/
  woff : Nat → Int
  /-- The end of the last command that was propagated on behalf of a client. -/
  behalf : Nat → Int
  waitingAcks : List Waiting
  /-- The clients with `REDIS_BLOCKED_LIST`. -/
  blockedOnLists : List Nat
  replies : List Reply

variable (s : Server)

-- `WAIT`

def Server.replicationCountAcksByOffset (offset : Int) : Int :=
  s.slaves.countP (fun slave => slave.online && offset ≤ slave.ackOff)

def Server.replyTo (client : Nat) (requested offset count : Int) (way : Way) : Reply where
  client := client
  requested := requested
  count := count
  way := way
  fresh := s.replicationCountAcksByOffset offset
  reached := s.replicationCountAcksByOffset (s.behalf client)

def Server.waitCommand (multi : Bool) (client : Nat) (numreplicas : Int) : Server :=
  let ackreplicas := s.replicationCountAcksByOffset (s.woff client)
  if ackreplicas ≥ numreplicas ∨ multi then
    { s with
      replies := s.replies
        ++ [s.replyTo client numreplicas (s.woff client) ackreplicas
          (if multi then .inTransaction else .atOnce)] }
  else
    { s with
      waitingAcks := s.waitingAcks
        ++ [⟨client, numreplicas, s.woff client, numreplicas.bmod (2 ^ 32)⟩] }

/-- The loop of `processClientsWaitingReplicas`: the clients that go on waiting, and the answers. -/
def Server.processWaiting : (lastOffset lastNumreplicas : Int) → List Waiting
    → List Waiting × List Reply
  | _, _, [] => ([], [])
  | lastOffset, lastNumreplicas, c :: clients =>
      if lastOffset ≠ 0 ∧ lastOffset > c.reploffset ∧ lastNumreplicas > c.numreplicas then
        let (left, replies) := Server.processWaiting lastOffset lastNumreplicas clients
        (left, s.replyTo c.client c.requested c.reploffset lastNumreplicas .acknowledged :: replies)
      else
        let numreplicas := s.replicationCountAcksByOffset c.reploffset
        if numreplicas ≥ c.numreplicas then
          let (left, replies) := Server.processWaiting c.reploffset numreplicas clients
          (left, s.replyTo c.client c.requested c.reploffset numreplicas .acknowledged :: replies)
        else
          let (left, replies) := Server.processWaiting lastOffset lastNumreplicas clients
          (c :: left, replies)

def Server.processClientsWaitingReplicas : Server :=
  let (left, replies) := s.processWaiting 0 0 s.waitingAcks
  { s with waitingAcks := left, replies := s.replies ++ replies }

def Server.timeoutClient (client : Nat) : Server :=
  let answered := s.waitingAcks.filter (fun w => w.client = client)
  { s with
    waitingAcks := s.waitingAcks.filter (fun w => w.client ≠ client)
    blockedOnLists := s.blockedOnLists.filter (fun c => c ≠ client)
    replies := s.replies ++ answered.map (fun w =>
      s.replyTo client w.requested w.reploffset (s.replicationCountAcksByOffset w.reploffset)
        .timedOut) }

-- Commands

/-- The client has the flag `REDIS_BLOCKED`. -/
def Server.isBlocked (client : Nat) : Bool :=
  s.waitingAcks.any (fun w => w.client = client) || client ∈ s.blockedOnLists

/-- `replicationFeedSlaves` of `bytes` bytes. -/
def Server.feed (bytes : Nat) : Server :=
  if s.backlog then { s with masterReplOffset := s.masterReplOffset + bytes } else s

/-- `propagate` of `bytes` bytes on behalf of a client. -/
def Server.propagate (client bytes : Nat) : Server :=
  if bytes = 0 ∨ s.backlog = false then s
  else
    { s with
      masterReplOffset := s.masterReplOffset + bytes
      behalf := Function.update s.behalf client (s.masterReplOffset + bytes) }

/-- `serveClientBlockedOnList` propagates the pops. -/
def Server.serve (served : Nat × Nat) : Server :=
  if served.1 ∈ s.blockedOnLists then
    { s.propagate served.1 served.2 with
      blockedOnLists := s.blockedOnLists.filter (fun c => c ≠ served.1) }
  else s

/-- The end of `processCommand`: the offset is remembered, then `handleClientsBlockedOnLists` serves
clients.
-/
def Server.finish (client : Nat) (served : List (Nat × Nat)) : Server :=
  served.foldl Server.serve { s with woff := Function.update s.woff client s.masterReplOffset }

/-- `syncCommand`; the first slave has the backlog created, which takes an offset of its own. -/
def Server.attach (slave : Nat) : Server :=
  let s := { s with slaves := s.slaves ++ [⟨slave, false, 0⟩] }
  if s.slaves.length = 1 ∧ s.backlog = false then
    { s with backlog := true, masterReplOffset := s.masterReplOffset + 1 }
  else s

/-- A command that `EXEC` runs, or the `MULTI` and `EXEC` around them. -/
inductive Step where
  | write (bytes : Nat)
  | wait (numreplicas : Int)

def Server.transactionStep (client : Nat) : Step → Server
  | .write bytes => s.propagate client bytes
  | .wait numreplicas => s.waitCommand true client numreplicas

inductive Event where
  /-- A command that propagates `bytes` bytes, or blocks, and after which clients are served. -/
  | command (client bytes : Nat) (blocks : Bool) (served : List (Nat × Nat))
  | wait (client : Nat) (numreplicas : Int)
  | exec (client : Nat) (steps : List Step) (served : List (Nat × Nat))
  /-- What is propagated for nobody: `PING`, `REPLCONF GETACK`. -/
  | feed (bytes : Nat)
  | attach (slave : Nat)
  /-- `replicationCron` frees the backlog of a master that has had no slaves for a while. -/
  | freeBacklog
  | putOnline (slave : Nat)
  | detach (slave : Nat)
  /-- `REPLCONF ACK`. -/
  | ack (slave : Nat) (offset : Int)
  | beforeSleep
  | timeout (client : Nat)
  | close (client : Nat)

def Server.step : Event → Server
  | .command client bytes blocks served =>
      if s.isBlocked client then s
      else
        let s := s.propagate client bytes
        let s := if blocks then { s with blockedOnLists := s.blockedOnLists ++ [client] } else s
        s.finish client served
  | .wait client numreplicas =>
      if s.isBlocked client then s else (s.waitCommand false client numreplicas).finish client []
  | .exec client steps served =>
      if s.isBlocked client then s
      else (steps.foldl (fun s step => s.transactionStep client step) s).finish client served
  | .feed bytes => s.feed bytes
  | .attach slave => s.attach slave
  | .freeBacklog => if s.slaves = [] then { s with backlog := false } else s
  | .putOnline slave =>
      { s with
        slaves := s.slaves.map (fun other =>
          if other.id = slave then { other with online := true } else other) }
  | .detach slave => { s with slaves := s.slaves.filter (fun other => other.id ≠ slave) }
  | .ack slave offset =>
      { s with
        slaves := s.slaves.map (fun other =>
          if other.id = slave ∧ offset > other.ackOff then { other with ackOff := offset }
          else other) }
  | .beforeSleep => s.processClientsWaitingReplicas
  | .timeout client => s.timeoutClient client
  | .close client =>
      { s with
        waitingAcks := s.waitingAcks.filter (fun w => w.client ≠ client)
        blockedOnLists := s.blockedOnLists.filter (fun c => c ≠ client)
        woff := Function.update s.woff client 0
        behalf := Function.update s.behalf client 0 }

def startServer : Server := ⟨0, false, [], fun _ => 0, fun _ => 0, [], [], []⟩

-- Counting

variable {s} {client : Nat}

theorem count_antitone {small large : Int} (le : small ≤ large)
    : s.replicationCountAcksByOffset large ≤ s.replicationCountAcksByOffset small := by
  unfold Server.replicationCountAcksByOffset
  refine Int.ofNat_le.mpr (List.countP_mono_left ?_)
  intro slave _ acknowledged
  simp only [Bool.and_eq_true, decide_eq_true_eq] at acknowledged ⊢
  exact ⟨acknowledged.1, Int.le_trans le acknowledged.2⟩

/-- What an answer says: the slaves have the writes of the client, and enough slaves if the answer
does not come from a transaction or a timeout. A fresh count would not have kept the client blocked.
-/
structure ReplyRight (reply : Reply) : Prop where
  reached : reply.count ≤ reply.reached
  enough : reply.way = .atOnce ∨ reply.way = .acknowledged → reply.requested ≤ reply.count
  fresh : reply.way = .acknowledged → reply.requested ≤ reply.fresh

/-- A client waits for all that was propagated for it, and for as many slaves as it asked for. -/
structure WaitsRight (s : Server) (w : Waiting) : Prop where
  offset : s.behalf w.client ≤ w.reploffset
  numreplicas : w.numreplicas = w.requested
  elsewhere : w.client ∉ s.blockedOnLists

theorem processWaiting_right (clients : List Waiting) (right : ∀ w ∈ clients, WaitsRight s w)
    {lastOffset lastNumreplicas : Int}
    (last : lastOffset ≠ 0 → lastNumreplicas = s.replicationCountAcksByOffset lastOffset)
    : (∀ w ∈ (s.processWaiting lastOffset lastNumreplicas clients).1, w ∈ clients)
      ∧ ∀ reply ∈ (s.processWaiting lastOffset lastNumreplicas clients).2, ReplyRight reply := by
  induction clients generalizing lastOffset lastNumreplicas with
  | nil => simp [Server.processWaiting]
  | cons c clients ih =>
      obtain ⟨first, others⟩ := List.forall_mem_cons.mp right
      rw [Server.processWaiting]
      split
      · rename_i shortcut
        obtain ⟨left, replies⟩ := ih others last
        obtain ⟨nonzero, later, more⟩ := shortcut
        have counted : lastNumreplicas ≤ s.replicationCountAcksByOffset c.reploffset := by
          rw [last nonzero]
          exact count_antitone (Int.le_of_lt later)
        have enough : c.requested ≤ lastNumreplicas := by
          rw [← first.numreplicas]
          exact Int.le_of_lt more
        refine ⟨fun w inside => List.mem_cons_of_mem c (left w inside), ?_⟩
        refine List.forall_mem_cons.mpr ⟨⟨?_, fun _ => enough, fun _ => ?_⟩, replies⟩
        · exact Int.le_trans counted (count_antitone first.offset)
        · exact Int.le_trans enough counted
      · dsimp only
        split
        · rename_i satisfied
          obtain ⟨left, replies⟩ := ih others (fun _ => rfl)
          have enough : c.requested ≤ s.replicationCountAcksByOffset c.reploffset := by
            rw [← first.numreplicas]
            exact satisfied
          refine ⟨fun w inside => List.mem_cons_of_mem c (left w inside), ?_⟩
          refine List.forall_mem_cons.mpr ⟨⟨?_, fun _ => enough, fun _ => enough⟩, replies⟩
          exact count_antitone first.offset
        · obtain ⟨left, replies⟩ := ih others last
          refine ⟨?_, replies⟩
          intro w inside
          rcases List.mem_cons.mp inside with rfl | later
          · exact List.mem_cons_self
          · exact List.mem_cons_of_mem c (left w later)

-- The invariant

/-- All answers were right and all clients wait for the right thing. -/
structure WaitInvariant (s : Server) : Prop where
  replies : ∀ reply ∈ s.replies, ReplyRight reply
  waiting : ∀ w ∈ s.waitingAcks, WaitsRight s w

theorem WaitInvariant.congr {t : Server} (invariant : WaitInvariant s)
    (replies : t.replies = s.replies)
    (waiting : ∀ w ∈ t.waitingAcks, w ∈ s.waitingAcks ∧ t.behalf w.client = s.behalf w.client
      ∧ (w.client ∈ t.blockedOnLists → w.client ∈ s.blockedOnLists))
    : WaitInvariant t := by
  refine ⟨by rw [replies]; exact invariant.replies, ?_⟩
  intro w inside
  obtain ⟨old, behalf, blocked⟩ := waiting w inside
  obtain ⟨offset, numreplicas, elsewhere⟩ := invariant.waiting w old
  refine ⟨?_, numreplicas, fun now => elsewhere (blocked now)⟩
  rw [behalf]
  exact offset

theorem WaitInvariant.answer (invariant : WaitInvariant s) {more : List Reply}
    (right : ∀ reply ∈ more, ReplyRight reply) {left : List Waiting}
    (subset : ∀ w ∈ left, w ∈ s.waitingAcks)
    : WaitInvariant { s with waitingAcks := left, replies := s.replies ++ more } := by
  refine ⟨?_, ?_⟩
  · intro reply inside
    rcases List.mem_append.mp inside with old | new
    · exact invariant.replies reply old
    · exact right reply new
  · intro w inside
    obtain ⟨offset, numreplicas, elsewhere⟩ := invariant.waiting w (subset w inside)
    exact ⟨offset, numreplicas, elsewhere⟩

theorem isBlocked_waiting (free : s.isBlocked client = false)
    : ∀ w ∈ s.waitingAcks, w.client ≠ client := by
  intro w inside same
  have found : s.isBlocked client = true := by
    refine Bool.or_eq_true_iff.mpr (.inl (List.any_eq_true.mpr ⟨w, inside, ?_⟩))
    simpa using same
  rw [free] at found
  cases found

/-- The client does not wait for acknowledgements. -/
def NotWaiting (s : Server) (client : Nat) : Prop := ∀ w ∈ s.waitingAcks, w.client ≠ client

theorem WaitInvariant.propagate (invariant : WaitInvariant s)
    (free : NotWaiting s client) (bytes : Nat)
    : WaitInvariant (s.propagate client bytes) := by
  unfold Server.propagate
  split
  · exact invariant
  · refine invariant.congr rfl ?_
    intro w inside
    exact ⟨inside, Function.update_of_ne (free w inside) _ _, id⟩

theorem propagate_frame (s : Server) (client bytes : Nat)
    : (s.propagate client bytes).waitingAcks = s.waitingAcks
      ∧ (s.propagate client bytes).blockedOnLists = s.blockedOnLists
      ∧ (s.propagate client bytes).woff = s.woff := by
  unfold Server.propagate
  split <;> exact ⟨rfl, rfl, rfl⟩

theorem WaitInvariant.serve (invariant : WaitInvariant s) (served : Nat × Nat)
    : WaitInvariant (s.serve served) := by
  unfold Server.serve
  split
  · rename_i blocked
    have free : NotWaiting s served.1 := by
      intro w inside same
      apply (invariant.waiting w inside).elsewhere
      rw [same]
      exact blocked
    refine (invariant.propagate free served.2).congr rfl ?_
    intro w inside
    refine ⟨inside, rfl, ?_⟩
    intro still
    rw [(propagate_frame s served.1 served.2).2.1]
    exact List.mem_of_mem_filter still
  · exact invariant

theorem WaitInvariant.finish (invariant : WaitInvariant s) (client : Nat)
    (served : List (Nat × Nat))
    : WaitInvariant (s.finish client served) := by
  have remembered : WaitInvariant
      { s with woff := Function.update s.woff client s.masterReplOffset } :=
    invariant.congr rfl (fun w inside => ⟨inside, rfl, id⟩)
  unfold Server.finish
  generalize { s with woff := Function.update s.woff client s.masterReplOffset } = t at remembered
  induction served generalizing t with
  | nil => exact remembered
  | cons first served ih => exact ih _ (remembered.serve first)

-- `WAIT` at the right moment

/-- The offset of the client is behind all that was propagated for it. -/
def Remembered (s : Server) (client : Nat) : Prop := s.behalf client ≤ s.woff client
deriving Decidable

theorem WaitInvariant.waitCommand (invariant : WaitInvariant s) {numreplicas : Int}
    (remembered : Remembered s client) (small : numreplicas < 2 ^ 31)
    (free : client ∉ s.blockedOnLists)
    : WaitInvariant (s.waitCommand false client numreplicas) := by
  unfold Server.waitCommand
  dsimp only
  split
  · rename_i answered
    have enough : numreplicas ≤ s.replicationCountAcksByOffset (s.woff client) := by
      simpa using answered
    refine invariant.answer ?_ (fun w inside => inside)
    intro reply inside
    rw [List.mem_singleton.mp inside]
    exact ⟨count_antitone remembered, fun _ => enough, fun _ => enough⟩
  · rename_i blocked
    have positive : 0 < numreplicas := by
      have below : s.replicationCountAcksByOffset (s.woff client) < numreplicas := by
        simpa using blocked
      have count : 0 ≤ s.replicationCountAcksByOffset (s.woff client) := Int.natCast_nonneg _
      omega
    refine ⟨invariant.replies, ?_⟩
    intro w inside
    rcases List.mem_append.mp inside with old | new
    · obtain ⟨offset, narrowed, elsewhere⟩ := invariant.waiting w old
      exact ⟨offset, narrowed, elsewhere⟩
    · rw [List.mem_singleton.mp new]
      refine ⟨remembered, ?_, free⟩
      exact Int.bmod_eq_of_le (by omega) (by omega)

theorem WaitInvariant.waitInTransaction (invariant : WaitInvariant s)
    (remembered : Remembered s client) (numreplicas : Int)
    : WaitInvariant (s.waitCommand true client numreplicas) := by
  unfold Server.waitCommand
  simp only [or_true, if_true]
  refine invariant.answer ?_ (fun w inside => inside)
  intro reply inside
  rw [List.mem_singleton.mp inside]
  refine ⟨count_antitone remembered, ?_, ?_⟩
  · rintro (atOnce | acknowledged)
    · cases atOnce
    · cases acknowledged
  · intro acknowledged
    cases acknowledged

-- Runs

/-- In a transaction `WAIT` comes before the commands that are propagated. -/
def StepsSafe (client : Nat) : Server → List Step → Prop
  | _, [] => True
  | s, .write bytes :: steps => StepsSafe client (s.transactionStep client (.write bytes)) steps
  | s, .wait numreplicas :: steps =>
      Remembered s client ∧ StepsSafe client (s.transactionStep client (.wait numreplicas)) steps

/-- A client that calls `WAIT` asks for a number of slaves that is an `int`, and nothing was
propagated on its behalf behind its last command.
-/
def EventSafe (s : Server) : Event → Prop
  | .wait client numreplicas =>
      s.isBlocked client = false → Remembered s client ∧ numreplicas < 2 ^ 31
  | .exec client steps _ => s.isBlocked client = false → StepsSafe client s steps
  | _ => True

theorem WaitInvariant.transaction (steps : List Step) (invariant : WaitInvariant s)
    (free : NotWaiting s client) (safe : StepsSafe client s steps)
    : WaitInvariant (steps.foldl (fun s step => s.transactionStep client step) s) := by
  induction steps generalizing s with
  | nil => exact invariant
  | cons step steps ih =>
      cases step with
      | write bytes =>
          have still : NotWaiting (s.propagate client bytes) client := by
            unfold NotWaiting
            rw [(propagate_frame s client bytes).1]
            exact free
          exact ih (invariant.propagate free bytes) still safe
      | wait numreplicas =>
          refine ih (invariant.waitInTransaction safe.1 numreplicas) ?_ safe.2
          simpa [NotWaiting, Server.transactionStep, Server.waitCommand] using free

theorem isBlocked_lists (free : s.isBlocked client = false) : client ∉ s.blockedOnLists := by
  intro blocked
  have found : s.isBlocked client = true := Bool.or_eq_true_iff.mpr (.inr (by simpa using blocked))
  rw [free] at found
  cases found

theorem WaitInvariant.command (invariant : WaitInvariant s)
    (free : s.isBlocked client = false) (bytes : Nat) (blocks : Bool)
    : WaitInvariant
        (if blocks then
          { s.propagate client bytes with
            blockedOnLists := (s.propagate client bytes).blockedOnLists ++ [client] }
        else s.propagate client bytes) := by
  have notWaiting : NotWaiting s client := isBlocked_waiting free
  have propagated := invariant.propagate notWaiting bytes
  cases blocks with
  | false => exact propagated
  | true =>
      refine propagated.congr rfl ?_
      intro w inside
      refine ⟨inside, rfl, ?_⟩
      intro blocked
      rcases List.mem_append.mp blocked with old | new
      · exact old
      · have waits : w ∈ s.waitingAcks := by
          rw [← (propagate_frame s client bytes).1]
          exact inside
        exact absurd (List.mem_singleton.mp new) (notWaiting w waits)

theorem WaitInvariant.timeout (invariant : WaitInvariant s) (client : Nat)
    : WaitInvariant (s.timeoutClient client) := by
  have answered : WaitInvariant
      { s with
        waitingAcks := s.waitingAcks.filter (fun w => w.client ≠ client)
        replies := s.replies ++ (s.waitingAcks.filter (fun w => w.client = client)).map (fun w =>
          s.replyTo client w.requested w.reploffset (s.replicationCountAcksByOffset w.reploffset)
            .timedOut) } := by
    refine invariant.answer ?_ (fun w inside => List.mem_of_mem_filter inside)
    intro reply inside
    obtain ⟨w, found, rfl⟩ := List.mem_map.mp inside
    obtain ⟨waits, same⟩ := List.mem_filter.mp found
    have offset : s.behalf client ≤ w.reploffset := by
      have known := (invariant.waiting w waits).offset
      rwa [of_decide_eq_true same] at known
    refine ⟨count_antitone offset, ?_, ?_⟩
    · rintro (atOnce | acknowledged)
      · cases atOnce
      · cases acknowledged
    · intro acknowledged
      cases acknowledged
  refine answered.congr rfl ?_
  intro w inside
  exact ⟨inside, rfl, fun blocked => List.mem_of_mem_filter blocked⟩

theorem WaitInvariant.step (invariant : WaitInvariant s) (event : Event) (safe : EventSafe s event)
    : WaitInvariant (s.step event) := by
  cases event with
  | command client bytes blocks served =>
      rw [Server.step]
      split
      · exact invariant
      · rename_i free
        exact (invariant.command (Bool.eq_false_iff.mpr free) bytes blocks).finish client served
  | wait client numreplicas =>
      rw [Server.step]
      split
      · exact invariant
      · rename_i blocked
        have free : s.isBlocked client = false := Bool.eq_false_iff.mpr blocked
        obtain ⟨remembered, small⟩ := safe free
        exact (invariant.waitCommand remembered small (isBlocked_lists free)).finish client []
  | exec client steps served =>
      rw [Server.step]
      split
      · exact invariant
      · rename_i blocked
        have free : s.isBlocked client = false := Bool.eq_false_iff.mpr blocked
        exact (invariant.transaction steps (isBlocked_waiting free) (safe free)).finish client
          served
  | beforeSleep =>
      obtain ⟨left, replies⟩ := processWaiting_right s.waitingAcks invariant.waiting
        (fun nonzero => absurd rfl nonzero : (0 : Int) ≠ 0 → (0 : Int) = _)
      exact invariant.answer replies left
  | timeout client => exact invariant.timeout client
  | close client =>
      refine invariant.congr rfl ?_
      intro w inside
      obtain ⟨waits, different⟩ := List.mem_filter.mp inside
      refine ⟨waits, Function.update_of_ne (by simpa using different) _ _, ?_⟩
      exact fun blocked => List.mem_of_mem_filter blocked
  | feed bytes =>
      rw [Server.step, Server.feed]
      split
      · exact invariant.congr rfl (fun w inside => ⟨inside, rfl, id⟩)
      · exact invariant
  | attach slave =>
      rw [Server.step, Server.attach]
      dsimp only
      split <;> exact invariant.congr rfl (fun w inside => ⟨inside, rfl, id⟩)
  | freeBacklog =>
      rw [Server.step]
      split
      · exact invariant.congr rfl (fun w inside => ⟨inside, rfl, id⟩)
      · exact invariant
  | putOnline | detach | ack =>
      exact invariant.congr rfl (fun w inside => ⟨inside, rfl, id⟩)

/-- Every event of a run is safe where it happens. -/
def RunSafe : Server → List Event → Prop
  | _, [] => True
  | s, event :: events => EventSafe s event ∧ RunSafe (s.step event) events

theorem WaitInvariant.run (invariant : WaitInvariant s) (events : List Event)
    (safe : RunSafe s events)
    : WaitInvariant (events.foldl Server.step s) := by
  induction events generalizing s with
  | nil => exact invariant
  | cons event events ih => exact ih (invariant.step event safe.1) safe.2

/-- Every answer to `WAIT` is right, in every run in which clients call it with a number that is an
`int` and with nothing propagated on their behalf behind their last command.
-/
theorem wait_replies_right (events : List Event) (safe : RunSafe startServer events)
    : ∀ reply ∈ (events.foldl Server.step startServer).replies, ReplyRight reply := by
  have start : WaitInvariant startServer := by
    refine ⟨?_, ?_⟩
    · intro reply inside
      cases inside
    · intro w inside
      cases inside
  exact (start.run events safe).replies

/-- A client writes and waits for two slaves, of which the second one acknowledges later. -/
theorem wait_replies_right_two
    : ([Event.attach 1, .putOnline 1, .attach 2, .putOnline 2, .command 7 30 false [], .ack 1 31,
          .wait 7 2, .beforeSleep, .ack 2 44, .beforeSleep].foldl Server.step startServer).replies
        = [⟨7, 2, 2, .acknowledged, 2, 2⟩]
      ∧ ReplyRight ⟨7, 2, 2, .acknowledged, 2, 2⟩ := by
  have replied : ([Event.attach 1, .putOnline 1, .attach 2, .putOnline 2, .command 7 30 false [],
      .ack 1 31, .wait 7 2, .beforeSleep, .ack 2 44, .beforeSleep].foldl Server.step
        startServer).replies = [⟨7, 2, 2, .acknowledged, 2, 2⟩] := by
    decide
  refine ⟨replied, ?_⟩
  refine wait_replies_right [Event.attach 1, .putOnline 1, .attach 2, .putOnline 2,
    .command 7 30 false [], .ack 1 31, .wait 7 2, .beforeSleep, .ack 2 44, .beforeSleep] ?_ _ ?_
  · refine ⟨trivial, trivial, trivial, trivial, trivial, trivial, ?_, trivial, trivial, trivial,
      trivial⟩
    intro _
    exact ⟨by decide, by decide⟩
  · rw [replied]
    exact List.mem_singleton_self _

/-- A client blocks on a list before the first slave attaches, is served behind the push of another
client, and asks for one slave: the slave that is counted has acknowledged nothing.
-/
theorem wait_counts_slave_without_pop
    : ¬ ∀ reply ∈ ([Event.command 7 0 true [], .attach 1, .putOnline 1,
        .command 8 30 false [(7, 20)], .wait 7 1].foldl Server.step startServer).replies,
      ReplyRight reply := by
  intro right
  have counted := (right ⟨7, 1, 1, .atOnce, 1, 0⟩ (by decide)).reached
  exact absurd counted (by decide)

end Redis.Wait
