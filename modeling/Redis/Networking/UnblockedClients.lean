import Mathlib.Logic.Function.Basic
import Redis.Library.FlaggedQueue

/-! The queue of the clients that were unblocked, whose input buffers are to be processed. -/

namespace Redis.UnblockedClients

open Redis.Library

-- Clients

/-- A pointer to a `redisClient`. The address of a client that was freed may be used again. -/
abbrev ClientRef := Nat

/-- The bits of `flags` that matter here, and whether `fd` is not -1. A client that is flagged
`REDIS_CLOSE_ASAP` is in `server.clients_to_close`. What a client is blocked for is not part of the
model.
-/
structure Client where
  connected : Bool
  slave : Bool := false
  master : Bool := false
  blocked : Bool := false
  unblocked : Bool := false
  closeAfterReply : Bool := false
  closeAsap : Bool := false
deriving DecidableEq, Repr

/-- The clients by address, and the fields of `server` that refer to them. -/
structure Server where
  client : ClientRef → Option Client
  clients : List ClientRef
  unblockedClients : List ClientRef
  master : Option ClientRef
  cachedMaster : Option ClientRef
  clientsPaused : Bool
  clientsPauseEndTime : Int

namespace Server

variable (s : Server)

def init : Server where
  client _ := none
  clients := []
  unblockedClients := []
  master := none
  cachedMaster := none
  clientsPaused := false
  clientsPauseEndTime := 0

/-- A test of the flags of a client that was not freed. -/
def has (r : ClientRef) (test : Client → Bool) : Bool := (s.client r).any test

def live (r : ClientRef) : Bool := (s.client r).isSome

def modify (r : ClientRef) (f : Client → Client) : Server :=
  { s with client := Function.update s.client r ((s.client r).map f) }

/-- `createClient`; `fd` is -1 for a fake client. -/
def createClient (r : ClientRef) (connected : Bool) : Server :=
  { s with
    client := Function.update s.client r (some { connected })
    clients := if connected then s.clients ++ [r] else s.clients }

-- Blocking

def blockClient (r : ClientRef) : Server := s.modify r fun c => { c with blocked := true }

def queue (r : ClientRef) : Server :=
  { s.modify r fun c => { c with unblocked := true } with
    unblockedClients := s.unblockedClients ++ [r] }

def unblockClient (r : ClientRef) : Server :=
  (s.modify r fun c => { c with blocked := false }).queue r

def disconnectAllBlockedClients : Server :=
  s.clients.foldl
    (fun s r =>
      if s.has r (·.blocked) then
        (s.unblockClient r).modify r fun c => { c with closeAfterReply := true }
      else s)
    s

/-- A round of `processUnblockedClients`. What the input buffer of the client makes it do are steps
of their own.
-/
def processUnblockedClients : Server :=
  match s.unblockedClients with
  | [] => s
  | r :: rest =>
      { s.modify r fun c => { c with unblocked := false } with unblockedClients := rest }

-- Pauses

def pauseClients (end' : Int) : Server :=
  { s with
    clientsPaused := true
    clientsPauseEndTime :=
      if s.clientsPaused = false ∨ s.clientsPauseEndTime < end' then end'
      else s.clientsPauseEndTime }

/-- The pause has ended, and nobody has noticed. -/
def pauseEnds (mstime : Int) : Bool :=
  s.clientsPaused && decide (s.clientsPauseEndTime < mstime)

/-- `clientsArePaused`; `mstime` is `server.mstime`. -/
def clientsArePaused (mstime : Int) : Bool × Server :=
  if s.pauseEnds mstime then
    (false,
      s.clients.foldl
        (fun s r => if s.has r fun c => !(c.slave || c.blocked) then s.queue r else s)
        { s with clientsPaused := false })
  else (s.clientsPaused, s)

-- Freeing clients

/-- `replicationCacheMaster`, with what `replicationHandleMasterDisconnection` does to
`server.master`.
-/
def replicationCacheMaster (r : ClientRef) : Server :=
  { s.modify r fun c => { c with connected := false } with
    clients := s.clients.erase r
    cachedMaster := s.master
    master := none }

/-- The end of `freeClient`: the client leaves the lists that it is in. -/
def release (r : ClientRef) : Server :=
  { s with
    client := Function.update s.client r none
    clients := if s.has r (·.connected) then s.clients.erase r else s.clients
    unblockedClients :=
      if s.has r (·.unblocked) then s.unblockedClients.erase r else s.unblockedClients
    master := if s.has r (·.master) then none else s.master }

/-- `freeClient`. The slaves that are disconnected with a master are freed in steps of their own. -/
def freeClient (r : ClientRef) : Server :=
  if s.master.isSome
      && s.has r fun c =>
        c.master && !(c.closeAfterReply || c.closeAsap || c.blocked || c.unblocked) then
    s.replicationCacheMaster r
  else if s.has r (·.blocked) then (s.unblockClient r).release r
  else s.release r

def freeClientAsync (r : ClientRef) : Server := s.modify r fun c => { c with closeAsap := true }

/-- A round of `freeClientsInAsyncFreeQueue`. -/
def freeClientsInAsyncFreeQueue (r : ClientRef) : Server :=
  (s.modify r fun c => { c with closeAsap := false }).freeClient r

def replicationDiscardCachedMaster : Server :=
  match s.cachedMaster with
  | none => s
  | some r =>
      { (s.modify r fun c => { c with master := false }).freeClient r with cachedMaster := none }

def replicationResurrectCachedMaster : Server :=
  match s.cachedMaster with
  | none => s
  | some r =>
      { s.modify r fun c =>
          { c with connected := true, closeAfterReply := false, closeAsap := false } with
        master := some r
        cachedMaster := none
        clients := s.clients ++ [r] }

end Server

-- Runs

inductive Event where
  | createClient (r : ClientRef) (connected : Bool)
  /-- SYNC or MONITOR, or a failed SYNC. -/
  | setSlave (r : ClientRef) (slave : Bool)
  /-- A full resynchronization is done: the connection to the master becomes a client. -/
  | setMaster (r : ClientRef)
  | closeAfterReply (r : ClientRef)
  | freeClientAsync (r : ClientRef)
  | freeClientsInAsyncFreeQueue (r : ClientRef)
  /-- The client executes a command that blocks. -/
  | blockClient (r : ClientRef)
  /-- The client is served, or its timeout is over. -/
  | unblockClient (r : ClientRef)
  | disconnectAllBlockedClients
  | processUnblockedClients
  | pauseClients (end' : Int)
  | clientsArePaused (mstime : Int)
  | freeClient (r : ClientRef)
  | replicationDiscardCachedMaster
  | replicationResurrectCachedMaster
deriving DecidableEq, Repr

namespace Server

variable (s : Server)

/-- An event, with what its callers check: the input of a blocked client is not processed, only
blocked clients are unblocked, and clients are freed that have a connection.
-/
def step : Event → Server
  | .createClient r connected => if s.live r then s else s.createClient r connected
  | .setSlave r slave => s.modify r fun c => { c with slave }
  | .setMaster r =>
      if s.has r (·.connected) && s.master.isNone && s.cachedMaster.isNone then
        { s.modify r fun c => { c with master := true } with master := some r }
      else s
  | .closeAfterReply r => s.modify r fun c => { c with closeAfterReply := true }
  | .freeClientAsync r => if s.has r (·.connected) then s.freeClientAsync r else s
  | .freeClientsInAsyncFreeQueue r =>
      if s.has r fun c => c.connected && c.closeAsap then s.freeClientsInAsyncFreeQueue r else s
  | .blockClient r =>
      if s.has r fun c => c.connected && !c.blocked then s.blockClient r else s
  | .unblockClient r => if s.has r (·.blocked) then s.unblockClient r else s
  | .disconnectAllBlockedClients => s.disconnectAllBlockedClients
  | .processUnblockedClients => s.processUnblockedClients
  | .pauseClients end' => s.pauseClients end'
  | .clientsArePaused mstime => (s.clientsArePaused mstime).2
  | .freeClient r => if s.has r (·.connected) then s.freeClient r else s
  | .replicationDiscardCachedMaster => s.replicationDiscardCachedMaster
  | .replicationResurrectCachedMaster => s.replicationResurrectCachedMaster

def run (events : List Event) : Server := events.foldl step s

/-- The queue, and the `REDIS_UNBLOCKED` flags of the clients that were not freed. -/
def waiting : FlaggedQueue ClientRef where
  items := s.unblockedClients
  flag r := s.has r (·.unblocked)

/-- The clients that an event puts in the queue: those that it unblocks, and at the end of a pause
all that are neither slaves nor blocked.
-/
def queued : Event → List ClientRef
  | .unblockClient r => [r].filter (s.has · (·.blocked))
  | .disconnectAllBlockedClients => s.clients.filter (s.has · (·.blocked))
  | .clientsArePaused mstime =>
      if s.pauseEnds mstime then s.clients.filter (s.has · fun c => !(c.slave || c.blocked))
      else []
  | .freeClient r => [r].filter (s.has · fun c => c.connected && c.blocked)
  | .freeClientsInAsyncFreeQueue r =>
      [r].filter (s.has · fun c => c.connected && c.closeAsap && c.blocked)
  | .replicationDiscardCachedMaster => s.cachedMaster.toList.filter (s.has · (·.blocked))
  | _ => []

end Server

/-- No client is put in the queue again before it left it. -/
def Server.queuesOnce : Server → List Event → Bool
  | _, [] => true
  | s, event :: events =>
      (s.queued event).all (fun r => !s.has r (·.unblocked)) && (s.step event).queuesOnce events

section Queue

variable {s : Server} {r : ClientRef}

theorem modify_has (s : Server) (r : ClientRef) (f : Client → Client) (r' : ClientRef)
    (test : Client → Bool)
    : (s.modify r f).has r' test = s.has r' fun c => test (if r' = r then f c else c) := by
  unfold Server.has Server.modify
  by_cases here : r' = r
  · subst here
    simp [Option.any_map]
  · simp [here]

theorem modify_waiting {f : Client → Client} (same : ∀ c, (f c).unblocked = c.unblocked)
    : (s.modify r f).waiting = s.waiting := by
  refine FlaggedQueue.ext rfl (funext fun r' => ?_)
  have flag : (fun c : Client => (if r' = r then f c else c).unblocked) = (·.unblocked) := by
    funext c
    split
    · exact same c
    · rfl
  exact (modify_has s r f r' _).trans (congrArg (s.has r') flag)

theorem live_of_has {test : Client → Bool} (holds : s.has r test = true) : s.live r = true := by
  unfold Server.has at holds
  unfold Server.live
  cases found : s.client r with
  | none =>
      rw [found] at holds
      cases holds
  | some c => rfl

theorem queue_waiting (live : s.live r = true) : (s.queue r).waiting = s.waiting.append [r] := by
  refine FlaggedQueue.ext rfl (funext fun r' => ?_)
  have flag : (s.queue r).waiting.flag r'
      = s.has r' fun c => (if r' = r then { c with unblocked := true } else c).unblocked :=
    modify_has s r _ r' _
  rw [flag]
  by_cases here : r' = r
  · subst here
    obtain ⟨c, found⟩ := Option.isSome_iff_exists.mp live
    simp [FlaggedQueue.append, Server.has, found]
  · simp [FlaggedQueue.append, Server.waiting, here]

theorem unblockClient_waiting (live : s.live r = true)
    : (s.unblockClient r).waiting = s.waiting.append [r] := by
  have live' : (s.modify r fun c => { c with blocked := false }).live r = true := by
    simpa [Server.live, Server.modify] using live
  refine (queue_waiting live').trans (congrArg (FlaggedQueue.append · [r]) ?_)
  exact modify_waiting fun _ => rfl

theorem foldl_waiting {test : Client → Bool} {body : Server → ClientRef → Server}
    (queues : ∀ s r, s.live r = true → (body s r).waiting = s.waiting.append [r])
    (others : ∀ s r r', r' ≠ r → (body s r).client r' = s.client r')
    {items : List ClientRef} (once : items.Nodup)
    : (items.foldl (fun s r => if s.has r test then body s r else s) s).waiting
      = s.waiting.append (items.filter (s.has · test)) := by
  induction items generalizing s with
  | nil => exact (FlaggedQueue.append_nil _).symm
  | cons r items ih =>
      obtain ⟨apart, once⟩ := List.nodup_cons.mp once
      rw [List.foldl_cons, ih once]
      by_cases chosen : s.has r test = true
      · have rest : items.filter ((body s r).has · test) = items.filter (s.has · test) := by
          refine List.filter_congr fun r' member => ?_
          have other : r' ≠ r := fun same => apart (same ▸ member)
          simp only [Server.has, others s r r' other]
        rw [if_pos chosen, queues s r (live_of_has chosen), FlaggedQueue.append_append, rest,
          List.filter_cons_of_pos (p := (s.has · test)) chosen]
        rfl
      · rw [if_neg chosen, List.filter_cons_of_neg (p := (s.has · test)) chosen]

theorem disconnectAllBlockedClients_waiting (once : s.clients.Nodup)
    : s.disconnectAllBlockedClients.waiting
      = s.waiting.append (s.clients.filter (s.has · (·.blocked))) := by
  refine foldl_waiting (fun s r live => ?_) (fun s r r' other => ?_) once
  · refine Eq.trans (modify_waiting ?_) (unblockClient_waiting live)
    exact fun _ => rfl
  · simp [Server.unblockClient, Server.queue, Server.modify, other]

theorem clientsArePaused_waiting (once : s.clients.Nodup) (mstime : Int)
    : (s.clientsArePaused mstime).2.waiting
      = s.waiting.append (s.queued (.clientsArePaused mstime)) := by
  cases ends : s.pauseEnds mstime with
  | false => simp [Server.clientsArePaused, Server.queued, ends]
  | true =>
      simp only [Server.clientsArePaused, Server.queued, ends, if_true]
      exact foldl_waiting (s := { s with clientsPaused := false })
        (fun s r => queue_waiting) (fun s r r' other => by
          simp [Server.queue, Server.modify, other]) once

theorem release_waiting (inside : s.has r (·.unblocked) = false → r ∉ s.unblockedClients)
    : (s.release r).waiting = s.waiting.remove r := by
  refine FlaggedQueue.ext ?_ (funext fun r' => ?_)
  · cases flagged : s.has r (·.unblocked) with
    | true => simp [Server.waiting, Server.release, flagged, FlaggedQueue.remove]
    | false =>
        simp [Server.waiting, Server.release, flagged, FlaggedQueue.remove,
          List.erase_of_not_mem (inside flagged)]
  · by_cases here : r' = r
    · simp [Server.waiting, Server.release, Server.has, FlaggedQueue.remove, here]
    · simp [Server.waiting, Server.release, Server.has, FlaggedQueue.remove, here]

theorem freeClient_exact (exact : s.waiting.Exact)
    : (s.freeClient r).waiting.Exact
      ↔ (s.has r (·.blocked) = true → s.has r (·.unblocked) = false) := by
  unfold Server.freeClient
  split
  · rename_i cached
    have idle : s.has r (·.blocked) = false := by
      cases found : s.client r with
      | none => simp [Server.has, found]
      | some c =>
          simp only [Server.has, found, Option.any_some, Bool.and_eq_true, Bool.not_eq_true',
            Bool.or_eq_false_iff] at cached ⊢
          exact cached.2.2.1.2
    have same : (s.replicationCacheMaster r).waiting = s.waiting := by
      refine Eq.trans (FlaggedQueue.ext rfl rfl)
        (modify_waiting (s := s) (r := r) (f := fun c => { c with connected := false }) ?_)
      exact fun _ => rfl
    simp [same, exact, idle]
  cases blocked : s.has r (·.blocked) with
  | false =>
      have inside : s.has r (·.unblocked) = false → r ∉ s.unblockedClients := by
        intro unflagged there
        have raised : s.has r (·.unblocked) = true := (exact.flagged r).mp there
        rw [unflagged] at raised
        cases raised
      have left : (s.release r).waiting.Exact := release_waiting inside ▸ exact.remove r
      simp [left]
  | true =>
      have appended := unblockClient_waiting (live_of_has blocked)
      have flagged : (s.unblockClient r).has r (·.unblocked) = true := by
        have flag : (s.unblockClient r).waiting.flag r = (s.waiting.append [r]).flag r := by
          rw [appended]
        exact flag.trans (by simp [FlaggedQueue.append])
      have left : ((s.unblockClient r).release r).waiting = (s.waiting.append [r]).remove r := by
        rw [release_waiting (fun unflagged => absurd (flagged.symm.trans unflagged) (by simp)),
          appended]
      simp only [if_true, forall_const, left]
      cases queued : s.has r (·.unblocked) with
      | true => exact iff_of_false (FlaggedQueue.not_exact_remove exact queued) (by simp)
      | false =>
          rw [FlaggedQueue.append_remove exact queued]
          exact iff_of_true exact rfl

theorem processUnblockedClients_exact (exact : s.waiting.Exact)
    : s.processUnblockedClients.waiting.Exact := by
  cases items : s.unblockedClients with
  | nil => simpa [Server.processUnblockedClients, items] using exact
  | cons r rest =>
      have removed : s.processUnblockedClients.waiting = s.waiting.remove r := by
        refine FlaggedQueue.ext ?_ (funext fun r' => ?_)
        · simp [Server.waiting, Server.processUnblockedClients, items, FlaggedQueue.remove]
        · simp only [Server.processUnblockedClients, items]
          refine (modify_has s r _ r' _).trans ?_
          by_cases here : r' = r
          · simp [Server.has, FlaggedQueue.remove, here]
          · simp [Server.waiting, FlaggedQueue.remove, here]
      exact removed ▸ exact.remove r

end Queue

-- The list of clients

/-- `server.clients` has the clients with a connection, and the master is either connected or
cached.
-/
structure Linked (s : Server) : Prop where
  once : s.clients.Nodup
  connected : ∀ r, r ∈ s.clients ↔ s.has r (·.connected) = true
  master : ∀ r, s.has r (·.master) = true → s.master = some r ∨ s.cachedMaster = some r
  cached : ∀ r, s.cachedMaster = some r → s.live r = true ∧ s.has r (·.connected) = false
  one : s.master = none ∨ s.cachedMaster = none

section Linked

variable {s s' : Server} {r : ClientRef}

/-- A change of the other flags. -/
structure SameLinks (s s' : Server) : Prop where
  clients : s'.clients = s.clients
  master : s'.master = s.master
  cachedMaster : s'.cachedMaster = s.cachedMaster
  connected : ∀ r, s'.has r (·.connected) = s.has r (·.connected)
  masters : ∀ r, s'.has r (·.master) = s.has r (·.master)
  live : ∀ r, s'.live r = s.live r

theorem SameLinks.refl (s : Server) : SameLinks s s :=
  ⟨rfl, rfl, rfl, fun _ => rfl, fun _ => rfl, fun _ => rfl⟩

theorem SameLinks.trans {s'' : Server} (first : SameLinks s s') (second : SameLinks s' s'')
    : SameLinks s s'' where
  clients := second.clients.trans first.clients
  master := second.master.trans first.master
  cachedMaster := second.cachedMaster.trans first.cachedMaster
  connected r := (second.connected r).trans (first.connected r)
  masters r := (second.masters r).trans (first.masters r)
  live r := (second.live r).trans (first.live r)

theorem Linked.same (linked : Linked s) (same : SameLinks s s') : Linked s' where
  once := same.clients ▸ linked.once
  connected r := by rw [same.clients, same.connected, linked.connected]
  master r flagged := by
    rw [same.masters] at flagged
    rw [same.master, same.cachedMaster]
    exact linked.master r flagged
  cached r is := by
    rw [same.cachedMaster] at is
    rw [same.live, same.connected]
    exact linked.cached r is
  one := by
    rw [same.master, same.cachedMaster]
    exact linked.one

theorem sameLinks_modify {f : Client → Client}
    (same : ∀ c, (f c).connected = c.connected ∧ (f c).master = c.master)
    : SameLinks s (s.modify r f) := by
  have flags : ∀ r', (fun c : Client => (if r' = r then f c else c).connected) = (·.connected)
      ∧ (fun c : Client => (if r' = r then f c else c).master) = (·.master) := by
    intro r'
    split
    · exact ⟨funext fun c => (same c).1, funext fun c => (same c).2⟩
    · exact ⟨rfl, rfl⟩
  refine ⟨rfl, rfl, rfl, fun r' => ?_, fun r' => ?_, fun r' => ?_⟩
  · exact (modify_has s r f r' _).trans (congrArg (s.has r') (flags r').1)
  · exact (modify_has s r f r' _).trans (congrArg (s.has r') (flags r').2)
  · unfold Server.live Server.modify
    by_cases here : r' = r
    · simp [here]
    · simp [here]

theorem sameLinks_queue : SameLinks s (s.queue r) := by
  have flagged : SameLinks s (s.modify r fun c => { c with unblocked := true }) :=
    sameLinks_modify fun _ => ⟨rfl, rfl⟩
  exact ⟨flagged.clients, flagged.master, flagged.cachedMaster, flagged.connected, flagged.masters,
    flagged.live⟩

theorem sameLinks_unblockClient : SameLinks s (s.unblockClient r) := by
  have cleared : SameLinks s (s.modify r fun c => { c with blocked := false }) :=
    sameLinks_modify fun _ => ⟨rfl, rfl⟩
  exact cleared.trans sameLinks_queue

theorem sameLinks_foldl {test : Client → Bool} {body : Server → ClientRef → Server}
    (round : ∀ s r, SameLinks s (body s r)) (items : List ClientRef)
    : SameLinks s (items.foldl (fun s r => if s.has r test then body s r else s) s) := by
  induction items generalizing s with
  | nil => exact .refl s
  | cons r items ih =>
      refine SameLinks.trans ?_ ih
      dsimp only
      split
      · exact round s r
      · exact .refl s

theorem Linked.release (linked : Linked s) (known : s.cachedMaster ≠ some r)
    : Linked (s.release r) := by
  have has : ∀ r' test, (s.release r).has r' test = (decide (r' ≠ r) && s.has r' test) := by
    intro r' test
    by_cases here : r' = r
    · simp [Server.has, Server.release, here]
    · simp [Server.has, Server.release, here]
  have clients : (s.release r).clients = s.clients.erase r := by
    cases connected : s.has r (·.connected) with
    | true => simp [Server.release, connected]
    | false =>
        have absent : r ∉ s.clients := by simp [linked.connected r, connected]
        simp [Server.release, connected, List.erase_of_not_mem absent]
  have none_or : (s.release r).master = none ∨ (s.release r).master = s.master := by
    unfold Server.release
    dsimp only
    split
    · exact .inl rfl
    · exact .inr rfl
  constructor
  · exact clients ▸ linked.once.erase r
  · intro r'
    rw [clients, linked.once.mem_erase_iff, linked.connected r', has]
    simp
  · intro r' flagged
    rw [has, Bool.and_eq_true, decide_eq_true_eq] at flagged
    rcases linked.master r' flagged.2 with master | cached
    · have kept : s.has r (·.master) = false := by
        apply Bool.eq_false_iff.mpr
        intro also
        rcases linked.master r also with other | cached
        · exact flagged.1 (Option.some.inj (master.symm.trans other))
        · exact known cached
      exact .inl (by simp [Server.release, kept, master])
    · exact .inr cached
  · intro r' cached
    have other : r' ≠ r := fun same => known (same ▸ cached)
    obtain ⟨live, unconnected⟩ := linked.cached r' cached
    refine ⟨?_, ?_⟩
    · simpa [Server.live, Server.release, other] using live
    · rw [has, unconnected, Bool.and_false]
  · rcases linked.one with master | cached
    · refine .inl (none_or.elim id fun same => same.trans master)
    · exact .inr cached

theorem Linked.replicationCacheMaster (linked : Linked s) (master : s.has r (·.master) = true)
    (current : s.master.isSome = true)
    : Linked (s.replicationCacheMaster r) := by
  obtain ⟨m, is⟩ := Option.isSome_iff_exists.mp current
  have uncached : s.cachedMaster = none := linked.one.resolve_left (by simp [is])
  have here : s.master = some r := (linked.master r master).resolve_right (by simp [uncached])
  have has : ∀ r' test, (s.replicationCacheMaster r).has r' test
      = s.has r' fun c => test (if r' = r then { c with connected := false } else c) :=
    fun r' test => modify_has s r _ r' test
  have flag : ∀ r', (fun c : Client =>
      (if r' = r then { c with connected := false } else c).connected)
        = fun c => decide (r' ≠ r) && c.connected := by
    intro r'
    funext c
    by_cases same : r' = r <;> simp [same]
  constructor
  · exact linked.once.erase r
  · intro r'
    rw [has, flag]
    change r' ∈ s.clients.erase r ↔ _
    rw [linked.once.mem_erase_iff, linked.connected r']
    cases found : s.client r' <;> simp [Server.has, found]
  · intro r' flagged
    rw [has] at flagged
    have before : s.has r' (·.master) = true := by
      cases found : s.client r' with
      | none => simp [Server.has, found] at flagged
      | some c =>
          simp only [Server.has, found, Option.any_some] at flagged ⊢
          split at flagged <;> exact flagged
    exact .inr ((linked.master r' before).resolve_right (by simp [uncached]))
  · intro r' cached
    have same : r' = r := Option.some.inj (cached.symm.trans here)
    subst same
    refine ⟨?_, ?_⟩
    · have live := live_of_has master
      simpa [Server.live, Server.replicationCacheMaster, Server.modify] using live
    · rw [has, flag]
      cases found : s.client r' <;> simp [Server.has, found]
  · exact .inl rfl

theorem Linked.freeClient (linked : Linked s) (known : s.cachedMaster ≠ some r)
    : Linked (s.freeClient r) := by
  unfold Server.freeClient
  split
  · rename_i cached
    rw [Bool.and_eq_true] at cached
    refine linked.replicationCacheMaster ?_ cached.1
    cases found : s.client r with
    | none => simp [Server.has, found] at cached
    | some c =>
        simp only [Server.has, found, Option.any_some, Bool.and_eq_true] at cached ⊢
        exact cached.2.1
  split
  · have unblocked : SameLinks s (s.unblockClient r) := sameLinks_unblockClient
    exact (linked.same unblocked).release (unblocked.cachedMaster ▸ known)
  · exact linked.release known

theorem freeClient_of_not_master (other : s.has r (·.master) = false)
    : s.freeClient r
      = if s.has r (·.blocked) then (s.unblockClient r).release r else s.release r := by
  refine if_neg ?_
  rw [Bool.and_eq_true]
  rintro ⟨_, cached⟩
  cases found : s.client r with
  | none => simp [Server.has, found] at cached
  | some c =>
      simp only [Server.has, found, Option.any_some, Bool.and_eq_true] at cached other
      rw [other] at cached
      exact Bool.false_ne_true cached.1

theorem freeClient_uncached (other : s.has r (·.master) = false)
    : { s.freeClient r with cachedMaster := none }
      = Server.freeClient { s with cachedMaster := none } r := by
  have same : Server.has { s with cachedMaster := none } r (·.blocked) = s.has r (·.blocked) := rfl
  rw [freeClient_of_not_master other,
    freeClient_of_not_master (s := { s with cachedMaster := none }) other, same]
  cases s.has r (·.blocked) <;> rfl

theorem Linked.forgetMaster (linked : Linked s) (cached : s.cachedMaster = some r)
    : Linked { s.modify r fun c => { c with master := false } with cachedMaster := none } := by
  have has : ∀ r' test, (s.modify r fun c => { c with master := false }).has r' test
      = s.has r' fun c => test (if r' = r then { c with master := false } else c) :=
    fun r' test => modify_has s r _ r' test
  constructor
  · exact linked.once
  · intro r'
    refine (linked.connected r').trans (Eq.congr_left (Eq.symm ((has r' _).trans ?_)))
    refine congrArg (s.has r') (funext fun c => ?_)
    split <;> rfl
  · intro r' flagged
    replace flagged := (has r' _).symm.trans flagged
    by_cases here : r' = r
    · simp [Server.has, here] at flagged
    · simp only [here, if_false] at flagged
      rcases linked.master r' flagged with is | is
      · exact .inl is
      · exact absurd (Option.some.inj (is.symm.trans cached)) here
  · nofun
  · exact .inr rfl

theorem Linked.replicationDiscardCachedMaster (linked : Linked s)
    : Linked s.replicationDiscardCachedMaster := by
  unfold Server.replicationDiscardCachedMaster
  cases cached : s.cachedMaster with
  | none => exact linked
  | some r =>
      have other : (s.modify r fun c => { c with master := false }).has r (·.master) = false := by
        rw [modify_has]
        cases found : s.client r <;> simp [Server.has, found]
      simp only [freeClient_uncached other]
      exact (linked.forgetMaster cached).freeClient nofun

theorem Linked.replicationResurrectCachedMaster (linked : Linked s)
    : Linked s.replicationResurrectCachedMaster := by
  unfold Server.replicationResurrectCachedMaster
  cases cached : s.cachedMaster with
  | none => exact linked
  | some r =>
      obtain ⟨live, unconnected⟩ := linked.cached r cached
      have absent : r ∉ s.clients := by simp [linked.connected r, unconnected]
      have has : ∀ r' test, Server.has { s.modify r fun c =>
          { c with connected := true, closeAfterReply := false, closeAsap := false } with
            master := some r, cachedMaster := none, clients := s.clients ++ [r] } r' test
          = s.has r' fun c => test (if r' = r then
            { c with connected := true, closeAfterReply := false, closeAsap := false } else c) :=
        fun r' test => modify_has s r _ r' test
      constructor
      · refine List.nodup_append.mpr ⟨linked.once, List.nodup_singleton r, ?_⟩
        rintro r' old _ new rfl
        exact absent (List.mem_singleton.mp new ▸ old)
      · intro r'
        rw [has, List.mem_append, List.mem_singleton, linked.connected r']
        by_cases here : r' = r
        · subst here
          obtain ⟨c, found⟩ := Option.isSome_iff_exists.mp live
          simp [Server.has, found]
        · simp [here]
      · intro r' flagged
        rw [has] at flagged
        by_cases here : r' = r
        · exact .inl (congrArg some here.symm)
        · simp only [here, if_false] at flagged
          rcases linked.master r' flagged with is | is
          · rcases linked.one with master | other
            · rw [master] at is
              cases is
            · rw [cached] at other
              cases other
          · exact absurd (Option.some.inj (is.symm.trans cached)) here
      · nofun
      · exact .inr rfl

theorem Linked.createClient (linked : Linked s) (unused : s.live r = false) (connected : Bool)
    : Linked (s.createClient r connected) := by
  have absent : s.client r = none := by simpa [Server.live] using unused
  have has : ∀ r' test, (s.createClient r connected).has r' test
      = if r' = r then test { connected } else s.has r' test := by
    intro r' test
    by_cases here : r' = r <;> simp [Server.has, Server.createClient, here]
  have outside : r ∉ s.clients := by simp [linked.connected r, Server.has, absent]
  constructor
  · cases connected with
    | false => exact linked.once
    | true =>
        refine List.nodup_append.mpr ⟨linked.once, List.nodup_singleton r, ?_⟩
        rintro r' old _ new rfl
        exact outside (List.mem_singleton.mp new ▸ old)
  · intro r'
    rw [has]
    by_cases here : r' = r
    · subst here
      cases connected <;> simp [Server.createClient, outside]
    · cases connected <;> simp [Server.createClient, here, linked.connected r']
  · intro r' flagged
    rw [has] at flagged
    by_cases here : r' = r
    · simp [here] at flagged
    · exact linked.master r' (by simpa [here] using flagged)
  · intro r' cached
    obtain ⟨live, unconnected⟩ := linked.cached r' cached
    have here : r' ≠ r := by
      rintro rfl
      rw [unused] at live
      cases live
    rw [has, if_neg here]
    exact ⟨by simpa [Server.live, Server.createClient, here] using live, unconnected⟩
  · exact linked.one

theorem Linked.setMaster (linked : Linked s) (free : s.master = none)
    (uncached : s.cachedMaster = none)
    : Linked { s.modify r fun c => { c with master := true } with master := some r } := by
  have has : ∀ r' test, (s.modify r fun c => { c with master := true }).has r' test
      = s.has r' fun c => test (if r' = r then { c with master := true } else c) :=
    fun r' test => modify_has s r _ r' test
  constructor
  · exact linked.once
  · intro r'
    refine (linked.connected r').trans (Eq.congr_left (Eq.symm ((has r' _).trans ?_)))
    refine congrArg (s.has r') (funext fun c => ?_)
    split <;> rfl
  · intro r' flagged
    replace flagged := (has r' _).symm.trans flagged
    by_cases here : r' = r
    · exact .inl (congrArg some here.symm)
    · simp only [here, if_false] at flagged
      rcases linked.master r' flagged with is | is
      · rw [free] at is
        cases is
      · rw [uncached] at is
        cases is
  · intro r' cached
    exact absurd (uncached.symm.trans cached) (by simp)
  · exact .inr uncached

end Linked

section Steps

variable {s : Server} {event : Event}

theorem Linked.step (linked : Linked s) (event : Event) : Linked (s.step event) := by
  have known : ∀ r, s.has r (·.connected) = true → s.cachedMaster ≠ some r := by
    intro r connected cached
    rw [(linked.cached r cached).2] at connected
    cases connected
  have modified : ∀ r (f : Client → Client),
      (∀ c, (f c).connected = c.connected ∧ (f c).master = c.master) → Linked (s.modify r f) :=
    fun r f same => linked.same (sameLinks_modify same)
  cases event with
  | createClient r connected =>
      simp only [Server.step]
      split
      · exact linked
      · exact linked.createClient (Bool.eq_false_iff.mpr ‹_›) connected
  | setSlave r slave => exact modified r _ fun _ => ⟨rfl, rfl⟩
  | setMaster r =>
      simp only [Server.step]
      split
      · rename_i free
        simp only [Bool.and_eq_true, Option.isNone_iff_eq_none] at free
        exact linked.setMaster free.1.2 free.2
      · exact linked
  | closeAfterReply r => exact modified r _ fun _ => ⟨rfl, rfl⟩
  | freeClientAsync r =>
      simp only [Server.step]
      split
      · exact modified r _ fun _ => ⟨rfl, rfl⟩
      · exact linked
  | freeClientsInAsyncFreeQueue r =>
      simp only [Server.step]
      split
      · rename_i closing
        refine Linked.freeClient (modified r _ fun _ => ⟨rfl, rfl⟩) (known r ?_)
        cases found : s.client r with
        | none => simp [Server.has, found] at closing
        | some c =>
            simp only [Server.has, found, Option.any_some, Bool.and_eq_true] at closing ⊢
            exact closing.1
      · exact linked
  | blockClient r =>
      simp only [Server.step]
      split
      · exact modified r _ fun _ => ⟨rfl, rfl⟩
      · exact linked
  | unblockClient r =>
      simp only [Server.step]
      split
      · exact linked.same sameLinks_unblockClient
      · exact linked
  | disconnectAllBlockedClients =>
      refine linked.same (sameLinks_foldl (fun s r => ?_) s.clients)
      exact sameLinks_unblockClient.trans (sameLinks_modify fun _ => ⟨rfl, rfl⟩)
  | processUnblockedClients =>
      simp only [Server.step, Server.processUnblockedClients]
      split
      · exact linked
      · rename_i r rest items
        have cleared := modified r (fun c => { c with unblocked := false }) fun _ => ⟨rfl, rfl⟩
        exact ⟨cleared.once, cleared.connected, cleared.master, cleared.cached, cleared.one⟩
  | pauseClients end' =>
      exact ⟨linked.once, linked.connected, linked.master, linked.cached, linked.one⟩
  | clientsArePaused mstime =>
      simp only [Server.step, Server.clientsArePaused]
      split
      · have resumed : Linked { s with clientsPaused := false } :=
          ⟨linked.once, linked.connected, linked.master, linked.cached, linked.one⟩
        exact resumed.same (sameLinks_foldl (fun _ _ => sameLinks_queue) s.clients)
      · exact linked
  | freeClient r =>
      simp only [Server.step]
      split
      · exact linked.freeClient (known r ‹_›)
      · exact linked
  | replicationDiscardCachedMaster => exact linked.replicationDiscardCachedMaster
  | replicationResurrectCachedMaster => exact linked.replicationResurrectCachedMaster

theorem createClient_waiting {r : ClientRef} (unused : s.live r = false) (connected : Bool)
    : (s.createClient r connected).waiting = s.waiting := by
  have absent : s.client r = none := by simpa [Server.live] using unused
  refine FlaggedQueue.ext rfl (funext fun r' => ?_)
  by_cases here : r' = r
  · simp [Server.waiting, Server.createClient, Server.has, here, absent]
  · simp [Server.waiting, Server.createClient, Server.has, here]

theorem step_exact_same (exact : s.waiting.Exact) (nobody : s.queued event = [])
    (same : (s.step event).waiting = s.waiting)
    : (s.step event).waiting.Exact ↔ ∀ r ∈ s.queued event, s.has r (·.unblocked) = false := by
  rw [same, nobody]
  exact iff_of_true exact (by simp)

theorem step_exact_append (exact : s.waiting.Exact) (once : (s.queued event).Nodup)
    (appended : (s.step event).waiting = s.waiting.append (s.queued event))
    : (s.step event).waiting.Exact ↔ ∀ r ∈ s.queued event, s.has r (·.unblocked) = false := by
  rw [appended, FlaggedQueue.exact_append exact]
  exact and_iff_right once

theorem step_exact (linked : Linked s) (exact : s.waiting.Exact) (event : Event)
    : (s.step event).waiting.Exact ↔ ∀ r ∈ s.queued event, s.has r (·.unblocked) = false := by
  cases event with
  | createClient r connected =>
      refine step_exact_same exact rfl ?_
      simp only [Server.step]
      split
      · rfl
      · exact createClient_waiting (Bool.eq_false_iff.mpr ‹_›) connected
  | setSlave r slave => exact step_exact_same exact rfl (modify_waiting fun _ => rfl)
  | setMaster r =>
      refine step_exact_same exact rfl ?_
      have flagged : (s.modify r fun c => { c with master := true }).waiting = s.waiting :=
        modify_waiting fun _ => rfl
      simp only [Server.step]
      split
      · exact flagged
      · rfl
  | closeAfterReply r => exact step_exact_same exact rfl (modify_waiting fun _ => rfl)
  | freeClientAsync r =>
      refine step_exact_same exact rfl ?_
      simp only [Server.step]
      split
      · exact modify_waiting fun _ => rfl
      · rfl
  | freeClientsInAsyncFreeQueue r =>
      cases found : s.client r with
      | none =>
          refine step_exact_same exact ?_ ?_ <;>
            simp [Server.queued, Server.step, Server.has, found]
      | some c =>
          by_cases closing : c.connected = true ∧ c.closeAsap = true
          · have waiting : (s.modify r fun c => { c with closeAsap := false }).waiting
                = s.waiting := modify_waiting fun _ => rfl
            have freed := freeClient_exact (r := r) (waiting.symm ▸ exact)
            simp only [modify_has, if_true] at freed
            simpa [Server.queued, Server.step, Server.has, found, closing,
              Server.freeClientsInAsyncFreeQueue] using freed
          · refine step_exact_same exact ?_ ?_
            · exact List.filter_eq_nil_iff.mpr fun r' member => by
                rw [List.mem_singleton.mp member]
                simp only [Server.has, found, Option.any_some, Bool.and_eq_true]
                exact fun both => closing both.1
            · simp only [Server.step, Server.has, found, Option.any_some, Bool.and_eq_true, closing,
                if_false]
  | blockClient r =>
      refine step_exact_same exact rfl ?_
      simp only [Server.step]
      split
      · exact modify_waiting fun _ => rfl
      · rfl
  | unblockClient r =>
      cases blocked : s.has r (·.blocked) with
      | false =>
          refine step_exact_same exact ?_ ?_ <;> simp [Server.queued, Server.step, blocked]
      | true =>
          have alone : s.queued (.unblockClient r) = [r] := by simp [Server.queued, blocked]
          refine step_exact_append exact (alone ▸ List.nodup_singleton r) ?_
          simp only [Server.step, blocked, if_true, alone]
          exact unblockClient_waiting (live_of_has blocked)
  | disconnectAllBlockedClients =>
      exact step_exact_append exact (linked.once.filter _)
        (disconnectAllBlockedClients_waiting linked.once)
  | processUnblockedClients =>
      exact iff_of_true (processUnblockedClients_exact exact) (by simp [Server.queued])
  | pauseClients end' => exact step_exact_same exact rfl rfl
  | clientsArePaused mstime =>
      refine step_exact_append exact ?_ (clientsArePaused_waiting linked.once mstime)
      simp only [Server.queued]
      split
      · exact linked.once.filter _
      · exact List.nodup_nil
  | freeClient r =>
      cases connected : s.has r (·.connected) with
      | false =>
          refine step_exact_same exact ?_ (by simp [Server.step, connected])
          cases found : s.client r with
          | none => simp [Server.queued, Server.has, found]
          | some c =>
              simp only [Server.has, found, Option.any_some] at connected
              simp [Server.queued, Server.has, found, connected]
      | true =>
          have freed := freeClient_exact (r := r) exact
          cases found : s.client r with
          | none => simp [Server.has, found] at connected
          | some c =>
              simp only [Server.step, connected, if_true, freed]
              simp only [Server.has, found, Option.any_some] at connected
              simp [Server.queued, Server.has, found, connected]
  | replicationDiscardCachedMaster =>
      cases cached : s.cachedMaster with
      | none =>
          refine step_exact_same exact ?_ ?_ <;>
            simp [Server.queued, Server.step, Server.replicationDiscardCachedMaster, cached]
      | some r =>
          have waiting : (s.modify r fun c => { c with master := false }).waiting = s.waiting :=
            modify_waiting fun _ => rfl
          have freed := freeClient_exact (r := r) (waiting.symm ▸ exact)
          simp only [modify_has, if_true] at freed
          have same : ∀ t : Server, Server.waiting { t with cachedMaster := none } = t.waiting :=
            fun _ => rfl
          simp only [Server.queued, Server.step, Server.replicationDiscardCachedMaster, cached]
          rw [same, freed]
          simp
  | replicationResurrectCachedMaster =>
      refine step_exact_same exact rfl ?_
      simp only [Server.step, Server.replicationResurrectCachedMaster]
      split
      · rfl
      · rename_i r cached
        exact modify_waiting (s := s) (r := r) (f := fun c =>
          { c with connected := true, closeAfterReply := false, closeAsap := false }) fun _ => rfl

/-- In a run the queue has each flagged client that was not freed once, and nobody else, in every
state that is reached, if and only if no client is put in the queue again before it left it.
-/
theorem unblocked_queue_exact (events : List Event)
    : (∀ n, (Server.init.run (events.take n)).waiting.Exact)
      ↔ Server.init.queuesOnce events = true := by
  have linked : Linked Server.init :=
    ⟨List.nodup_nil, by simp [Server.init, Server.has], nofun, nofun, .inl rfl⟩
  have exact : Server.init.waiting.Exact :=
    ⟨List.nodup_nil, by simp [Server.init, Server.waiting, Server.has]⟩
  generalize Server.init = s at linked exact
  induction events generalizing s with
  | nil => simpa [Server.run, Server.queuesOnce] using exact
  | cons event events ih =>
      have first := step_exact linked exact event
      simp only [Server.queuesOnce, Bool.and_eq_true, List.all_eq_true, Bool.not_eq_true', ← first]
      constructor
      · intro always
        have next : (s.step event).waiting.Exact := always 1
        exact ⟨next, (ih (s.step event) (linked.step event) next).mp fun n => always (n + 1)⟩
      · rintro ⟨next, rest⟩ n
        cases n with
        | zero => exact exact
        | succ n => exact (ih (s.step event) (linked.step event) next).mpr rest n

end Steps

-- A pause that ends while a client is queued

/-- A client times out in BLPOP in the round of `serverCron` that notices the end of a pause. While
the queue is processed it is killed by another one, whose command waited for the end of the pause.
-/
def timeoutAtPauseEnd : List Event :=
  [.createClient 1 true, .createClient 0 true, .blockClient 0, .pauseClients 100,
    .unblockClient 0, .clientsArePaused 101, .processUnblockedClients, .processUnblockedClients,
    .freeClient 0]

/-- The client is queued twice, and is still queued after it was freed. -/
theorem freed_client_queued
    : (Server.init.run (timeoutAtPauseEnd.take 6)).unblockedClients = [0, 1, 0]
      ∧ (Server.init.run timeoutAtPauseEnd).unblockedClients = [0]
      ∧ (Server.init.run timeoutAtPauseEnd).live 0 = false
      ∧ ¬ ∀ n, (Server.init.run (timeoutAtPauseEnd.take n)).waiting.Exact := by
  refine ⟨by decide, by decide, by decide, fun always => ?_⟩
  have once : [0, 1, 0].Nodup := (always 6).once
  exact absurd once (by decide)

end Redis.UnblockedClients
