import Redis.Watch.HyperLogLogs
import Redis.Watch.Silent

/-! Runs of commands of any number of clients: a change of a watched key aborts the transaction,
unless the command that makes it is one of those that signal nothing.
-/

namespace Redis.Watch

open Redis.Keyspace

variable {F L : Type} {request : Request}

-- Events

/-- The replies of `execCommand`. -/
inductive ExecReply where
  /-- `EXEC without MULTI`. -/
  | error
  /-- `shared.execaborterr`. -/
  | execAbort
  /-- `shared.nullmultibulk`. -/
  | nullMultiBulk
  | multiBulk (count : Nat)
deriving DecidableEq, Repr

/-- What `execCommand` leaves, replies and has executed. -/
structure ExecResult (F : Type) where
  server : Server F
  reply : ExecReply
  executed : List Request

inductive Event where
  /-- A request that `processCommand` accepts. -/
  | command (n : Nat) (moment : Moment) (request : Request)
  /-- A command that `processCommand` refuses, and that flags the transaction. -/
  | refused (n : Nat)
  | multi (n : Nat)
  /-- `EXEC`, with the moments at which the queued commands are executed. -/
  | exec (n : Nat) (moments : Nat → Moment)
  | discard (n : Nat)
  | watch (n : Nat) (keys : List Sds)
  | disconnect (n : Nat)
  /-- `activeExpireCycle` meets a key. -/
  | expireCycle (moment : Moment) (id : Nat) (key : Sds)

/-- A request that is executed: when, in which state and for which client. -/
structure Call (F : Type) where
  server : Server F
  moment : Moment
  client : Nat
  request : Request

section Events

variable (setting : Setting F L) (s : Server F)

def Call.result (call : Call F) : Server F :=
  call.server.call setting call.moment call.client call.request

/-- The loop of `execCommand`. -/
def Server.callQueued (n : Nat) : (moments : Nat → Moment) → Server F → List Request → Server F
  | _, s, [] => s
  | moments, s, request :: requests =>
      Server.callQueued n (fun i => moments (i + 1)) (s.call setting (moments 0) n request) requests

def Server.queuedCalls (n : Nat)
    : (moments : Nat → Moment) → Server F → List Request → List (Call F)
  | _, _, [] => []
  | moments, s, request :: requests =>
      ⟨s, moments 0, n, request⟩
      :: Server.queuedCalls n (fun i => moments (i + 1)) (s.call setting (moments 0) n request)
        requests

/-- `REDIS_DIRTY_CAS` or `REDIS_DIRTY_EXEC` is set. -/
def Client.isDirty (c : Client) : Bool := c.dirtyCas || c.dirtyExec

def Server.execCommand (n : Nat) (moments : Nat → Moment) : ExecResult F :=
  let c := s.clients n
  if c.multi = false then ⟨s, .error, []⟩
  else if c.isDirty then
    ⟨s.discardTransaction n, if c.dirtyExec then .execAbort else .nullMultiBulk, []⟩
  else
    let s := (s.unwatchAllKeys n).callQueued setting n moments c.commands
    ⟨s.discardTransaction n, .multiBulk c.commands.length, c.commands⟩

def Server.step : Event → Server F
  | .command n moment request =>
      if (s.clients n).multi then s.queueMultiCommand n request
      else s.call setting moment n request
  | .refused n => s.flagTransaction n
  | .multi n => s.multiCommand n
  | .exec n moments => (s.execCommand setting n moments).server
  | .discard n => s.discardCommand n
  | .watch n keys => s.watchCommand n keys
  | .disconnect n => s.freeClient n
  | .expireCycle moment id key => s.expireIfNeeded moment id key

def Server.run (events : List Event) : Server F := events.foldl (Server.step setting) s

def Server.calls : Event → List (Call F)
  | .command n moment request =>
      if (s.clients n).multi then [] else [⟨s, moment, n, request⟩]
  | .exec n moments =>
      let c := s.clients n
      if c.multi = false then []
      else if c.isDirty then []
      else Server.queuedCalls setting n moments (s.unwatchAllKeys n) c.commands
  | _ => []

def Server.EndsWatch (c : Nat) : Event → Prop
  | .command n _ request => n = c ∧ request = .unwatch ∧ (s.clients c).multi = false
  | .exec n _ => n = c ∧ (s.clients c).multi = true
  | .discard n => n = c ∧ (s.clients c).multi = true
  | .disconnect n => n = c
  | _ => False

def Server.KeepsWatch (c : Nat) : Server F → List Event → Prop
  | _, [] => True
  | s, event :: events => ¬ s.EndsWatch c event ∧ Server.KeepsWatch c (s.step setting event) events

/-- A call that changes a key and signals nothing. -/
def Call.Silent (call : Call F) : Prop :=
  call.server.Silent setting call.moment (call.server.clients call.client).db call.request

/-- A call changes a key of a database; the removal of an expired key is no change. -/
def Call.Changes (call : Call F) (id : Nat) (key : Sds) : Prop :=
  ¬ Unchanged call.moment (call.server.dbs id) ((call.result setting).dbs id) key

end Events

section Tables

variable {setting : Setting F L} {s t u : Server F} {n c : Nat} {moment : Moment}

/-- The tables of the watched keys agree, and no client is in the list of a key twice. -/
structure Server.WellWatched (s : Server F) : Prop where
  consistent : s.Consistent
  nodup : ∀ id key, (s.watchers id key).Nodup

theorem start_wellWatched (dbs : Nat → Db F) : (Server.start dbs).WellWatched where
  consistent _ _ _ := ⟨fun member => (List.not_mem_nil member).elim,
    fun member => (List.not_mem_nil member).elim⟩
  nodup _ _ := List.nodup_nil

theorem Server.WellWatched.congr (well : s.WellWatched) (watchers : t.watchers = s.watchers)
    (watched : ∀ n, (t.clients n).watchedKeys = (s.clients n).watchedKeys)
    : t.WellWatched where
  consistent n id key := by
    rw [watchers, watched n]
    exact well.consistent n id key
  nodup id key := by
    rw [watchers]
    exact well.nodup id key

theorem Touches.watchedKeys (touches : Touches s t) (n : Nat)
    : (t.clients n).watchedKeys = (s.clients n).watchedKeys := by
  obtain same | touched := touches.client n
  · rw [same]
  · rw [touched]
    rfl

theorem Touches.wellWatched (touches : Touches s t) (well : s.WellWatched) : t.WellWatched :=
  well.congr touches.watchers touches.watchedKeys

theorem setClient_wellWatched (well : s.WellWatched) {c' : Client}
    (same : c'.watchedKeys = (s.clients n).watchedKeys)
    : (s.setClient n c').WellWatched := by
  refine well.congr rfl ?_
  intro m
  by_cases here : m = n
  · subst here
    simpa [Server.setClient] using same
  · simp [Server.setClient, here]

theorem removeWatcher_apply (watchers : Nat → Sds → List Nat) (watched : Nat × Sds) (id : Nat)
    (key : Sds)
    : removeWatcher n watchers watched id key
      = if (id, key) = watched then (watchers id key).erase n else watchers id key := by
  obtain ⟨i, k⟩ := watched
  unfold removeWatcher
  by_cases sameDb : id = i
  · subst sameDb
    by_cases sameKey : key = k
    · subst sameKey
      simp
    · simp [sameKey]
  · simp [sameDb]

theorem foldl_removeWatcher (watched : List (Nat × Sds)) {watchers : Nat → Sds → List Nat}
    (nodup : ∀ id key, (watchers id key).Nodup) (id : Nat) (key : Sds)
    : (watched.foldl (removeWatcher n) watchers id key).Nodup
      ∧ ∀ m,
          m ∈ watched.foldl (removeWatcher n) watchers id key
          ↔ m ∈ watchers id key ∧ ¬ (m = n ∧ (id, key) ∈ watched) := by
  induction watched generalizing watchers with
  | nil => exact ⟨nodup id key, fun m => by simp⟩
  | cons first rest ih =>
      have nodup' : ∀ id key, (removeWatcher n watchers first id key).Nodup := by
        intro id key
        rw [removeWatcher_apply]
        split
        · exact (nodup id key).erase n
        · exact nodup id key
      obtain ⟨left, members⟩ := ih nodup'
      refine ⟨left, fun m => (members m).trans ?_⟩
      rw [removeWatcher_apply]
      by_cases here : (id, key) = first
      · rw [if_pos here, (nodup id key).mem_erase_iff]
        simp only [List.mem_cons, here, true_or, and_true]
        tauto
      · rw [if_neg here]
        simp only [List.mem_cons, here, false_or]

theorem unwatchAllKeys_wellWatched (well : s.WellWatched) (n : Nat)
    : (s.unwatchAllKeys n).WellWatched where
  consistent m id key := by
    refine ((foldl_removeWatcher (s.clients n).watchedKeys well.nodup id key).2 m).trans ?_
    rw [well.consistent m id key]
    by_cases here : m = n
    · subst here
      simp [Server.unwatchAllKeys]
    · simp [Server.unwatchAllKeys, here]
  nodup id key := (foldl_removeWatcher (s.clients n).watchedKeys well.nodup id key).1

theorem watchForKey_wellWatched (well : s.WellWatched) (n : Nat) (key : Sds)
    : (s.watchForKey n key).WellWatched := by
  rw [Server.watchForKey]
  split
  · exact well
  · rename_i notWatched
    have fresh : n ∉ s.watchers (s.clients n).db key := fun member =>
      notWatched ((well.consistent n _ key).mp member)
    constructor
    · intro m id' key'
      have before := well.consistent m id' key'
      by_cases here : m = n
      · subst here
        simp only [Function.update_self, List.mem_append, List.mem_singleton, Prod.mk.injEq,
          ← before]
        by_cases sameDb : id' = (s.clients m).db
        · subst sameDb
          by_cases sameKey : key' = key
          · subst sameKey
            simp
          · simp [sameKey]
        · simp [sameDb]
      · simp only [Function.update_of_ne here, ← before]
        by_cases sameDb : id' = (s.clients n).db
        · subst sameDb
          by_cases sameKey : key' = key
          · subst sameKey
            simp [here]
          · simp [sameKey]
        · simp [sameDb]
    · intro id' key'
      by_cases sameDb : id' = (s.clients n).db
      · subst sameDb
        by_cases sameKey : key' = key
        · subst sameKey
          simpa using List.nodup_append_comm.mp (List.nodup_cons.mpr ⟨fresh, well.nodup _ key'⟩)
        · simpa [sameKey] using well.nodup (s.clients n).db key'
      · simpa [sameDb] using well.nodup id' key'

theorem discardTransaction_wellWatched (well : s.WellWatched) (n : Nat)
    : (s.discardTransaction n).WellWatched := by
  rw [Server.discardTransaction]
  refine unwatchAllKeys_wellWatched (setClient_wellWatched well ?_) n
  rfl

theorem unwatchCommand_wellWatched (well : s.WellWatched) (n : Nat)
    : (s.unwatchCommand n).WellWatched :=
  setClient_wellWatched (unwatchAllKeys_wellWatched well n) rfl

theorem freeClient_wellWatched (well : s.WellWatched) (n : Nat) : (s.freeClient n).WellWatched := by
  refine setClient_wellWatched (unwatchAllKeys_wellWatched well n) ?_
  simp [Server.unwatchAllKeys, Client.new]

theorem call_cases (setting : Setting F L) (moment : Moment) (s : Server F) (n : Nat)
    (request : Request)
    : request = .unwatch
      ∨ (∃ index, request = .select index)
      ∨ s.call setting moment n request = s.execute setting moment (s.clients n).db request := by
  cases request with
  | unwatch => exact .inl rfl
  | select index => exact .inr (.inl ⟨index, rfl⟩)
  | _ => exact .inr (.inr rfl)

theorem call_wellWatched (well : s.WellWatched) (request : Request)
    : (s.call setting moment n request).WellWatched := by
  obtain rfl | ⟨index, rfl⟩ | proc := call_cases setting moment s n request
  · exact unwatchCommand_wellWatched well n
  · rw [Server.call]
    split
    · exact well
    · exact setClient_wellWatched well rfl
  · rw [proc]
    exact (touches_execute well.consistent request).wellWatched well

theorem callQueued_wellWatched (requests : List Request) (moments : Nat → Moment)
    (well : s.WellWatched)
    : (s.callQueued setting n moments requests).WellWatched := by
  induction requests generalizing s moments with
  | nil => exact well
  | cons request requests ih => exact ih _ (call_wellWatched well request)

theorem watchKeys_wellWatched (well : s.WellWatched) (n : Nat) (keys : List Sds)
    : (keys.foldl (fun s key => s.watchForKey n key) s).WellWatched := by
  induction keys generalizing s with
  | nil => exact well
  | cons key keys ih => exact ih (watchForKey_wellWatched well n key)

theorem step_wellWatched (well : s.WellWatched) (event : Event)
    : (s.step setting event).WellWatched := by
  cases event with
  | command n moment request =>
      rw [Server.step]
      split
      · exact setClient_wellWatched well rfl
      · exact call_wellWatched well request
  | refused n =>
      rw [Server.step, Server.flagTransaction]
      split
      · exact setClient_wellWatched well rfl
      · exact well
  | multi n => exact setClient_wellWatched well rfl
  | exec n moments =>
      rw [Server.step, Server.execCommand]
      dsimp only
      split
      · exact well
      · split
        · exact discardTransaction_wellWatched well n
        · exact discardTransaction_wellWatched
            (callQueued_wellWatched _ moments (unwatchAllKeys_wellWatched well n)) n
  | discard n =>
      rw [Server.step, Server.discardCommand]
      split
      · exact discardTransaction_wellWatched well n
      · exact well
  | watch n keys =>
      rw [Server.step, Server.watchCommand]
      split
      · exact well
      · exact watchKeys_wellWatched well n keys
  | disconnect n => exact freeClient_wellWatched well n
  | expireCycle moment id key => exact (detects_expireIfNeeded ..).toTouches.wellWatched well

theorem run_wellWatched (well : s.WellWatched) (events : List Event)
    : (s.run setting events).WellWatched := by
  induction events generalizing s with
  | nil => exact well
  | cons event events ih => exact ih (step_wellWatched well event)

end Tables

section Watching

variable {setting : Setting F L} {s t u : Server F} {n c id : Nat} {moment : Moment} {key : Sds}

/-- A client watches what it has watched, and `REDIS_DIRTY_CAS` is not cleared. -/
structure Keeps (c : Nat) (s t : Server F) : Prop where
  watched : ∀ key ∈ (s.clients c).watchedKeys, key ∈ (t.clients c).watchedKeys
  dirty : (s.clients c).dirtyCas = true → (t.clients c).dirtyCas = true

theorem Keeps.refl (c : Nat) (s : Server F) : Keeps c s s := ⟨fun _ member => member, id⟩

theorem Keeps.trans (first : Keeps c s t) (second : Keeps c t u) : Keeps c s u :=
  ⟨fun key member => second.watched key (first.watched key member),
    fun dirty => second.dirty (first.dirty dirty)⟩

theorem Touches.keeps (touches : Touches s t) (c : Nat) : Keeps c s t :=
  ⟨fun _ member => touches.watchedKeys c ▸ member, touches.dirty⟩

theorem keeps_of_same (same : t.clients c = s.clients c) : Keeps c s t := by
  refine ⟨?_, ?_⟩
  · rw [same]
    exact fun _ member => member
  · rw [same]
    exact id

theorem setClient_keeps {c' : Client} (watched : c'.watchedKeys = (s.clients n).watchedKeys)
    (dirty : c'.dirtyCas = (s.clients n).dirtyCas)
    : Keeps c s (s.setClient n c') := by
  by_cases here : c = n
  · subst here
    have now : (s.setClient c c').clients c = c' := Function.update_self ..
    refine ⟨?_, ?_⟩
    · rw [now, watched]
      exact fun _ member => member
    · rw [now, dirty]
      exact id
  · exact keeps_of_same (Function.update_of_ne here ..)

theorem watchForKey_keeps (s : Server F) (n : Nat) (key : Sds)
    : Keeps c s (s.watchForKey n key) := by
  rw [Server.watchForKey]
  split
  · exact .refl c s
  · by_cases here : c = n
    · subst here
      constructor
      · intro key member
        simp [member]
      · simp
    · exact keeps_of_same (Function.update_of_ne here ..)

theorem watchKeys_keeps (n : Nat) (keys : List Sds)
    : Keeps c s (keys.foldl (fun s key => s.watchForKey n key) s) := by
  induction keys generalizing s with
  | nil => exact .refl c s
  | cons key keys ih => exact (watchForKey_keeps s n key).trans ih

theorem watchKeys_watches {keys : List Sds} (named : key ∈ keys)
    : ((s.clients n).db, key)
      ∈ ((keys.foldl (fun s key => s.watchForKey n key) s).clients n).watchedKeys := by
  induction keys generalizing s with
  | nil => exact absurd named List.not_mem_nil
  | cons first keys ih =>
      have sameDb : ((s.watchForKey n first).clients n).db = (s.clients n).db := by
        rw [Server.watchForKey]
        split
        · rfl
        · simp
      rw [List.foldl_cons]
      obtain rfl | later := List.mem_cons.mp named
      · refine (watchKeys_keeps n keys).watched _ ?_
        rw [Server.watchForKey]
        split
        · assumption
        · simp
      · rw [← sameDb]
        exact ih later

theorem unwatchAllKeys_keeps (different : c ≠ n) (s : Server F) : Keeps c s (s.unwatchAllKeys n) :=
  keeps_of_same (Function.update_of_ne different ..)

theorem setClient_keeps_other (different : c ≠ n) (s : Server F) (c' : Client)
    : Keeps c s (s.setClient n c') :=
  keeps_of_same (Function.update_of_ne different ..)

theorem discardTransaction_keeps (different : c ≠ n) (s : Server F)
    : Keeps c s (s.discardTransaction n) :=
  (setClient_keeps_other different s _).trans (unwatchAllKeys_keeps different _)

theorem call_keeps (well : s.WellWatched) (stays : ¬ (n = c ∧ request = .unwatch))
    : Keeps c s (s.call setting moment n request) := by
  obtain rfl | ⟨index, rfl⟩ | proc := call_cases setting moment s n request
  · have different : c ≠ n := fun same => stays ⟨same.symm, rfl⟩
    exact (unwatchAllKeys_keeps different s).trans (setClient_keeps_other different _ _)
  · rw [Server.call]
    split
    · exact .refl c s
    · exact setClient_keeps rfl rfl
  · rw [proc]
    exact (touches_execute well.consistent request).keeps c

theorem callQueued_keeps (setting : Setting F L) (different : c ≠ n) (requests : List Request)
    (moments : Nat → Moment)
    (well : s.WellWatched)
    : Keeps c s (s.callQueued setting n moments requests) := by
  induction requests generalizing s moments with
  | nil => exact .refl c s
  | cons request requests ih =>
      have called : Keeps c s (s.call setting (moments 0) n request) :=
        call_keeps well fun same => different same.1.symm
      exact called.trans (ih _ (call_wellWatched well request))

theorem step_keeps (well : s.WellWatched) {event : Event} (stays : ¬ s.EndsWatch c event)
    : Keeps c s (s.step setting event) := by
  cases event with
  | command n moment request =>
      rw [Server.step]
      split
      · exact setClient_keeps rfl rfl
      · rename_i notMulti
        refine call_keeps well fun same => stays ⟨same.1, same.2, ?_⟩
        rw [← same.1]
        exact Bool.eq_false_iff.mpr notMulti
  | refused n =>
      rw [Server.step, Server.flagTransaction]
      split
      · exact setClient_keeps rfl rfl
      · exact .refl c s
  | multi n => exact setClient_keeps rfl rfl
  | exec n moments =>
      rw [Server.step, Server.execCommand]
      dsimp only
      split
      · exact .refl c s
      · rename_i inside
        have different : c ≠ n := by
          rintro rfl
          exact stays ⟨rfl, Bool.not_eq_false _ ▸ inside⟩
        split
        · exact discardTransaction_keeps different s
        · have unwatched := unwatchAllKeys_keeps different s
          have called := callQueued_keeps setting different (s.clients n).commands
            moments (unwatchAllKeys_wellWatched well n)
          exact (unwatched.trans called).trans (discardTransaction_keeps different _)
  | discard n =>
      rw [Server.step, Server.discardCommand]
      split
      · rename_i inside
        refine discardTransaction_keeps ?_ s
        rintro rfl
        exact stays ⟨rfl, inside⟩
      · exact .refl c s
  | watch n keys =>
      rw [Server.step, Server.watchCommand]
      split
      · exact .refl c s
      · exact watchKeys_keeps n keys
  | disconnect n =>
      have different : c ≠ n := fun same => stays same.symm
      exact (unwatchAllKeys_keeps different s).trans (setClient_keeps_other different _ _)
  | expireCycle moment id key => exact (detects_expireIfNeeded ..).toTouches.keeps c

theorem run_keeps (well : s.WellWatched) {events : List Event}
    (keeps : s.KeepsWatch setting c events)
    : Keeps c s (s.run setting events) := by
  induction events generalizing s with
  | nil => exact .refl c s
  | cons event events ih =>
      exact (step_keeps well keeps.1).trans (ih (step_wellWatched well event) keeps.2)

theorem keepsWatch_append {first second : List Event}
    (keeps : s.KeepsWatch setting c (first ++ second))
    : s.KeepsWatch setting c first ∧ (s.run setting first).KeepsWatch setting c second := by
  induction first generalizing s with
  | nil => exact ⟨trivial, keeps⟩
  | cons event events ih =>
      obtain ⟨before, behind⟩ := ih keeps.2
      exact ⟨⟨keeps.1, before⟩, behind⟩

-- The change

theorem call_dirty (well : s.WellWatched) (watched : (id, key) ∈ (s.clients c).watchedKeys)
    (changes : Call.Changes setting ⟨s, moment, n, request⟩ id key)
    (loud : ¬ Call.Silent setting ⟨s, moment, n, request⟩)
    : ((s.call setting moment n request).clients c).dirtyCas = true := by
  have watches := (well.consistent c id key).mpr watched
  obtain rfl | ⟨index, rfl⟩ | proc := call_cases setting moment s n request
  · exact absurd (Unchanged.refl ..) changes
  · refine absurd ?_ changes
    rw [Call.result, Server.call]
    dsimp only
    split
    · exact .refl ..
    · exact .refl ..
  · have detects : Detects moment s (s.call setting moment n request) := by
      rw [proc]
      exact detects_execute well.consistent loud
    exact detects.detected id key changes c watches

theorem queuedCalls_dirty (different : c ≠ n) (requests : List Request) (moments : Nat → Moment)
    (well : s.WellWatched) (watched : (id, key) ∈ (s.clients c).watchedKeys) {call : Call F}
    (called : call ∈ s.queuedCalls setting n moments requests)
    (changes : call.Changes setting id key) (loud : ¬ call.Silent setting)
    : ((s.callQueued setting n moments requests).clients c).dirtyCas = true := by
  induction requests generalizing s moments with
  | nil => exact absurd called List.not_mem_nil
  | cons request requests ih =>
      have well' : (s.call setting (moments 0) n request).WellWatched :=
        call_wellWatched well request
      obtain rfl | later := List.mem_cons.mp called
      · exact (callQueued_keeps setting different requests _ well').dirty
          (call_dirty well watched changes loud)
      · have kept : Keeps c s (s.call setting (moments 0) n request) :=
          call_keeps well fun same => different same.1.symm
        exact ih _ well' (kept.watched _ watched) later

theorem step_dirty (well : s.WellWatched) (watched : (id, key) ∈ (s.clients c).watchedKeys)
    {event : Event} (stays : ¬ s.EndsWatch c event) {call : Call F}
    (called : call ∈ s.calls setting event) (changes : call.Changes setting id key)
    (loud : ¬ call.Silent setting)
    : ((s.step setting event).clients c).dirtyCas = true := by
  cases event with
  | command n moment request =>
      rw [Server.calls] at called
      split at called
      · exact absurd called List.not_mem_nil
      · rename_i notMulti
        obtain rfl := List.mem_singleton.mp called
        rw [Server.step, if_neg notMulti]
        exact call_dirty well watched changes loud
  | exec n moments =>
      rw [Server.calls] at called
      split at called
      · exact absurd called List.not_mem_nil
      · rename_i inside
        split at called
        · exact absurd called List.not_mem_nil
        · rename_i clean
          have different : c ≠ n := by
            rintro rfl
            exact stays ⟨rfl, Bool.not_eq_false _ ▸ inside⟩
          rw [Server.step, Server.execCommand]
          dsimp only
          rw [if_neg inside, if_neg clean]
          refine (discardTransaction_keeps different _).dirty ?_
          exact queuedCalls_dirty different _ moments (unwatchAllKeys_wellWatched well n)
            ((unwatchAllKeys_keeps different s).watched _ watched) called changes loud
  | _ => exact absurd called List.not_mem_nil

end Watching

-- Transactions

/-- A run in which a client watches keys, then an event changes one, and then the client sends
`EXEC`.
-/
structure Interleaving where
  client : Nat
  keys : List Sds
  /-- What happens before `WATCH`, up to the change, and behind it. -/
  before : List Event
  between : List Event
  change : Event
  after : List Event

namespace Interleaving

variable (setting : Setting F L) (dbs : Nat → Db F) (i : Interleaving)

/-- The server when `WATCH` arrives. -/
def start : Server F := (Server.start dbs).run setting i.before

/-- The server behind `WATCH`. -/
def watching : Server F := (i.start setting dbs).step setting (.watch i.client i.keys)

def changing : Server F := (i.watching setting dbs).run setting i.between

/-- The server when `EXEC` arrives. -/
def ending : Server F := ((i.changing setting dbs).step setting i.change).run setting i.after

/-- A command of another client changes a watched key while it is watched. -/
structure Conflict (key : Sds) (call : Call F) : Prop where
  outside : ((i.start setting dbs).clients i.client).multi = false
  named : key ∈ i.keys
  keeps : (i.watching setting dbs).KeepsWatch setting i.client (i.between ++ i.change :: i.after)
  called : call ∈ (i.changing setting dbs).calls setting i.change
  other : call.client ≠ i.client
  changes : call.Changes setting ((i.start setting dbs).clients i.client).db key
  inside : ((i.ending setting dbs).clients i.client).multi = true

end Interleaving

/-- `EXEC` of a client executes nothing and replies nil, or an error if a command of the transaction
was refused.
-/
structure Server.Aborts (setting : Setting F L) (s : Server F) (n : Nat) (moments : Nat → Moment)
    : Prop where
  reply
    : (s.execCommand setting n moments).reply
      = if (s.clients n).dirtyExec then .execAbort else .nullMultiBulk
  executed : (s.execCommand setting n moments).executed = []
  dbs : (s.execCommand setting n moments).server.dbs = s.dbs

theorem aborts_of_dirty {setting : Setting F L} {s : Server F} {n : Nat}
    (inside : (s.clients n).multi = true) (dirty : (s.clients n).dirtyCas = true)
    (moments : Nat → Moment)
    : s.Aborts setting n moments := by
  have result
      : s.execCommand setting n moments
        = ⟨s.discardTransaction n,
            if (s.clients n).dirtyExec then .execAbort else .nullMultiBulk, []⟩ := by
    have isDirty : (s.clients n).isDirty = true := by
      rw [Client.isDirty, dirty, Bool.true_or]
    rw [Server.execCommand]
    dsimp only
    rw [inside, if_neg (by decide), if_pos isDirty]
  constructor
  · rw [result]
  · rw [result]
  · rw [result]
    rfl

/-- A transaction is aborted when a command has changed a key that its client watches, unless that
command is one of those that signal nothing.
-/
theorem changed_key_aborts (setting : Setting F L) (dbs : Nat → Db F) (i : Interleaving)
    (key : Sds) (call : Call F) (conflict : i.Conflict setting dbs key call)
    (loud : ¬ call.Silent setting) (moments : Nat → Moment)
    : (i.ending setting dbs).Aborts setting i.client moments := by
  have well : (i.start setting dbs).WellWatched := run_wellWatched (start_wellWatched dbs) i.before
  have wellWatching : (i.watching setting dbs).WellWatched := step_wellWatched well _
  have wellChanging : (i.changing setting dbs).WellWatched := run_wellWatched wellWatching i.between
  have watched
      : (((i.start setting dbs).clients i.client).db, key)
        ∈ ((i.watching setting dbs).clients i.client).watchedKeys := by
    rw [Interleaving.watching, Server.step, Server.watchCommand, conflict.outside,
      if_neg Bool.false_ne_true]
    exact watchKeys_watches conflict.named
  obtain ⟨keepsBetween, stays, keepsAfter⟩ := keepsWatch_append conflict.keeps
  have stillWatched := (run_keeps wellWatching keepsBetween).watched _ watched
  have dirty :=
    step_dirty wellChanging stillWatched stays conflict.called conflict.changes loud
  have stillDirty := (run_keeps (step_wellWatched wellChanging i.change) keepsAfter).dirty dirty
  exact aborts_of_dirty conflict.inside stillDirty moments

-- Two runs

/-- A setting for runs that use strings only. -/
def stringSetting : Setting Unit Unit where
  env :=
    { now := 0
      parse := fun _ => none
      zero := ()
      add := fun _ _ => ()
      isNanOrInf := fun _ => false
      text := fun _ => []
      random := fun _ => none
      random_mem := random_mem_of_none }
  scores := ⟨fun _ => none, fun _ => [], fun _ _ => none, fun _ _ => true⟩
  sortedSets := ⟨fun _ => 0, fun _ _ _ => none, fun _ _ _ => none⟩
  hll := hyperLogLog 3000
  config := ⟨16, false⟩

/-- The moment of all the commands of these runs. -/
def runMoment : Moment := ⟨0, .master⟩

/-- Client 0 watches the key `k`, which client 1 has set; client 1 sends a request; client 0 sends
`MULTI`.
-/
def requestBetween (request : Request) : Interleaving where
  client := 0
  keys := [[0x6B]]
  before := [.command 1 runMoment (.set [0x6B] [0x76] [])]
  between := []
  change := .command 1 runMoment request
  after := [.multi 0]

/-- The call of the request of client 1. -/
def requestCall (request : Request) : Call Unit where
  server := (requestBetween request).changing stringSetting fun _ => .empty
  moment := runMoment
  client := 1
  request := request

theorem requestBetween_conflict (notUnwatch : request ≠ .unwatch) (inside
      : (((requestBetween request).ending stringSetting fun _ => .empty).clients 0).multi = true)
    (changes : (requestCall request).Changes stringSetting 0 [0x6B])
    : (requestBetween request).Conflict stringSetting (fun _ => .empty) [0x6B]
        (requestCall request) where
  outside := rfl
  named := List.mem_singleton.mpr rfl
  keeps := ⟨fun ends => notUnwatch ends.2.1, fun ends => ends, trivial⟩
  called := List.mem_singleton.mpr rfl
  other := Nat.one_ne_zero
  changes := changes
  inside := inside

/-- `MOVE` takes the watched key away, and `EXEC` runs the transaction. -/
theorem move_unnoticed
    : ¬ ∀ (i : Interleaving) (key : Sds) (call : Call Unit) (moments : Nat → Moment),
        i.Conflict stringSetting (fun _ => .empty) key call
        → (i.ending stringSetting fun _ => .empty).Aborts stringSetting i.client moments := by
  intro always
  have changes : (requestCall (.move [0x6B] [0x31])).Changes stringSetting 0 [0x6B] := by
    have gone
        : (((requestCall (.move [0x6B] [0x31])).result stringSetting).dbs 0).dict [0x6B] = none :=
          rfl
    rintro (⟨dict, _⟩ | ⟨_, expired, _⟩)
    · rw [gone] at dict
      cases dict
    · cases expired
  have conflict := requestBetween_conflict (Request.noConfusion) rfl changes
  have reply := (always _ _ _ (fun _ => runMoment) conflict).reply
  cases reply

/-- `SET` of the watched key is noticed. -/
theorem set_noticed
    : ((requestBetween (.set [0x6B] [0x77] [])).ending stringSetting fun _ => .empty).Aborts
        stringSetting 0 fun _ => runMoment := by
  have changes : (requestCall (.set [0x6B] [0x77] [])).Changes stringSetting 0 [0x6B] := by
    rintro (⟨dict, _⟩ | ⟨_, expired, _⟩)
    · cases dict
    · cases expired
  have conflict := requestBetween_conflict (Request.noConfusion) rfl changes
  exact changed_key_aborts stringSetting (fun _ => .empty) _ [0x6B] _ conflict id fun _ => runMoment

section Silence

variable {setting : Setting F L} {moment : Moment} {id : Nat} {s : Server F}

theorem silent_changes {request : Request} (silent : s.Silent setting moment id request)
    : (s.execute setting moment id request).clients = s.clients
      ∧ ∃ id' key,
          ¬ Unchanged moment (s.dbs id') ((s.execute setting moment id request).dbs id') key := by
  cases request with
  | move key index =>
      obtain ⟨notCluster, target, accepted, different, finds, absent⟩ := silent
      obtain ⟨value, found⟩ := Option.isSome_iff_exists.mp finds
      obtain ⟨same, notExpired⟩ := expireIfNeeded_found found
      rw [same] at found
      have missing : ((s.expireIfNeeded moment target key).dbs target).dict key = none :=
        Option.not_isSome_iff_eq_none.mp (Bool.eq_false_iff.mp absent)
      rw [Server.execute, Server.moveCommand, notCluster, if_neg Bool.false_ne_true, accepted]
      dsimp only
      rw [if_neg different, same, found]
      dsimp only
      rw [if_neg (not_not.mpr missing)]
      constructor
      · exact expireIfNeeded_clients ..
      · refine ⟨id, key, ?_⟩
        rw [setDb_dbs_self]
        rintro (⟨gone, _⟩ | ⟨master, expired, _⟩)
        · rw [dbDelete_dict, found] at gone
          cases gone
        · exact notExpired ⟨master, expired⟩
  | persist key =>
      have there : (s.dbs id).dict key ≠ none := fun absent =>
        silent ((s.dbs id).expires_in_dict key absent)
      obtain ⟨value, found⟩ := Option.ne_none_iff_exists'.mp there
      rw [Server.execute, Server.persistCommand, found]
      refine ⟨rfl, id, key, ?_⟩
      dsimp only
      rw [setDb_dbs_self]
      rintro (⟨_, expires⟩ | ⟨_, _, gone⟩)
      · rw [removeExpire_expires] at expires
        exact silent expires.symm
      · exact there gone
  | pfadd key elements =>
      obtain ⟨text, created, start, failed, change⟩ := silent
      rw [Server.execute, Server.pfaddCommand]
      dsimp only
      rw [start]
      dsimp only
      rw [if_pos failed]
      constructor
      · exact expireIfNeeded_clients ..
      · refine ⟨id, key, ?_⟩
        rw [setDb_dbs_self]
        cases absent : ((s.expireIfNeeded moment id key).dbs id).dict key with
        | none => exact created_changed absent _
        | some value =>
            obtain ⟨same, _⟩ := expireIfNeeded_found absent
            rw [same] at absent start ⊢
            have notCreated : created = false ∧ value = .string text := by
              rw [pfaddStart, absent] at start
              cases value with
              | string old =>
                  dsimp only at start
                  split at start
                  · cases start
                    exact ⟨rfl, rfl⟩
                  · cases start
              | _ => cases start
            rintro (⟨dict, _⟩ | ⟨_, _, gone⟩)
            · rw [ObjectDb.store_dict_self, absent, notCreated.2] at dict
              injection dict with texts
              injection texts with texts
              exact change.elim (fun isCreated => by simp [notCreated.1] at isCreated)
                (fun differ => differ texts)
            · rw [ObjectDb.store_dict_self] at gone
              cases gone
  | zadd key args => exact zadd_silent silent
  | zincrby key increment member => exact zadd_silent silent
  | zremrange type key min max =>
      obtain ⟨range, zset, parsed, found, notRank, none, isZero⟩ := silent
      obtain ⟨same, notExpired⟩ := expireIfNeeded_found found
      rw [same] at found
      rw [Server.execute, Server.zremrangeGenericCommand, parsed]
      dsimp only
      rw [same, found]
      dsimp only
      rw [if_neg (fun rank => notRank rank.1), if_neg (not_not.mpr none), none, List.foldl_nil,
        storeElements, if_pos isZero]
      refine ⟨rfl, id, key, ?_⟩
      rw [setDb_dbs_self]
      rintro (⟨gone, _⟩ | ⟨master, expired, _⟩)
      · rw [dbDelete_dict, found] at gone
        cases gone
      · exact notExpired ⟨master, expired⟩
  | _ => exact silent.elim

/-- A server with one key, which has an expire time. -/
def expiringServer : Server Unit :=
  Server.start fun _ => (ObjectDb.empty.store [0x6B] (.string [])).setExpire [0x6B] 1

theorem silent_changes_persist
    : (expiringServer.execute stringSetting runMoment 0 (.persist [0x6B])).clients
        = expiringServer.clients
      ∧ ∃ id key,
          ¬ Unchanged runMoment (expiringServer.dbs id)
            ((expiringServer.execute stringSetting runMoment 0 (.persist [0x6B])).dbs id) key :=
  silent_changes
    (show expiringServer.Silent stringSetting runMoment 0 (.persist [0x6B])
      from Option.some_ne_none _)

end Silence

end Redis.Watch
