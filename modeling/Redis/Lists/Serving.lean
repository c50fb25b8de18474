import Redis.Lists.Ready

/-! `handleClientsBlockedOnLists` ends, and behind it no client waits for a list with elements. -/

namespace Redis.Lists

variable {K α : Type} [DecidableEq K] {s t : Server K α} {key : K} {pending : List K}

-- One client

def Blocked.place (receiver : Blocked K) : Where := if receiver.blpop then .head else .tail

theorem QueuesAgree.first (agree : QueuesAgree s) {client : Nat} {more : List Nat}
    (queue : s.blockingKeys key = client :: more)
    : ∃ receiver others, receiver.client = client
        ∧ receiver ∈ s.blocked
        ∧ waitingOn s.blocked key = receiver :: others
        ∧ key ∈ receiver.keys
        ∧ (s.unblockClient receiver).blockingKeys key = more := by
  have waiting := agree.queues key
  rw [queue] at waiting
  cases split : waitingOn s.blocked key with
  | nil =>
      rw [split] at waiting
      cases waiting
  | cons receiver others =>
      rw [split] at waiting
      obtain ⟨same, _⟩ := List.cons.inj waiting
      have inside : receiver ∈ waitingOn s.blocked key := by
        rw [split]
        exact List.mem_cons_self
      obtain ⟨member, hasKey⟩ := List.mem_filter.mp inside
      have onKey : key ∈ receiver.keys := by simpa using hasKey
      refine ⟨receiver, others, same.symm, member, rfl, onKey, ?_⟩
      simp only [Server.unblockClient, if_pos onKey, queue, same, List.erase_cons_head]

theorem serveFirst_some (agree : QueuesAgree s) {next : Server K α}
    (served : s.serveFirst key = some next)
    : ∃ items receiver others value rest,
        s.db.lookup key = some (.list items)
        ∧ receiver ∈ s.blocked
        ∧ waitingOn s.blocked key = receiver :: others
        ∧ s.blockingKeys key = receiver.client :: (s.unblockClient receiver).blockingKeys key
        ∧ listTypePop receiver.place items = some (value, rest)
        ∧ next = ((s.setItems key rest).unblockClient receiver).serveClientBlockedOnList receiver
          key
            receiver.place value items rest := by
  unfold Server.serveFirst at served
  split at served
  · rename_i items client more found queue
    obtain ⟨receiver, others, same, member, waiting, _, rest⟩ := agree.first queue
    rw [← same, agree.find member] at served
    dsimp only at served
    split at served
    · cases served
    · rename_i value remaining popped
      refine ⟨items, receiver, others, value, remaining, found, member, waiting, ?_, popped, ?_⟩
      · rw [queue, same, rest]
      · exact (Option.some.inj served).symm
  · cases served

theorem serveFirst_none (agree : QueuesAgree s) (stopped : s.serveFirst key = none) {items : List α}
    (found : s.db.lookup key = some (.list items))
    : items = [] ∨ s.blockingKeys key = [] := by
  cases queue : s.blockingKeys key with
  | nil => exact .inr rfl
  | cons client more =>
      left
      obtain ⟨receiver, others, same, member, _⟩ := agree.first queue
      unfold Server.serveFirst at stopped
      simp only [found, queue, ← same, agree.find member] at stopped
      cases items with
      | nil => rfl
      | cons value rest => cases blpop : receiver.blpop <;> simp [blpop, listTypePop] at stopped

theorem KeysReady.unblock {allowed : K → Prop} (ready : KeysReady pending allowed s)
    (receiver : Blocked K)
    : KeysReady pending allowed (s.unblockClient receiver) := by
  obtain ⟨signaled, nodup, covered, nonempty⟩ := ready
  refine ⟨signaled, nodup, ?_, nonempty⟩
  intro other value rest found waiting
  refine covered other value rest found ?_
  intro noClients
  apply waiting
  simp only [Server.unblockClient, noClients, List.erase_nil, ite_self]

theorem handlePush_list {target : K} {value : α} {items : List α}
    (found : s.db.lookup key = some (.list items))
    : ∃ items', (s.rpoplpushHandlePush target value).db.lookup key = some (.list items') := by
  unfold Server.rpoplpushHandlePush
  split
  · rename_i absent
    have different : key ≠ target := by
      rintro rfl
      rw [found] at absent
      cases absent
    refine ⟨items, ?_⟩
    rw [dbAdd_setItems, Server.dbAdd, (signal_frame _ target).1]
    exact (AList.lookup_insert_ne different).trans found
  · rename_i old _
    by_cases same : key = target
    · subst same
      exact ⟨value :: old, AList.lookup_insert _⟩
    · exact ⟨items, (AList.lookup_insert_ne same).trans found⟩
  · exact ⟨items, found⟩

/-- The state of the loop over the clients of a key. -/
structure Serving (pending : List K) (key : K) (s : Server K α) : Prop where
  agree : QueuesAgree s
  ready : KeysReady pending (fun other => other = key) s
  isList : ∃ items, s.db.lookup key = some (.list items)

theorem sameQueues_serve (s : Server K α) (receiver : Blocked K) (key : K) (place : Where)
    (value : α) (before rest : List α)
    : SameQueues s (s.serveClientBlockedOnList receiver key place value before rest) := by
  unfold Server.serveClientBlockedOnList
  split
  · exact ⟨rfl, rfl, rfl⟩
  · split
    · exact ⟨rfl, rfl, rfl⟩
    · obtain ⟨blockingKeys, blocked, clock⟩ := sameQueues_handlePush s _ value
      exact ⟨blockingKeys, blocked, clock⟩

theorem Serving.serveFirst (serving : Serving pending key s) {next : Server K α}
    (served : s.serveFirst key = some next)
    : Serving pending key next
      ∧ s.blockingKeys key ≠ []
      ∧ (next.blockingKeys key).length + 1 = (s.blockingKeys key).length
      ∧ next.blocked.length < s.blocked.length := by
  obtain ⟨items, receiver, others, value, rest, _, member, _, queue, _, rfl⟩ :=
    serveFirst_some serving.agree served
  have stored : KeysReady pending (fun other => other = key) (s.setItems key rest) :=
    serving.ready.setItems (.inl rfl) (.inr rfl)
  have freed := stored.unblock receiver
  have same := sameQueues_serve ((s.setItems key rest).unblockClient receiver) receiver key
    receiver.place value items rest
  have list : ((s.setItems key rest).unblockClient receiver).db.lookup key = some (.list rest) :=
    AList.lookup_insert _
  have agree : QueuesAgree ((s.setItems key rest).unblockClient receiver) :=
    (serving.agree.same (sameQueues_setItems s key rest)).unblock member
  refine ⟨⟨agree.same same, ?_, ?_⟩, by rw [queue]; simp, ?_, ?_⟩
  · unfold Server.serveClientBlockedOnList
    split
    · exact freed.congr rfl rfl rfl rfl
    · split
      · exact (freed.setItems (.inl rfl) (.inr rfl)).congr rfl rfl rfl rfl
      · exact (freed.handlePush _ value).congr rfl rfl rfl rfl
  · unfold Server.serveClientBlockedOnList
    split
    · exact ⟨rest, list⟩
    · split
      · exact ⟨_, AList.lookup_insert _⟩
      · exact handlePush_list list
  · rw [same.blockingKeys, queue]
    rfl
  · rw [same.blocked]
    exact List.length_filter_lt_length_iff_exists.mpr ⟨receiver, member, by simp⟩

-- One key

theorem Serving.serveClients (serving : Serving pending key s) (numclients : Nat)
    (enough : (s.blockingKeys key).length ≤ numclients)
    : Serving pending key (serveClients key numclients s)
      ∧ ((Lists.serveClients key numclients s).blockingKeys key = []
        ∨ (Lists.serveClients key numclients s).db.lookup key = some (.list []))
      ∧ (Lists.serveClients key numclients s = s
        ∨ (Lists.serveClients key numclients s).blocked.length < s.blocked.length) := by
  induction numclients generalizing s with
  | zero =>
      have none : s.blockingKeys key = [] := List.eq_nil_of_length_eq_zero (by omega)
      exact ⟨serving, .inl none, .inl rfl⟩
  | succ numclients ih =>
      rw [Lists.serveClients]
      cases served : s.serveFirst key with
      | none =>
          obtain ⟨items, found⟩ := serving.isList
          refine ⟨serving, ?_, .inl rfl⟩
          rcases serveFirst_none serving.agree served found with rfl | none
          · exact .inr found
          · exact .inl none
      | some next =>
          obtain ⟨nextServing, _, shorter, fewer⟩ := serving.serveFirst served
          obtain ⟨last, stopped, progress⟩ := ih nextServing (by omega)
          refine ⟨last, stopped, .inr ?_⟩
          rcases progress with same | less
          · dsimp only
            rw [same]
            exact fewer
          · exact Nat.lt_trans less fewer

/-- The state between two keys of a round. -/
structure Handling (pending : List K) (s : Server K α) : Prop where
  agree : QueuesAgree s
  ready : KeysReady pending nowhere s

theorem KeysReady.unmark (ready : KeysReady (key :: pending) nowhere s)
    : KeysReady pending (fun other => other = key)
        { s with signaled := Function.update s.signaled key false } := by
  obtain ⟨signaled, nodup, covered, nonempty⟩ := ready
  obtain ⟨absent, rest⟩ := List.nodup_cons.mp nodup
  refine ⟨fun other => ?_, rest, ?_, fun other found => (nonempty other found).elim⟩
  · by_cases same : other = key
    · subst same
      simpa using absent
    · simp only [Function.update_of_ne same]
      rw [signaled, List.cons_append, List.mem_cons]
      exact or_iff_right same
  · intro other value rest found waiting
    by_cases same : other = key
    · exact .inl same
    · right
      simp only [Function.update_of_ne same]
      exact not_nowhere (covered other value rest found waiting)

theorem Handling.handleReadyKey (handling : Handling (key :: pending) s)
    : Handling pending (s.handleReadyKey key)
      ∧ ((s.handleReadyKey key).readyKeys = s.readyKeys
          ∧ (s.handleReadyKey key).blocked.length ≤ s.blocked.length
        ∨ (s.handleReadyKey key).blocked.length < s.blocked.length) := by
  have unmarked := handling.ready.unmark
  have agree : QueuesAgree { s with signaled := Function.update s.signaled key false } :=
    handling.agree.same ⟨rfl, rfl, rfl⟩
  unfold Server.handleReadyKey
  dsimp only
  split
  · rename_i items found
    have serving
        : Serving pending key { s with signaled := Function.update s.signaled key false } :=
      ⟨agree, unmarked, items, found⟩
    obtain ⟨last, stopped, progress⟩ :=
      serving.serveClients (s.blockingKeys key).length (Nat.le_refl _)
    have same := sameQueues_deleteIfEmpty
      (serveClients key (s.blockingKeys key).length
        { s with signaled := Function.update s.signaled key false }) key
    refine ⟨⟨last.agree.same same, last.ready.deleteIfEmpty ?_⟩, ?_⟩
    · rcases stopped with none | empty
      · exact .inl (.inl none)
      · exact .inr empty
    · rcases progress with untouched | fewer
      · left
        rw [untouched]
        refine ⟨?_, ?_⟩
        · unfold Server.deleteIfEmpty
          split <;> rfl
        · rw [(sameQueues_deleteIfEmpty _ key).blocked]
      · right
        rw [same.blocked]
        exact fewer
  · rename_i notList
    refine ⟨⟨agree, ?_⟩, .inl ⟨rfl, Nat.le_refl _⟩⟩
    obtain ⟨signaled, nodup, covered, nonempty⟩ := unmarked
    refine ⟨signaled, nodup, ?_, ?_⟩
    · intro other value rest found waiting
      rcases covered other value rest found waiting with same | marked
      · subst same
        exact absurd found (notList _)
      · exact .inr marked
    · intro other found
      have same := nonempty other found
      subst same
      exact absurd found (notList _)

-- Rounds

theorem Handling.round (keys : List K) (handling : Handling keys s)
    : Handling [] (keys.foldl Server.handleReadyKey s)
      ∧ ((keys.foldl Server.handleReadyKey s).readyKeys = s.readyKeys
          ∧ (keys.foldl Server.handleReadyKey s).blocked.length ≤ s.blocked.length
        ∨ (keys.foldl Server.handleReadyKey s).blocked.length < s.blocked.length) := by
  induction keys generalizing s with
  | nil => exact ⟨handling, .inl ⟨rfl, Nat.le_refl _⟩⟩
  | cons key keys ih =>
      obtain ⟨next, first⟩ := handling.handleReadyKey
      obtain ⟨last, rest⟩ := ih next
      refine ⟨last, ?_⟩
      rw [List.foldl_cons]
      rcases first with ⟨same, fewer⟩ | fewer
      · rcases rest with ⟨still, less⟩ | less
        · exact .inl ⟨still.trans same, Nat.le_trans less fewer⟩
        · exact .inr (Nat.lt_of_lt_of_le less fewer)
      · rcases rest with ⟨_, less⟩ | less
        · exact .inr (Nat.lt_of_le_of_lt less fewer)
        · exact .inr (Nat.lt_trans less fewer)

theorem Handling.start (handling : Handling [] s)
    : Handling s.readyKeys { s with readyKeys := [] } := by
  obtain ⟨agree, signaled, nodup, covered, nonempty⟩ := handling
  refine ⟨agree.same ⟨rfl, rfl, rfl⟩, ?_, ?_, covered, nonempty⟩
  · intro key
    rw [List.append_nil]
    exact signaled key
  · rw [List.append_nil]
    exact nodup

theorem Handling.rounds (rounds : Nat) (handling : Handling [] s)
    (enough : s.blocked.length + 1 < rounds)
    : Handling [] (handleRounds rounds s) ∧ (handleRounds rounds s).readyKeys = [] := by
  induction rounds generalizing s with
  | zero => omega
  | succ rounds ih =>
      rw [handleRounds]
      split
      · rename_i done
        exact ⟨handling, done⟩
      · obtain ⟨next, progress⟩ := handling.start.round s.readyKeys
        rcases progress with ⟨noKeys, _⟩ | fewer
        · cases rounds with
          | zero => omega
          | succ rounds =>
              rw [handleRounds, if_pos noKeys]
              exact ⟨next, noKeys⟩
        · exact ih next (by change _ < s.blocked.length at fewer; omega)

structure Quiescent (s : Server K α) : Prop where
  handling : Handling [] s
  noReadyKeys : s.readyKeys = []

/-- When it ends, nobody waits for a list with elements. -/
theorem Handling.handleClients (handling : Handling [] s)
    : Quiescent s.handleClientsBlockedOnLists := by
  obtain ⟨last, none⟩ := handling.rounds (s.blocked.length + 2) (by omega)
  exact ⟨last, none⟩

end Redis.Lists
