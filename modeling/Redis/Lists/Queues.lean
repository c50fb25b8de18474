import Redis.Lists.Model

/-! The queues of the keys agree with the blocked clients, in the order in which they blocked. -/

namespace Redis.Lists

section Frames

variable {K α : Type} {s t : Server K α}

/-- Two states with the same blocked clients. -/
structure SameQueues (s t : Server K α) : Prop where
  blockingKeys : t.blockingKeys = s.blockingKeys
  blocked : t.blocked = s.blocked
  clock : t.clock = s.clock

theorem SameQueues.refl (s : Server K α) : SameQueues s s := ⟨rfl, rfl, rfl⟩

theorem SameQueues.trans {u : Server K α} (first : SameQueues s t) (second : SameQueues t u)
    : SameQueues s u :=
  ⟨second.blockingKeys.trans first.blockingKeys, second.blocked.trans first.blocked,
    second.clock.trans first.clock⟩

theorem isBlocked_false {client : Nat} (free : s.isBlocked client = false)
    : ∀ b ∈ s.blocked, b.client ≠ client := by
  intro b member same
  have found : s.isBlocked client = true := List.any_eq_true.mpr ⟨b, member, by simpa using same⟩
  rw [free] at found
  cases found

end Frames

variable {K α : Type} [DecidableEq K] {s t : Server K α} {key : K}

/-- The queue of a key as the blocked clients have it. -/
def waitingOn (blocked : List (Blocked K)) (key : K) : List (Blocked K) :=
  blocked.filter (fun b => key ∈ b.keys)

/-- `db->blocking_keys` and the clients agree. -/
structure QueuesAgree (s : Server K α) : Prop where
  queues : ∀ key, s.blockingKeys key = (waitingOn s.blocked key).map (·.client)
  distinct : (s.blocked.map (·.client)).Nodup
  ordered : s.blocked.Pairwise (fun earlier later => earlier.seq < later.seq)
  clock : ∀ b ∈ s.blocked, b.seq < s.clock

theorem QueuesAgree.same (agree : QueuesAgree s) (same : SameQueues s t) : QueuesAgree t := by
  obtain ⟨queues, distinct, ordered, clock⟩ := agree
  refine ⟨?_, ?_, ?_, ?_⟩
  · rw [same.blockingKeys, same.blocked]
    exact queues
  · rw [same.blocked]
    exact distinct
  · rw [same.blocked]
    exact ordered
  · rw [same.blocked, same.clock]
    exact clock

-- Operations on keys

theorem sameQueues_setItems (s : Server K α) (key : K) (items : List α)
    : SameQueues s (s.setItems key items) := ⟨rfl, rfl, rfl⟩

theorem sameQueues_signal (s : Server K α) (key : K) : SameQueues s (s.signalListAsReady key) := by
  unfold Server.signalListAsReady
  split
  · exact .refl s
  · split
    · exact .refl s
    · exact ⟨rfl, rfl, rfl⟩

theorem sameQueues_dbAdd (s : Server K α) (key : K) (value : Value α)
    : SameQueues s (s.dbAdd key value) := by
  cases value with
  | list items =>
      have stored : SameQueues s { s with db := s.db.insert key (.list items) } := ⟨rfl, rfl, rfl⟩
      exact stored.trans (sameQueues_signal _ key)
  | other => exact ⟨rfl, rfl, rfl⟩

theorem sameQueues_setKey (s : Server K α) (key : K) (value : Value α)
    : SameQueues s (s.setKey key value) := by
  unfold Server.setKey
  split
  · exact sameQueues_dbAdd s key value
  · exact ⟨rfl, rfl, rfl⟩

theorem sameQueues_dbDelete (s : Server K α) (key : K) : SameQueues s (s.dbDelete key) :=
  ⟨rfl, rfl, rfl⟩

theorem sameQueues_deleteIfEmpty (s : Server K α) (key : K)
    : SameQueues s (s.deleteIfEmpty key) := by
  unfold Server.deleteIfEmpty
  split
  · exact sameQueues_dbDelete s key
  · exact .refl s

theorem sameQueues_push (s : Server K α) (place : Where) (key : K) (values : List α)
    : SameQueues s (s.pushGenericCommand place key values) := by
  unfold Server.pushGenericCommand
  split
  · exact .refl s
  · exact .refl s
  · exact ⟨rfl, rfl, rfl⟩
  · obtain ⟨blockingKeys, blocked, clock⟩ := sameQueues_dbAdd s key (.list [])
    exact ⟨blockingKeys, blocked, clock⟩

theorem sameQueues_popList (s : Server K α) (client : Nat) (key : K) (value : α) (rest : List α)
    : SameQueues s (s.popList client key value rest) := by
  obtain ⟨blockingKeys, blocked, clock⟩ :=
    (sameQueues_setItems s key rest).trans (sameQueues_deleteIfEmpty _ key)
  exact ⟨blockingKeys, blocked, clock⟩

theorem sameQueues_pop (s : Server K α) (client : Nat) (place : Where) (key : K)
    : SameQueues s (s.popGenericCommand client place key) := by
  unfold Server.popGenericCommand
  split
  · split
    · exact sameQueues_popList s client key _ _
    · exact .refl s
  · exact .refl s

theorem sameQueues_handlePush (s : Server K α) (target : K) (value : α)
    : SameQueues s (s.rpoplpushHandlePush target value) := by
  unfold Server.rpoplpushHandlePush
  split
  · exact (sameQueues_dbAdd s target (.list [])).trans (sameQueues_setItems _ target _)
  · exact sameQueues_setItems s target _
  · exact .refl s

theorem sameQueues_rpoplpush (s : Server K α) (source target : K)
    : SameQueues s (s.rpoplpushCommand source target) := by
  unfold Server.rpoplpushCommand
  split
  · split
    · exact .refl s
    · split
      · exact ((sameQueues_setItems s source _).trans (sameQueues_handlePush _ target _)).trans
          (sameQueues_deleteIfEmpty _ source)
      · exact .refl s
  · exact .refl s

theorem sameQueues_rename (s : Server K α) (nx : Bool) (source target : K)
    : SameQueues s (s.renameGenericCommand nx source target) := by
  unfold Server.renameGenericCommand
  split
  · exact .refl s
  · split
    · exact .refl s
    · split
      · exact .refl s
      · exact ((sameQueues_dbDelete s target).trans (sameQueues_dbAdd _ target _)).trans
          (sameQueues_dbDelete _ source)

theorem sameQueues_restore (s : Server K α) (replace : Bool) (key : K) (value : Value α)
    : SameQueues s (s.restoreCommand replace key value) := by
  unfold Server.restoreCommand
  split
  · exact .refl s
  · exact (sameQueues_dbDelete s key).trans (sameQueues_dbAdd _ key value)

theorem sameQueues_sortStore (s : Server K α) (key : K) (items : List α)
    : SameQueues s (s.sortStore key items) := by
  unfold Server.sortStore
  split
  · exact sameQueues_dbDelete s key
  · exact sameQueues_setKey s key _

theorem sameQueues_editList (s : Server K α) (key : K) (edit : List α → List α)
    : SameQueues s (s.editList key edit) := by
  unfold Server.editList
  split
  · split
    · exact .refl s
    · exact sameQueues_setItems s key _
  · exact .refl s

-- Blocking

theorem blockForKeys_loop (client : Nat) (keys added : List K) (queues : K → List Nat)
    : (∀ key, key ∈ (keys.foldl (blockForKey client) (added, queues)).1 ↔ key ∈ added ∨ key ∈ keys)
      ∧ ∀ key, (keys.foldl (blockForKey client) (added, queues)).2 key
          = if key ∈ keys ∧ key ∉ added then queues key ++ [client] else queues key := by
  induction keys generalizing added queues with
  | nil => simp
  | cons first keys ih =>
      rw [List.foldl_cons, blockForKey]
      by_cases known : first ∈ added
      · rw [if_pos known]
        obtain ⟨members, tables⟩ := ih added queues
        refine ⟨fun key => ?_, fun key => ?_⟩
        · rw [members, List.mem_cons]
          constructor
          · rintro (old | new)
            · exact .inl old
            · exact .inr (.inr new)
          · rintro (old | rfl | new)
            · exact .inl old
            · exact .inl known
            · exact .inr new
        · rw [tables]
          by_cases same : key = first
          · subst same
            simp [known]
          · simp [same]
      · rw [if_neg known]
        obtain ⟨members, tables⟩ := ih (added ++ [first])
          (Function.update queues first (queues first ++ [client]))
        refine ⟨fun key => ?_, fun key => ?_⟩
        · rw [members, List.mem_append, List.mem_singleton, List.mem_cons, or_assoc]
        · rw [tables]
          by_cases same : key = first
          · subst same
            simp [known]
          · simp [same]

theorem QueuesAgree.block (agree : QueuesAgree s) {client : Nat} (free : s.isBlocked client = false)
    (keys : List K) (target : Option K) (blpop : Bool)
    : QueuesAgree (s.blockForKeys client keys target blpop) := by
  obtain ⟨queues, distinct, ordered, clock⟩ := agree
  obtain ⟨members, tables⟩ := blockForKeys_loop client keys [] s.blockingKeys
  have others := isBlocked_false free
  refine ⟨fun key => ?_, ?_, ?_, ?_⟩
  · change (keys.foldl (blockForKey client) ([], s.blockingKeys)).2 key = _
    rw [tables, queues]
    simp only [Server.blockForKeys, waitingOn, List.filter_append, List.map_append]
    by_cases waits : key ∈ keys
    · simp [waits, members]
    · simp [waits, members]
  · simp only [Server.blockForKeys, List.map_append]
    refine List.nodup_append.mpr ⟨distinct, by simp, ?_⟩
    intro known inside new same
    obtain ⟨b, member, rfl⟩ := List.mem_map.mp inside
    have equal : new = client := by simpa using same
    rw [equal]
    exact others b member
  · refine List.pairwise_append.mpr ⟨ordered, List.pairwise_singleton _ _, ?_⟩
    intro b member new last
    rw [List.mem_singleton.mp last]
    exact clock b member
  · intro b member
    rcases List.mem_append.mp member with old | new
    · exact Nat.lt_succ_of_lt (clock b old)
    · rw [List.mem_singleton.mp new]
      exact Nat.lt_succ_self _

-- Unblocking

theorem QueuesAgree.unique (agree : QueuesAgree s) {b c : Blocked K} (first : b ∈ s.blocked)
    (second : c ∈ s.blocked) (same : b.client = c.client)
    : b = c :=
  List.inj_on_of_nodup_map agree.distinct first second same

theorem QueuesAgree.find (agree : QueuesAgree s) {b : Blocked K} (member : b ∈ s.blocked)
    : s.blocked.find? (fun other => other.client = b.client) = some b := by
  cases found : s.blocked.find? (fun other => other.client = b.client) with
  | none =>
      have none := List.find?_eq_none.mp found b member
      simp at none
  | some other =>
      have same : other.client = b.client := by simpa using List.find?_some found
      rw [agree.unique (List.mem_of_find?_eq_some found) member same]

theorem waitingOn_unblock (agree : QueuesAgree s) {receiver : Blocked K}
    (member : receiver ∈ s.blocked) (key : K)
    : (s.unblockClient receiver).blockingKeys key
      = (waitingOn (s.unblockClient receiver).blocked key).map (·.client) := by
  have others : waitingOn (s.unblockClient receiver).blocked key
      = (waitingOn s.blocked key).filter (fun b => b.client ≠ receiver.client) := by
    simp only [waitingOn, Server.unblockClient, List.filter_filter, Bool.and_comm]
  have removed : (waitingOn (s.unblockClient receiver).blocked key).map (·.client)
      = (s.blockingKeys key).filter (fun client => client ≠ receiver.client) := by
    rw [others, agree.queues, List.filter_map]
    rfl
  have nodup : (s.blockingKeys key).Nodup := by
    rw [agree.queues]
    exact (List.filter_sublist.map Blocked.client).nodup agree.distinct
  rw [removed]
  simp only [Server.unblockClient]
  split
  · rw [nodup.erase_eq_filter]
    refine List.filter_congr ?_
    intro client _
    by_cases same : client = receiver.client
    · simp [same]
    · simp [same]
  · rename_i elsewhere
    refine (List.filter_eq_self.mpr ?_).symm
    intro client waiting
    rw [agree.queues] at waiting
    obtain ⟨b, inside, rfl⟩ := List.mem_map.mp waiting
    obtain ⟨known, hasKey⟩ := List.mem_filter.mp inside
    have different : b.client ≠ receiver.client := by
      intro same
      rw [agree.unique known member same] at hasKey
      exact elsewhere (by simpa using hasKey)
    simpa using different

/-- Unblocking a client takes it out of all its queues. -/
theorem QueuesAgree.unblock (agree : QueuesAgree s) {receiver : Blocked K}
    (member : receiver ∈ s.blocked)
    : QueuesAgree (s.unblockClient receiver) := by
  refine ⟨waitingOn_unblock agree member, ?_, ?_, ?_⟩
  · exact (List.filter_sublist.map Blocked.client).nodup agree.distinct
  · exact agree.ordered.sublist List.filter_sublist
  · intro b inside
    exact agree.clock b (List.mem_of_mem_filter inside)

end Redis.Lists
