import Redis.Cluster.KeySlots
import Redis.Keyspace.SlotKeys

/-! Every run of calls keeps the expire times and the slots of the keys. -/

namespace Redis.SideIndexes

open Redis.Library
open Redis.Keyspace (Sds TimeUnit)

section Runs

variable {V : Type} {keyHashSlot : Sds → Nat} {s : Server V}

-- Flushing

theorem Indexed.emptyDict (indexed : Indexed keyHashSlot s) (id : Nat) (other : Nat) (key : Sds)
    (expire : ((s.emptyDict id).dbs other).expires key ≠ none)
    : lookupKey (s.emptyDict id) other key ≠ none := by
  unfold Server.emptyDict at expire ⊢
  rw [expires_setDb] at expire
  rw [lookupKey_setDb]
  split_ifs at expire ⊢ with here
  · exact absurd rfl expire
  · exact indexed.expires other key expire

theorem indexed_flushed {next : Server V}
    (expires : ∀ id key, (next.dbs id).expires key ≠ none → lookupKey next id key ≠ none)
    (empty : next.clusterEnabled = true → ∀ key, lookupKey next 0 key = none)
    : Indexed keyHashSlot (if next.clusterEnabled then slotToKeyFlush next else next) := by
  by_cases enabled : next.clusterEnabled = true
  · rw [if_pos enabled]
    refine ⟨expires, fun _ => List.Pairwise.nil, fun _ entry => ?_⟩
    change entry ∈ [] ↔ lookupKey next 0 entry.member ≠ none ∧ _
    simp [empty enabled]
  · rw [if_neg enabled]
    exact ⟨expires, fun on => absurd on enabled, fun on => absurd on enabled⟩

theorem flushdbCommand_ok {id : Nat} (indexed : Indexed keyHashSlot s) (home : s.Selects id)
    : Indexed keyHashSlot (flushdbCommand s id) ∧ SameSettings s (flushdbCommand s id) := by
  constructor
  · refine indexed_flushed (indexed.emptyDict id) ?_
    intro enabled key
    obtain rfl := home enabled
    rw [Server.emptyDict, lookupKey_setDb, if_pos rfl]
  · unfold flushdbCommand
    dsimp only
    split <;> exact ⟨rfl, rfl⟩

theorem emptyDicts_ok (count : Nat)
    : SameSettings s ((List.range count).foldl Server.emptyDict s)
      ∧ ∀ id,
          ((List.range count).foldl Server.emptyDict s).dbs id
            = if id < count then ⟨fun _ => none, fun _ => none⟩ else s.dbs id := by
  induction count with
  | zero => exact ⟨.refl s, fun id => rfl⟩
  | succ count ih =>
      obtain ⟨same, dbs⟩ := ih
      rw [List.range_succ, List.foldl_append]
      refine ⟨same.trans ⟨rfl, rfl⟩, fun id => ?_⟩
      rw [List.foldl_cons, List.foldl_nil, Server.emptyDict, Server.setDb]
      dsimp only
      rw [Function.update_apply, dbs]
      rcases Nat.lt_trichotomy id count with below | rfl | above
      · rw [if_neg (by omega), if_pos below, if_pos (by omega)]
      · rw [if_pos rfl, if_pos (Nat.lt_succ_self id)]
      · rw [if_neg (by omega), if_neg (by omega), if_neg (by omega)]

theorem emptyDb_ok (indexed : Indexed keyHashSlot s)
    : Indexed keyHashSlot (emptyDb s) ∧ SameSettings s (emptyDb s) := by
  obtain ⟨same, dbs⟩ := emptyDicts_ok (s := s) s.dbnum
  constructor
  · refine indexed_flushed ?_ ?_
    · intro id key expire
      rw [lookupKey, dbs]
      rw [dbs] at expire
      split_ifs at expire ⊢
      · exact absurd rfl expire
      · exact indexed.expires id key expire
    · intro _ key
      rw [lookupKey, dbs, if_pos s.dbnum_pos]
  · unfold emptyDb
    dsimp only
    split
    · exact ⟨same.dbnum, same.clusterEnabled⟩
    · exact same

-- Steps and runs

theorem step_ok (indexed : Indexed keyHashSlot s) {operation : Operation V}
    (allowed : operation.Allowed s)
    : ∃ next,
        s.step keyHashSlot operation = .ok next
        ∧ Indexed keyHashSlot next
        ∧ SameSettings s next := by
  -- The calls that also return a value.
  have first {β : Type} {run : Except Fault (Server V × β)}
      (ran : ∃ next value, run = .ok (next, value) ∧ Indexed keyHashSlot next ∧ SameSettings s next)
      : ∃ next, Prod.fst <$> run = .ok next ∧ Indexed keyHashSlot next ∧ SameSettings s next := by
    obtain ⟨next, value, rfl, facts⟩ := ran
    exact ⟨next, rfl, facts⟩
  cases operation with
  | dbAdd id key val =>
      obtain ⟨next, run, kept, same, _⟩ := dbAdd_ok indexed allowed.2 allowed.1 val
      exact ⟨next, run, kept, same⟩
  | dbOverwrite id key val =>
      obtain ⟨next, run, kept, same, _⟩ := dbOverwrite_ok indexed allowed val
      exact ⟨next, run, kept, same⟩
  | setKey moment id key val => exact setKey_ok indexed allowed moment key val
  | dbDelete id key =>
      obtain ⟨kept, same, _⟩ := dbDelete_ok indexed allowed key
      exact ⟨_, rfl, kept, same⟩
  | setExpire id key time => exact setExpire_ok indexed allowed time
  | removeExpire id key => exact first (removeExpire_ok indexed allowed)
  | expireIfNeeded moment id key => exact first (expireIfNeeded_ok indexed allowed moment key)
  | rename one two id key newkey nx =>
      exact first (renameGenericCommand_ok indexed allowed one two key newkey nx)
  | move one two src key dbid => exact first (moveCommand_ok indexed one two src key dbid)
  | expire one two id key param basetime unit =>
      exact first (expireGenericCommand_ok indexed allowed one two key param basetime unit)
  | flushdb id => exact ⟨_, rfl, flushdbCommand_ok indexed allowed⟩
  | flushall => exact ⟨_, rfl, emptyDb_ok indexed⟩
  | delKeysInSlot slot =>
      obtain ⟨keys, answers⟩ := indexed.slotAnswers allowed slot
      obtain ⟨next, run, kept, same, _⟩ := answers.delete
      exact first ⟨next, _, run, kept, same⟩

theorem run_ok {operations : List (Operation V)} (indexed : Indexed keyHashSlot s)
    (allowed : AllowedRun keyHashSlot s operations)
    : ∃ final,
        operations.foldlM (Server.step keyHashSlot) s = .ok final
        ∧ Indexed keyHashSlot final
        ∧ SameSettings s final := by
  induction operations generalizing s with
  | nil => exact ⟨s, rfl, indexed, .refl s⟩
  | cons operation rest ih =>
      obtain ⟨now, later⟩ := allowed
      obtain ⟨next, run, kept, same⟩ := step_ok indexed now
      obtain ⟨final, runs, kept', same'⟩ := ih kept (later next run)
      refine ⟨final, ?_, kept', same.trans same'⟩
      rw [List.foldlM_cons, run, ok_andThen, runs]

theorem indexed_empty (dbnum : Nat) (dbnum_pos : 0 < dbnum) (clusterEnabled : Bool)
    : Indexed keyHashSlot (Server.empty dbnum dbnum_pos clusterEnabled : Server V) where
  expires _ _ expire := absurd rfl expire
  sorted _ := List.Pairwise.nil
  slots _ entry := by simp [Server.empty, lookupKey]

end Runs

end Redis.SideIndexes
