import Mathlib.Data.UInt
import Redis.Keyspace.SideIndexes

/-! The expire times and the slots of the keys stay those of the keys that are there. -/

namespace Redis.SideIndexes

open Redis.Library
open Redis.Keyspace (Sds getLongLongFromObject longLong TimeUnit TimeUnit.scale)

section Consistency

variable {V : Type} (keyHashSlot : Sds → Nat)

/-- Every key with an expire time is there, and in cluster mode the slots have the keys of database
0.
-/
structure Indexed (s : Server V) : Prop where
  expires : ∀ id key, (s.dbs id).expires key ≠ none → lookupKey s id key ≠ none
  sorted : s.clusterEnabled = true → IndexSorted s.slotsToKeys
  slots
    : s.clusterEnabled = true
      → ∀ entry,
          entry ∈ s.slotsToKeys
          ↔ lookupKey s 0 entry.member ≠ none ∧ entry.group = keyHashSlot entry.member

structure SameSettings (s next : Server V) : Prop where
  dbnum : next.dbnum = s.dbnum
  clusterEnabled : next.clusterEnabled = s.clusterEnabled

theorem SameSettings.refl (s : Server V) : SameSettings s s := ⟨rfl, rfl⟩

theorem SameSettings.trans {s middle next : Server V} (first : SameSettings s middle)
    (second : SameSettings middle next)
    : SameSettings s next :=
  ⟨second.dbnum.trans first.dbnum, second.clusterEnabled.trans first.clusterEnabled⟩

variable {keyHashSlot} {s next : Server V} {id : Nat} {key : Sds}

-- One database

theorem lookupKey_setDb (s : Server V) (id : Nat) (db : RedisDb V) (other : Nat) (key : Sds)
    : lookupKey (s.setDb id db) other key
      = if other = id then db.dict key else lookupKey s other key := by
  rw [lookupKey, lookupKey, Server.setDb]
  dsimp only
  rw [Function.update_apply]
  split <;> rfl

theorem expires_setDb (s : Server V) (id : Nat) (db : RedisDb V) (other : Nat) (key : Sds)
    : ((s.setDb id db).dbs other).expires key
      = if other = id then db.expires key else (s.dbs other).expires key := by
  rw [Server.setDb]
  dsimp only
  rw [Function.update_apply]
  split <;> rfl

theorem Indexed.sameKeys (indexed : Indexed keyHashSlot s) {db : RedisDb V}
    (keys : ∀ key, db.dict key = none ↔ lookupKey s id key = none)
    (expires : ∀ key, db.expires key ≠ none → db.dict key ≠ none)
    : Indexed keyHashSlot (s.setDb id db) where
  expires other key := by
    rw [expires_setDb, lookupKey_setDb]
    split
    · exact expires key
    · exact indexed.expires other key
  sorted := indexed.sorted
  slots enabled entry := by
    rw [lookupKey_setDb]
    split
    · rename_i same
      rw [ne_eq, keys, ← same]
      exact indexed.slots enabled entry
    · exact indexed.slots enabled entry

theorem isSome_of_ne_none {α : Type} {value : Option α} (some : value ≠ none)
    : value.isSome = true :=
  Option.isSome_iff_ne_none.mpr some

theorem dbOverwrite_ok (indexed : Indexed keyHashSlot s) (present : lookupKey s id key ≠ none)
    (val : V)
    : ∃ next,
        dbOverwrite s id key val = .ok next
        ∧ Indexed keyHashSlot next
        ∧ SameSettings s next
        ∧ lookupKey next id key ≠ none := by
  refine ⟨_, if_pos (isSome_of_ne_none present), indexed.sameKeys ?_ ?_, ⟨rfl, rfl⟩, ?_⟩
  · intro other
    by_cases same : other = key
    · subst same
      simp [present]
    · simp [same, lookupKey]
  · intro other expire
    by_cases same : other = key
    · subst same
      simp
    · simpa [same, lookupKey] using indexed.expires id other expire
  · simp [lookupKey_setDb]

theorem Indexed.updateExpires (indexed : Indexed keyHashSlot s)
    (present : lookupKey s id key ≠ none)
    (time : Option Int)
    : Indexed keyHashSlot
        (s.setDb id ⟨(s.dbs id).dict, Function.update (s.dbs id).expires key time⟩) := by
  refine indexed.sameKeys (fun _ => Iff.rfl) ?_
  intro other expire
  by_cases same : other = key
  · subst same
    exact present
  · dsimp only at expire
    rw [Function.update_of_ne same] at expire
    exact indexed.expires id other expire

theorem setExpire_ok (indexed : Indexed keyHashSlot s) (present : lookupKey s id key ≠ none)
    (time : Int)
    : ∃ next,
        setExpire s id key time = .ok next ∧ Indexed keyHashSlot next ∧ SameSettings s next :=
  ⟨_, if_pos (isSome_of_ne_none present), indexed.updateExpires present (some time), ⟨rfl, rfl⟩⟩

theorem removeExpire_ok (indexed : Indexed keyHashSlot s) (present : lookupKey s id key ≠ none)
    : ∃ next removed,
        removeExpire s id key = .ok (next, removed)
        ∧ Indexed keyHashSlot next
        ∧ SameSettings s next :=
  ⟨_, _, if_pos (isSome_of_ne_none present), indexed.updateExpires present none, ⟨rfl, rfl⟩⟩

theorem getExpire_ok (indexed : Indexed keyHashSlot s) (id : Nat) (key : Sds)
    : ∃ time, getExpire s id key = .ok time := by
  unfold getExpire
  split
  · exact ⟨-1, rfl⟩
  · rename_i time found
    exact ⟨time, if_pos (isSome_of_ne_none (indexed.expires id key (by simp [found])))⟩

-- Keys that come and go

theorem dbAdd_ok (indexed : Indexed keyHashSlot s) (absent : lookupKey s id key = none)
    (home : s.clusterEnabled = true → id = 0) (val : V)
    : ∃ next,
        dbAdd keyHashSlot s id key val = .ok next
        ∧ Indexed keyHashSlot next
        ∧ SameSettings s next
        ∧ lookupKey next id key ≠ none := by
  have free : ¬(lookupKey s id key).isSome = true := by simp [absent]
  let db : RedisDb V := { s.dbs id with dict := Function.update (s.dbs id).dict key (some val) }
  have expires : ∀ other key', ((s.setDb id db).dbs other).expires key' ≠ none →
      lookupKey (s.setDb id db) other key' ≠ none := by
    intro other key'
    rw [expires_setDb, lookupKey_setDb]
    split
    · intro expire
      by_cases same : key' = key
      · simp [db, same]
      · simpa [db, same, lookupKey] using indexed.expires id key' expire
    · exact indexed.expires other key'
  have there : lookupKey (s.setDb id db) id key ≠ none := by simp [lookupKey_setDb, db]
  have run : dbAdd keyHashSlot s id key val
      = .ok (if (s.setDb id db).clusterEnabled then slotToKeyAdd keyHashSlot (s.setDb id db) key
          else s.setDb id db) := if_neg free
  by_cases enabled : s.clusterEnabled = true
  · obtain rfl := home enabled
    have new : (⟨keyHashSlot key, key⟩ : Filed Sds) ∉ s.slotsToKeys := by
      intro inside
      exact ((indexed.slots enabled _).mp inside).1 absent
    rw [if_pos (show (s.setDb 0 db).clusterEnabled = true from enabled)] at run
    refine ⟨_, run, ⟨expires, ?_, ?_⟩, ⟨rfl, rfl⟩, there⟩
    · intro _
      exact (indexed.sorted enabled).insert new
    · intro _ entry
      change entry ∈ indexInsert _ s.slotsToKeys ↔ lookupKey (s.setDb 0 db) 0 entry.member ≠ none
        ∧ _
      rw [mem_indexInsert, indexed.slots enabled, lookupKey_setDb, if_pos rfl]
      obtain ⟨group, member⟩ := entry
      by_cases same : member = key
      · subst same
        simp [db, absent]
      · simp [db, same, lookupKey]
  · rw [if_neg (show ¬(s.setDb id db).clusterEnabled = true from enabled)] at run
    exact ⟨_, run, ⟨expires, fun on => absurd on enabled, fun on => absurd on enabled⟩, ⟨rfl, rfl⟩,
      there⟩

theorem dbDelete_ok (indexed : Indexed keyHashSlot s) (home : s.clusterEnabled = true → id = 0)
    (key : Sds)
    : Indexed keyHashSlot (dbDelete keyHashSlot s id key).1
      ∧ SameSettings s (dbDelete keyHashSlot s id key).1
      ∧ ∀ other key',
          lookupKey (dbDelete keyHashSlot s id key).1 other key'
            = if other = id ∧ key' = key then none else lookupKey s other key' := by
  let db : RedisDb V :=
    ⟨Function.update (s.dbs id).dict key none, Function.update (s.dbs id).expires key none⟩
  have lookups (other : Nat) (key' : Sds)
      : lookupKey (s.setDb id db) other key'
        = if other = id ∧ key' = key then none else lookupKey s other key' := by
    rw [lookupKey_setDb]
    by_cases here : other = id
    · subst here
      by_cases same : key' = key
      · simp [db, same]
      · simp [db, same, lookupKey]
    · simp [here]
  have expires : ∀ other key', ((s.setDb id db).dbs other).expires key' ≠ none →
      lookupKey (s.setDb id db) other key' ≠ none := by
    intro other key'
    rw [expires_setDb, lookups]
    by_cases here : other = id
    · subst here
      by_cases same : key' = key
      · simp [db, same]
      · simpa [db, same] using indexed.expires other key'
    · simpa [here] using indexed.expires other key'
  have unindexed (off : ¬s.clusterEnabled = true) : Indexed keyHashSlot (s.setDb id db) :=
    ⟨expires, fun on => absurd on off, fun on => absurd on off⟩
  unfold dbDelete
  by_cases found : (lookupKey s id key).isSome = true
  · rw [if_pos found]
    by_cases enabled : s.clusterEnabled = true
    · obtain rfl := home enabled
      rw [if_pos (show (s.setDb 0 db).clusterEnabled = true from enabled)]
      obtain ⟨sorted, members⟩ := (indexed.sorted enabled).delete ⟨keyHashSlot key, key⟩
      refine ⟨⟨expires, fun _ => sorted, ?_⟩, ⟨rfl, rfl⟩, lookups⟩
      intro _ entry
      change entry ∈ indexDelete _ s.slotsToKeys ↔ lookupKey (s.setDb 0 db) 0 entry.member ≠ none
        ∧ _
      rw [members, indexed.slots enabled, lookups]
      obtain ⟨group, member⟩ := entry
      by_cases same : member = key
      · subst same
        simp
      · simp [same]
    · rw [if_neg (show ¬(s.setDb id db).clusterEnabled = true from enabled)]
      exact ⟨unindexed enabled, ⟨rfl, rfl⟩, lookups⟩
  · rw [if_neg found]
    by_cases enabled : s.clusterEnabled = true
    · refine ⟨⟨expires, indexed.sorted, ?_⟩, ⟨rfl, rfl⟩, lookups⟩
      intro _ entry
      have absent : lookupKey s id key = none := by simpa using found
      obtain rfl := home enabled
      change entry ∈ s.slotsToKeys ↔ lookupKey (s.setDb 0 db) 0 entry.member ≠ none ∧ _
      rw [indexed.slots enabled, lookups]
      by_cases same : entry.member = key
      · simp [same, absent]
      · simp [same]
    · exact ⟨unindexed enabled, ⟨rfl, rfl⟩, lookups⟩

-- Lookups

theorem expireIfNeeded_ok (indexed : Indexed keyHashSlot s)
    (home : s.clusterEnabled = true → id = 0)
    (moment : Moment) (key : Sds)
    : ∃ next expired,
        expireIfNeeded keyHashSlot s moment id key = .ok (next, expired)
        ∧ Indexed keyHashSlot next
        ∧ SameSettings s next := by
  obtain ⟨time, read⟩ := getExpire_ok indexed id key
  obtain ⟨deleted, same, _⟩ := dbDelete_ok indexed home key
  rw [expireIfNeeded, read, ok_andThen]
  split
  · exact ⟨s, false, rfl, indexed, .refl s⟩
  split
  · exact ⟨s, false, rfl, indexed, .refl s⟩
  split
  · exact ⟨s, _, rfl, indexed, .refl s⟩
  split
  · exact ⟨s, false, rfl, indexed, .refl s⟩
  · exact ⟨_, _, rfl, deleted, same⟩

theorem lookupKeyWrite_ok (indexed : Indexed keyHashSlot s)
    (home : s.clusterEnabled = true → id = 0)
    (moment : Moment) (key : Sds)
    : ∃ next,
        lookupKeyWrite keyHashSlot s moment id key = .ok (next, lookupKey next id key)
        ∧ Indexed keyHashSlot next
        ∧ SameSettings s next := by
  obtain ⟨next, expired, run, kept, same⟩ := expireIfNeeded_ok indexed home moment key
  refine ⟨next, ?_, kept, same⟩
  rw [lookupKeyWrite, run]
  rfl

theorem SameSettings.home (same : SameSettings s next) (home : s.clusterEnabled = true → id = 0)
    : next.clusterEnabled = true → id = 0 :=
  fun enabled => home (same.clusterEnabled ▸ enabled)

theorem setKey_ok (indexed : Indexed keyHashSlot s) (home : s.clusterEnabled = true → id = 0)
    (moment : Moment) (key : Sds) (val : V)
    : ∃ next,
        setKey keyHashSlot s moment id key val = .ok next
        ∧ Indexed keyHashSlot next
        ∧ SameSettings s next := by
  obtain ⟨found, look, foundIndexed, same⟩ := lookupKeyWrite_ok indexed home moment key
  rw [setKey, look, ok_andThen]
  dsimp only
  -- Both ways leave the key there, so its expire time can be removed.
  have finish {stored : Server V} (storedIndexed : Indexed keyHashSlot stored)
      (kept : SameSettings found stored) (present : lookupKey stored id key ≠ none)
      : ∃ next,
          (do let removed ← removeExpire stored id key; pure removed.1) = .ok next
          ∧ Indexed keyHashSlot next
          ∧ SameSettings s next := by
    obtain ⟨next, removed, run, nextIndexed, kept'⟩ := removeExpire_ok storedIndexed present
    refine ⟨next, ?_, nextIndexed, (same.trans kept).trans kept'⟩
    rw [run]
    rfl
  cases old : lookupKey found id key with
  | none =>
      obtain ⟨stored, run, storedIndexed, kept, present⟩ :=
        dbAdd_ok foundIndexed old (same.home home) val
      dsimp only
      rw [run, ok_andThen]
      exact finish storedIndexed kept present
  | some value =>
      obtain ⟨stored, run, storedIndexed, kept, present⟩ :=
        dbOverwrite_ok foundIndexed (show lookupKey found id key ≠ none by simp [old]) val
      dsimp only
      rw [run, ok_andThen]
      exact finish storedIndexed kept present

-- Commands

theorem moveKey_ok (indexed : Indexed keyHashSlot s) {target : Nat} {newkey : Sds}
    (home : s.clusterEnabled = true → id = 0) (targetHome : s.clusterEnabled = true → target = 0)
    (absent : lookupKey s target newkey = none) (key : Sds) (val : V) (expire : Int)
    : ∃ next,
        moveKey keyHashSlot s id key target newkey val expire = .ok next
        ∧ Indexed keyHashSlot next
        ∧ SameSettings s next := by
  obtain ⟨added, run, addedIndexed, same, present⟩ := dbAdd_ok indexed absent targetHome val
  have finish {timed : Server V} (timedIndexed : Indexed keyHashSlot timed)
      (kept : SameSettings s timed)
      : Indexed keyHashSlot (dbDelete keyHashSlot timed id key).1
        ∧ SameSettings s (dbDelete keyHashSlot timed id key).1 := by
    obtain ⟨deleted, kept', _⟩ := dbDelete_ok timedIndexed (kept.home home) key
    exact ⟨deleted, kept.trans kept'⟩
  rw [moveKey, run, ok_andThen]
  split
  · obtain ⟨timed, ran, timedIndexed, kept⟩ := setExpire_ok addedIndexed present expire
    rw [ran]
    exact ⟨_, rfl, finish timedIndexed (same.trans kept)⟩
  · exact ⟨_, rfl, finish addedIndexed same⟩

/-- `RENAME` and `RENAMENX` keep the indexes. -/
theorem renameGenericCommand_ok (indexed : Indexed keyHashSlot s)
    (home : s.clusterEnabled = true → id = 0) (first second : Moment) (key newkey : Sds) (nx : Bool)
    : ∃ next reply,
        renameGenericCommand keyHashSlot s first second id key newkey nx = .ok (next, reply)
        ∧ Indexed keyHashSlot next
        ∧ SameSettings s next := by
  unfold renameGenericCommand
  split
  · exact ⟨s, _, rfl, indexed, .refl s⟩
  obtain ⟨found, look, foundIndexed, same⟩ := lookupKeyWrite_ok indexed home first key
  rw [look, ok_andThen]
  dsimp only
  cases lookupKey found id key with
  | none => exact ⟨found, _, rfl, foundIndexed, same⟩
  | some o =>
      have foundHome := same.home home
      obtain ⟨expire, read⟩ := getExpire_ok foundIndexed id key
      obtain ⟨again, look', againIndexed, same'⟩ :=
        lookupKeyWrite_ok foundIndexed foundHome second newkey
      have againHome := same'.home foundHome
      dsimp only
      rw [read, ok_andThen, look', ok_andThen]
      dsimp only
      split
      · exact ⟨again, _, rfl, againIndexed, same.trans same'⟩
      · -- The new name is free before the value gets it.
        obtain ⟨free, freeIndexed, kept, absent, freeEq⟩
            : ∃ free,
                Indexed keyHashSlot free
                ∧ SameSettings again free
                ∧ lookupKey free id newkey = none
                ∧ (if (lookupKey again id newkey).isSome = true then
                    (dbDelete keyHashSlot again id newkey).1 else again) = free := by
          cases there : lookupKey again id newkey with
          | none => exact ⟨again, againIndexed, .refl again, there, rfl⟩
          | some old =>
              obtain ⟨deleted, kept, lookups⟩ := dbDelete_ok againIndexed againHome newkey
              exact ⟨_, deleted, kept, by rw [lookups, if_pos ⟨rfl, rfl⟩], rfl⟩
        have freeHome := kept.home againHome
        rw [freeEq]
        obtain ⟨next, run, nextIndexed, same''⟩ :=
          moveKey_ok freeIndexed freeHome freeHome absent key o expire
        rw [run]
        exact ⟨next, _, rfl, nextIndexed, (same.trans same').trans (kept.trans same'')⟩

/-- `MOVE` keeps the indexes. -/
theorem moveCommand_ok (indexed : Indexed keyHashSlot s) (first second : Moment) (src : Nat)
    (key dbid : Sds)
    : ∃ next reply,
        moveCommand keyHashSlot s first second src key dbid = .ok (next, reply)
        ∧ Indexed keyHashSlot next
        ∧ SameSettings s next := by
  unfold moveCommand
  split
  · exact ⟨s, _, rfl, indexed, .refl s⟩
  rename_i disabled
  split
  · exact ⟨s, _, rfl, indexed, .refl s⟩
  rename_i dst _
  split
  · exact ⟨s, _, rfl, indexed, .refl s⟩
  split
  · exact ⟨s, _, rfl, indexed, .refl s⟩
  have home (id : Nat) {server : Server V} (same : SameSettings s server)
      : server.clusterEnabled = true → id = 0 :=
    fun enabled => absurd (same.clusterEnabled ▸ enabled) disabled
  obtain ⟨found, look, foundIndexed, same⟩ :=
    lookupKeyWrite_ok indexed (home src (.refl s)) first key
  rw [look, ok_andThen]
  dsimp only
  cases lookupKey found src key with
  | none => exact ⟨found, _, rfl, foundIndexed, same⟩
  | some o =>
      obtain ⟨expire, read⟩ := getExpire_ok foundIndexed src key
      obtain ⟨again, look', againIndexed, same'⟩ :=
        lookupKeyWrite_ok foundIndexed (home dst.toNat same) second key
      dsimp only
      rw [read, ok_andThen, look', ok_andThen]
      dsimp only
      split
      · exact ⟨again, _, rfl, againIndexed, same.trans same'⟩
      · rename_i free
        have kept := same.trans same'
        obtain ⟨next, run, nextIndexed, same''⟩ :=
          moveKey_ok againIndexed (home src kept) (home dst.toNat kept) (by simpa using free) key o
            expire
        rw [run]
        exact ⟨next, _, rfl, nextIndexed, kept.trans same''⟩

theorem expireGenericCommand_ok (indexed : Indexed keyHashSlot s)
    (home : s.clusterEnabled = true → id = 0) (first second : Moment) (key param : Sds)
    (basetime : Int) (unit : TimeUnit)
    : ∃ next reply,
        expireGenericCommand keyHashSlot s first second id key param basetime unit
          = .ok (next, reply)
        ∧ Indexed keyHashSlot next
        ∧ SameSettings s next := by
  unfold expireGenericCommand
  split
  · exact ⟨s, _, rfl, indexed, .refl s⟩
  rename_i time _
  obtain ⟨found, look, foundIndexed, same⟩ := lookupKeyWrite_ok indexed home first key
  rw [look, ok_andThen]
  dsimp only
  split
  · exact ⟨found, _, rfl, foundIndexed, same⟩
  rename_i there
  have present : lookupKey found id key ≠ none := by simpa using there
  split
  · obtain ⟨deleted, kept, _⟩ := dbDelete_ok foundIndexed (same.home home) key
    have success : (dbDelete keyHashSlot found id key).2 = true := by
      rw [dbDelete, if_pos (isSome_of_ne_none present)]
    rw [success]
    exact ⟨_, _, rfl, deleted, same.trans kept⟩
  · obtain ⟨timed, run, timedIndexed, kept⟩ := setExpire_ok foundIndexed present
      (longLong (unit.scale time + basetime))
    rw [run]
    exact ⟨_, _, rfl, timedIndexed, same.trans kept⟩

end Consistency

end Redis.SideIndexes
