import Redis.Library.Faults
import Redis.Replication.Backlog

/-! The replication script cache: a dict of digests for the lookups and a fifo of the same
digests for the eviction of the oldest.
-/

namespace Redis.Scripting

open Redis.Library

-- The code

/-- `repl_scriptcache_dict` and `repl_scriptcache_fifo`. -/
structure ScriptCache where
  dict : List (List UInt8)
  fifo : List (List UInt8)
deriving DecidableEq, Repr

def replScriptcacheSize : Nat := 10000

/-- `dictFind` with `replScriptCacheDictType`, whose keys are compared without case. -/
def dictFind (dict : List (List UInt8)) (key : List UInt8) : Bool := dict.any (strcaseEqual key)

/-- `dictDelete`; `none` is `DICT_ERR`. -/
def dictDelete (dict : List (List UInt8)) (key : List UInt8) : Option (List (List UInt8)) :=
  if dictFind dict key then some (dict.eraseP (strcaseEqual key)) else none

/-- `dictAdd`; `none` is `DICT_ERR`. -/
def dictAdd (dict : List (List UInt8)) (key : List UInt8) : Option (List (List UInt8)) :=
  if dictFind dict key then none else some (key :: dict)

/-- `replicationScriptCacheInit` and `replicationScriptCacheFlush`. -/
def replicationScriptCacheFlush : ScriptCache := ⟨[], []⟩

/-- The eviction of `replicationScriptCacheAdd`. -/
def ScriptCache.evictOldest (cache : ScriptCache) : Except Fault ScriptCache :=
  if cache.fifo.length = replScriptcacheSize then
    match cache.fifo.getLast? with
    | none => .error .nullPointer
    | some oldest =>
        match dictDelete cache.dict oldest with
        | none => .error .assertion
        | some dict => .ok ⟨dict, cache.fifo.dropLast⟩
  else .ok cache

def replicationScriptCacheAdd (cache : ScriptCache) (sha1 : List UInt8)
    : Except Fault ScriptCache := do
  let cache ← cache.evictOldest
  match dictAdd cache.dict sha1 with
  | none => .error .assertion
  | some dict => .ok ⟨dict, sha1 :: cache.fifo⟩

def replicationScriptCacheExists (cache : ScriptCache) (sha1 : List UInt8) : Bool :=
  dictFind cache.dict sha1

-- The two containers hold the same keys

/-- The dict and the fifo hold the same keys, at most as many as the cache may have, and no two
of them differ in case only.
-/
structure ScriptCache.Consistent (cache : ScriptCache) : Prop where
  same : cache.fifo.Perm cache.dict
  distinct : cache.dict.Pairwise (fun a b => strcaseEqual a b = false)
  bounded : cache.fifo.length ≤ replScriptcacheSize

theorem strcaseEqual_iff (a b : List UInt8)
    : strcaseEqual a b = true ↔ a.map lowerCase = b.map lowerCase := by
  simp [strcaseEqual]

theorem strcaseEqual_comm (a b : List UInt8) : strcaseEqual a b = strcaseEqual b a := by
  rw [Bool.eq_iff_iff, strcaseEqual_iff, strcaseEqual_iff, eq_comm]

theorem flush_consistent : replicationScriptCacheFlush.Consistent where
  same := .nil
  distinct := .nil
  bounded := Nat.zero_le _

theorem eraseP_eq_erase {dict : List (List UInt8)} {key : List UInt8} (member : key ∈ dict)
    (distinct : dict.Pairwise (fun a b => strcaseEqual a b = false))
    : dict.eraseP (strcaseEqual key) = dict.erase key := by
  induction dict with
  | nil => cases member
  | cons head rest ih =>
      obtain ⟨apart, later⟩ := List.pairwise_cons.mp distinct
      by_cases same : key = head
      · subst same
        have self : strcaseEqual key key = true := (strcaseEqual_iff key key).mpr rfl
        rw [List.eraseP_cons_of_pos self, List.erase_cons_head]
      · have inside : key ∈ rest := (List.mem_cons.mp member).resolve_left same
        have other : ¬ strcaseEqual key head = true := by
          rw [strcaseEqual_comm, apart key inside]
          decide
        rw [List.eraseP_cons_of_neg other, List.erase_cons_tail (by simpa using Ne.symm same),
          ih inside later]

variable {cache : ScriptCache}

theorem ScriptCache.Consistent.evict (consistent : cache.Consistent)
    : ∃ next,
        cache.evictOldest = .ok next
        ∧ next.Consistent
        ∧ next.fifo.length < replScriptcacheSize
        ∧ next.dict.Sublist cache.dict := by
  unfold ScriptCache.evictOldest
  split
  · rename_i full
    cases newest : cache.fifo.getLast? with
    | none =>
        rw [List.getLast?_eq_none_iff.mp newest] at full
        exact absurd full (by decide)
    | some oldest =>
        have split : cache.fifo = cache.fifo.dropLast ++ [oldest] :=
          (List.dropLast_append_getLast? oldest newest).symm
        have member : oldest ∈ cache.dict :=
          consistent.same.mem_iff.mp (List.mem_of_getLast? newest)
        have found : dictFind cache.dict oldest = true :=
          List.any_eq_true.mpr ⟨oldest, member, (strcaseEqual_iff oldest oldest).mpr rfl⟩
        have erased := eraseP_eq_erase member consistent.distinct
        have perm : cache.fifo.dropLast.Perm (cache.dict.erase oldest) := by
          have moved : (oldest :: cache.fifo.dropLast).Perm cache.dict :=
            (List.perm_append_singleton oldest cache.fifo.dropLast).symm.trans
              (split ▸ consistent.same)
          exact List.Perm.cons_inv (moved.trans (List.perm_cons_erase member))
        have shorter : cache.fifo.dropLast.length < replScriptcacheSize := by
          rw [List.length_dropLast, full]
          decide
        simp only [dictDelete, found, if_true, erased]
        exact ⟨_, rfl,
          ⟨perm, consistent.distinct.sublist List.erase_sublist, shorter.le⟩,
          shorter, List.erase_sublist⟩
  · rename_i room
    exact ⟨cache, rfl, consistent, lt_of_le_of_ne consistent.bounded room, .refl _⟩

/-- An addition evicts at most one digest. -/
theorem ScriptCache.Consistent.add (consistent : cache.Consistent) {sha : List UInt8}
    (missing : replicationScriptCacheExists cache sha = false)
    : ∃ next,
        replicationScriptCacheAdd cache sha = .ok next
        ∧ next.Consistent
        ∧ ∀ key ∈ next.dict, key = sha ∨ key ∈ cache.dict := by
  obtain ⟨evicted, run, kept, room, fewer⟩ := consistent.evict
  have absent : ∀ key ∈ evicted.dict, strcaseEqual sha key = false := by
    intro key member
    have none := List.any_eq_false.mp missing key (fewer.subset member)
    simpa using none
  have lacking : dictFind evicted.dict sha = false :=
    List.any_eq_false.mpr fun key member => by simp [absent key member]
  refine ⟨⟨sha :: evicted.dict, sha :: evicted.fifo⟩, ?_, ⟨?_, ?_, ?_⟩, ?_⟩
  · simp [replicationScriptCacheAdd, run, dictAdd, lacking]
  · exact kept.same.cons sha
  · exact List.pairwise_cons.mpr ⟨absent, kept.distinct⟩
  · exact room
  · intro key member
    rcases List.mem_cons.mp member with rfl | old
    · exact Or.inl rfl
    · exact Or.inr (fewer.subset old)

theorem exists_iff (sha : List UInt8)
    : replicationScriptCacheExists cache sha = true
      ↔ ∃ key ∈ cache.dict, key.map lowerCase = sha.map lowerCase := by
  simp only [replicationScriptCacheExists, dictFind, List.any_eq_true, strcaseEqual_iff]
  exact exists_congr fun key => and_congr_right fun _ => eq_comm

end Redis.Scripting
