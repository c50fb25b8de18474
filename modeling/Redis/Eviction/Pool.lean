import Redis.Keyspace.Model
import Redis.Library.LargestElements

/-! The eviction pool: the keys with the largest idle times among those that were sampled. -/

namespace Redis.Eviction

open Redis.Keyspace (Sds)
open Redis.Library

-- The pool

/-- `struct evictionPoolEntry`. -/
structure PoolEntry where
  idle : UInt64
  key : Option Sds
deriving DecidableEq, Repr

abbrev Pool := List PoolEntry

/-- `REDIS_EVICTION_POOL_SIZE`. -/
def poolSize : Nat := 16

def freeEntry : PoolEntry := ⟨0, none⟩

def evictionPoolAlloc : Pool := List.replicate poolSize freeEntry

/-- `memmove` within the pool. -/
def moveEntries (pool : Pool) (dst src count : Nat) : Pool :=
  pool.take dst ++ (pool.drop src).take count ++ pool.drop (dst + count)

def isFull (pool : Pool) : Bool := (pool.getD (poolSize - 1) freeEntry).key.isSome

/-- A sampled key and the idle time of its value. -/
structure Sample where
  idle : UInt64
  key : Sds
deriving DecidableEq, Repr

def Sample.entry (sample : Sample) : PoolEntry := ⟨sample.idle, some sample.key⟩

/-- The first entry that is free or whose idle time is not smaller. -/
def placeInPool (pool : Pool) (idle : UInt64) : Nat :=
  (pool.takeWhile fun e => e.key.isSome && e.idle < idle).length

/-- The loop body of `evictionPoolPopulate`. -/
def insertSample (pool : Pool) (sample : Sample) : Pool :=
  let k := placeInPool pool sample.idle
  if k = 0 ∧ isFull pool then pool
  else if k < poolSize ∧ (pool.getD k freeEntry).key = none then pool.set k sample.entry
  else if isFull pool then (moveEntries pool 0 1 (k - 1)).set (k - 1) sample.entry
  else (moveEntries pool (k + 1) k (poolSize - k - 1)).set k sample.entry

/-- `evictionPoolPopulate` with the keys that `dictGetSomeKeys` gives. -/
def evictionPoolPopulate (pool : Pool) (samples : List Sample)
    : Pool := samples.foldl insertSample pool

/-- The removal of an entry in `freeMemoryIfNeeded`. -/
def removeEntry (pool : Pool) (k : Nat) : Pool :=
  (moveEntries pool k (k + 1) (poolSize - k - 1)).set (poolSize - 1) freeEntry

/-- The loop of `freeMemoryIfNeeded` over the first entries of the pool, from the last to the first:
the pool, and the first key that the dictionary has.
-/
def searchPool (inDict : Sds → Bool) : Nat → Pool → Pool × Option Sds
  | 0, pool => (pool, none)
  | k + 1, pool =>
      match (pool.getD k freeEntry).key with
      | none => searchPool inDict k pool
      | some key =>
          if inDict key then (removeEntry pool k, some key)
          else searchPool inDict k (removeEntry pool k)

/-- The rounds of `while(bestkey == NULL)` with the samples of each; nothing is chosen when they are
not enough.
-/
def chooseVictim (inDict : Sds → Bool) : List (List Sample) → Pool → Pool × Option Sds
  | [], pool => (pool, none)
  | samples :: rounds, pool =>
      match searchPool inDict poolSize (evictionPoolPopulate pool samples) with
      | (pool, some key) => (pool, some key)
      | (pool, none) => chooseVictim inDict rounds pool

-- The entries in use

/-- A sample that is not idler than another. -/
def NotIdler (a b : Sample) : Prop := a.idle ≤ b.idle

instance : IsTrans Sample NotIdler := ⟨fun _ _ _ first second => UInt64.le_trans first second⟩

/-- The entries in use are the first ones, in order of their idle times. -/
structure PoolHolds (pool : Pool) (entries : List Sample) : Prop where
  pool : ∃ count, pool = entries.map Sample.entry ++ List.replicate count freeEntry
    ∧ entries.length + count = poolSize
  sorted : entries.Pairwise NotIdler

section Pools

variable {pool : Pool} {entries low high : List Sample} {sample : Sample} {samples : List Sample}
  {inDict : Sds → Bool}

theorem evictionPoolAlloc_holds : PoolHolds evictionPoolAlloc [] :=
  ⟨⟨poolSize, rfl, rfl⟩, .nil⟩

theorem PoolHolds.few (holds : PoolHolds pool entries) : entries.length ≤ poolSize := by
  obtain ⟨⟨count, -, length⟩, -⟩ := holds
  omega

theorem isFull_iff (holds : PoolHolds pool entries)
    : isFull pool = true ↔ entries.length = poolSize := by
  obtain ⟨⟨count, rfl, length⟩, -⟩ := holds
  unfold isFull poolSize at *
  rw [List.getD_eq_getElem?_getD]
  cases count with
  | zero =>
      have last : 15 < entries.length := by omega
      simp [List.length_map, last, Sample.entry]
      omega
  | succ count =>
      rw [List.getElem?_append_right (by rw [List.length_map]; omega), List.length_map,
        List.getElem?_replicate_of_lt (by omega)]
      refine iff_of_false (fun used => ?_) (by omega)
      cases used

theorem placeInPool_ok (holds : PoolHolds pool entries) (idle : UInt64)
    : ∃ low high, entries = low ++ high ∧ placeInPool pool idle = low.length
        ∧ (∀ a ∈ low, a.idle < idle) ∧ ∀ b ∈ high, idle ≤ b.idle := by
  obtain ⟨⟨count, rfl, -⟩, sorted⟩ := holds
  unfold placeInPool
  induction entries with
  | nil =>
      refine ⟨[], [], rfl, ?_, nofun, nofun⟩
      cases count with
      | zero => rfl
      | succ count => rfl
  | cons entry rest ih =>
      obtain ⟨first, others⟩ := List.pairwise_cons.mp sorted
      by_cases smaller : entry.idle < idle
      · obtain ⟨low, high, rfl, place, below, above⟩ := ih others
        refine ⟨entry :: low, high, rfl, ?_, ?_, above⟩
        · rw [List.map_cons, List.cons_append,
            List.takeWhile_cons_of_pos (by simp [Sample.entry, smaller]),
            List.length_cons, place, List.length_cons]
        · intro a inside
          rcases List.mem_cons.mp inside with rfl | inside
          · exact smaller
          · exact below a inside
      · refine ⟨[], entry :: rest, rfl, ?_, nofun, ?_⟩
        · rw [List.map_cons, List.cons_append,
            List.takeWhile_cons_of_neg (by simp [Sample.entry, smaller])]
          rfl
        · intro b inside
          have reached := UInt64.not_lt.mp smaller
          rcases List.mem_cons.mp inside with rfl | inside
          · exact reached
          · exact UInt64.le_trans reached (first b inside)

theorem set_middle (front : Pool) (e : PoolEntry) (back : Pool) (new : PoolEntry)
    : (front ++ e :: back).set front.length new = front ++ new :: back := by
  rw [List.set_append_right _ _ (Nat.le_refl _), Nat.sub_self, List.set_cons_zero]

theorem set_free (holds : PoolHolds pool entries) (room : entries.length < poolSize)
    (sample : Sample)
    : ∃ count, pool.set entries.length sample.entry
          = (entries ++ [sample]).map Sample.entry ++ List.replicate count freeEntry
        ∧ (entries ++ [sample]).length + count = poolSize := by
  obtain ⟨⟨count, rfl, length⟩, -⟩ := holds
  obtain ⟨count, rfl⟩ := Nat.exists_eq_add_one_of_ne_zero (show count ≠ 0 by omega)
  refine ⟨count, ?_, ?_⟩
  · have middle := set_middle (entries.map Sample.entry) freeEntry (List.replicate count freeEntry)
      sample.entry
    rw [List.length_map] at middle
    rw [List.replicate_succ, middle, List.map_append, List.append_assoc]
    rfl
  · rw [List.length_append, List.length_singleton]
    omega

theorem shift_left (first : Sample) (low high : List Sample)
    : (moveEntries ((first :: low ++ high).map Sample.entry) 0 1 low.length).set low.length
      sample.entry
      = (low ++ sample :: high).map Sample.entry := by
  have moved : moveEntries ((first :: low ++ high).map Sample.entry) 0 1 low.length
      = low.map Sample.entry ++ ((first :: low ++ high).map Sample.entry).drop low.length := by
    simp [moveEntries]
  have split : ∃ e, ((first :: low ++ high).map Sample.entry).drop low.length
      = e :: high.map Sample.entry := by
    have long : low.length < ((first :: low ++ high).map Sample.entry).length := by
      simp only [List.length_map, List.cons_append, List.length_cons, List.length_append]
      omega
    refine ⟨_, (List.drop_eq_getElem_cons long).trans (congrArg _ ?_)⟩
    simp
  obtain ⟨e, split⟩ := split
  have middle := set_middle (low.map Sample.entry) e (high.map Sample.entry) sample.entry
  rw [List.length_map] at middle
  rw [moved, split, middle, List.map_append, List.map_cons]

theorem shift_right (next : Sample) (low high : List Sample) (count : Nat)
    (length : (low ++ next :: high).length + (count + 1) = poolSize)
    : (moveEntries ((low ++ next :: high).map Sample.entry ++ List.replicate (count + 1) freeEntry)
          (low.length + 1) low.length (poolSize - low.length - 1)).set low.length sample.entry
      = (low ++ sample :: next :: high).map Sample.entry ++ List.replicate count freeEntry := by
  have size : poolSize - low.length - 1 = (high.length + 1) + count := by
    simp only [List.length_append, List.length_cons] at length
    omega
  have whole : (low ++ next :: high).map Sample.entry ++ List.replicate (count + 1) freeEntry
      = low.map Sample.entry
        ++ ((next.entry :: high.map Sample.entry ++ List.replicate count freeEntry)
        ++ [freeEntry]) := by
    simp [List.replicate_succ']
  have front : (low.map Sample.entry ++ ((next.entry :: high.map Sample.entry
      ++ List.replicate count freeEntry) ++ [freeEntry])).take (low.length + 1)
      = low.map Sample.entry ++ [next.entry] := by
    simp [List.take_append, List.take_of_length_le]
  have back : ((next.entry :: high.map Sample.entry ++ List.replicate count freeEntry)
      ++ [freeEntry]).take (high.length + 1 + count)
      = next.entry :: high.map Sample.entry ++ List.replicate count freeEntry :=
    List.take_left' (by simp; omega)
  have moved
      : moveEntries ((low ++ next :: high).map Sample.entry ++ List.replicate (count + 1) freeEntry)
      (low.length + 1) low.length (poolSize - low.length - 1)
      = low.map Sample.entry ++ next.entry :: (next.entry :: high.map Sample.entry
        ++ List.replicate count freeEntry) := by
    rw [size, moveEntries, whole, front, List.drop_left' (List.length_map _), back,
      List.drop_eq_nil_of_le (by simp; omega)]
    simp
  have middle := set_middle (low.map Sample.entry) next.entry
    (next.entry :: high.map Sample.entry ++ List.replicate count freeEntry) sample.entry
  rw [List.length_map] at middle
  rw [moved, middle]
  simp

theorem key_at (pool : Pool) (low high : List Sample) (count : Nat)
    (split : pool = (low ++ high).map Sample.entry ++ List.replicate count freeEntry)
    : (pool.getD low.length freeEntry).key = high.head?.map Sample.key := by
  subst split
  rw [List.getD_eq_getElem?_getD, List.map_append, List.append_assoc,
    List.getElem?_append_right (by rw [List.length_map]), List.length_map, Nat.sub_self]
  cases high with
  | nil => cases count <;> rfl
  | cons next high => rfl

theorem insertSample_ok {all : List Sample} (holds : PoolHolds pool entries)
    (largest : Largest NotIdler poolSize all entries) (sample : Sample)
    : ∃ next, PoolHolds (insertSample pool sample) next
        ∧ Largest NotIdler poolSize (all ++ [sample]) next := by
  obtain ⟨low, high, rfl, place, below, above⟩ := placeInPool_ok holds sample.idle
  have lower : ∀ a ∈ low, NotIdler a sample := fun a inside => UInt64.le_of_lt (below a inside)
  have full := isFull_iff holds
  rw [insertSample, place]
  obtain ⟨count, split, length⟩ := holds.pool
  have key := key_at pool low high count split
  by_cases used : (low ++ high).length = poolSize
  · have isFull : isFull pool = true := full.mpr used
    obtain rfl : count = 0 := by omega
    rw [List.replicate_zero, List.append_nil] at split
    cases low with
    | nil =>
        rw [if_pos ⟨rfl, isFull⟩]
        exact ⟨_, holds, largest.skip used above⟩
    | cons first low =>
        rw [if_neg (by simp), if_neg, if_pos isFull]
        · have replaced := largest.replace used lower above
          refine ⟨low ++ sample :: high, ⟨⟨0, ?_, ?_⟩, replaced.sorted⟩, replaced⟩
          · rw [split]
            exact (shift_left first low high).trans (List.append_nil _).symm
          · simp only [List.cons_append, List.length_append, List.length_cons] at used ⊢
            omega
        · rintro ⟨inside, free⟩
          rw [key] at free
          cases high with
          | nil =>
              rw [List.append_nil] at used
              omega
          | cons next high => cases free
  · have room : (low ++ high).length < poolSize := by omega
    have inserted := largest.insert room lower above
    have notFull : ¬ isFull pool = true := mt full.mp used
    rw [if_neg (fun both => notFull both.2)]
    cases high with
    | nil =>
        rw [List.append_nil] at room
        obtain ⟨rest, set, size⟩ := set_free holds (by rwa [List.append_nil]) sample
        rw [List.append_nil] at set size
        rw [if_pos ⟨room, key⟩]
        exact ⟨low ++ [sample], ⟨⟨rest, set, size⟩, inserted.sorted⟩, inserted⟩
    | cons next high =>
        obtain ⟨rest, rfl⟩ := Nat.exists_eq_add_one_of_ne_zero (show count ≠ 0 by omega)
        rw [if_neg (fun both => by rw [key] at both; cases both.2), if_neg notFull, split,
          shift_right next low high rest length]
        refine ⟨low ++ sample :: next :: high, ⟨⟨rest, rfl, ?_⟩, inserted.sorted⟩, inserted⟩
        simp only [List.length_append, List.length_cons] at length ⊢
        omega

theorem evictionPoolPopulate_ok (holds : PoolHolds pool entries) (samples : List Sample)
    : ∃ next, PoolHolds (evictionPoolPopulate pool samples) next
        ∧ Largest NotIdler poolSize (entries ++ samples) next := by
  have loop (all : List Sample) (largest : Largest NotIdler poolSize all entries)
      : ∃ next, PoolHolds (evictionPoolPopulate pool samples) next
          ∧ Largest NotIdler poolSize (all ++ samples) next := by
    induction samples generalizing pool entries all with
    | nil => exact ⟨entries, holds, by rwa [List.append_nil]⟩
    | cons sample rest ih =>
        obtain ⟨next, held, kept⟩ := insertSample_ok holds largest sample
        obtain ⟨final, heldAll, keptAll⟩ := ih held _ kept
        exact ⟨final, heldAll, by rwa [List.append_assoc] at keptAll⟩
  exact loop entries (.self holds.sorted holds.few)

theorem removeEntry_ok {last : Sample} (holds : PoolHolds pool (entries ++ [last]))
    : PoolHolds (removeEntry pool entries.length) entries := by
  obtain ⟨⟨count, rfl, length⟩, sorted⟩ := holds
  rw [List.length_append, List.length_singleton] at length
  have size : poolSize - entries.length - 1 = count := by omega
  have whole : (entries ++ [last]).map Sample.entry ++ List.replicate count freeEntry
      = entries.map Sample.entry ++ (last.entry :: List.replicate count freeEntry) := by
    simp
  have moved : moveEntries ((entries ++ [last]).map Sample.entry ++ List.replicate count freeEntry)
      entries.length (entries.length + 1) count
      = entries.map Sample.entry ++ List.replicate count freeEntry
        ++ (last.entry :: List.replicate count freeEntry).drop count := by
    rw [moveEntries, whole, List.take_left' (List.length_map _), ← List.drop_drop,
      List.drop_left' (List.length_map _), List.drop_succ_cons, List.drop_zero,
      List.take_of_length_le (Nat.le_of_eq List.length_replicate), ← List.drop_drop,
      List.drop_left' (List.length_map _)]
  have one : ∃ e, (last.entry :: List.replicate count freeEntry).drop count = [e] := by
    refine List.length_eq_one_iff.mp ?_
    simp
  obtain ⟨e, one⟩ := one
  have middle :=
    set_middle (entries.map Sample.entry ++ List.replicate count freeEntry) e [] freeEntry
  have position : (entries.map Sample.entry ++ List.replicate count freeEntry).length
      = poolSize - 1 := by
    simp only [List.length_append, List.length_map, List.length_replicate]
    omega
  rw [position] at middle
  refine ⟨⟨count + 1, ?_, by omega⟩, (List.pairwise_append.mp sorted).1⟩
  rw [removeEntry, size, moved, one, middle, List.append_assoc, List.replicate_succ']

/-- What the search leaves: nothing when no entry exists; otherwise the entries in front of the last
one that exists.
-/
inductive Searched (inDict : Sds → Bool) (entries : List Sample) : List Sample → Option Sds → Prop
  | none (gone : ∀ e ∈ entries, inDict e.key = false) : Searched inDict entries [] none
  | victim {before after : List Sample} {e : Sample} (split : entries = before ++ e :: after)
    (present : inDict e.key = true) (gone : ∀ ghost ∈ after, inDict ghost.key = false)
    : Searched inDict entries before (some e.key)

theorem searchPool_free (holds : PoolHolds pool entries) (k : Nat)
    (small : entries.length + k ≤ poolSize)
    : searchPool inDict (entries.length + k) pool = searchPool inDict entries.length pool := by
  induction k with
  | zero => rfl
  | succ k ih =>
      have free : (pool.getD (entries.length + k) freeEntry).key = none := by
        obtain ⟨⟨count, rfl, length⟩, -⟩ := holds
        rw [List.getD_eq_getElem?_getD, List.getElem?_append_right (by rw [List.length_map]; omega),
          List.getElem?_replicate_of_lt (by rw [List.length_map]; omega)]
        rfl
      rw [← Nat.add_assoc, searchPool, free]
      exact ih (by omega)

theorem searchPool_ok (inDict : Sds → Bool) (holds : PoolHolds pool entries)
    : ∃ left, PoolHolds (searchPool inDict poolSize pool).1 left
        ∧ Searched inDict entries left (searchPool inDict poolSize pool).2 := by
  have whole :=
    @searchPool_free _ _ inDict holds (poolSize - entries.length) (by have := holds.few; omega)
  rw [Nat.add_sub_cancel' holds.few] at whole
  rw [whole]
  clear whole
  induction entries using List.reverseRecOn generalizing pool with
  | nil => exact ⟨[], holds, .none nofun⟩
  | append_singleton rest last ih =>
      have key : (pool.getD rest.length freeEntry).key = some last.key := by
        obtain ⟨⟨count, split, -⟩, -⟩ := holds
        exact key_at pool rest [last] count split
      have removed := removeEntry_ok holds
      rw [List.length_append, List.length_singleton, searchPool, key]
      dsimp only
      cases present : inDict last.key with
      | true =>
          rw [if_pos rfl]
          exact ⟨rest, removed, .victim rfl present nofun⟩
      | false =>
          rw [if_neg Bool.false_ne_true]
          obtain ⟨left, held, searched⟩ := ih removed
          refine ⟨left, held, ?_⟩
          generalize (searchPool inDict rest.length (removeEntry pool rest.length)).2
            = found at searched ⊢
          cases searched with
          | none gone =>
              refine .none fun e inside => ?_
              rcases List.mem_append.mp inside with inside | inside
              · exact gone e inside
              · rwa [List.mem_singleton.mp inside]
          | @victim before after e split there gone =>
              refine @Searched.victim _ _ _ (after ++ [last]) _ ?_ there fun ghost inside => ?_
              · rw [split, List.append_assoc, List.cons_append]
              · rcases List.mem_append.mp inside with inside | inside
                · exact gone ghost inside
                · rwa [List.mem_singleton.mp inside]

-- Runs

/-- The pools that are reached by samples and by searches, with any keys in the dictionary at each.
-/
inductive PoolRun : Pool → Prop where
  | alloc : PoolRun evictionPoolAlloc
  | populate {pool : Pool} (before : PoolRun pool) (samples : List Sample)
    : PoolRun (evictionPoolPopulate pool samples)
  | search {pool : Pool} (before : PoolRun pool) (inDict : Sds → Bool)
    : PoolRun (searchPool inDict poolSize pool).1

theorem PoolRun.holds (run : PoolRun pool) : ∃ entries, PoolHolds pool entries := by
  induction run with
  | alloc => exact ⟨[], evictionPoolAlloc_holds⟩
  | populate _ samples ih =>
      obtain ⟨entries, holds⟩ := ih
      obtain ⟨next, held, -⟩ := evictionPoolPopulate_ok holds samples
      exact ⟨next, held⟩
  | search _ inDict ih =>
      obtain ⟨entries, holds⟩ := ih
      obtain ⟨left, held, -⟩ := searchPool_ok inDict holds
      exact ⟨left, held⟩

theorem chooseVictim_found {rounds : List (List Sample)} {next : Pool} {key : Sds}
    (run : PoolRun pool)
    (chosen : chooseVictim inDict rounds pool = (next, some key))
    : ∃ full, PoolRun full ∧ searchPool inDict poolSize full = (next, some key) := by
  induction rounds generalizing pool with
  | nil => cases chosen
  | cons samples rounds ih =>
      have populated := run.populate samples
      rw [chooseVictim] at chosen
      split at chosen
      · rename_i found
        cases chosen
        exact ⟨_, populated, found⟩
      · rename_i left found
        have searched := populated.search inDict
        rw [found] at searched
        exact ih searched chosen

theorem Searched.idlest {left : List Sample} {key : Sds} (sorted : entries.Pairwise NotIdler)
    (searched : Searched inDict entries left (some key))
    : ∃ e ∈ entries, e.key = key ∧ inDict e.key = true
        ∧ ∀ other ∈ entries, inDict other.key = true → other.idle ≤ e.idle := by
  cases searched with
  | @victim before after e split present gone =>
      subst split
      refine ⟨e, by simp, rfl, present, fun other inside there => ?_⟩
      rcases List.mem_append.mp inside with front | back
      · exact (List.pairwise_append.mp sorted).2.2 other front e List.mem_cons_self
      · rcases List.mem_cons.mp back with rfl | behind
        · exact UInt64.le_refl _
        · rw [gone other behind] at there
          cases there

/-- In every run the entries in use are a prefix in the order of their idle times, a populate keeps
the largest idle times of the entries and the samples, and a search finds the idlest entry that
exists and removes it with everything behind it.
-/
theorem eviction_pool_keeps_idlest (run : PoolRun pool)
    : ∃ entries, PoolHolds pool entries
        ∧ (∀ samples, ∃ next, PoolHolds (evictionPoolPopulate pool samples) next
            ∧ Largest NotIdler poolSize (entries ++ samples) next)
        ∧ (∀ inDict, ∃ left, PoolHolds (searchPool inDict poolSize pool).1 left
            ∧ Searched inDict entries left (searchPool inDict poolSize pool).2
            ∧ ∀ key, (searchPool inDict poolSize pool).2 = some key →
                ∃ e ∈ entries, e.key = key ∧ inDict e.key = true
                  ∧ ∀ other ∈ entries, inDict other.key = true → other.idle ≤ e.idle)
        ∧ ∀ inDict rounds next key, chooseVictim inDict rounds pool = (next, some key) →
            ∃ full, PoolRun full ∧ searchPool inDict poolSize full = (next, some key) := by
  obtain ⟨entries, holds⟩ := run.holds
  refine ⟨entries, holds, evictionPoolPopulate_ok holds, fun inDict => ?_,
    fun inDict rounds next key chosen => chooseVictim_found run chosen⟩
  obtain ⟨left, held, searched⟩ := searchPool_ok inDict holds
  refine ⟨left, held, searched, fun key found => ?_⟩
  rw [found] at searched
  exact searched.idlest holds.sorted

/-- The pool after two samples, of which the idler one is gone. -/
theorem eviction_pool_keeps_idlest_ghost
    : ∃ entries,
        PoolHolds (evictionPoolPopulate evictionPoolAlloc [⟨7, [0x61]⟩, ⟨3, [0x62]⟩]) entries
        ∧ (searchPool (fun key => key = [0x62]) poolSize
            (evictionPoolPopulate evictionPoolAlloc [⟨7, [0x61]⟩, ⟨3, [0x62]⟩])).2
              = some [0x62] := by
  obtain ⟨entries, holds, -⟩ :=
    eviction_pool_keeps_idlest (PoolRun.alloc.populate [⟨7, [0x61]⟩, ⟨3, [0x62]⟩])
  exact ⟨entries, holds, by decide⟩

end Pools

end Redis.Eviction
