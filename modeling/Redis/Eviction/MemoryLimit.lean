import Mathlib

/-! How much memory `freeMemoryIfNeeded` counts as used, and how much of it has to be freed. -/

namespace Redis.Eviction

-- The source

/-- What `freeMemoryIfNeeded` measures, and the configuration that it reads. -/
structure MemoryUsage where
  /-- `zmalloc_used_memory()`. -/
  used : UInt64
  /-- `getClientOutputBufferMemoryUsage` of every slave. -/
  slaves : List UInt64
  /-- `server.aof_state != REDIS_AOF_OFF`. -/
  aofOn : Bool
  /-- `sdslen(server.aof_buf)`. -/
  aofBuf : UInt64
  /-- `aofRewriteBufferSize()`. -/
  aofRewriteBuf : UInt64
  maxmemory : UInt64
  /-- `REDIS_MAXMEMORY_NO_EVICTION`. -/
  noEviction : Bool

def subtractSlaves (memUsed : UInt64) (slaves : List UInt64) : UInt64 :=
  slaves.foldl (fun memUsed obufBytes => if memUsed < obufBytes then 0 else memUsed - obufBytes)
    memUsed

/-- `mem_used` when it is compared with the limit. -/
def memUsed (usage : MemoryUsage) : UInt64 :=
  let memUsed := subtractSlaves usage.used usage.slaves
  if usage.aofOn then memUsed - usage.aofBuf - usage.aofRewriteBuf else memUsed

/-- What `freeMemoryIfNeeded` decides in front of its loop over the databases. -/
inductive MemoryDecision where
  | ok
  | err
  /-- Keys are evicted until `mem_tofree` bytes are free. -/
  | evict (memToFree : UInt64)
deriving DecidableEq, Repr

/-- `freeMemoryIfNeeded`, up to its loop over the databases. -/
def freeMemoryIfNeeded (usage : MemoryUsage) : MemoryDecision :=
  if memUsed usage ≤ usage.maxmemory then .ok
  else if usage.noEviction then .err
  else .evict (memUsed usage - usage.maxmemory)

-- The memory that counts

/-- The bytes of the output buffers of the slaves. -/
def slaveBytes (usage : MemoryUsage) : Nat := (usage.slaves.map UInt64.toNat).sum

def aofBytes (usage : MemoryUsage) : Nat :=
  if usage.aofOn then usage.aofBuf.toNat + usage.aofRewriteBuf.toNat else 0

/-- The memory without the buffers, at least 0. -/
def netMemory (usage : MemoryUsage) : Nat := usage.used.toNat - slaveBytes usage - aofBytes usage

/-- The decision by the memory without the buffers. -/
def decision (usage : MemoryUsage) : MemoryDecision :=
  if netMemory usage ≤ usage.maxmemory.toNat then .ok
  else if usage.noEviction then .err
  else .evict (.ofNat (netMemory usage - usage.maxmemory.toNat))

section Usages

variable {usage : MemoryUsage}

theorem subtractSlaves_toNat (memUsed : UInt64) (slaves : List UInt64)
    : (subtractSlaves memUsed slaves).toNat = memUsed.toNat - (slaves.map UInt64.toNat).sum := by
  induction slaves generalizing memUsed with
  | nil => rfl
  | cons obufBytes rest ih =>
      rw [subtractSlaves, List.foldl_cons]
      refine (ih _).trans ?_
      rw [List.map_cons, List.sum_cons]
      split
      · rename_i less
        rw [UInt64.lt_iff_toNat_lt] at less
        rw [show (0 : UInt64).toNat = 0 from rfl]
        omega
      · rename_i enough
        have fits := UInt64.not_lt.mp enough
        rw [UInt64.toNat_sub_of_le _ _ fits]
        omega

theorem memUsed_toNat (usage : MemoryUsage)
    : (memUsed usage).toNat
      = ((usage.used.toNat - slaveBytes usage : Nat) - aofBytes usage : Int) % 2 ^ 64 := by
  have slaves := subtractSlaves_toNat usage.used usage.slaves
  have size := (subtractSlaves usage.used usage.slaves).toNat_lt
  unfold memUsed aofBytes slaveBytes
  rw [← slaves]
  cases usage.aofOn with
  | false =>
      dsimp only
      rw [if_neg Bool.false_ne_true, if_neg Bool.false_ne_true]
      omega
  | true =>
      dsimp only
      rw [if_pos rfl, if_pos rfl, UInt64.toNat_sub, UInt64.toNat_sub]
      have buf := usage.aofBuf.toNat_lt
      have rewriteBuf := usage.aofRewriteBuf.toNat_lt
      omega

theorem freeMemoryIfNeeded_eq (exactly : (memUsed usage).toNat = netMemory usage)
    : freeMemoryIfNeeded usage = decision usage := by
  unfold freeMemoryIfNeeded decision
  rw [← exactly]
  by_cases within : (memUsed usage).toNat ≤ usage.maxmemory.toNat
  · rw [if_pos within, if_pos (UInt64.le_iff_toNat_le.mpr within)]
  · rw [if_neg within, if_neg (mt UInt64.le_iff_toNat_le.mp within)]
    have difference : memUsed usage - usage.maxmemory
        = .ofNat ((memUsed usage).toNat - usage.maxmemory.toNat) := by
      refine UInt64.toNat.inj ?_
      have size := (memUsed usage).toNat_lt
      rw [UInt64.toNat_sub_of_le _ _ (UInt64.le_iff_toNat_le.mpr (by omega)), UInt64.toNat_ofNat']
      omega
    rw [difference]

/-- The memory without the buffers is what counts, exactly when the AOF buffers are not larger than
what the buffers of the slaves leave, or larger by all of 64 bits.
-/
theorem net_memory_counted_iff (usage : MemoryUsage)
    : ((memUsed usage).toNat = netMemory usage ∧ freeMemoryIfNeeded usage = decision usage)
      ↔ aofBytes usage ≤ usage.used.toNat - slaveBytes usage
        ∨ aofBytes usage = usage.used.toNat - slaveBytes usage + 2 ^ 64 := by
  have counted := memUsed_toNat usage
  have size := usage.used.toNat_lt
  have buffers : aofBytes usage < 2 ^ 65 := by
    have buf := usage.aofBuf.toNat_lt
    have rewriteBuf := usage.aofRewriteBuf.toNat_lt
    unfold aofBytes
    split <;> omega
  have exactly_iff : (memUsed usage).toNat = netMemory usage
      ↔ aofBytes usage ≤ usage.used.toNat - slaveBytes usage
        ∨ aofBytes usage = usage.used.toNat - slaveBytes usage + 2 ^ 64 := by
    unfold netMemory
    omega
  rw [← exactly_iff]
  exact and_iff_left_of_imp freeMemoryIfNeeded_eq

end Usages

/-- Two slaves wait for the same replies, and there are 100 bytes for the AOF. -/
def sharedReplies : MemoryUsage := ⟨1000000, [700000, 700000], true, 100, 0, 2000000, false⟩

/-- Nothing counts, and everything has to be freed. -/
theorem net_memory_not_counted
    : netMemory sharedReplies = 0 ∧ decision sharedReplies = .ok
      ∧ freeMemoryIfNeeded sharedReplies = .evict 18446744073707551516 := by
  decide

end Redis.Eviction
