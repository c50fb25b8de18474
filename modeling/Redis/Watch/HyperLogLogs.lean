import Redis.Hyperloglog.CachedCount
import Redis.Watch.Execution

/-! The strings of `hyperloglog.c` as the commands on keys take them. Where the C code leaves its
defined behaviour, the call counts as one that fails.
-/

namespace Redis.Watch

open Redis.Hyperloglog
open Redis.Keyspace (Sds)
open Redis.Library

section Adding

variable {maxBytes : Nat} {s ele after : Sds} {result : Int}

theorem promoteAdd_unchanged (added : promoteAdd s ele = .ok (result, after))
    : result = 1 ∨ after = s := by
  obtain ⟨dense, -, rest⟩ := andThen_ok_iff.mp added
  cases dense with
  | none =>
      obtain ⟨-, rfl⟩ := Prod.mk.inj (Except.ok.inj rest)
      exact .inr rfl
  | some dense =>
      dsimp only at rest
      split at rest
      · exact .inl (Prod.mk.inj (Except.ok.inj rest)).1.symm
      · cases rest

theorem hllSparseAdd_unchanged (added : hllSparseAdd maxBytes s ele = .ok (result, after))
    : result = 1 ∨ after = s := by
  unfold hllSparseAdd at added
  dsimp only at added
  split at added
  · exact promoteAdd_unchanged added
  split at added
  · obtain ⟨-, rfl⟩ := Prod.mk.inj (Except.ok.inj added)
    exact .inr rfl
  obtain ⟨found, -, rest⟩ := andThen_ok_iff.mp added
  split at rest
  · obtain ⟨-, rfl⟩ := Prod.mk.inj (Except.ok.inj rest)
    exact .inr rfl
  · exact .inl (Prod.mk.inj (Except.ok.inj rest)).1.symm
  · exact promoteAdd_unchanged rest

theorem hllDenseAdd_unchanged (data : List UInt8) (ele : Sds)
    : (hllDenseAdd data ele).1 = true ∨ (hllDenseAdd data ele).2 = data := by
  rw [hllDenseAdd]
  split
  · exact .inl rfl
  · exact .inr rfl

/-- A value that is not said to have changed is the one that was given. -/
theorem hllAdd_unchanged (added : hllAdd maxBytes s ele = .ok (result, after))
    : result = 1 ∨ after = s := by
  unfold hllAdd at added
  by_cases long : encoding s ≤ 1 ∧ 2 ^ 31 ≤ ele.length
  · rw [if_pos long] at added
    cases added
  rw [if_neg long] at added
  split at added
  · obtain ⟨same, kept⟩ := Prod.mk.inj (Except.ok.inj added)
    rcases hllDenseAdd_unchanged (registers s) ele with grown | unchanged
    · rw [grown, if_pos rfl] at same
      exact .inl same.symm
    · rw [unchanged, withRegisters_self] at kept
      exact .inr kept.symm
  split at added
  · exact hllSparseAdd_unchanged added
  · obtain ⟨-, rfl⟩ := Prod.mk.inj (Except.ok.inj added)
    exact .inr rfl

end Adding

/-- The functions of `hyperloglog.c`, with `hll_sparse_max_bytes`. -/
def hyperLogLog (maxBytes : Nat) : HyperLogLog where
  create := createHLLObject
  isHLLObject s :=
    match isHLLObjectOrReply (.string (.sds s)) with
    | .ok (.ok _) => true
    | _ => false
  add s ele :=
    match hllAdd maxBytes s ele with
    | .ok (result, after) => if result = -1 then none else some (result = 1, after)
    | .error _ => none
  invalidateCache := invalidateCache
  registers s :=
    match hllMerge zeroRegisters s with
    | .ok max => max.map (List.map UInt8.ofNat)
    | .error _ => none
  toDense s :=
    match hllSparseToDense s with
    | .ok dense => dense
    | .error _ => none
  setRegisters dense max :=
    withRegisters dense (storeRegisters (registers dense) (max.map UInt8.toNat))
  add_unchanged s ele after added := by
    cases run : hllAdd maxBytes s ele with
    | error fault =>
        rw [run] at added
        cases added
    | ok value =>
        obtain ⟨result, next⟩ := value
        rw [run] at added
        dsimp only at added
        split at added
        · cases added
        · obtain ⟨notOne, rfl⟩ := Prod.mk.inj (Option.some.inj added)
          exact (hllAdd_unchanged run).resolve_left (of_decide_eq_false notOne)
  toDense_create := by
    obtain ⟨dense, converted, -⟩ := hllSparseToDense_ok createHLLObject_valid.1
    rw [converted]
    exact Option.some_ne_none _

end Redis.Watch
