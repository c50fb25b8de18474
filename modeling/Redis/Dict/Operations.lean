import Redis.Dict.Invariant

/-! What each operation of `dict.c` does to the entries of a well-formed dictionary. -/

namespace Redis

open Redis.Library

variable {K V : Type} {size : Nat}

-- Resizing

/-- The loop doubles no more often than it has to. -/
theorem dictNextPowerLoop_power (size fuel bits : Nat)
    : ∃ more ≤ fuel,
        dictNextPowerLoop size fuel (2 ^ bits) = 2 ^ (bits + more)
        ∧ ∀ fewer < more, 2 ^ (bits + fewer) < size := by
  induction fuel generalizing bits with
  | zero => exact ⟨0, le_rfl, rfl, by omega⟩
  | succ fuel ih =>
      by_cases covered : 2 ^ bits ≥ size
      · exact ⟨0, by omega, by simp [dictNextPowerLoop, covered], by omega⟩
      · obtain ⟨more, bound, eq, tight⟩ := ih (bits + 1)
        refine ⟨more + 1, by omega, ?_, ?_⟩
        · rw [dictNextPowerLoop, if_neg covered, ← pow_succ, eq]
          congr 1
          omega
        · intro fewer less
          cases fewer with
          | zero => simpa using covered
          | succ fewer =>
              have before := tight fewer (by omega)
              rwa [Nat.add_right_comm, Nat.add_assoc] at before

theorem dictNextPowerLoop_ge (size fuel i : Nat) (enough : size ≤ i * 2 ^ fuel)
    : size ≤ dictNextPowerLoop size fuel i := by
  induction fuel generalizing i with
  | zero => simpa [dictNextPowerLoop] using enough
  | succ fuel ih =>
      by_cases covered : i ≥ size
      · simp [dictNextPowerLoop, covered]
      · rw [dictNextPowerLoop, if_neg covered]
        exact ih (i * 2) (by rw [pow_succ] at enough; linarith)

/-- A size up to `2 ^ 60` is rounded to a power of two of at least four and at most
`2 ^ 60` buckets.
-/
theorem dictNextPower_power (few : size ≤ 2 ^ 60) : ∃ bits ≤ 60, dictNextPower size = 2 ^ bits := by
  rw [dictNextPower, if_neg (by simp only [portLongMax]; omega)]
  obtain ⟨more, _, eq, tight⟩ := dictNextPowerLoop_power size 61 2
  refine ⟨2 + more, ?_, eq⟩
  by_contra large
  have short := tight 58 (by omega)
  omega

/-- Up to `2 ^ 60` buckets the byte count does not wrap: the whole array is served or none. -/
theorem zcallocTable_power {bits : Nat} (bound : bits ≤ 60)
    : (zcallocTable (2 ^ bits) : Except Fault (List (List (DictEntry K V))))
          = .ok (List.replicate (2 ^ bits) [])
      ∨ (zcallocTable (2 ^ bits) : Except Fault (List (List (DictEntry K V))))
          = .error .outOfMemory := by
  have few : 2 ^ bits ≤ 2 ^ 60 := Nat.pow_le_pow_right (by decide) bound
  have bytes : 2 ^ bits * 8 % 2 ^ 64 = 2 ^ bits * 8 := Nat.mod_eq_of_lt (by omega)
  simp only [zcallocTable, bytes, Nat.mul_div_cancel _ (show 0 < 8 by decide)]
  split
  · exact Or.inl rfl
  · exact Or.inr rfl

/-- The odd size `PORT_LONG_MAX` takes more bytes than can be served. -/
theorem zcallocTable_portLongMax
    : (zcallocTable portLongMax : Except Fault (List (List (DictEntry K V))))
      = .error .outOfMemory := by
  simp [zcallocTable, portLongMax, addressSpace]

theorem le_dictNextPower (small : size < portLongMax) : size ≤ dictNextPower size := by
  rw [dictNextPower, if_neg (by omega)]
  refine dictNextPowerLoop_ge size 61 dictHtInitialSize ?_
  simp only [portLongMax, dictHtInitialSize] at small ⊢
  omega

/-- The calls of `dictExpand` that do not ask for `2 ^ 61` to `2 ^ 63` buckets, or refuse. -/
def Dict.ServesSize (d : Dict K V) (size : Nat) : Prop :=
  d.isRehashing ∨ size < d.ht0.used ∨ size ≤ 2 ^ 60 ∨ portLongMax ≤ size

theorem wellFormed_replicate (type : DictType K V) {realsize bits : Nat} (bound : bits ≤ 60)
    (power : realsize = 2 ^ bits)
    : ({ table := List.replicate realsize [], size := realsize,
         sizemask := realsize - 1, used := 0 } : Dictht K V).WellFormed type where
  length := by simp
  mask := rfl
  power := Or.inr ⟨bits, bound, power⟩
  used := by simp [Dictht.entries]
  placed := by
    intro idx chain entry found member
    simp only [List.getElem?_replicate] at found
    split at found
    · obtain rfl := Option.some.inj found
      simp at member
    · simp at found

section Expand

variable [DecidableEq K] {type : DictType K V} {d : Dict K V}

/-- `dictExpand` ends the process for lack of memory or keeps the contents. When it
reports success, a table that receives new entries is allocated.
-/
theorem dictExpand_ok (wf : d.WellFormed type) (serves : d.ServesSize size)
    : dictExpand d size = .error .outOfMemory
      ∨ ∃ ok next,
          dictExpand d size = .ok (ok, next)
          ∧ d.SameContents type next
          ∧ (ok = true → next.ht0.size ≠ 0) := by
  unfold dictExpand
  dsimp only
  by_cases busy : d.isRehashing ∨ d.ht0.used > size
  · rw [if_pos busy]
    exact Or.inr ⟨false, d, rfl, .refl wf, by simp⟩
  rw [if_neg busy]
  by_cases equal : dictNextPower size = d.ht0.size
  · rw [if_pos equal]
    exact Or.inr ⟨false, d, rfl, .refl wf, by simp⟩
  rw [if_neg equal]
  have few : size ≤ 2 ^ 60 ∨ portLongMax ≤ size := by
    rcases serves with rehashing | small | few
    · exact absurd (Or.inl rehashing) busy
    · exact absurd (Or.inr small) busy
    · exact few
  rcases few with few | large
  swap
  · have huge : dictNextPower size = portLongMax := if_pos large
    exact Or.inl (by rw [huge, zcallocTable_portLongMax]; rfl)
  obtain ⟨bits, bound, power⟩ := dictNextPower_power few
  have table := zcallocTable_power (K := K) (V := V) bound
  rw [← power] at table
  rcases table with served | refused
  swap
  · exact Or.inl (by rw [refused]; rfl)
  let n : Dictht K V :=
    { table := List.replicate (dictNextPower size) [], size := dictNextPower size,
      sizemask := dictNextPower size - 1, used := 0 }
  have fresh : n.WellFormed type := wellFormed_replicate type bound power
  have noNew : n.entries = [] := by simp [n, Dictht.entries]
  have positive : dictNextPower size ≠ 0 := by
    rw [power]
    exact Nat.pos_iff_ne_zero.mp (Nat.two_pow_pos bits)
  have idle : d.rehashidx = none := by
    simpa [Dict.isRehashing] using (not_or.mp busy).1
  have noSecond : d.ht1.entries = [] := by rw [wf.idle idle]; rfl
  refine Or.inr ?_
  by_cases first : d.ht0.size = 0
  · have noFirst : d.ht0.entries = [] := by
      have none := wf.ht0.length
      rw [first] at none
      simp [Dictht.entries, List.length_eq_zero_iff.mp none]
    refine ⟨true, { d with ht0 := n }, ?_, ⟨?_, ?_, fun _ => positive, rfl⟩, fun _ => positive⟩
    · simp [served, first, n]
    · exact {
        ht0 := fresh
        ht1 := wf.ht1
        distinct := by simp [Dict.entries, noNew, noSecond]
        idle := wf.idle
        allocated := by simp [idle]
        emptied := by simp [idle]
        room := by simp [Dict.entries, noNew, noSecond, addressSpace]
      }
    · simp [Dict.entries, noNew, noFirst, noSecond]
  · refine ⟨true, { d with ht1 := n, rehashidx := some 0 }, ?_, ⟨?_, ?_, id, rfl⟩,
      fun _ => first⟩
    · simp [served, first, n]
    · exact {
        ht0 := wf.ht0
        ht1 := fresh
        distinct := by simpa [Dict.entries, noNew, noSecond] using wf.distinct
        idle := by simp
        allocated := fun _ => ⟨first, positive⟩
        emptied := by
          intro i j chain eq below
          obtain rfl : 0 = i := Option.some.inj eq
          omega
        room := by simpa [Dict.entries, noNew, noSecond] using wf.room
      }
    · simp [Dict.entries, noNew, noSecond]

/-- An expansion to `2 ^ 61` buckets or more that is not refused leaves a table without its
buckets.
-/
theorem dictExpand_wraps (wf : d.WellFormed type) (wraps : ¬d.ServesSize size)
    {ok : Bool} {next : Dict K V} (run : dictExpand d size = .ok (ok, next))
    : ¬next.WellFormed type := by
  simp only [Dict.ServesSize, not_or, not_le, not_lt] at wraps
  obtain ⟨idle, room, large, small⟩ := wraps
  have covered := le_dictNextPower small
  have few {ht : Dictht K V} (wf : ht.WellFormed type) : ht.size ≤ 2 ^ 60 := by
    rcases wf.power with zero | ⟨bits, bound, power⟩
    · omega
    · exact power ▸ Nat.pow_le_pow_right (by decide) bound
  have other : dictNextPower size ≠ d.ht0.size := by
    have old := few wf.ht0
    omega
  have going : ¬(d.isRehashing ∨ d.ht0.used > size) := by
    rintro (rehashing | full)
    · exact idle rehashing
    · omega
  simp only [dictExpand, if_neg going, if_neg other] at run
  obtain ⟨table, _, rest⟩ := andThen_ok_iff.mp run
  intro after
  split at rest
  · cases rest
    have size := few after.ht0
    simp only at size
    omega
  · cases rest
    have size := few after.ht1
    simp only at size
    omega

theorem castInt_lt (n : Nat) : castInt n < 2 ^ 31 := by
  simp only [castInt]
  split <;> omega

theorem dictResize_ok (canResize : Bool) (wf : d.WellFormed type)
    : dictResize canResize d = .error .outOfMemory
      ∨ ∃ ok next, dictResize canResize d = .ok (ok, next) ∧ d.SameContents type next := by
  unfold dictResize
  split
  · exact Or.inr ⟨false, d, rfl, .refl wf⟩
  · refine (dictExpand_ok wf (Or.inr (Or.inr (Or.inl ?_)))).imp_right
      (fun ⟨ok, next, run, same, _⟩ => ⟨ok, next, run, same⟩)
    have small := castInt_lt d.ht0.used
    by_cases few : castInt d.ht0.used < (dictHtInitialSize : Nat)
    · rw [if_pos few]
      decide
    · rw [if_neg few]
      omega

/-- The expansion check of an insertion never refuses: the doubled size differs from the
present one. Afterwards the table that receives the entry is allocated.
-/
theorem dictExpandIfNeeded_ok (canResize : Bool) (wf : d.WellFormed type)
    : dictExpandIfNeeded canResize d = .error .outOfMemory
      ∨ ∃ next,
          dictExpandIfNeeded canResize d = .ok (true, next)
          ∧ d.SameContents type next
          ∧ next.ht0.size ≠ 0 := by
  have succeeds (size : Nat) (idle : d.isRehashing = false) (room : d.ht0.used ≤ size)
      (few : size ≤ 2 ^ 60) (other : dictNextPower size ≠ d.ht0.size)
      : dictExpand d size = .error .outOfMemory
        ∨ ∃ next,
            dictExpand d size = .ok (true, next)
            ∧ d.SameContents type next
            ∧ next.ht0.size ≠ 0 := by
    rcases dictExpand_ok wf (Or.inr (Or.inr (Or.inl few))) with
      oom | ⟨ok, next, run, same, allocated⟩
    · exact Or.inl oom
    · obtain rfl : ok = true := by
        unfold dictExpand at run
        simp only [idle, Bool.false_eq_true, false_or, gt_iff_lt, Nat.not_lt.mpr room, other,
          if_false] at run
        split at run <;>
        · simp only [andThen_ok_iff, return_ok_iff, Prod.mk.injEq] at run
          obtain ⟨_, _, rfl, _⟩ := run
          rfl
      exact Or.inr ⟨next, run, same, allocated rfl⟩
  unfold dictExpandIfNeeded
  by_cases rehashing : d.isRehashing = true
  · rw [if_pos rehashing]
    obtain ⟨i, eq⟩ := Option.isSome_iff_exists.mp rehashing
    exact Or.inr ⟨d, rfl, .refl wf, (wf.allocated eq).1⟩
  rw [if_neg rehashing]
  have idle : d.isRehashing = false := by simpa using rehashing
  by_cases first : d.ht0.size = 0
  · rw [if_pos first]
    have none : d.ht0.used = 0 := by
      have length := wf.ht0.length
      rw [first, List.length_eq_zero_iff] at length
      rw [wf.ht0.used]
      simp [Dictht.entries, length]
    exact succeeds _ idle (by omega) (by decide) (by rw [first]; decide)
  rw [if_neg first]
  by_cases full : d.ht0.used ≥ d.ht0.size
      ∧ (canResize ∨ d.ht0.used / d.ht0.size > dictForceResizeRatio)
  · rw [if_pos full]
    -- The cells in memory are too few for a doubled size that wraps.
    have few : d.ht0.used * 2 ≤ 2 ^ 60 := by
      have room := wf.room
      simp only [Dict.entries, List.length_append, ← wf.ht0.used, addressSpace] at room
      omega
    refine succeeds _ idle (by omega) few ?_
    intro equal
    have covered : d.ht0.used * 2 ≤ dictNextPower (d.ht0.used * 2) :=
      le_dictNextPower (by simp only [portLongMax]; omega)
    omega
  · rw [if_neg full]
    exact Or.inr ⟨d, rfl, .refl wf, first⟩

end Expand

end Redis
