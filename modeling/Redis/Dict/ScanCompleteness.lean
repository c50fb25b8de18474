import Redis.Dict.Scan

/-! What a whole iteration with `dictScan` visits, with any operations between its calls.
A cursor stands for all words before it in the order that compares bits from the least
significant one up, and every call has to emit the entries between its cursor and the next.
-/

namespace Redis

open Redis.Library

variable {K V : Type}

-- Cursor arithmetic

/-- The word whose `bits` low bits are set. -/
def lowMask (bits : Nat) : BitVec 64 := BitVec.ofNat 64 (2 ^ bits - 1)

theorem or_eq_add_of_masks (x y m : BitVec 64)
    : (x &&& ~~~m) ||| (y &&& m) = (x &&& ~~~m) + (y &&& m) := by
  refine (BitVec.add_eq_or_of_and_eq_zero _ _ ?_).symm
  ext i
  simp only [BitVec.getElem_and, BitVec.getElem_not, BitVec.getElem_zero]
  cases m[i] <;> simp

theorem or_eq_masks (x m : BitVec 64) : x ||| m = (x &&& ~~~m) ||| (m &&& m) := by
  ext i
  simp only [BitVec.getElem_or, BitVec.getElem_and, BitVec.getElem_not]
  cases x[i] <;> cases m[i] <;> rfl

theorem eq_masks (x m : BitVec 64) : x = (x &&& ~~~m) ||| (x &&& m) := by
  ext i
  simp only [BitVec.getElem_or, BitVec.getElem_and, BitVec.getElem_not]
  cases x[i] <;> cases m[i] <;> rfl

section Masks

variable {bits : Nat} (bound : bits ≤ 60)
include bound

theorem toNat_lowMask : (lowMask bits).toNat = 2 ^ bits - 1 := by
  have small : 2 ^ bits ≤ 2 ^ 60 := Nat.pow_le_pow_right (by decide) bound
  rw [lowMask, BitVec.toNat_ofNat]
  exact Nat.mod_eq_of_lt (by omega)

theorem toNat_and_lowMask (v : BitVec 64) : (v &&& lowMask bits).toNat = v.toNat % 2 ^ bits := by
  rw [BitVec.toNat_and, toNat_lowMask bound, Nat.and_two_pow_sub_one_eq_mod]

theorem lowMask_getLsbD (i : Nat) : (lowMask bits).getLsbD i = decide (i < bits) := by
  rw [← BitVec.testBit_toNat, toNat_lowMask bound, Nat.testBit_two_pow_sub_one]

theorem lowMask_add_one : (lowMask bits + 1).toNat = 2 ^ bits := by
  have small : 2 ^ bits ≤ 2 ^ 60 := Nat.pow_le_pow_right (by decide) bound
  have positive := Nat.two_pow_pos bits
  rw [BitVec.toNat_add, toNat_lowMask bound]
  change (2 ^ bits - 1 + 1) % 2 ^ 64 = 2 ^ bits
  rw [Nat.sub_add_cancel positive, Nat.mod_eq_of_lt (by omega)]

theorem nextExpansion_eq_add (v : BitVec 64)
    : nextExpansion v (lowMask bits) = v + (lowMask bits + 1) := by
  have carried : (v ||| lowMask bits) + 1 = (v &&& ~~~lowMask bits) + (lowMask bits + 1) := by
    rw [or_eq_masks, or_eq_add_of_masks, BitVec.and_self, BitVec.add_assoc]
  have cleared : ((v ||| lowMask bits) + 1) &&& lowMask bits = 0#64 := by
    apply BitVec.eq_of_toNat_eq
    have power : (2 : Nat) ^ bits ∣ 2 ^ 64 := Nat.pow_dvd_pow 2 (by omega)
    have inner : (v &&& ~~~lowMask bits).toNat % 2 ^ bits = 0 := by
      rw [← toNat_and_lowMask bound, BitVec.and_assoc, BitVec.and_comm (~~~lowMask bits)]
      simp
    rw [toNat_and_lowMask bound, carried, BitVec.toNat_add, lowMask_add_one bound,
      Nat.mod_mod_of_dvd _ power, Nat.add_mod_right]
    exact inner
  have kept : ((v ||| lowMask bits) + 1) &&& ~~~lowMask bits = (v ||| lowMask bits) + 1 := by
    have parts := eq_masks ((v ||| lowMask bits) + 1) (lowMask bits)
    rw [cleared, BitVec.or_zero] at parts
    exact parts.symm
  calc
    nextExpansion v (lowMask bits)
    _ = (((v ||| lowMask bits) + 1) &&& ~~~lowMask bits) + (v &&& lowMask bits) := by
      rw [nextExpansion, or_eq_add_of_masks]
    _ = (v &&& ~~~lowMask bits) + (v &&& lowMask bits) + (lowMask bits + 1) := by
      rw [kept, carried]
      ac_rfl
    _ = v + (lowMask bits + 1) := by
      rw [← or_eq_add_of_masks, ← eq_masks]

theorem toNat_nextExpansion (v : BitVec 64)
    : (nextExpansion v (lowMask bits)).toNat = (v.toNat + 2 ^ bits) % 2 ^ 64 := by
  rw [nextExpansion_eq_add bound, BitVec.toNat_add, lowMask_add_one bound]

end Masks

/-- The number a cursor spells in its bits from `low` up to `high`. -/
def expansion (low high : Nat) (v : BitVec 64) : Nat := v.toNat / 2 ^ low % 2 ^ (high - low)

section Expansions

variable {low high : Nat} (ordered : low ≤ high) (bound : high ≤ 60)
include ordered bound

theorem expansion_eq_zero_iff (v : BitVec 64)
    : v &&& (lowMask low ^^^ lowMask high) = 0 ↔ expansion low high v = 0 := by
  have value
      : (v &&& (lowMask low ^^^ lowMask high)).toNat = 2 ^ low * expansion low high v := by
    apply Nat.eq_of_testBit_eq
    intro i
    rw [BitVec.testBit_toNat, BitVec.getLsbD_and, BitVec.getLsbD_xor,
      lowMask_getLsbD (le_trans ordered bound), lowMask_getLsbD bound,
      Nat.testBit_two_pow_mul, expansion, Nat.testBit_mod_two_pow, Nat.testBit_div_two_pow]
    rcases Nat.lt_or_ge i low with below | above
    · simp [below, Nat.not_le.mpr below, Nat.lt_of_lt_of_le below ordered]
    · rw [Nat.sub_add_cancel above, BitVec.testBit_toNat]
      have sides : i < high ↔ i - low < high - low := by omega
      simp [above, Nat.not_lt.mpr above, sides, Bool.and_comm]
  constructor
  · intro clear
    rw [clear] at value
    have positive := Nat.two_pow_pos low
    rcases Nat.mul_eq_zero.mp value.symm with none | zero
    · omega
    · exact zero
  · intro zero
    rw [zero, Nat.mul_zero] at value
    exact BitVec.eq_of_toNat_eq value

theorem expansion_next (v : BitVec 64)
    : expansion low high (nextExpansion v (lowMask low))
        = (expansion low high v + 1) % 2 ^ (high - low)
      ∧ (nextExpansion v (lowMask low)).toNat % 2 ^ low = v.toNat % 2 ^ low := by
  have step := toNat_nextExpansion (le_trans ordered bound) v
  have positive := Nat.two_pow_pos low
  have lower : (2 : Nat) ^ low ∣ 2 ^ 64 := Nat.pow_dvd_pow 2 (by omega)
  constructor
  · have split : (2 : Nat) ^ 64 = 2 ^ low * 2 ^ (64 - low) := by
      rw [← Nat.pow_add]
      congr 1
      omega
    have upper : (2 : Nat) ^ (high - low) ∣ 2 ^ (64 - low) := Nat.pow_dvd_pow 2 (by omega)
    rw [expansion, step, split, Nat.mod_mul_right_div_self, Nat.mod_mod_of_dvd _ upper,
      Nat.add_div_right _ positive, expansion, Nat.mod_add_mod]
  · rw [step, Nat.mod_mod_of_dvd _ lower, Nat.add_mod_right]

omit bound in
theorem mod_high_eq_iff (v : BitVec 64) (hash : Nat)
    : v.toNat % 2 ^ high = hash % 2 ^ high
      ↔ v.toNat % 2 ^ low = hash % 2 ^ low
        ∧ expansion low high v = hash / 2 ^ low % 2 ^ (high - low) := by
  have split : (2 : Nat) ^ high = 2 ^ low * 2 ^ (high - low) := by
    rw [← Nat.pow_add]
    congr 1
    omega
  have positive := Nat.two_pow_pos low
  have first := Nat.mod_lt v.toNat positive
  have second := Nat.mod_lt hash positive
  rw [split, Nat.mod_mul, Nat.mod_mul, expansion]
  constructor
  · intro same
    have lows := congrArg (· % 2 ^ low) same
    simp only [Nat.add_mul_mod_self_left, Nat.mod_mod] at lows
    refine ⟨lows, ?_⟩
    rw [lows] at same
    exact Nat.eq_of_mul_eq_mul_left positive (Nat.add_left_cancel same)
  · rintro ⟨lows, expansions⟩
    rw [lows, expansions]

end Expansions

section Calls

variable {type : DictType K V}

theorem Dictht.WellFormed.mask_eq {ht : Dictht K V} (wf : ht.WellFormed type) {bits : Nat}
    (size : ht.size = 2 ^ bits)
    : ht.mask = lowMask bits := by
  rw [Dictht.mask, wf.mask, size, lowMask]

theorem Dictht.WellFormed.cursor_bucket {ht : Dictht K V} (wf : ht.WellFormed type)
    {bits : Nat} (bound : bits ≤ 60) (size : ht.size = 2 ^ bits) (v : BitVec 64)
    : ∃ chain,
        ht.bucket (v &&& ht.mask).toNat = .ok chain
        ∧ ∀ entry ∈ ht.entries,
            v.toNat % 2 ^ bits = dictHashKey type entry.key % 2 ^ bits → entry ∈ chain := by
  have index : (v &&& ht.mask).toNat = v.toNat &&& ht.sizemask := by
    rw [wf.mask_eq size, toNat_and_lowMask bound, wf.mask, size, Nat.and_two_pow_sub_one_eq_mod]
  have positive := Nat.two_pow_pos bits
  obtain ⟨chain, read, found⟩ := wf.bucket_ok (by omega) v.toNat
  refine ⟨chain, by rw [index, read], ?_⟩
  intro entry member low
  obtain ⟨own, ownFound, inOwn⟩ := wf.mem_chain member
  have same : v.toNat &&& ht.sizemask = dictHashKey type entry.key &&& ht.sizemask := by
    rw [wf.mask, size, Nat.and_two_pow_sub_one_eq_mod, Nat.and_two_pow_sub_one_eq_mod, low]
  rw [← same, found] at ownFound
  cases ownFound
  exact inOwn

/-- The loop over the larger table ends after the last expansion of the cursor. From its
start on it goes up in the natural order of the numbers between the masks.
-/
theorem scanExpansions_ok {t1 : Dictht K V} (wf : t1.WellFormed type) {low high : Nat}
    (ordered : low ≤ high) (bound : high ≤ 60) (size : t1.size = 2 ^ high) (rounds : Nat)
    (v : BitVec 64) (enough : 2 ^ (high - low) ≤ expansion low high v + rounds)
    : ∃ next out,
        scanExpansions t1 (lowMask low) rounds v = .ok (next, out)
        ∧ next.toNat % 2 ^ low = v.toNat % 2 ^ low
        ∧ ∀ entry ∈ t1.entries,
            v.toNat % 2 ^ low = dictHashKey type entry.key % 2 ^ low
            → expansion low high v
              ≤ dictHashKey type entry.key / 2 ^ low % 2 ^ (high - low)
            → entry ∈ out := by
  have positive := Nat.two_pow_pos (high - low)
  induction rounds generalizing v with
  | zero =>
      have small : expansion low high v < 2 ^ (high - low) := Nat.mod_lt _ positive
      omega
  | succ rounds ih =>
      obtain ⟨chain, read, here⟩ := wf.cursor_bucket bound size v
      obtain ⟨expanded, kept⟩ := expansion_next ordered bound v
      have agree := fun hash => (mod_high_eq_iff ordered v hash).mpr
      rw [wf.mask_eq size] at read
      rcases Nat.lt_or_ge (expansion low high v + 1) (2 ^ (high - low)) with more | last
      · rw [Nat.mod_eq_of_lt more] at expanded
        have continues
            : nextExpansion v (lowMask low) &&& (lowMask low ^^^ lowMask high) ≠ 0 := by
          rw [Ne, expansion_eq_zero_iff ordered bound, expanded]
          exact Nat.succ_ne_zero _
        obtain ⟨next, out, run, lows, rest⟩ := ih (nextExpansion v (lowMask low)) (by omega)
        refine ⟨next, chain ++ out, ?_, lows.trans kept, ?_⟩
        · simp only [scanExpansions, wf.mask_eq size, read, ok_andThen]
          rw [if_neg continues, run]
          rfl
        · intro entry member lows least
          rcases Nat.eq_or_lt_of_le least with equal | later
          · exact List.mem_append_left _ (here entry member (agree _ ⟨lows, equal⟩))
          · exact List.mem_append_right _ (rest entry member (kept.trans lows) (by omega))
      · have small : expansion low high v < 2 ^ (high - low) := Nat.mod_lt _ positive
        have top : expansion low high v + 1 = 2 ^ (high - low) := by omega
        rw [top, Nat.mod_self] at expanded
        have stops
            : nextExpansion v (lowMask low) &&& (lowMask low ^^^ lowMask high) = 0 :=
          (expansion_eq_zero_iff ordered bound _).mpr expanded
        refine ⟨nextExpansion v (lowMask low), chain, ?_, kept, ?_⟩
        · simp only [scanExpansions, wf.mask_eq size, read, ok_andThen]
          rw [if_pos stops]
          rfl
        · intro entry member lows least
          have below := Nat.mod_lt (dictHashKey type entry.key / 2 ^ low) positive
          exact here entry member (agree _ ⟨lows, by omega⟩)

/-- The bits of the cursor between the masks of a rehash are a run of ones from the lowest
of them up, possibly an empty one.
-/
def Dict.CursorAligned (d : Dict K V) (v : BitVec 64) : Prop :=
  d.isRehashing = true
  → ∃ bits ≤ 60, (v &&& d.scanTables.2.mask) ||| d.scanTables.1.mask = lowMask bits

/-- What one call has to emit: all entries from its cursor up to the next one. -/
def CoversFrom (v next : BitVec 64) (out : List (DictEntry K V)) (hash : Nat)
    (entry : DictEntry K V)
    : Prop :=
  next = 0 ∨ LowBitLt (BitVec.ofNat 64 hash) next
  → LowBitLt (BitVec.ofNat 64 hash) v ∨ entry ∈ out

theorem nextCursor_reverse (v m0 : BitVec 64)
    : (nextCursor v m0).reverse = (v ||| ~~~m0).reverse + 1#64 := by
  rw [nextCursor, rev_eq_reverse, rev_eq_reverse, BitVec.reverse_reverse_eq]
  rfl

theorem nextCursor_reached {bits : Nat} (bound : bits ≤ 60) {v next x : BitVec 64}
    (lows : next.toNat % 2 ^ bits = v.toNat % 2 ^ bits)
    (reached : nextCursor next (lowMask bits) = 0 ∨ LowBitLt x (nextCursor next (lowMask bits)))
    : LowBitLt x v ∨ v.toNat % 2 ^ bits = x.toNat % 2 ^ bits := by
  have bit (y : BitVec 64) {i : Nat} (small : i < bits)
      : (y.toNat % 2 ^ bits).testBit i = y.getLsbD i := by
    rw [Nat.testBit_mod_two_pow, BitVec.testBit_toNat]
    simp [small]
  have same {i : Nat} (small : i < bits) : next.getLsbD i = v.getLsbD i := by
    rw [← bit next small, ← bit v small, lows]
  have outer {i : Nat} (small : i < bits)
      : (next ||| ~~~lowMask bits).getLsbD i = v.getLsbD i := by
    rw [BitVec.getLsbD_or, BitVec.getLsbD_not, lowMask_getLsbD bound, same small]
    simp [small]
  have agreeing (agree : ∀ i < bits, x.getLsbD i = v.getLsbD i)
      : v.toNat % 2 ^ bits = x.toNat % 2 ^ bits := by
    apply Nat.eq_of_testBit_eq
    intro i
    rcases Nat.lt_or_ge i bits with small | large
    · rw [bit v small, bit x small, agree i small]
    · simp [Nat.testBit_mod_two_pow, Nat.not_lt.mpr large]
  rcases reversed_succ (nextCursor_reverse next (lowMask bits)) x reached with
    rfl | ⟨i, agree, clear, set⟩
  · exact Or.inr (agreeing (fun i small => outer small))
  · rcases Nat.lt_or_ge i bits with small | large
    · left
      refine ⟨i, fun j below => ?_, clear, ?_⟩
      · rw [agree j below, outer (Nat.lt_trans below small)]
      · rw [← outer small, set]
    · exact Or.inr (agreeing (fun j small => by
        rw [agree j (Nat.lt_of_lt_of_le small large), outer small]))

theorem lowBitLt_of_expansion_lt {low high bits : Nat} (ordered : low ≤ high)
    (bound : high ≤ 60) (short : bits ≤ 60) {v x : BitVec 64}
    (aligned : (v &&& lowMask high) ||| lowMask low = lowMask bits)
    (lows : v.toNat % 2 ^ low = x.toNat % 2 ^ low)
    (before : expansion low high x < expansion low high v)
    : LowBitLt x v := by
  have bit (y : BitVec 64) (i : Nat)
      : (expansion low high y).testBit i
        = (decide (i < high - low) && y.getLsbD (i + low)) := by
    rw [expansion, Nat.testBit_mod_two_pow, Nat.testBit_div_two_pow, BitVec.testBit_toNat]
  have run {i : Nat} (least : low ≤ i) (inside : i < high)
      : v.getLsbD i = decide (i < bits) := by
    have read := congrArg (BitVec.getLsbD · i) aligned
    simpa [lowMask_getLsbD bound, lowMask_getLsbD (le_trans ordered bound),
      lowMask_getLsbD short, inside, Nat.not_lt.mpr least] using read
  rcases lowBitLt_trichotomy x v with rfl | less | ⟨i, agree, clear, set⟩
  · exact absurd before (Nat.lt_irrefl _)
  · exact less
  · exfalso
    have above : low ≤ i := by
      by_contra small
      have read := congrArg (Nat.testBit · i) lows
      simp [Nat.testBit_mod_two_pow, BitVec.testBit_toNat, Nat.not_le.mp small, clear, set] at read
    -- The ones of the cursor end below the first difference, so it is the smaller number.
    have least : expansion low high v ≤ expansion low high x := by
      apply Nat.le_of_testBit
      intro j
      rw [bit, bit]
      simp only [Bool.and_eq_true, decide_eq_true_eq]
      rintro ⟨inside, one⟩
      refine ⟨inside, ?_⟩
      rcases Nat.lt_or_ge (j + low) i with below | past
      · rw [← agree _ below, one]
      · rw [run (Nat.le_add_left low j) (by omega)] at one
        rw [run above (by omega)] at clear
        simp at one clear
        omega
    omega

theorem Dict.scanTables_cases [DecidableEq K] {d : Dict K V} (wf : d.WellFormed type)
    (rehashing : d.isRehashing = true)
    : ∃ low high,
        low ≤ high
        ∧ high ≤ 60
        ∧ d.scanTables.1.size = 2 ^ low
        ∧ d.scanTables.2.size = 2 ^ high
        ∧ d.scanTables.1.WellFormed type
        ∧ d.scanTables.2.WellFormed type
        ∧ ∀ entry ∈ d.entries,
            entry ∈ d.scanTables.1.entries ∨ entry ∈ d.scanTables.2.entries := by
  obtain ⟨i, started⟩ := Option.isSome_iff_exists.mp rehashing
  obtain ⟨some0, some1⟩ := wf.allocated started
  obtain ⟨bits0, bound0, size0⟩ := wf.ht0.power.resolve_left some0
  obtain ⟨bits1, bound1, size1⟩ := wf.ht1.power.resolve_left some1
  have powers := Nat.pow_lt_pow_iff_right (a := 2) (n := bits1) (m := bits0) (by decide)
  unfold Dict.scanTables
  split
  · rename_i larger
    rw [size0, size1] at larger
    refine ⟨bits1, bits0, (powers.mp larger).le, bound0, size1, size0, wf.ht1, wf.ht0, ?_⟩
    intro entry member
    exact (List.mem_append.mp member).symm
  · rename_i smaller
    rw [size0, size1] at smaller
    refine ⟨bits0, bits1, ?_, bound1, size0, size1, wf.ht0, wf.ht1, ?_⟩
    · exact Nat.le_of_not_lt (fun less => smaller (powers.mpr less))
    · intro entry member
      exact List.mem_append.mp member

theorem dictScan_covers [DecidableEq K] {d : Dict K V} (wf : d.WellFormed type) (v : BitVec 64)
    : ∃ next out,
        dictScan d v = .ok (next, out)
        ∧ (d.CursorAligned v
          → ∀ entry ∈ d.entries,
              CoversFrom v next out (dictHashKey type entry.key) entry) := by
  have value (entry : DictEntry K V)
      : (BitVec.ofNat 64 (dictHashKey type entry.key)).toNat = dictHashKey type entry.key := by
    have small : dictHashKey type entry.key < 2 ^ 32 := (type.hashFunction entry.key).toNat_lt
    rw [BitVec.toNat_ofNat]
    exact Nat.mod_eq_of_lt (by omega)
  unfold dictScan
  split
  · rename_i empty
    refine ⟨0, [], rfl, fun _ entry member => ?_⟩
    have none := List.length_pos_of_mem member
    simp only [Dict.entries, List.length_append, ← wf.ht0.used, ← wf.ht1.used] at none
    simp only [Dict.size] at empty
    omega
  split
  · rename_i used idle
    have quiet : d.rehashidx = none := by simpa [Dict.isRehashing] using idle
    have second := wf.idle quiet
    have allocated : d.ht0.size ≠ 0 := by
      intro zero
      have first := wf.ht0.used
      rw [Dictht.entries, List.eq_nil_of_length_eq_zero (wf.ht0.length.trans zero)] at first
      apply used
      simp [Dict.size, second, dictReset, first]
    obtain ⟨bits, bound, size⟩ := wf.ht0.power.resolve_left allocated
    obtain ⟨chain, read, here⟩ := wf.ht0.cursor_bucket bound size v
    refine ⟨nextCursor v d.ht0.mask, chain, by simp only [read, ok_andThen]; rfl, ?_⟩
    intro _ entry member reached
    rw [wf.ht0.mask_eq size] at reached
    have inFirst : entry ∈ d.ht0.entries := by
      rcases List.mem_append.mp member with first | other
      · exact first
      · simp [second, dictReset, Dictht.entries] at other
    rcases nextCursor_reached bound rfl reached with before | same
    · exact Or.inl before
    · exact Or.inr (here entry inFirst (by rw [same, value]))
  · rename_i used busy
    have rehashing : d.isRehashing = true := by simpa using busy
    obtain ⟨low, high, ordered, bound, size0, size1, wf0, wf1, either⟩ :=
      Dict.scanTables_cases wf rehashing
    unfold Dict.CursorAligned
    generalize d.scanTables = tables at *
    obtain ⟨t0, t1⟩ := tables
    obtain ⟨chain, read, here⟩ := wf0.cursor_bucket (le_trans ordered bound) size0 v
    have enough : 2 ^ (high - low) ≤ expansion low high v + t1.size := by
      have fewer : 2 ^ (high - low) ≤ 2 ^ high := Nat.pow_le_pow_right (by decide) (by omega)
      dsimp only at size1
      omega
    obtain ⟨after, rest, run, lows, later⟩ :=
      scanExpansions_ok wf1 ordered bound size1 t1.size v enough
    have mask0 := wf0.mask_eq size0
    have mask1 := wf1.mask_eq size1
    refine ⟨nextCursor after t0.mask, chain ++ rest, ?_, ?_⟩
    · dsimp only at read mask0 ⊢
      rw [mask0] at read
      simp only [read, ok_andThen, mask0, run]
      rfl
    · intro aligned entry member reached
      dsimp only at mask0 mask1 aligned
      obtain ⟨bits, short, ones⟩ := aligned rehashing
      rw [mask0, mask1] at ones
      rw [mask0] at reached
      rcases nextCursor_reached (le_trans ordered bound) lows reached with before | same
      · exact Or.inl before
      rw [value] at same
      rcases either entry member with first | second
      · exact Or.inr (List.mem_append_left _ (here entry first same))
      · rcases Nat.lt_or_ge
            (expansion low high (BitVec.ofNat 64 (dictHashKey type entry.key)))
            (expansion low high v) with before | after
        · left
          exact lowBitLt_of_expansion_lt ordered bound short ones (by rw [value, same]) before
        · rw [expansion, value] at after
          exact Or.inr (List.mem_append_right _ (later entry second same after))

end Calls

section Runs

variable [DecidableEq K] (type : DictType K V)

/-- Any number of calls other than `dictScan`, none of them with a wrapped bucket array. -/
inductive DictSteps : DictState K V → DictState K V → Prop
  | refl (s : DictState K V) : DictSteps s s
  | step {s mid next : DictState K V} {op : DictOp K V} {reply : DictReply K V}
    (before : DictSteps s mid) (run : op.step type mid = .ok (reply, next))
    (serves : op.ServesSize mid)
    : DictSteps s next

/-- An iteration from a cursor until `dictScan` returns zero, with other operations between
its calls. It lists the calls made and the entries emitted.
-/
inductive ScanRun
    : DictState K V
      → BitVec 64
      → List (DictState K V × BitVec 64)
      → List (DictEntry K V)
      → Prop
  | last {s : DictState K V} {v : BitVec 64} {out : List (DictEntry K V)}
    (call : dictScan s.dict v = .ok (0, out))
    : ScanRun s v [(s, v)] out
  | next {s mid : DictState K V} {v cursor : BitVec 64} {out rest : List (DictEntry K V)}
    {calls : List (DictState K V × BitVec 64)}
    (call : dictScan s.dict v = .ok (cursor, out)) (more : cursor ≠ 0)
    (between : DictSteps type s mid) (run : ScanRun mid cursor calls rest)
    : ScanRun s v ((s, v) :: calls) (out ++ rest)

variable {type} {s : DictState K V}

theorem DictSteps.reachable {next : DictState K V} (reached : DictReachable type s)
    (steps : DictSteps type s next)
    : DictReachable type next := by
  induction steps with
  | refl => exact reached
  | step before run serves ih => exact .step ih run serves

/-- One call on a dictionary that holds the key: it emits the key's entry, or the key's
hash is not before the next cursor, which is then not the last one.
-/
theorem scan_step (lawful : type.Lawful) (wf : s.dict.WellFormed type) {v cursor : BitVec 64}
    {out : List (DictEntry K V)} (call : dictScan s.dict v = .ok (cursor, out))
    (aligned : s.dict.CursorAligned v) {key : K} (present : s.dict.lookup type key ≠ none)
    (left : ¬LowBitLt (BitVec.ofNat 64 (dictHashKey type key)) v)
    : (∃ entry ∈ out, dictCompareKeys type key entry.key = true)
      ∨ (cursor ≠ 0 ∧ ¬LowBitLt (BitVec.ofNat 64 (dictHashKey type key)) cursor) := by
  obtain ⟨next, emitted, run, covers⟩ := dictScan_covers wf v
  rw [call] at run
  cases run
  obtain ⟨val, bound⟩ := Option.ne_none_iff_exists'.mp present
  obtain ⟨entry, member, equated, _⟩ :=
    (lookupEntries_eq_some_iff lawful wf.distinct).mp bound
  have covered := covers aligned entry member
  rw [CoversFrom, ← lawful.hash equated] at covered
  by_cases reached : cursor = 0 ∨ LowBitLt (BitVec.ofNat 64 (dictHashKey type key)) cursor
  · exact Or.inl ⟨entry, (covered reached).resolve_left left, equated⟩
  · exact Or.inr (not_or.mp reached)

theorem ScanRun.emits (lawful : type.Lawful) {v : BitVec 64}
    {calls : List (DictState K V × BitVec 64)} {out : List (DictEntry K V)}
    (run : ScanRun type s v calls out) (reached : DictReachable type s)
    (aligned : ∀ call ∈ calls, call.1.dict.CursorAligned call.2) {key : K}
    (present : ∀ call ∈ calls, call.1.dict.lookup type key ≠ none)
    (left : ¬LowBitLt (BitVec.ofNat 64 (dictHashKey type key)) v)
    : ∃ entry ∈ out, dictCompareKeys type key entry.key = true := by
  induction run with
  | @last s v out call =>
      have step := scan_step lawful (reached.wellFormed lawful) call
        (aligned (s, v) (List.mem_singleton_self _)) (present (s, v) (List.mem_singleton_self _))
        left
      exact step.resolve_right (fun more => more.1 rfl)
  | @next s mid v cursor out rest calls call more between run ih =>
      rcases scan_step lawful (reached.wellFormed lawful) call
          (aligned (s, v) List.mem_cons_self) (present (s, v) List.mem_cons_self) left with
        ⟨entry, member, equated⟩ | ⟨_, leftAfter⟩
      · exact ⟨entry, List.mem_append_left _ member, equated⟩
      · obtain ⟨entry, member, equated⟩ := ih (between.reachable reached)
          (fun call inCalls => aligned call (List.mem_cons_of_mem _ inCalls))
          (fun call inCalls => present call (List.mem_cons_of_mem _ inCalls)) leftAfter
        exact ⟨entry, List.mem_append_right _ member, equated⟩

/-- An iteration emits every key that is present at all of its calls, if the cursors of its
calls are aligned with the tables they meet and no `dictExpand` between them leaves a table
without its buckets. A cursor that was issued for a table larger than the smaller table of
the rehash it meets need not be aligned.
-/
theorem scan_complete (lawful : type.Lawful) (reached : DictReachable type s)
    {calls : List (DictState K V × BitVec 64)} {out : List (DictEntry K V)}
    (run : ScanRun type s 0 calls out)
    (aligned : ∀ call ∈ calls, call.1.dict.CursorAligned call.2) {key : K}
    (present : ∀ call ∈ calls, call.1.dict.lookup type key ≠ none)
    : ∃ entry ∈ out, dictCompareKeys type key entry.key = true :=
  run.emits lawful reached aligned present (not_lowBitLt_zero _)

end Runs

/-- A dictionary of one bucket array that holds the key 4, at the start of a rehash to a
table of `target` buckets if there is one.
-/
def holdingFour (table : List (List (DictEntry Nat Nat))) (target : Nat) : DictState Nat Nat where
  dict := {
    ht0 := { table, size := table.length, sizemask := table.length - 1, used := 1 }
    ht1 := {
      table := List.replicate target []
      size := target
      sizemask := target - 1
      used := 0 }
    rehashidx := if target = 0 then none else some 0
    iterators := 0 }
  canResize := true

def fourBuckets : List (List (DictEntry Nat Nat)) := [[⟨4, 0⟩], [], [], []]

def sixteenBuckets : List (List (DictEntry Nat Nat)) :=
  [[], [], [], [], [⟨4, 0⟩], [], [], [], [], [], [], [], [], [], [], []]

/-- The theorem at an iteration that meets a growing table after its first call. -/
theorem scan_complete_growing
    : ∃ calls out,
        ScanRun natDictType (holdingFour fourBuckets 0) 0 calls out
        ∧ (holdingFour fourBuckets 8, 2) ∈ calls
        ∧ ∃ entry ∈ out, dictCompareKeys natDictType 4 entry.key = true := by
  have reached : DictReachable natDictType (holdingFour fourBuckets 0) :=
    .step (.create true)
      (show (DictOp.add 4 0).step natDictType _ = .ok (.status true, _) by rfl) trivial
  have grown : DictSteps natDictType (holdingFour fourBuckets 0) (holdingFour fourBuckets 8) :=
    .step (.refl _) (show (DictOp.expand 8).step natDictType _ = .ok (.status true, _) by rfl)
      (Or.inr (Or.inr (Or.inl (by decide))))
  have run : ScanRun natDictType (holdingFour fourBuckets 0) 0
      [(holdingFour fourBuckets 0, 0), (holdingFour fourBuckets 8, 2),
        (holdingFour fourBuckets 8, 1), (holdingFour fourBuckets 8, 3)] [⟨4, 0⟩] := by
    refine .next (show dictScan _ 0 = .ok (2, [⟨4, 0⟩]) by rfl) (by decide) grown ?_
    refine .next (show dictScan _ 2 = .ok (1, []) by rfl) (by decide) (.refl _) ?_
    refine .next (show dictScan _ 1 = .ok (3, []) by rfl) (by decide) (.refl _) ?_
    exact .last (show dictScan _ 3 = .ok (0, []) by rfl)
  refine ⟨_, _, run, by simp, scan_complete natDictType_lawful reached run ?_ ?_⟩
  · simp only [List.forall_mem_cons, List.not_mem_nil, false_implies, implies_true, and_true]
    refine ⟨nofun, fun _ => ⟨2, ?_⟩, fun _ => ⟨2, ?_⟩, fun _ => ⟨2, ?_⟩⟩ <;> decide
  · simp only [List.forall_mem_cons, List.not_mem_nil, false_implies, implies_true, and_true]
    decide

/-- A shrinking table makes an iteration pass over an entry that is present throughout: the
cursor 8 was issued for 16 buckets, and in a rehash from 16 to 4 buckets its call visits the
buckets 8 and 12 of the larger table and none of the buckets 4 that are still to come.
-/
theorem scan_misses_entry
    : ∃ s calls out,
        DictReachable natDictType s
        ∧ ScanRun natDictType s 0 calls out
        ∧ (∀ call ∈ calls, call.1.dict.lookup natDictType 4 ≠ none)
        ∧ ¬∃ entry ∈ out, dictCompareKeys natDictType 4 entry.key = true := by
  have expanded : DictReachable natDictType
      { dict := {
          ht0 := { table := List.replicate 16 [], size := 16, sizemask := 15, used := 0 }
          ht1 := dictReset
          rehashidx := none
          iterators := 0 }
        canResize := true } :=
    .step (.create true)
      (show (DictOp.expand 16).step natDictType _ = .ok (.status true, _) by rfl)
      (Or.inr (Or.inr (Or.inl (by decide))))
  have reached : DictReachable natDictType (holdingFour sixteenBuckets 0) :=
    .step expanded (show (DictOp.add 4 0).step natDictType _ = .ok (.status true, _) by rfl)
      trivial
  have shrunk
      : DictSteps natDictType (holdingFour sixteenBuckets 0) (holdingFour sixteenBuckets 4) :=
    .step (.refl _) (show DictOp.resize.step natDictType _ = .ok (.status true, _) by rfl)
      trivial
  have run : ScanRun natDictType (holdingFour sixteenBuckets 0) 0
      [(holdingFour sixteenBuckets 0, 0), (holdingFour sixteenBuckets 4, 8),
        (holdingFour sixteenBuckets 4, 2), (holdingFour sixteenBuckets 4, 1),
        (holdingFour sixteenBuckets 4, 3)] [] := by
    refine .next (show dictScan _ 0 = .ok (8, []) by rfl) (by decide) shrunk ?_
    refine .next (show dictScan _ 8 = .ok (2, []) by rfl) (by decide) (.refl _) ?_
    refine .next (show dictScan _ 2 = .ok (1, []) by rfl) (by decide) (.refl _) ?_
    refine .next (show dictScan _ 1 = .ok (3, []) by rfl) (by decide) (.refl _) ?_
    exact .last (show dictScan _ 3 = .ok (0, []) by rfl)
  refine ⟨_, _, _, reached, run, ?_, by simp⟩
  simp only [List.forall_mem_cons, List.not_mem_nil, false_implies, implies_true, and_true]
  decide

end Redis
