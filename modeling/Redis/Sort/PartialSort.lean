import Redis.Library.Shuffles

/-! `pqsort.c`: a quicksort that leaves out the parts of the array outside of a window. The array is
given by its elements, one for every position, so a read outside of it is no fault here; an element
at position `i` has the bytes from `i * es` on.
-/

namespace Redis.Sort

open Redis.Library

variable {α : Type} (cmp : α → α → Int)

-- The source

def med3 (m : Nat → α) (a b c : Nat) : Nat :=
  if cmp (m a) (m b) < 0 then
    if cmp (m b) (m c) < 0 then b else if cmp (m a) (m c) < 0 then c else a
  else if cmp (m b) (m c) > 0 then b else if cmp (m a) (m c) < 0 then a else c

/-- The inner loop for less than 7 elements: the element at `pl` moves to its place in front. -/
def sinkElement (m : Nat → α) (a : Nat) : (pl : Nat) → Nat → α
  | 0 => m
  | pl + 1 =>
      if pl + 1 > a ∧ cmp (m pl) (m (pl + 1)) > 0 then sinkElement (exchange m (pl + 1) pl) a pl
        else m

/-- The loop for less than 7 elements. -/
def insertionSort (m : Nat → α) (a n : Nat) : Nat → α :=
  (List.range' (a + 1) (n - 1)).foldl (fun m pm => sinkElement cmp m a pm) m

def choosePivot (m : Nat → α) (a n : Nat) : Nat :=
  let pm := a + n / 2
  if n > 7 then
    let pl := a
    let pn := a + (n - 1)
    if n > 40 then
      let d := n / 8
      med3 cmp m (med3 cmp m pl (pl + d) (pl + 2 * d)) (med3 cmp m (pm - d) pm (pm + d))
        (med3 cmp m (pn - 2 * d) (pn - d) pn)
    else med3 cmp m pl pm pn
  else pm

/-- The array and the positions `pa`, `pb`, `pc + es` and `pd + es`. -/
structure Scan (α : Type) where
  m : Nat → α
  pa : Nat
  pb : Nat
  pc : Nat
  pd : Nat

/-- The first loop of a round, from the left. -/
def scanUp (a : Nat) (s : Scan α) : Scan α :=
  if s.pb < s.pc ∧ cmp (s.m s.pb) (s.m a) ≤ 0 then
    if cmp (s.m s.pb) (s.m a) = 0 then
      scanUp a { s with m := exchange s.m s.pa s.pb, pa := s.pa + 1, pb := s.pb + 1 }
    else scanUp a { s with pb := s.pb + 1 }
  else s
termination_by s.pc - s.pb

/-- The second loop of a round, from the right. -/
def scanDown (a : Nat) (s : Scan α) : Scan α :=
  if s.pb < s.pc ∧ cmp (s.m (s.pc - 1)) (s.m a) ≥ 0 then
    if cmp (s.m (s.pc - 1)) (s.m a) = 0 then
      scanDown a { s with m := exchange s.m (s.pc - 1) (s.pd - 1), pd := s.pd - 1, pc := s.pc - 1 }
    else scanDown a { s with pc := s.pc - 1 }
  else s
termination_by s.pc - s.pb

theorem scanUp_le (a : Nat) (s : Scan α)
    : (scanUp cmp a s).pc = s.pc ∧ (scanUp cmp a s).pd = s.pd ∧ s.pb ≤ (scanUp cmp a s).pb := by
  fun_induction scanUp cmp a s with
  | case1 s _ _ ih => exact ⟨ih.1, ih.2.1, Nat.le_of_succ_le ih.2.2⟩
  | case2 s _ _ ih => exact ⟨ih.1, ih.2.1, Nat.le_of_succ_le ih.2.2⟩
  | case3 s _ => exact ⟨rfl, rfl, Nat.le_refl _⟩

theorem scanDown_le (a : Nat) (s : Scan α)
    : (scanDown cmp a s).pb = s.pb ∧ (scanDown cmp a s).pc ≤ s.pc := by
  fun_induction scanDown cmp a s with
  | case1 s _ _ ih =>
      refine ⟨ih.1, ?_⟩
      have := ih.2
      dsimp only at this
      omega
  | case2 s _ _ ih =>
      refine ⟨ih.1, ?_⟩
      have := ih.2
      dsimp only at this
      omega
  | case3 s _ => exact ⟨rfl, Nat.le_refl _⟩

def scanRound (a : Nat) (s : Scan α) : Scan α := scanDown cmp a (scanUp cmp a s)

def swapEnds (s : Scan α) : Scan α :=
  { s with m := exchange s.m s.pb (s.pc - 1), pb := s.pb + 1, pc := s.pc - 1 }

/-- `for (;;)`. -/
def scanLoop (a : Nat) (s : Scan α) : Scan α :=
  if (scanRound cmp a s).pb < (scanRound cmp a s).pc then scanLoop a (swapEnds (scanRound cmp a s))
  else scanRound cmp a s
termination_by s.pc - s.pb
decreasing_by
  have up := scanUp_le cmp a s
  have down := scanDown_le cmp a (scanUp cmp a s)
  simp only [scanRound, swapEnds] at *
  omega

def vecswap (m : Nat → α) (i j n : Nat) : Nat → α :=
  (List.range n).foldl (fun m t => exchange m (i + t) (j + t)) m

/-- The array around the pivot, and how many elements are less and greater than it. -/
structure Partitioned (α : Type) where
  m : Nat → α
  less : Nat
  greater : Nat

/-- The partition of at least 7 elements. -/
def partition (m : Nat → α) (a n : Nat) : Partitioned α :=
  let m := exchange m a (choosePivot cmp m a n)
  let s := scanLoop cmp a ⟨m, a + 1, a + 1, a + n, a + n⟩
  let pn := a + n
  let r := min (s.pa - a) (s.pb - s.pa)
  let m := vecswap s.m a (s.pb - r) r
  let r := min (s.pd - s.pc) (pn - s.pd)
  let m := vecswap m s.pb (pn - r) r
  ⟨m, s.pb - s.pa, s.pd - s.pc⟩

/-- The test for a part of `n` elements that the window does not meet, by the addresses of their
bytes.
-/
def isOutside (base es lrange rrange a n : Nat) : Bool :=
  let l := base + a * es
  let r := base + a * es + n * es - 1
  (lrange < l && rrange < l) || (lrange > r && rrange > r)

section Scanning

variable {cmp} {a n : Nat} {s : Scan α} {m₀ m m' : Nat → α} {v : α}

/-- The elements that were compared: equal ones on both sides, less ones and greater ones. -/
structure Scanned (cmp : α → α → Int) (m₀ : Nat → α) (a n : Nat) (v : α) (s : Scan α) : Prop where
  ordered : a < s.pa ∧ s.pa ≤ s.pb ∧ s.pb ≤ s.pc ∧ s.pc ≤ s.pd ∧ s.pd ≤ a + n
  pivot : s.m a = v
  equalLeft : ∀ i, a < i → i < s.pa → cmp (s.m i) v = 0
  less : ∀ i, s.pa ≤ i → i < s.pb → cmp (s.m i) v < 0
  greater : ∀ i, s.pc ≤ i → i < s.pd → 0 < cmp (s.m i) v
  equalRight : ∀ i, s.pd ≤ i → i < a + n → cmp (s.m i) v = 0
  shuffled : Shuffled a (a + n) m₀ s.m

theorem scanUp_ok (scanned : Scanned cmp m₀ a n v s)
    : Scanned cmp m₀ a n v (scanUp cmp a s)
      ∧ ((scanUp cmp a s).pb < (scanUp cmp a s).pc
        → 0 < cmp ((scanUp cmp a s).m (scanUp cmp a s).pb) v) := by
  fun_induction scanUp cmp a s with
  | case1 s going same ih =>
      obtain ⟨ordered, pivot, equalLeft, less, greater, equalRight, shuffled⟩ := scanned
      rw [pivot] at same
      refine ih ⟨by dsimp only; omega, ?_, fun i least most => ?_, fun i least most => ?_,
        fun i least most => ?_, fun i least most => ?_,
        shuffled.trans (shuffled_exchange _ (by omega) (by omega))⟩
      · change exchange _ _ _ a = v
        rw [exchange_other (by omega) (by omega), pivot]
      · dsimp only at least most ⊢
        by_cases last : i = s.pa
        · rw [last, exchange_left, same]
        · rw [exchange_other last (by omega)]
          exact equalLeft i least (by omega)
      · dsimp only at least most ⊢
        by_cases last : i = s.pb
        · rw [last, exchange_right]
          exact less s.pa (Nat.le_refl _) (by omega)
        · rw [exchange_other (by omega) last]
          exact less i (by omega) (by omega)
      · dsimp only at least most ⊢
        rw [exchange_other (by omega) (by omega)]
        exact greater i least most
      · dsimp only at least most ⊢
        rw [exchange_other (by omega) (by omega)]
        exact equalRight i least most
  | case2 s going other ih =>
      obtain ⟨ordered, pivot, equalLeft, less, greater, equalRight, shuffled⟩ := scanned
      refine ih ⟨by dsimp only; omega, pivot, equalLeft, fun i least most => ?_, greater,
        equalRight, shuffled⟩
      dsimp only at least most ⊢
      by_cases last : i = s.pb
      · rw [pivot] at going other
        rw [last]
        omega
      · exact less i least (by omega)
  | case3 s stops =>
      refine ⟨scanned, fun more => ?_⟩
      rw [scanned.pivot] at stops
      omega

theorem scanDown_ok (scanned : Scanned cmp m₀ a n v s)
    (ahead : s.pb < s.pc → 0 < cmp (s.m s.pb) v)
    : Scanned cmp m₀ a n v (scanDown cmp a s)
      ∧ ((scanDown cmp a s).pb < (scanDown cmp a s).pc →
        (scanDown cmp a s).pb + 1 < (scanDown cmp a s).pc
        ∧ 0 < cmp ((scanDown cmp a s).m (scanDown cmp a s).pb) v
        ∧ cmp ((scanDown cmp a s).m ((scanDown cmp a s).pc - 1)) v < 0) := by
  fun_induction scanDown cmp a s with
  | case1 s going same ih =>
      obtain ⟨ordered, pivot, equalLeft, less, greater, equalRight, shuffled⟩ := scanned
      rw [pivot] at same
      refine ih ⟨by dsimp only; omega, ?_, fun i least most => ?_, fun i least most => ?_,
        fun i least most => ?_, fun i least most => ?_,
        shuffled.trans (shuffled_exchange _ (by omega) (by omega))⟩ fun more => ?_
      · change exchange _ _ _ a = v
        rw [exchange_other (by omega) (by omega), pivot]
      · dsimp only at least most ⊢
        rw [exchange_other (by omega) (by omega)]
        exact equalLeft i least most
      · dsimp only at least most ⊢
        rw [exchange_other (by omega) (by omega)]
        exact less i least most
      · dsimp only at least most ⊢
        by_cases first : i = s.pc - 1
        · rw [first, exchange_left]
          exact greater (s.pd - 1) (by omega) (by omega)
        · rw [exchange_other first (by omega)]
          exact greater i (by omega) (by omega)
      · dsimp only at least most ⊢
        by_cases first : i = s.pd - 1
        · rw [first, exchange_right, same]
        · rw [exchange_other (by omega) first]
          exact equalRight i (by omega) most
      · dsimp only at more ⊢
        rw [exchange_other (by omega) (by omega)]
        exact ahead (by omega)
  | case2 s going other ih =>
      obtain ⟨ordered, pivot, equalLeft, less, greater, equalRight, shuffled⟩ := scanned
      refine ih ⟨by dsimp only; omega, pivot, equalLeft, less, fun i least most => ?_, equalRight,
        shuffled⟩
        fun more => ahead (by dsimp only at more; omega)
      dsimp only at least most ⊢
      by_cases first : i = s.pc - 1
      · rw [pivot] at going other
        rw [first]
        omega
      · exact greater i (by omega) most
  | case3 s stops =>
      refine ⟨scanned, fun more => ?_⟩
      rw [scanned.pivot] at stops
      have first := ahead more
      have smaller : cmp (s.m (s.pc - 1)) v < 0 := by omega
      refine ⟨?_, first, smaller⟩
      by_contra last
      have same : s.pb = s.pc - 1 := by omega
      rw [same] at first
      omega

theorem scanRound_ok (scanned : Scanned cmp m₀ a n v s)
    : Scanned cmp m₀ a n v (scanRound cmp a s)
      ∧ ((scanRound cmp a s).pb < (scanRound cmp a s).pc →
        (scanRound cmp a s).pb + 1 < (scanRound cmp a s).pc
        ∧ 0 < cmp ((scanRound cmp a s).m (scanRound cmp a s).pb) v
        ∧ cmp ((scanRound cmp a s).m ((scanRound cmp a s).pc - 1)) v < 0) := by
  obtain ⟨up, ahead⟩ := scanUp_ok scanned
  exact scanDown_ok up ahead

theorem scanLoop_ok (scanned : Scanned cmp m₀ a n v s)
    : Scanned cmp m₀ a n v (scanLoop cmp a s) ∧ (scanLoop cmp a s).pb = (scanLoop cmp a s).pc := by
  fun_induction scanLoop cmp a s with
  | case1 s more ih =>
      obtain ⟨round, ends⟩ := scanRound_ok scanned
      obtain ⟨apart, first, last⟩ := ends more
      generalize scanRound cmp a s = t at *
      obtain ⟨ordered, pivot, equalLeft, less, greater, equalRight, shuffled⟩ := round
      refine ih ⟨by dsimp only [swapEnds]; omega, ?_, fun i least most => ?_,
        fun i least most => ?_, fun i least most => ?_, fun i least most => ?_,
        shuffled.trans (shuffled_exchange _ (by omega) (by omega))⟩
      · change exchange _ _ _ a = v
        rw [exchange_other (by omega) (by omega)]
        exact pivot
      · dsimp only [swapEnds] at least most ⊢
        rw [exchange_other (by omega) (by omega)]
        exact equalLeft i least most
      · dsimp only [swapEnds] at least most ⊢
        by_cases moved : i = t.pb
        · rw [moved, exchange_left]
          exact last
        · rw [exchange_other moved (by omega)]
          exact less i least (by omega)
      · dsimp only [swapEnds] at least most ⊢
        by_cases moved : i = t.pc - 1
        · rw [moved, exchange_right]
          exact first
        · rw [exchange_other (by omega) moved]
          exact greater i (by omega) most
      · dsimp only [swapEnds] at least most ⊢
        rw [exchange_other (by omega) (by omega)]
        exact equalRight i least most
  | case2 s stops =>
      obtain ⟨round, -⟩ := scanRound_ok scanned
      have ordered := round.ordered
      exact ⟨round, by omega⟩

end Scanning

section Partition

variable {cmp} {a b c d n : Nat} {m m' : Nat → α} {v : α} {P Q : α → Prop}

/-- The elements before `b` are less than `v`, those before `c` are equal to it and the others
greater.
-/
structure ThreeWay (cmp : α → α → Int) (v : α) (a b c d : Nat) (m : Nat → α) : Prop where
  less : ∀ i, a ≤ i → i < b → cmp (m i) v < 0
  equal : ∀ i, b ≤ i → i < c → cmp (m i) v = 0
  greater : ∀ i, c ≤ i → i < d → 0 < cmp (m i) v

theorem med3_range (m : Nat → α) {i j k : Nat} (first : a ≤ i ∧ i < d) (second : a ≤ j ∧ j < d)
    (third : a ≤ k ∧ k < d)
    : a ≤ med3 cmp m i j k ∧ med3 cmp m i j k < d := by
  unfold med3
  split_ifs <;> assumption

theorem choosePivot_range (cmp : α → α → Int) (m : Nat → α) (large : ¬ n < 7)
    : a ≤ choosePivot cmp m a n ∧ choosePivot cmp m a n < a + n := by
  unfold choosePivot
  dsimp only
  split_ifs
  · refine med3_range m (med3_range m ?_ ?_ ?_) (med3_range m ?_ ?_ ?_) (med3_range m ?_ ?_ ?_)
      <;> omega
  · refine med3_range m ?_ ?_ ?_ <;> omega
  · omega

theorem vecswap_apply (m : Nat → α) (i j : Nat) (apart : i + n ≤ j) (k : Nat)
    : vecswap m i j n k
      = if i ≤ k ∧ k < i + n then m (k - i + j) else if j ≤ k ∧ k < j + n then m (k - j + i)
        else m k := by
  unfold vecswap
  induction n generalizing k with
  | zero => rw [List.range_zero, List.foldl_nil, if_neg (by omega), if_neg (by omega)]
  | succ n ih =>
      rw [List.range_succ, List.foldl_append, List.foldl_cons, List.foldl_nil]
      have earlier := ih (by omega)
      by_cases left : k = i + n
      · rw [left, exchange_left, earlier, if_neg (by omega), if_neg (by omega), if_pos (by omega)]
        congr 1
        omega
      · by_cases right : k = j + n
        · rw [right, exchange_right, earlier, if_neg (by omega), if_neg (by omega),
            if_neg (by omega), if_pos (by omega)]
          congr 1
          omega
        · rw [exchange_other left right, earlier]
          split_ifs
          all_goals
            first
            | rfl
            | omega

theorem shuffled_vecswap (m : Nat → α) {i j r : Nat} (first : a ≤ i ∧ i + r ≤ d)
    (second : a ≤ j ∧ j + r ≤ d)
    : Shuffled a d m (vecswap m i j r) := by
  unfold vecswap
  induction r with
  | zero => exact Shuffled.refl a d m
  | succ r ih =>
      rw [List.range_succ, List.foldl_append, List.foldl_cons, List.foldl_nil]
      exact (ih (by omega) (by omega)).trans (shuffled_exchange _ (by omega) (by omega))

theorem vecswap_sides (first : a ≤ b) (second : b ≤ c) (isP : ∀ i, a ≤ i → i < b → P (m i))
    (isQ : ∀ i, b ≤ i → i < c → Q (m i))
    : (∀ i, a ≤ i → i < a + (c - b)
      → Q (vecswap m a (c - min (b - a) (c - b)) (min (b - a) (c - b)) i))
      ∧ ∀ i, a + (c - b) ≤ i → i < c
        → P (vecswap m a (c - min (b - a) (c - b)) (min (b - a) (c - b)) i) := by
  have apart : a + min (b - a) (c - b) ≤ c - min (b - a) (c - b) := by omega
  refine ⟨fun i least most => ?_, fun i least most => ?_⟩
  · rw [vecswap_apply m _ _ apart]
    split_ifs with front back
    · exact isQ _ (by omega) (by omega)
    · omega
    · exact isQ i (by omega) (by omega)
  · rw [vecswap_apply m _ _ apart]
    split_ifs with front back
    · omega
    · exact isP _ (by omega) (by omega)
    · exact isP i (by omega) (by omega)

theorem scanned_start (cmp : α → α → Int) (m : Nat → α) (a : Nat) (large : ¬ n < 7)
    : Scanned cmp m a n (exchange m a (choosePivot cmp m a n) a)
        ⟨exchange m a (choosePivot cmp m a n), a + 1, a + 1, a + n, a + n⟩ := by
  have inside := choosePivot_range (a := a) cmp m large
  refine ⟨by dsimp only; omega, rfl, fun i least most => ?_, fun i least most =>
    ?_, fun i least most => ?_,
    fun i least most => ?_, shuffled_exchange m (by omega) inside⟩
  all_goals
    dsimp only at least most
    omega

theorem partition_sizes (cmp : α → α → Int) (m : Nat → α) (a : Nat) (large : ¬ n < 7)
    : (partition cmp m a n).less + (partition cmp m a n).greater < n := by
  obtain ⟨scanned, met⟩ := scanLoop_ok (scanned_start cmp m a large)
  have := scanned.ordered
  dsimp only [partition]
  omega

/-- Partitioning rearranges a part into less, equal and greater. -/
theorem partition_ok (compares : Compares cmp) (m : Nat → α) (a : Nat) (large : ¬ n < 7)
    : Shuffled a (a + n) m (partition cmp m a n).m
      ∧ ∃ v, ThreeWay cmp v a (a + (partition cmp m a n).less)
        (a + n - (partition cmp m a n).greater) (a + n)
          (partition cmp m a n).m := by
  obtain ⟨scanned, met⟩ := scanLoop_ok (scanned_start cmp m a large)
  simp only [partition]
  generalize scanLoop cmp a _ = s at *
  generalize exchange m a (choosePivot cmp m a n) a = v at *
  obtain ⟨ordered, pivot, equalLeft, less, greater, equalRight, shuffled⟩ := scanned
  have equalFirst : ∀ i, a ≤ i → i < s.pa → cmp (s.m i) v = 0 := by
    intro i least most
    rcases Nat.lt_or_eq_of_le least with behind | rfl
    · exact equalLeft i behind most
    · have := compares.swap v v
      rw [pivot]
      omega
  have front :=
    vecswap_sides (P := fun x => cmp x v = 0) (Q := fun x => cmp x v < 0) (by omega) (by omega)
    equalFirst less
  have frontShuffled := shuffled_vecswap (a := a) (d := s.pb) s.m (i := a)
    (j := s.pb - min (s.pa - a) (s.pb - s.pa)) (r := min (s.pa - a) (s.pb - s.pa)) (by omega)
      (by omega)
  generalize vecswap s.m a (s.pb - min (s.pa - a) (s.pb - s.pa)) (min (s.pa - a) (s.pb - s.pa))
    = m₁ at *
  have back :=
    vecswap_sides (P := fun x => 0 < cmp x v) (Q := fun x => cmp x v = 0) (m := m₁) (a := s.pb)
    (b := s.pd) (c := a + n) (by omega) (by omega)
    (fun i least most => by
      rw [frontShuffled.outside (.inr least)]
      exact greater i (by omega) most)
    (fun i least most => by
      rw [frontShuffled.outside (by omega)]
      exact equalRight i least most)
  have backShuffled := shuffled_vecswap (a := s.pb) (d := a + n) m₁ (i := s.pb)
    (j := a + n - min (s.pd - s.pc) (a + n - s.pd)) (r := min (s.pd - s.pc) (a + n - s.pd))
      (by omega) (by omega)
  rw [← met] at backShuffled ⊢
  generalize vecswap m₁ s.pb (a + n - min (s.pd - s.pb) (a + n - s.pd))
    (min (s.pd - s.pb) (a + n - s.pd)) = m₂ at *
  refine ⟨?_, v, fun i least most => ?_, fun i least most => ?_, fun i least most => ?_⟩
  · exact (shuffled.trans (frontShuffled.mono (Nat.le_refl _) (by omega))).trans
      (backShuffled.mono (by omega) (Nat.le_refl _))
  · rw [backShuffled.outside (by omega)]
    exact front.1 i least most
  · rcases Nat.lt_or_ge i s.pb with before | behind
    · rw [backShuffled.outside (by omega)]
      exact front.2 i least before
    · exact back.1 i behind (by omega)
  · exact back.2 i (by omega) most

end Partition

-- The recursion

/-- `_pqsort`, for the part of `n` elements at position `a` of the array at the address `base`. -/
def pqsortRange (base es lrange rrange a n : Nat) (m : Nat → α) : Nat → α :=
  if large : n < 7 then insertionSort cmp m a n
  else
    let p := partition cmp m a n
    have := partition_sizes cmp m a large
    let m :=
      if 1 < p.less ∧ isOutside base es lrange rrange a p.less = false then
        pqsortRange base es lrange rrange a p.less p.m
      else p.m
    if 1 < p.greater ∧ isOutside base es lrange rrange (a + n - p.greater) p.greater = false then
      pqsortRange base es lrange rrange (a + n - p.greater) p.greater m
    else m
termination_by n

def addressAt (base : Nat) (offset : Int) : Nat := ((base + offset) % 2 ^ 64).toNat

def pqsort (base n es : Nat) (lrange rrange : Int) (m : Nat → α) : Nat → α :=
  pqsortRange cmp base es (addressAt base (lrange * es)) (addressAt base ((rrange + 1) * es - 1)) 0
    n m

end Redis.Sort
