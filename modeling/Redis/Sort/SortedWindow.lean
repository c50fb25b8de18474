import Redis.Sort.PartialSort

/-! The window of a partially sorted array has the elements that sorting the whole array puts there.
-/

namespace Redis.Sort

open Redis.Library

variable {α : Type} {cmp : α → α → Int} {a b c d n l r es base lrange rrange : Nat} {m m' : Nat → α}
  {v : α}

-- Less than 7 elements

/-- The elements up to `pm` are in order, but for those in front of the one that moves. -/
def Sinking (cmp : α → α → Int) (a pm pl : Nat) (m : Nat → α) : Prop :=
  ∀ i j, a ≤ i → i < j → j ≤ pm → j ≠ pl → cmp (m i) (m j) ≤ 0

theorem sinkElement_sorts (compares : Compares cmp) (pm pl : Nat) (inside : a ≤ pl ∧ pl ≤ pm)
    (sinking : Sinking cmp a pm pl m)
    : SortedOn cmp a (pm + 1) (sinkElement cmp m a pl) := by
  induction pl generalizing m with
  | zero =>
      intro i j least less most
      exact sinking i j least less (by omega) (by omega)
  | succ pl ih =>
      rw [sinkElement]
      split
      · rename_i moves
        have inOrder : cmp (m (pl + 1)) (m pl) ≤ 0 := by
          have := compares.swap (m pl) (m (pl + 1))
          omega
        refine ih (by omega) fun i j least less most other => ?_
        -- the smaller element is now at `pl`, and what it passed is behind it
        rcases Nat.lt_trichotomy j (pl + 1) with before | rfl | behind
        · rw [exchange_other (by omega) (by omega), exchange_other (by omega) (by omega)]
          exact sinking i j least less most (by omega)
        · rw [exchange_left]
          by_cases next : i = pl
          · rw [next, exchange_right]
            exact inOrder
          · rw [exchange_other (by omega) next]
            exact sinking i pl least (by omega) (by omega) (by omega)
        · rw [exchange_other (k := j) (by omega) (by omega)]
          by_cases first : i = pl + 1
          · rw [first, exchange_left]
            exact sinking pl j (by omega) (by omega) most (by omega)
          · by_cases next : i = pl
            · rw [next, exchange_right]
              exact sinking (pl + 1) j (by omega) behind most (by omega)
            · rw [exchange_other first next]
              exact sinking i j least less most (by omega)
      · rename_i stays
        intro i j least less most
        by_cases moved : j = pl + 1
        · have last : cmp (m pl) (m (pl + 1)) ≤ 0 := by omega
          rw [moved]
          by_cases next : i = pl
          · rw [next]
            exact last
          · exact compares.trans _ _ _ (sinking i pl least (by omega) (by omega) (by omega)) last
        · exact sinking i j least less (by omega) moved

theorem shuffled_sinkElement (m : Nat → α) {pl : Nat} (inside : a ≤ pl ∧ pl < d)
    : Shuffled a d m (sinkElement cmp m a pl) := by
  induction pl generalizing m with
  | zero => exact Shuffled.refl a d m
  | succ pl ih =>
      rw [sinkElement]
      split
      · exact (shuffled_exchange m (by omega) (by omega)).trans (ih _ (by omega))
      · exact Shuffled.refl a d m

theorem insertionSort_ok (compares : Compares cmp) (m : Nat → α) (a n : Nat)
    : Shuffled a (a + n) m (insertionSort cmp m a n)
      ∧ SortedOn cmp a (a + n) (insertionSort cmp m a n) := by
  have rounds (k : Nat) (few : k ≤ n - 1)
      : Shuffled a (a + n) m ((List.range' (a + 1) k).foldl (fun m pm => sinkElement cmp m a pm) m)
        ∧ SortedOn cmp a (a + 1 + k)
          ((List.range' (a + 1) k).foldl (fun m pm => sinkElement cmp m a pm) m) := by
    induction k with
    | zero =>
        refine ⟨Shuffled.refl _ _ _, fun i j least less most => ?_⟩
        omega
    | succ k ih =>
        obtain ⟨shuffled, sorted⟩ := ih (by omega)
        have next : List.range' (a + 1) (k + 1) = List.range' (a + 1) k ++ [a + 1 + k] :=
          List.range'_1_concat
        rw [next, List.foldl_append, List.foldl_cons, List.foldl_nil]
        refine ⟨shuffled.trans (shuffled_sinkElement _ (by omega)), ?_⟩
        refine sinkElement_sorts compares (a + 1 + k) _ (by omega) fun i j least less most other =>
          ?_
        exact sorted i j least less (by omega)
  obtain ⟨shuffled, sorted⟩ := rounds (n - 1) (Nat.le_refl _)
  refine ⟨shuffled, fun i j least less most => ?_⟩
  exact sorted i j least less (by omega)

-- The parts around the pivot

theorem ThreeWay.shuffled_left (parts : ThreeWay cmp v a b c d m) (shuffled : Shuffled a b m m')
    (ordered : b ≤ c)
    : ThreeWay cmp v a b c d m' := by
  refine ⟨shuffled.all (P := fun x => cmp x v < 0) parts.less, fun i least most =>
    ?_, fun i least most => ?_⟩
  · rw [shuffled.outside (.inr least)]
    exact parts.equal i least most
  · rw [shuffled.outside (by omega)]
    exact parts.greater i least most

theorem ThreeWay.shuffled_right (parts : ThreeWay cmp v a b c d m) (shuffled : Shuffled c d m m')
    (ordered : b ≤ c)
    : ThreeWay cmp v a b c d m' := by
  refine ⟨fun i least most => ?_, fun i least most =>
    ?_, shuffled.all (P := fun x => 0 < cmp x v) parts.greater⟩
  · rw [shuffled.outside (by omega)]
    exact parts.less i least most
  · rw [shuffled.outside (by omega)]
    exact parts.equal i least most

theorem ThreeWay.windowSorted (compares : Compares cmp) (parts : ThreeWay cmp v a b c d m)
    (left : WindowSorted cmp a b l r m) (right : WindowSorted cmp c d l r m)
    : WindowSorted cmp a d l r m := by
  intro i j least less most window
  have upTo (k : Nat) (first : a ≤ k) (last : k < c) : cmp (m k) v ≤ 0 := by
    rcases Nat.lt_or_ge k b with before | behind
    · exact (parts.less k first before).le
    · exact (parts.equal k behind last).le
  have above (k : Nat) (first : b ≤ k) (last : k < d) : cmp v (m k) ≤ 0 := by
    have := compares.swap v (m k)
    rcases Nat.lt_or_ge k c with before | behind
    · have := parts.equal k first before
      omega
    · have := parts.greater k behind last
      omega
  rcases Nat.lt_or_ge j b with inLeft | notLeft
  · exact left i j least less inLeft window
  · rcases Nat.lt_or_ge i c with notRight | inRight
    · exact compares.trans _ _ _ (upTo i least notRight) (above j notLeft most)
    · exact right i j inRight less most window

/-- The addresses are those of the first byte and the last byte of a window. -/
def WindowAt (base es lrange rrange l r : Nat) : Prop :=
  lrange = base + l * es ∧ rrange = base + (r + 1) * es - 1 ∧ 0 < es ∧ l ≤ r

theorem isOutside_iff (window : WindowAt base es lrange rrange l r) (some' : 0 < n)
    : isOutside base es lrange rrange a n = true ↔ r < a ∨ a + n ≤ l := by
  obtain ⟨rfl, rfl, size, ordered⟩ := window
  have ends : base + (r + 1) * es - 1 < base + a * es ↔ r < a := by
    have positive : 0 < (r + 1) * es := Nat.mul_pos (Nat.succ_pos r) size
    have scaled : (r + 1) * es ≤ a * es ↔ r + 1 ≤ a := Nat.mul_le_mul_right_iff size
    omega
  have starts : base + l * es > base + a * es + n * es - 1 ↔ a + n ≤ l := by
    have positive : 0 < n * es := Nat.mul_pos some' size
    have scaled : (a + n) * es ≤ l * es ↔ a + n ≤ l := Nat.mul_le_mul_right_iff size
    rw [Nat.add_mul] at scaled
    omega
  have within : base + l * es ≤ base + (r + 1) * es - 1 := by
    have scaled : (l + 1) * es ≤ (r + 1) * es := Nat.mul_le_mul_right es (Nat.succ_le_succ ordered)
    rw [Nat.add_mul, Nat.one_mul] at scaled
    omega
  simp only [isOutside, Bool.or_eq_true, Bool.and_eq_true, decide_eq_true_eq]
  omega

theorem windowAt_addresses (size : 0 < es) (window : l ≤ r ∧ r < n) (fits : base + n * es ≤ 2 ^ 64)
    : WindowAt base es (addressAt base ((l : Int) * es)) (addressAt base (((r : Int) + 1) * es - 1))
      l r := by
  have last : (r + 1) * es ≤ n * es := Nat.mul_le_mul_right es window.2
  have first : (l + 1) * es ≤ (r + 1) * es := Nat.mul_le_mul_right es (Nat.succ_le_succ window.1)
  have positive : 0 < (r + 1) * es := Nat.mul_pos (Nat.succ_pos r) size
  rw [Nat.add_mul l, Nat.one_mul] at first
  have castEnd : ((r : Int) + 1) * es = (((r + 1) * es : Nat) : Int) := by push_cast; rfl
  have castStart : (l : Int) * es = ((l * es : Nat) : Int) := by push_cast; rfl
  refine ⟨?_, ?_, size, window.1⟩
  · rw [addressAt, castStart]
    omega
  · rw [addressAt, castEnd]
    omega

-- The recursion

theorem part_shuffled {sorted : (Nat → α) → Nat → α} (recursion : Shuffled a (a + n) m (sorted m))
    (result : m' = if 1 < n ∧ isOutside base es lrange rrange a n = false then sorted m else m)
    : Shuffled a (a + n) m m' := by
  subst result
  split
  · exact recursion
  · exact Shuffled.refl _ _ _

theorem part_sorted (window : WindowAt base es lrange rrange l r) {sorted : (Nat → α) → Nat → α}
    (recursion : WindowSorted cmp a (a + n) l r (sorted m))
    (result : m' = if 1 < n ∧ isOutside base es lrange rrange a n = false then sorted m else m)
    : WindowSorted cmp a (a + n) l r m' := by
  subst result
  split
  · exact recursion
  · rename_i leftOut
    by_cases small : n ≤ 1
    · exact windowSorted_small small
    · refine windowSorted_outside ((isOutside_iff window (by omega)).mp ?_)
      by_contra meets
      exact leftOut ⟨by omega, Bool.eq_false_iff.mpr meets⟩

theorem pqsortRange_ok (compares : Compares cmp) (base es lrange rrange a n : Nat) (m : Nat → α)
    : Shuffled a (a + n) m (pqsortRange cmp base es lrange rrange a n m)
      ∧ ∀ l r, WindowAt base es lrange rrange l r →
        WindowSorted cmp a (a + n) l r (pqsortRange cmp base es lrange rrange a n m) := by
  induction n using Nat.strong_induction_on generalizing a m with
  | _ n ih =>
      rw [pqsortRange]
      split
      · obtain ⟨shuffled, sorted⟩ := insertionSort_ok compares m a n
        exact ⟨shuffled, fun l r window i j least less most meets => sorted i j least less most⟩
      · rename_i large
        have sizes := partition_sizes cmp m a large
        obtain ⟨shuffled, v, parts⟩ := partition_ok compares m a large
        dsimp only
        generalize partition cmp m a n = p at *
        generalize first : (if 1 < p.less ∧ isOutside base es lrange rrange a p.less = false then
          pqsortRange cmp base es lrange rrange a p.less p.m else p.m) = m₁
        obtain ⟨leftShuffled, leftSorted⟩ := ih p.less (by omega) a p.m
        have left := part_shuffled leftShuffled first.symm
        generalize second : (if 1 < p.greater
            ∧ isOutside base es lrange rrange (a + n - p.greater) p.greater = false then
          pqsortRange cmp base es lrange rrange (a + n - p.greater) p.greater m₁ else m₁) = m₂
        obtain ⟨rightShuffled, rightSorted⟩ := ih p.greater (by omega) (a + n - p.greater) m₁
        have right := part_shuffled rightShuffled second.symm
        have whole : a + n - p.greater + p.greater = a + n := by omega
        have rightEnd := right
        rw [whole] at rightEnd
        have after := (parts.shuffled_left left (by omega)).shuffled_right rightEnd (by omega)
        refine ⟨?_, fun l r window => ?_⟩
        · exact (shuffled.trans (left.mono (Nat.le_refl _) (by omega))).trans
            (rightEnd.mono (by omega) (Nat.le_refl _))
        · have leftPart := part_sorted window (leftSorted l r window) first.symm
          have rightPart := part_sorted window (rightSorted l r window) second.symm
          rw [whole] at rightPart
          exact after.windowSorted compares (leftPart.congr fun i least most =>
            rightEnd.outside (by omega)) rightPart

theorem pqsort_shuffled (compares : Compares cmp) (base n es : Nat) (start stop : Int) (m : Nat → α)
    : Shuffled 0 n m (pqsort cmp base n es start stop m) := by
  have result :=
    (pqsortRange_ok compares base es (addressAt base (start * es))
    (addressAt base ((stop + 1) * es - 1)) 0 n m).1
  rw [Nat.zero_add] at result
  exact result

theorem pqsort_windowSorted (compares : Compares cmp) (size : 0 < es) (window : l ≤ r ∧ r < n)
    (fits : base + n * es ≤ 2 ^ 64) (m : Nat → α)
    : WindowSorted cmp 0 n l r (pqsort cmp base n es l r m) := by
  have result :=
    (pqsortRange_ok compares base es _ _ 0 n m).2 l r (windowAt_addresses size window fits)
  rw [Nat.zero_add] at result
  exact result

theorem pqsort_sorts (compares : Compares cmp) (size : 0 < es) (fits : base + n * es ≤ 2 ^ 64)
    (some' : 0 < n)
    (m : Nat → α)
    : SortedOn cmp 0 n (pqsort cmp base n es 0 (n - 1 : Nat) m) := by
  have result :=
    pqsort_windowSorted (l := 0) (r := n - 1) compares size ⟨Nat.zero_le _, by omega⟩ fits m
  intro i j least less most
  exact result i j least less most (.inl (by omega))

/-- `pqsort` rearranges the array so that the elements of the window are those of the sorted array,
the elements before it are not greater and those behind it are not less.
-/
theorem pqsort_window (compares : Compares cmp) (size : 0 < es) (fits : base + n * es ≤ 2 ^ 64)
    (window : l ≤ r ∧ r < n) (m : Nat → α)
    : Shuffled 0 n m (pqsort cmp base n es l r m)
      ∧ (∃ s, Shuffled 0 n m s ∧ SortedOn cmp 0 n s)
      ∧ (∀ s, Shuffled 0 n m s → SortedOn cmp 0 n s →
        ∀ i, l ≤ i → i ≤ r → cmp (pqsort cmp base n es l r m i) (s i) = 0)
      ∧ (∀ i j, i < l → l ≤ j → j ≤ r → cmp (pqsort cmp base n es l r m i)
        (pqsort cmp base n es l r m j) ≤ 0)
      ∧ ∀ i j, r < i → i < n → l ≤ j → j ≤ r →
        cmp (pqsort cmp base n es l r m j) (pqsort cmp base n es l r m i) ≤ 0 := by
  have shuffled := pqsort_shuffled compares base n es l r m
  have sorted := pqsort_windowSorted compares size window fits m
  refine ⟨shuffled,
    ⟨_, pqsort_shuffled compares base n es _ _ m, pqsort_sorts compares size fits (by omega) m⟩,
    fun s arranged whole i least most => ?_, fun i j before least most =>
      ?_, fun i j behind inN least most => ?_⟩
  · exact sorted.agrees compares whole (shuffled.symm.trans arranged) ⟨least, most⟩ (by omega)
  · exact sorted i j (Nat.zero_le i) (by omega) (by omega) (.inr ⟨least, most⟩)
  · exact sorted j i (Nat.zero_le j) (by omega) inN (.inl ⟨least, most⟩)

theorem compares_sub : Compares fun x y : Int => x - y := by
  refine ⟨fun x y => ?_, fun x y z first second => ?_⟩ <;> omega

theorem pqsort_window_sub
    : Shuffled 0 9 (fun i => ((i * 5 % 9 : Nat) : Int))
        (pqsort (fun x y => x - y) 4096 9 8 (2 : Nat) (4 : Nat) fun i =>
        ((i * 5 % 9 : Nat) : Int)) :=
  (pqsort_window compares_sub (by decide) (by decide) (by decide) _).1

end Redis.Sort
