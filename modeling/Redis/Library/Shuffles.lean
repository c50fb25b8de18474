import Mathlib.Data.Finset.Card
import Mathlib.Logic.Equiv.Basic
import Mathlib.Order.Interval.Finset.Nat
import Mathlib.Tactic

/-! Arrays as functions of their positions: exchanges of elements, rearrangements of a part, and
parts of an array that are where sorting would put them.
-/

namespace Redis.Library

variable {α : Type} {m m' m'' : Nat → α} {lo hi lo' hi' i j k n : Nat}

def exchange (m : Nat → α) (i j : Nat)
    : Nat → α := fun k => if k = i then m j else if k = j then m i else m k

theorem exchange_left (m : Nat → α) (i j : Nat) : exchange m i j i = m j := if_pos rfl

theorem exchange_right (m : Nat → α) (i j : Nat) : exchange m i j j = m i := by
  unfold exchange
  split
  · rename_i same
    rw [same]
  · exact if_pos rfl

theorem exchange_other (left : k ≠ i) (right : k ≠ j) : exchange m i j k = m k := by
  rw [exchange, if_neg left, if_neg right]

theorem exchange_eq (m : Nat → α) (i j : Nat) : exchange m i j = m ∘ Equiv.swap i j := by
  funext k
  simp only [exchange, Function.comp, Equiv.swap_apply_def]
  split
  · rfl
  · split <;> rfl

/-- The elements from `lo` up to `hi` are rearranged. -/
def Shuffled (lo hi : Nat) (m m' : Nat → α) : Prop :=
  ∃ σ : Equiv.Perm Nat, (∀ i, i < lo ∨ hi ≤ i → σ i = i) ∧ m' = m ∘ σ

theorem Shuffled.refl (lo hi : Nat) (m : Nat → α) : Shuffled lo hi m m := ⟨1, fun _ _ => rfl, rfl⟩

theorem Shuffled.trans (first : Shuffled lo hi m m') (second : Shuffled lo hi m' m'')
    : Shuffled lo hi m m'' := by
  obtain ⟨σ, fixed, rfl⟩ := first
  obtain ⟨τ, fixed', rfl⟩ := second
  refine ⟨τ.trans σ, fun i outside => ?_, rfl⟩
  rw [Equiv.trans_apply, fixed' i outside, fixed i outside]

theorem Shuffled.symm (shuffled : Shuffled lo hi m m') : Shuffled lo hi m' m := by
  obtain ⟨σ, fixed, rfl⟩ := shuffled
  refine ⟨σ.symm, fun k out => ?_, ?_⟩
  · rw [Equiv.symm_apply_eq, fixed k out]
  · funext k
    exact congrArg m (σ.apply_symm_apply k).symm

theorem Shuffled.mono (shuffled : Shuffled lo hi m m') (lower : lo' ≤ lo) (upper : hi ≤ hi')
    : Shuffled lo' hi' m m' := by
  obtain ⟨σ, fixed, rfl⟩ := shuffled
  exact ⟨σ, fun i outside => fixed i (by omega), rfl⟩

/-- An exchange inside a part rearranges the part. -/
theorem shuffled_exchange (m : Nat → α) (left : lo ≤ i ∧ i < hi) (right : lo ≤ j ∧ j < hi)
    : Shuffled lo hi m (exchange m i j) := by
  refine ⟨Equiv.swap i j, fun k outside => ?_, exchange_eq m i j⟩
  exact Equiv.swap_apply_of_ne_of_ne (by omega) (by omega)

theorem Shuffled.outside (shuffled : Shuffled lo hi m m') (out : k < lo ∨ hi ≤ k) : m' k = m k := by
  obtain ⟨σ, fixed, rfl⟩ := shuffled
  exact congrArg m (fixed k out)

theorem Shuffled.source (shuffled : Shuffled lo hi m m') (inside : lo ≤ k ∧ k < hi)
    : ∃ from', (lo ≤ from' ∧ from' < hi) ∧ m' k = m from' := by
  obtain ⟨σ, fixed, rfl⟩ := shuffled
  refine ⟨σ k, ?_, rfl⟩
  by_contra out
  have same := fixed (σ k) (by omega)
  have := σ.injective same
  omega

theorem Shuffled.all {P : α → Prop} (shuffled : Shuffled lo hi m m')
    (all : ∀ i, lo ≤ i → i < hi → P (m i))
    : ∀ i, lo ≤ i → i < hi → P (m' i) := by
  intro i least most
  obtain ⟨from', inside, same⟩ := shuffled.source ⟨least, most⟩
  rw [same]
  exact all from' inside.1 inside.2

theorem Shuffled.perm_map (shuffled : Shuffled 0 n m m')
    : ((List.range n).map m').Perm ((List.range n).map m) := by
  obtain ⟨σ, fixed, rfl⟩ := shuffled
  have places : ((List.range n).map σ).Perm (List.range n) := by
    refine (List.perm_ext_iff_of_nodup (List.nodup_range.map σ.injective) List.nodup_range).mpr
      fun k => ?_
    rw [List.mem_map, List.mem_range]
    constructor
    · rintro ⟨i, inside, rfl⟩
      by_contra out
      have same := σ.injective (fixed (σ i) (.inr (Nat.le_of_not_lt out)))
      rw [same] at out
      exact out (List.mem_range.mp inside)
    · intro inside
      refine ⟨σ.symm k, ?_, σ.apply_symm_apply k⟩
      rw [List.mem_range]
      by_contra out
      have same := fixed (σ.symm k) (.inr (Nat.le_of_not_lt out))
      rw [σ.apply_symm_apply] at same
      omega
  have mapped := places.map m
  rw [List.map_map] at mapped
  exact mapped

theorem map_range_getD (items : List α) (first : α)
    : (List.range items.length).map (fun i => items.getD i first) = items := by
  refine List.ext_getElem (by rw [List.length_map, List.length_range]) fun i less less' => ?_
  rw [List.getElem_map, List.getElem_range, List.getD_eq_getElem?_getD,
    List.getElem?_eq_getElem less', Option.getD_some]

-- Comparisons

/-- A comparison function is a total preorder. -/
structure Compares (cmp : α → α → Int) : Prop where
  swap : ∀ x y, 0 < cmp x y ↔ cmp y x < 0
  trans : ∀ x y z, cmp x y ≤ 0 → cmp y z ≤ 0 → cmp x z ≤ 0

section Comparisons

variable {cmp : α → α → Int} {x y z : α} {l r : Nat} {s : Nat → α}

theorem Compares.total (compares : Compares cmp) (x y : α) : cmp x y ≤ 0 ∨ cmp y x ≤ 0 := by
  have := compares.swap x y
  omega

theorem Compares.le_of_lt_of_le (compares : Compares cmp) (first : cmp x y < 0)
    (second : cmp y z ≤ 0)
    : cmp x z < 0 := by
  by_contra notLess
  have back : cmp z x ≤ 0 := by
    have := compares.swap z x
    omega
  have := compares.trans y z x second back
  have := compares.swap y x
  omega

section Combined

variable {α β : Type}

theorem Compares.on {cmp : β → β → Int} (compares : Compares cmp) (f : α → β)
    : Compares fun x y => cmp (f x) (f y) :=
  ⟨fun x y => compares.swap (f x) (f y), fun x y z => compares.trans (f x) (f y) (f z)⟩

theorem Compares.neg {cmp : α → α → Int} (compares : Compares cmp)
    : Compares fun x y => -cmp x y := by
  refine ⟨fun x y => ?_, fun x y z first second => ?_⟩
  · have := compares.swap y x
    omega
  · have := compares.swap x y
    have := compares.swap y x
    have := compares.swap y z
    have := compares.swap z y
    have := compares.swap x z
    have := compares.swap z x
    have := compares.trans z y x (by omega) (by omega)
    omega

theorem Compares.refine {F : Type} [LinearOrder F] {cmp : α → α → Int} (compares : Compares cmp)
    (score : α → F)
    : Compares fun x y => if score x > score y then 1 else if score x < score y then -1
      else cmp x y := by
  refine ⟨fun x y => ?_, fun x y z first second => ?_⟩
  · have := compares.swap x y
    rcases lt_trichotomy (score x) (score y) with less | same | greater
    · simp [less, less.asymm]
    · simp [same, this]
    · simp [greater, greater.asymm]
  · have chain := compares.trans x y z
    rcases lt_trichotomy (score x) (score y) with less | same | greater
    · rcases lt_trichotomy (score y) (score z) with less' | same' | greater'
      · simp [less.trans less', (less.trans less').asymm]
      · simp [← same', less, less.asymm]
      · simp [greater'] at second
    · rcases lt_trichotomy (score y) (score z) with less' | same' | greater'
      · simp [same, less', less'.asymm]
      · simp only [same, same', gt_iff_lt, lt_self_iff_false, if_false] at first second ⊢
        exact chain first second
      · simp [greater'] at second
    · simp [greater] at first

/-- No value is before every value. -/
def compareOption (cmp : α → α → Int) : Option α → Option α → Int
  | none, none => 0
  | none, some _ => -1
  | some _, none => 1
  | some x, some y => cmp x y

theorem Compares.option {cmp : α → α → Int} (compares : Compares cmp)
    : Compares (compareOption cmp) := by
  refine ⟨fun x y => ?_, fun x y z first second => ?_⟩
  · cases x <;> cases y <;> simp [compareOption, compares.swap]
  · cases x with
    | none => cases z <;> simp [compareOption]
    | some x =>
        cases y with
        | none => simp [compareOption] at first
        | some y =>
            cases z with
            | none => simp [compareOption] at second
            | some z => exact compares.trans x y z first second

end Combined

/-- Every element of the window is in order with every other one. -/
def WindowSorted (cmp : α → α → Int) (lo hi l r : Nat) (m : Nat → α) : Prop :=
  ∀ i j, lo ≤ i → i < j → j < hi → (l ≤ i ∧ i ≤ r) ∨ (l ≤ j ∧ j ≤ r) → cmp (m i) (m j) ≤ 0

def SortedOn (cmp : α → α → Int) (lo hi : Nat) (m : Nat → α) : Prop :=
  ∀ i j, lo ≤ i → i < j → j < hi → cmp (m i) (m j) ≤ 0

theorem windowSorted_small (small : n ≤ 1) : WindowSorted cmp lo (lo + n) l r m := by
  intro i j least less most window
  omega

theorem windowSorted_outside (out : r < lo ∨ hi ≤ l) : WindowSorted cmp lo hi l r m := by
  intro i j least less most window
  omega

theorem WindowSorted.congr (sorted : WindowSorted cmp lo hi l r m)
    (same : ∀ i, lo ≤ i → i < hi → m' i = m i)
    : WindowSorted cmp lo hi l r m' := by
  intro i j least less most window
  rw [same i least (by omega), same j (by omega) most]
  exact sorted i j least less most window

theorem no_room (shuffled : Shuffled 0 n m m') (inside : i < n) {P : α → Prop}
    (above : ∀ k, i ≤ k → k < n → P (m k)) (below : ∀ k, k ≤ i → ¬ P (m' k))
    : False := by
  obtain ⟨σ, fixed, rfl⟩ := shuffled
  have maps : ∀ k ∈ Finset.Ico i n, σ.symm k ∈ Finset.Ico (i + 1) n := by
    intro k member
    rw [Finset.mem_Ico] at member ⊢
    have found : P ((m ∘ σ) (σ.symm k)) := by
      rw [Function.comp_apply, Equiv.apply_symm_apply]
      exact above k member.1 member.2
    have less : i < σ.symm k := by
      by_contra small
      exact below _ (by omega) found
    refine ⟨less, ?_⟩
    by_contra out
    have same := fixed (σ.symm k) (by omega)
    rw [Equiv.apply_symm_apply] at same
    omega
  have few := Finset.card_le_card_of_injOn σ.symm maps σ.symm.injective.injOn
  rw [Nat.card_Ico, Nat.card_Ico] at few
  omega

theorem WindowSorted.agrees (compares : Compares cmp) (sorted : WindowSorted cmp 0 n l r m)
    (whole : SortedOn cmp 0 n s) (shuffled : Shuffled 0 n m s) (inside : l ≤ i ∧ i ≤ r)
    (small : i < n)
    : cmp (m i) (s i) = 0 := by
  have reflexive (x : α) : cmp x x = 0 := by
    have := compares.swap x x
    omega
  have lower (k : Nat) (le : k ≤ i) : cmp (m k) (m i) ≤ 0 := by
    rcases Nat.lt_or_eq_of_le le with less | rfl
    · exact sorted k i (Nat.zero_le _) less small (.inr inside)
    · exact (reflexive _).le
  have upper (k : Nat) (le : i ≤ k) (inN : k < n) : cmp (m i) (m k) ≤ 0 := by
    rcases Nat.lt_or_eq_of_le le with less | rfl
    · exact sorted i k (Nat.zero_le _) less inN (.inl inside)
    · exact (reflexive _).le
  have lower' (k : Nat) (le : k ≤ i) : cmp (s k) (s i) ≤ 0 := by
    rcases Nat.lt_or_eq_of_le le with less | rfl
    · exact whole k i (Nat.zero_le _) less small
    · exact (reflexive _).le
  have upper' (k : Nat) (le : i ≤ k) (inN : k < n) : cmp (s i) (s k) ≤ 0 := by
    rcases Nat.lt_or_eq_of_le le with less | rfl
    · exact whole i k (Nat.zero_le _) less inN
    · exact (reflexive _).le
  rcases lt_trichotomy (cmp (m i) (s i)) 0 with less | same | greater
  · exact (no_room (P := fun x => cmp (m i) x < 0) shuffled.symm small
      (fun k le inN => compares.le_of_lt_of_le less (upper' k le inN))
      (fun k le found => by
        have := lower k le
        have := compares.swap (m k) (m i)
        omega)).elim
  · exact same
  · have less := (compares.swap _ _).mp greater
    exact (no_room (P := fun x => cmp (s i) x < 0) shuffled small
      (fun k le inN => compares.le_of_lt_of_le less (upper k le inN))
      (fun k le found => by
        have := lower' k le
        have := compares.swap (s k) (s i)
        omega)).elim

end Comparisons

end Redis.Library
