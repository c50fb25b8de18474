import Mathlib.Data.Nat.Bitwise
import Mathlib.Tactic

/-! Counting with the bits of a word reversed.
Incrementing the reversal of a word walks through all words in the order that compares
their bits from the least significant one up.
-/

namespace Redis.Library

variable {w : Nat}

/-- The words agree below some bit, which is clear on the left and set on the right. -/
def LowBitLt (x y : BitVec w) : Prop :=
  ∃ i, (∀ j < i, x.getLsbD j = y.getLsbD j) ∧ x.getLsbD i = false ∧ y.getLsbD i = true

theorem LowBitLt.reverse_lt {x y : BitVec w} (less : LowBitLt x y)
    : x.reverse.toNat < y.reverse.toNat := by
  obtain ⟨i, agree, clear, set⟩ := less
  have bound : i < w := BitVec.lt_of_getLsbD set
  have bit (z : BitVec w) (k : Nat) : z.reverse.toNat.testBit k = z.getMsbD k := by
    rw [BitVec.testBit_toNat, BitVec.getLsbD_reverse]
  refine Nat.lt_of_testBit (w - 1 - i) ?_ ?_ ?_
  · rw [bit, BitVec.getMsbD, show w - 1 - (w - 1 - i) = i by omega, clear]
    simp
  · rw [bit, BitVec.getMsbD, show w - 1 - (w - 1 - i) = i by omega, set]
    simp
    omega
  · intro j above
    rw [bit, bit, BitVec.getMsbD, BitVec.getMsbD]
    by_cases inside : j < w
    · rw [agree (w - 1 - j) (by omega)]
    · simp [inside]

theorem lowBitLt_trichotomy (x y : BitVec w) : x = y ∨ LowBitLt x y ∨ LowBitLt y x := by
  by_cases same : x = y
  · exact Or.inl same
  have differ : ∃ i, x.getLsbD i ≠ y.getLsbD i := by
    by_contra all
    push Not at all
    exact same (BitVec.eq_of_getLsbD_eq (fun i _ => all i))
  classical
  have agree : ∀ j < Nat.find differ, x.getLsbD j = y.getLsbD j := by
    intro j below
    simpa using Nat.find_min differ below
  have first := Nat.find_spec differ
  cases left : x.getLsbD (Nat.find differ) with
  | false =>
      rw [left] at first
      exact Or.inr (Or.inl ⟨_, agree, left, (Bool.not_eq_false _).mp first.symm⟩)
  | true =>
      rw [left] at first
      exact Or.inr (Or.inr ⟨_, fun j below => (agree j below).symm,
        (Bool.not_eq_true _).mp first.symm, left⟩)

theorem not_lowBitLt_zero (x : BitVec w) : ¬LowBitLt x 0#w := by
  rintro ⟨i, _, _, set⟩
  simp at set

theorem reversed_succ {x y : BitVec w} (succ : y.reverse = x.reverse + 1#w) (z : BitVec w)
    : (y = 0#w ∨ LowBitLt z y) → z = x ∨ LowBitLt z x := by
  intro reached
  have small : z.reverse.toNat ≤ x.reverse.toNat := by
    have value : y.reverse.toNat = (x.reverse.toNat + 1) % 2 ^ w := by
      simpa [BitVec.toNat_add] using congrArg BitVec.toNat succ
    have zBound := z.reverse.isLt
    have xBound := x.reverse.isLt
    by_cases wraps : x.reverse.toNat + 1 = 2 ^ w
    · omega
    · rw [Nat.mod_eq_of_lt (by omega)] at value
      rcases reached with rfl | less
      · rw [show (0#w).reverse = 0#w from by simp] at value
        simp at value
      · have strictly := less.reverse_lt
        omega
  rcases lowBitLt_trichotomy z x with same | before | after
  · exact Or.inl same
  · exact Or.inr before
  · have greater := after.reverse_lt
    omega

-- Counting all words of some bits

/-- The word reached after `i` increments of the reversal of its `bits` low bits. -/
def reversedCount (w bits i : Nat) : BitVec w := (BitVec.ofNat w (i * 2 ^ (w - bits))).reverse

section Counting

variable {bits : Nat} (fits : bits ≤ w)
include fits

theorem reversedCount_getLsbD (i j : Nat)
    : (reversedCount w bits i).getLsbD j = (decide (j < bits) && i.testBit (bits - 1 - j)) := by
  rw [reversedCount, BitVec.getLsbD_reverse, BitVec.getMsbD, BitVec.getLsbD_ofNat,
    Nat.testBit_mul_two_pow]
  rcases Nat.lt_or_ge j bits with low | high
  · have place : w - 1 - j - (w - bits) = bits - 1 - j := by omega
    have inside : j < w := by omega
    have above : w - bits ≤ w - 1 - j := by omega
    have below : w - 1 - j < w := by omega
    simp [low, inside, above, below, place]
  · rcases Nat.lt_or_ge j w with inside | outside
    · have above : ¬w - bits ≤ w - 1 - j := by omega
      simp [inside, above, Nat.not_lt.mpr high]
    · simp [Nat.not_lt.mpr high, Nat.not_lt.mpr outside]

theorem toNat_reversedCount_lt (i : Nat) : (reversedCount w bits i).toNat < 2 ^ bits := by
  refine Nat.lt_pow_two_of_testBit _ fun j above => ?_
  rw [BitVec.testBit_toNat, reversedCount_getLsbD fits]
  simp [Nat.not_lt.mpr above]

theorem reversedCount_inj {i j : Nat} (left : i < 2 ^ bits) (right : j < 2 ^ bits)
    (same : reversedCount w bits i = reversedCount w bits j)
    : i = j := by
  apply Nat.eq_of_testBit_eq
  intro k
  rcases Nat.lt_or_ge k bits with low | high
  · have read := congrArg (BitVec.getLsbD · (bits - 1 - k)) same
    have inside : bits - 1 - k < bits := by omega
    have back : bits - 1 - (bits - 1 - k) = k := by omega
    simpa [reversedCount_getLsbD fits, inside, back] using read
  · have power : 2 ^ bits ≤ 2 ^ k := Nat.pow_le_pow_right (by decide) high
    rw [Nat.testBit_lt_two_pow (by omega), Nat.testBit_lt_two_pow (by omega)]

omit fits in
theorem reversedCount_zero : reversedCount w bits 0 = 0#w := by
  simp [reversedCount]

theorem reversedCount_round : reversedCount w bits (2 ^ bits) = 0#w := by
  have full : 2 ^ bits * 2 ^ (w - bits) = 2 ^ w := by
    rw [← Nat.pow_add, Nat.add_sub_cancel' fits]
  have zero : BitVec.ofNat w (2 ^ w) = 0#w := BitVec.eq_of_toNat_eq (by
    rw [BitVec.toNat_ofNat, Nat.mod_self, BitVec.toNat_zero])
  rw [reversedCount, full, zero]
  simp

theorem reversedCount_ne_zero {i : Nat} (positive : i ≠ 0) (inside : i < 2 ^ bits)
    : reversedCount w bits i ≠ 0#w := by
  intro zero
  have start : reversedCount w bits 0 = 0#w := reversedCount_zero
  rw [← start] at zero
  exact positive (reversedCount_inj fits inside (Nat.two_pow_pos bits) zero)

/-- Incrementing the reversal gives the next word of the count. -/
theorem reversedCount_succ {v m : BitVec w} {i : Nat}
    (mask : ∀ j < w, m.getLsbD j = decide (j < bits))
    (low : ∀ j < bits, v.getLsbD j = (reversedCount w bits i).getLsbD j) (inside : i < 2 ^ bits)
    : (v ||| ~~~m).reverse + 1#w = (reversedCount w bits (i + 1)).reverse := by
  have ones : 2 ^ (w - bits) - 1 < 2 ^ (w - bits) := Nat.sub_lt (Nat.two_pow_pos _) (by decide)
  have value : (v ||| ~~~m).reverse.toNat = 2 ^ (w - bits) * i + (2 ^ (w - bits) - 1) := by
    apply Nat.eq_of_testBit_eq
    intro k
    rw [Nat.testBit_two_pow_mul_add _ ones, BitVec.testBit_toNat, BitVec.getLsbD_reverse,
      BitVec.getMsbD, BitVec.getLsbD_or, BitVec.getLsbD_not, Nat.testBit_two_pow_sub_one]
    rcases Nat.lt_or_ge k w with small | large
    · have place : w - 1 - k < w := by omega
      rw [mask _ place]
      rcases Nat.lt_or_ge k (w - bits) with outer | inner
      · have out : ¬w - 1 - k < bits := by omega
        simp [small, place, outer, out]
      · have within : w - 1 - k < bits := by omega
        have back : bits - 1 - (w - 1 - k) = k - (w - bits) := by omega
        rw [low _ within, reversedCount_getLsbD fits, back]
        simp [small, within, Nat.not_lt.mpr inner]
    · have power : 2 ^ bits ≤ 2 ^ (k - (w - bits)) := Nat.pow_le_pow_right (by decide) (by omega)
      have out : ¬k < w - bits := by omega
      rw [Nat.testBit_lt_two_pow (show i < 2 ^ (k - (w - bits)) by omega)]
      simp [Nat.not_lt.mpr large, out]
  apply BitVec.eq_of_toNat_eq
  have positive := Nat.two_pow_pos (w - bits)
  have next : 2 ^ (w - bits) * i + (2 ^ (w - bits) - 1) + 1 = (i + 1) * 2 ^ (w - bits) := by
    rw [Nat.add_mul, Nat.mul_comm i]
    omega
  rw [reversedCount, BitVec.reverse_reverse_eq, BitVec.toNat_add, value, BitVec.toNat_ofNat,
    BitVec.toNat_ofNat, Nat.add_mod_mod, next]

/-- The count visits every number once. -/
theorem perm_reversedCount
    : ((List.range (2 ^ bits)).map fun i => (reversedCount w bits i).toNat).Perm
        (List.range (2 ^ bits)) := by
  have different
      : ((List.range (2 ^ bits)).map fun i => (reversedCount w bits i).toNat).Nodup := by
    refine List.Nodup.map_on ?_ List.nodup_range
    intro i left j right same
    exact reversedCount_inj fits (List.mem_range.mp left) (List.mem_range.mp right)
      (BitVec.eq_of_toNat_eq same)
  have within
      : ((List.range (2 ^ bits)).map fun i => (reversedCount w bits i).toNat)
        ⊆ List.range (2 ^ bits) := by
    intro n member
    obtain ⟨i, _, rfl⟩ := List.mem_map.mp member
    exact List.mem_range.mpr (toNat_reversedCount_lt fits i)
  refine (List.subperm_of_subset different within).perm_of_length_le ?_
  simp

end Counting

end Redis.Library
