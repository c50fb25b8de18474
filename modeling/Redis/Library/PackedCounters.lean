import Mathlib.Data.Nat.Bitwise
import Mathlib.Tactic

/-! Counters of a fixed width packed into the bits of a byte string, least significant bit first.
A counter of at most eight bits touches two bytes; what a write does is said by the bit string.
-/

namespace Redis.Library

/-- `b & ~mask`. -/
def clearBits (b mask : Nat) : Nat := b ^^^ (b &&& mask)

/-- A byte, or the terminating zero byte. -/
def byteAt (bytes : List UInt8) (k : Nat) : Nat := (bytes.getD k 0).toNat

/-- The counter of `w` bits in place `i`. -/
def packedGet (w : Nat) (bytes : List UInt8) (i : Nat) : Nat :=
  ((byteAt bytes (i * w / 8) >>> (i * w % 8))
    ||| (byteAt bytes (i * w / 8 + 1) <<< (8 - i * w % 8))) &&& (2 ^ w - 1)

/-- A byte with the bits of a mask replaced. -/
def mergeByte (bytes : List UInt8) (k mask bits : Nat) : List UInt8 :=
  bytes.set k (UInt8.ofNat (clearBits (byteAt bytes k) mask ||| bits))

/-- The counter of `w` bits in place `i` takes the value `v`. -/
def packedSet (w : Nat) (bytes : List UInt8) (i v : Nat) : List UInt8 :=
  mergeByte
    (mergeByte bytes (i * w / 8) ((2 ^ w - 1) <<< (i * w % 8)) (v <<< (i * w % 8)))
    (i * w / 8 + 1) ((2 ^ w - 1) >>> (8 - i * w % 8)) (v >>> (8 - i * w % 8))

/-- Bit `n` of the bit string. -/
def bitAt (bytes : List UInt8) (n : Nat) : Bool := (byteAt bytes (n / 8)).testBit (n % 8)

section Bits

variable {w : Nat} {bytes : List UInt8} {i v : Nat}

theorem testBit_clearBits (b mask k : Nat)
    : (clearBits b mask).testBit k = (b.testBit k && !mask.testBit k) := by
  rw [clearBits, Nat.testBit_xor, Nat.testBit_and]
  cases b.testBit k <;> cases mask.testBit k <;> rfl

theorem byteAt_lt (bytes : List UInt8) (k : Nat) : byteAt bytes k < 2 ^ 8 := UInt8.toNat_lt _

theorem testBit_byteAt_of_ge {k r : Nat} (past : 8 ≤ r)
    : (byteAt bytes k).testBit r = false :=
  Nat.testBit_lt_two_pow (lt_of_lt_of_le (byteAt_lt bytes k) (Nat.pow_le_pow_right (by omega) past))

@[simp] theorem length_mergeByte (k mask bits : Nat)
    : (mergeByte bytes k mask bits).length = bytes.length := by
  simp [mergeByte]

@[simp] theorem length_packedSet : (packedSet w bytes i v).length = bytes.length := by
  simp [packedSet]

theorem byteAt_of_ge {k : Nat} (past : bytes.length ≤ k) : byteAt bytes k = 0 := by
  simp [byteAt, List.getD_eq_getElem?_getD, List.getElem?_eq_none past]

theorem byteAt_mergeByte_of_ne {k other : Nat} (mask bits : Nat) (different : other ≠ k)
    : byteAt (mergeByte bytes k mask bits) other = byteAt bytes other := by
  simp [byteAt, mergeByte, List.getD_eq_getElem?_getD, List.getElem?_set_ne different.symm]

theorem testBit_mergeByte {k mask bits r : Nat} (inside : k < bytes.length) (low : r < 8)
    : (byteAt (mergeByte bytes k mask bits) k).testBit r
      = ((byteAt bytes k).testBit r && !mask.testBit r || bits.testBit r) := by
  have written : byteAt (mergeByte bytes k mask bits) k
      = (clearBits (byteAt bytes k) mask ||| bits) % 2 ^ 8 := by
    rw [byteAt, mergeByte, List.getD_eq_getElem?_getD, List.getElem?_set_self inside,
      Option.getD_some, UInt8.toNat_ofNat']
  rw [written, Nat.testBit_mod_two_pow, Nat.testBit_or, testBit_clearBits]
  simp [low]

theorem testBit_packedGet (small : w ≤ 8) (r : Nat)
    : (packedGet w bytes i).testBit r = (decide (r < w) && bitAt bytes (i * w + r)) := by
  obtain ⟨k, fb, below, place⟩ : ∃ k fb, fb < 8 ∧ i * w = 8 * k + fb :=
    ⟨i * w / 8, i * w % 8, by omega, by omega⟩
  have byte : i * w / 8 = k := by omega
  have offset : i * w % 8 = fb := by omega
  rw [packedGet, byte, offset, Nat.testBit_and, Nat.testBit_two_pow_sub_one, Nat.testBit_or,
    Nat.testBit_shiftRight, Nat.testBit_shiftLeft, bitAt, Bool.and_comm]
  by_cases counted : r < w
  · rcases Nat.lt_or_ge (fb + r) 8 with here | next
    · rw [show (i * w + r) / 8 = k by omega, show (i * w + r) % 8 = fb + r by omega]
      simp [show ¬ 8 - fb ≤ r by omega]
    · rw [show (i * w + r) / 8 = k + 1 by omega, show (i * w + r) % 8 = r - (8 - fb) by omega,
        testBit_byteAt_of_ge next]
      simp [show 8 - fb ≤ r by omega]
  · simp [counted]

theorem packedGet_lt (small : w ≤ 8) : packedGet w bytes i < 2 ^ w := by
  refine Nat.lt_pow_two_of_testBit _ fun r past => ?_
  simp [testBit_packedGet small, show ¬ r < w by omega]

theorem bitAt_packedSet (positive : 0 < w) (small : w ≤ 8) (fits : v < 2 ^ w)
    (room : (i + 1) * w ≤ 8 * bytes.length) (n : Nat)
    : bitAt (packedSet w bytes i v) n
      = if i * w ≤ n ∧ n < i * w + w then v.testBit (n - i * w) else bitAt bytes n := by
  rw [Nat.add_mul, Nat.one_mul] at room
  obtain ⟨k, fb, below, place⟩ : ∃ k fb, fb < 8 ∧ i * w = 8 * k + fb :=
    ⟨i * w / 8, i * w % 8, by omega, by omega⟩
  have high (r : Nat) (past : w ≤ r) : v.testBit r = false :=
    Nat.testBit_lt_two_pow (lt_of_lt_of_le fits (Nat.pow_le_pow_right (by omega) past))
  have inside : k < bytes.length := by omega
  rw [packedSet, show i * w / 8 = k by omega, show i * w % 8 = fb by omega, place, bitAt, bitAt]
  obtain ⟨m, r, low, rfl⟩ : ∃ m r, r < 8 ∧ n = 8 * m + r := ⟨n / 8, n % 8, by omega, by omega⟩
  rw [show (8 * m + r) / 8 = m by omega, show (8 * m + r) % 8 = r by omega]
  rcases eq_or_ne m k with rfl | notFirst
  · -- the first byte
    rw [byteAt_mergeByte_of_ne _ _ (by omega), testBit_mergeByte inside low,
      Nat.testBit_shiftLeft, Nat.testBit_shiftLeft, Nat.testBit_two_pow_sub_one]
    rcases Nat.lt_or_ge r fb with before | covered
    · simp [show ¬ fb ≤ r by omega]
    · rcases Nat.lt_or_ge (r - fb) w with counted | after
      · simp [covered, counted, show 8 * m + r < 8 * m + fb + w by omega,
          show 8 * m + r - (8 * m + fb) = r - fb by omega]
      · simp [covered, high _ after, show ¬ r - fb < w by omega,
          show ¬ 8 * m + r < 8 * m + fb + w by omega]
  rcases eq_or_ne m (k + 1) with rfl | notSecond
  · -- the second byte, or the terminator
    rcases Nat.lt_or_ge (k + 1) bytes.length with second | terminator
    · rw [testBit_mergeByte (by simpa using second) low, byteAt_mergeByte_of_ne _ _ (by omega),
        Nat.testBit_shiftRight, Nat.testBit_shiftRight, Nat.testBit_two_pow_sub_one]
      rcases Nat.lt_or_ge (8 - fb + r) w with counted | after
      · simp [counted, show 8 * k + fb ≤ 8 * (k + 1) + r by omega,
          show 8 * (k + 1) + r < 8 * k + fb + w by omega,
          show 8 * (k + 1) + r - (8 * k + fb) = 8 - fb + r by omega]
      · simp [high _ after, show ¬ 8 - fb + r < w by omega,
          show ¬ 8 * (k + 1) + r < 8 * k + fb + w by omega]
    · rw [byteAt_of_ge (by simpa using terminator), byteAt_of_ge terminator,
        if_neg (by omega)]
  · rw [byteAt_mergeByte_of_ne _ _ notSecond, byteAt_mergeByte_of_ne _ _ notFirst,
      if_neg (by omega)]

/-- A counter reads what was written to it. -/
theorem packedGet_packedSet_self (positive : 0 < w) (small : w ≤ 8) (fits : v < 2 ^ w)
    (room : (i + 1) * w ≤ 8 * bytes.length)
    : packedGet w (packedSet w bytes i v) i = v := by
  refine Nat.eq_of_testBit_eq fun r => ?_
  rw [testBit_packedGet small, bitAt_packedSet positive small fits room]
  rcases Nat.lt_or_ge r w with counted | past
  · simp [counted]
  · have high : v.testBit r = false :=
      Nat.testBit_lt_two_pow (lt_of_lt_of_le fits (Nat.pow_le_pow_right (by omega) past))
    simp [high, show ¬ r < w by omega]

/-- The other counters stay. -/
theorem packedGet_packedSet_of_ne {j : Nat} (positive : 0 < w) (small : w ≤ 8) (fits : v < 2 ^ w)
    (room : (i + 1) * w ≤ 8 * bytes.length) (different : j ≠ i)
    : packedGet w (packedSet w bytes i v) j = packedGet w bytes j := by
  refine Nat.eq_of_testBit_eq fun r => ?_
  rw [testBit_packedGet small, testBit_packedGet small, bitAt_packedSet positive small fits room]
  rcases Nat.lt_or_ge r w with counted | past
  · rw [if_neg]
    rintro ⟨after, before⟩
    rcases Nat.lt_or_gt_of_ne different with less | greater
    · have := Nat.mul_le_mul_right w (show j + 1 ≤ i from less)
      rw [Nat.add_mul, Nat.one_mul] at this
      omega
    · have := Nat.mul_le_mul_right w (show i + 1 ≤ j from greater)
      rw [Nat.add_mul, Nat.one_mul] at this
      omega
  · simp [show ¬ r < w by omega]

end Bits

theorem foldl_range_places {σ α : Type} {write : σ → Nat → σ} {read : σ → Nat → α} {good : σ → Prop}
    {new : Nat → α → α} {count : Nat}
    (step : ∀ state i, i < count → good state → good (write state i)
      ∧ ∀ j, read (write state i) j = if j = i then new i (read state i) else read state j)
    {state : σ} (start : good state)
    : good ((List.range count).foldl write state)
      ∧ ∀ j, read ((List.range count).foldl write state) j
        = if j < count then new j (read state j) else read state j := by
  induction count with
  | zero => exact ⟨start, fun j => by simp⟩
  | succ count ih =>
      obtain ⟨kept, places⟩ := ih fun state i below => step state i (by omega)
      obtain ⟨after, last⟩ := step _ count (by omega) kept
      rw [List.range_succ, List.foldl_append]
      refine ⟨after, fun j => ?_⟩
      rw [List.foldl_cons, List.foldl_nil, last, places, places]
      rcases lt_trichotomy j count with less | rfl | greater
      · simp [less, show j ≠ count by omega, show j < count + 1 by omega]
      · simp
      · simp [show ¬ j < count by omega, show j ≠ count by omega, show ¬ j < count + 1 by omega]

end Redis.Library
