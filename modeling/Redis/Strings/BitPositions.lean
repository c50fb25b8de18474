import Redis.Strings.BitOperations
import Mathlib.Data.Nat.Bitwise
import Mathlib.Order.Bounds.Basic

/-! The first bit of a string that is set, or clear: bytes and words that have no such bit are
skipped, and the word behind them is scanned.
-/

namespace Redis.Strings

open Redis.Library
open Redis.Keyspace (Sds)

-- The search

/-- `skipval` of the bytes: all the bits of it are other bits. -/
def skipByte (bit : Bool) : UInt8 := if bit then 0 else 255

/-- `skipval` of the words. -/
def skipWord (bit : Bool) : Nat := if bit then 0 else 2 ^ 64 - 1

/-- `Skip initial bits not aligned to sizeof(unsigned long) byte by byte.` The bytes are those that
are left at the address.
-/
def skipUnaligned (skipval : UInt8) (addr : Nat) : (rest : Sds) → (pos : Nat) → Sds × Nat
  | [], pos => ([], pos)
  | byte :: rest, pos =>
      if addr &&& (wordSize - 1) = 0 then (byte :: rest, pos)
      else if byte ≠ skipval then (byte :: rest, pos)
      else skipUnaligned skipval (addr + 1) rest (pos + 8)

/-- `Skip bits with full word step.` -/
def skipWords (skipval : Nat) (rest : Sds) (pos : Nat) : Sds × Nat :=
  if wordSize ≤ rest.length then
    if leValue (rest.take wordSize) ≠ skipval then (rest, pos)
    else skipWords skipval (rest.drop wordSize) (pos + wordSize * 8)
  else (rest, pos)
termination_by rest.length
decreasing_by
  rw [List.length_drop]
  unfold wordSize at *
  omega

/-- The loop that loads the word, with zeros on the right when fewer bytes are left. -/
def loadWord : (n word : Nat) → (rest : Sds) → Nat
  | 0, word, _ => word
  | n + 1, word, [] => loadWord n (word <<< 8 % 2 ^ 64) []
  | n + 1, word, byte :: rest => loadWord n (word <<< 8 % 2 ^ 64 ||| byte.toNat) rest

/-- `Last word left, scan bit by bit.` The panic is an assertion that fails. -/
def scanBits (word : Nat) (bit : Bool) (one pos : Nat) : Except Fault Nat :=
  if one = 0 then .error .assertion
  else if decide (one &&& word ≠ 0) = bit then .ok pos
  else scanBits word bit (one >>> 1) (pos + 1)
termination_by one
decreasing_by
  rw [Nat.shiftRight_one]
  omega

/-- `redisBitpos` of the bytes at an address. Their positions fit a `PORT_LONG`. -/
def redisBitpos (addr : Nat) (s : Sds) (bit : Bool) : Except Fault Int :=
  let (rest, pos) := skipUnaligned (skipByte bit) addr s 0
  let (rest, pos) := skipWords (skipWord bit) rest pos
  let word := loadWord wordSize 0 rest
  if bit = true ∧ word = 0 then .ok (-1)
  else
    let one := 2 ^ 64 - 1 - (2 ^ 64 - 1) >>> 1
    (fun pos : Nat => (pos : Int)) <$> scanBits word bit one pos

-- Bits of strings

/-- The bit at a position, from the most significant bit of the first byte on. A string has zeros
behind its end.
-/
def bitAt (s : Sds) (p : Nat) : Bool := (s.getD (p / 8) 0).toNat.testBit (7 - p % 8)

section Bits

variable {s rest : Sds} {bit : Bool} {k n p pos : Nat}

theorem getD_drop (s : Sds) (k i : Nat) : (s.drop k).getD i 0 = s.getD (k + i) 0 := by
  rw [List.getD_eq_getElem?_getD, List.getD_eq_getElem?_getD, List.getElem?_drop]

theorem bitAt_drop (s : Sds) (k p : Nat) : bitAt (s.drop k) p = bitAt s (8 * k + p) := by
  rw [bitAt, bitAt, getD_drop, Nat.mul_add_div (by decide), Nat.mul_add_mod]

theorem bitAt_behind (behind : 8 * s.length ≤ p) : bitAt s p = false := by
  rw [bitAt, List.getD_eq_getElem?_getD, List.getElem?_eq_none (by omega)]
  exact Nat.zero_testBit _

theorem testBit_skipByte (bit : Bool) {i : Nat} (small : i < 8)
    : (skipByte bit).toNat.testBit i = !bit := by
  cases bit with
  | false =>
      have ones : (skipByte false).toNat = 2 ^ 8 - 1 := rfl
      rw [ones, Nat.testBit_two_pow_sub_one]
      exact decide_eq_true small
  | true => exact Nat.zero_testBit _

theorem bitAt_skipped (skipped : s.getD (p / 8) 0 = skipByte bit) : bitAt s p = !bit := by
  rw [bitAt, skipped]
  exact testBit_skipByte bit (by omega)

theorem exists_bit {byte : UInt8} (other : byte ≠ skipByte bit)
    : ∃ i < 8, byte.toNat.testBit i = bit := by
  by_contra none
  push Not at none
  apply other
  refine UInt8.toNat.inj (Nat.eq_of_testBit_eq fun i => ?_)
  by_cases small : i < 8
  · rw [testBit_skipByte bit small]
    exact Bool.eq_not.mpr (none i small)
  · have high : ∀ byte : UInt8, byte.toNat.testBit i = false := fun byte =>
      Nat.testBit_lt_two_pow (byte.toNat_lt.trans_le (Nat.pow_le_pow_right (by decide) (by omega)))
    rw [high, high]

theorem exists_bitAt (other : s.getD k 0 ≠ skipByte bit) : ∃ p < 8 * (k + 1), bitAt s p = bit := by
  obtain ⟨i, small, found⟩ := exists_bit other
  refine ⟨8 * k + (7 - i), by omega, ?_⟩
  have byte : (8 * k + (7 - i)) / 8 = k := by omega
  have place : 7 - (8 * k + (7 - i)) % 8 = i := by omega
  rw [bitAt, byte, place, found]

end Bits

-- Stages

/-- What is left of a string when bytes without the bit were skipped. -/
def Skipped (s : Sds) (bit : Bool) (rest : Sds) (pos : Nat) : Prop :=
  ∃ k, rest = s.drop k ∧ pos = 8 * k ∧ ∀ i < k, s.getD i 0 = skipByte bit

section Stages

variable {s rest : Sds} {bit : Bool} {pos : Nat}

theorem Skipped.refl (s : Sds) (bit : Bool) : Skipped s bit s 0 :=
  ⟨0, rfl, rfl, fun _ impossible => absurd impossible (Nat.not_lt_zero _)⟩

theorem Skipped.bytes (skipped : Skipped s bit rest pos) {n : Nat}
    (more : ∀ i < n, rest.getD i 0 = skipByte bit)
    : Skipped s bit (rest.drop n) (pos + n * 8) := by
  obtain ⟨k, rfl, rfl, before⟩ := skipped
  refine ⟨k + n, by rw [List.drop_drop], by omega, fun i small => ?_⟩
  by_cases early : i < k
  · exact before i early
  · have byte := more (i - k) (by omega)
    rwa [getD_drop, Nat.add_sub_cancel' (Nat.le_of_not_lt early)] at byte

theorem Skipped.before (skipped : Skipped s bit rest pos) {p : Nat} (early : p < pos)
    : bitAt s p = !bit := by
  obtain ⟨k, rfl, rfl, before⟩ := skipped
  exact bitAt_skipped (before _ (by omega))

theorem Skipped.bitAt (skipped : Skipped s bit rest pos) (p : Nat)
    : bitAt s (pos + p) = bitAt rest p := by
  obtain ⟨k, rfl, rfl, -⟩ := skipped
  rw [bitAt_drop]

theorem skipUnaligned_skipped (addr : Nat) (skipped : Skipped s bit rest pos)
    : Skipped s bit (skipUnaligned (skipByte bit) addr rest pos).1
        (skipUnaligned (skipByte bit) addr rest pos).2 := by
  induction rest generalizing addr pos with
  | nil => exact skipped
  | cons byte rest ih =>
      rw [skipUnaligned]
      split
      · exact skipped
      split
      · exact skipped
      · rename_i same
        refine ih (addr + 1) (skipped.bytes (n := 1) fun i small => ?_)
        obtain rfl : i = 0 := Nat.lt_one_iff.mp small
        exact not_not.mp same

theorem skipWord_eq (bit : Bool)
    : skipWord bit = leValue (List.replicate wordSize (skipByte bit)) := by
  cases bit <;> rfl

theorem skipWords_skipped (skipped : Skipped s bit rest pos)
    : ∃ last final, skipWords (skipWord bit) rest pos = (last, final) ∧ Skipped s bit last final
      ∧ (wordSize ≤ last.length → leValue (last.take wordSize) ≠ skipWord bit) := by
  induction rest, pos using skipWords.induct (skipWord bit) with
  | case1 rest pos long other =>
      refine ⟨rest, pos, ?_, skipped, fun _ => other⟩
      rw [skipWords, if_pos long, if_pos other]
  | case2 rest pos long same ih =>
      rw [skipWords, if_pos long, if_neg same]
      refine ih (skipped.bytes fun i small => ?_)
      have length : (rest.take wordSize).length
          = (List.replicate wordSize (skipByte bit)).length := by
        rw [List.length_take, List.length_replicate, Nat.min_eq_left long]
      have word := leValue_inj length ((not_not.mp same).trans (skipWord_eq bit))
      rw [List.getD_eq_getElem?_getD, ← List.getElem?_take_of_lt small, word,
        List.getElem?_replicate_of_lt small, Option.getD_some]
  | case3 rest pos short =>
      exact ⟨rest, pos, by rw [skipWords, if_neg short], skipped, fun long => absurd long short⟩

end Stages

section Word

variable {word n m : Nat} {rest : Sds} {bit : Bool}

theorem loadWord_succ (n word : Nat) (rest : Sds)
    : loadWord (n + 1) word rest
      = loadWord n (word <<< 8 % 2 ^ 64 ||| (rest.getD 0 0).toNat) (rest.drop 1) := by
  cases rest with
  | nil =>
      have padded : word <<< 8 % 2 ^ 64 ||| (([] : Sds).getD 0 0).toNat = word <<< 8 % 2 ^ 64 :=
        Nat.or_zero _
      rw [padded]
      rfl
  | cons byte rest => rfl

theorem testBit_loadWord (few : n ≤ 8) (small : word < 2 ^ (64 - 8 * n)) (i : Nat)
    : (loadWord n word rest).testBit i
      = if i < 8 * n then bitAt rest (8 * n - 1 - i) else word.testBit (i - 8 * n) := by
  induction n generalizing word rest with
  | zero => rfl
  | succ n ih =>
      have byte := (rest.getD 0 0).toNat_lt
      have shifted : word <<< 8 < 2 ^ (64 - 8 * n) := by
        have room : 64 - 8 * n = 64 - 8 * (n + 1) + 8 := by omega
        rw [Nat.shiftLeft_eq, room, Nat.pow_add]
        exact Nat.mul_lt_mul_of_pos_right small (by decide)
      have fits : word <<< 8 % 2 ^ 64 = word <<< 8 :=
        Nat.mod_eq_of_lt (shifted.trans_le (Nat.pow_le_pow_right (by decide) (by omega)))
      have next : word <<< 8 ||| (rest.getD 0 0).toNat < 2 ^ (64 - 8 * n) :=
        Nat.or_lt_two_pow shifted (byte.trans_le (Nat.pow_le_pow_right (by decide) (by omega)))
      rw [loadWord_succ, fits, ih (by omega) next]
      by_cases low : i < 8 * n
      · have place : 8 * 1 + (8 * n - 1 - i) = 8 * (n + 1) - 1 - i := by omega
        rw [if_pos low, if_pos (by omega), bitAt_drop, place]
      rw [if_neg low, Nat.testBit_or, Nat.testBit_shiftLeft]
      by_cases loaded : i < 8 * (n + 1)
      · have first : (8 * (n + 1) - 1 - i) / 8 = 0 := by omega
        have place : 7 - (8 * (n + 1) - 1 - i) % 8 = i - 8 * n := by omega
        rw [if_pos loaded, decide_eq_false (by omega), Bool.false_and, Bool.false_or, bitAt, first,
          place]
      · have high : (rest.getD 0 0).toNat.testBit (i - 8 * n) = false :=
          Nat.testBit_lt_two_pow (byte.trans_le (Nat.pow_le_pow_right (by decide) (by omega)))
        rw [if_neg loaded, decide_eq_true (by omega), Bool.true_and, high, Bool.or_false]
        congr 1

theorem testBit_lastWord (rest : Sds) (i : Nat)
    : (loadWord wordSize 0 rest).testBit i = if i < 64 then bitAt rest (63 - i) else false := by
  have load := @testBit_loadWord 0 wordSize rest (le_refl 8) Nat.one_pos i
  rwa [Nat.zero_testBit] at load

theorem decide_and_eq_testBit (m word : Nat) : decide (2 ^ m &&& word ≠ 0) = word.testBit m := by
  rw [Nat.two_pow_and]
  cases word.testBit m with
  | false => rw [Bool.toNat_false, Nat.mul_zero]; rfl
  | true =>
      exact decide_eq_true (by rw [Bool.toNat_true, Nat.mul_one]; exact (Nat.two_pow_pos m).ne')

theorem scanBits_ok (pos : Nat) (there : ∃ j ≤ m, word.testBit (m - j) = bit)
    : ∃ j ≤ m, scanBits word bit (2 ^ m) pos = .ok (pos + j) ∧ word.testBit (m - j) = bit
      ∧ ∀ k < j, word.testBit (m - k) = !bit := by
  have positive : ∀ m : Nat, 2 ^ m ≠ 0 := fun m => (Nat.two_pow_pos m).ne'
  induction m generalizing pos with
  | zero =>
      obtain ⟨j, small, found⟩ := there
      obtain rfl := Nat.le_zero.mp small
      refine ⟨0, small, ?_, found, fun k impossible => absurd impossible (Nat.not_lt_zero k)⟩
      rw [scanBits, if_neg (positive 0), decide_and_eq_testBit, if_pos found, Nat.add_zero]
  | succ m ih =>
      rw [scanBits, if_neg (positive _), decide_and_eq_testBit]
      by_cases now : word.testBit (m + 1) = bit
      · refine ⟨0, Nat.zero_le _, ?_, now, fun k impossible =>
          absurd impossible (Nat.not_lt_zero k)⟩
        rw [if_pos now, Nat.add_zero]
      · have half : 2 ^ (m + 1) >>> 1 = 2 ^ m := by
          rw [Nat.shiftRight_one, Nat.pow_succ, Nat.mul_div_cancel _ (by decide)]
        obtain ⟨j, small, found⟩ := there
        cases j with
        | zero => exact absurd found now
        | succ j =>
            rw [Nat.add_sub_add_right] at found
            obtain ⟨j, small, ran, found, before⟩ :=
              ih (pos + 1) ⟨j, Nat.le_of_succ_le_succ small, found⟩
            refine ⟨j + 1, Nat.succ_le_succ small, ?_, ?_, fun k early => ?_⟩
            · rw [if_neg now, half, ran, Nat.add_assoc, Nat.add_comm 1]
            · rwa [Nat.add_sub_add_right]
            · cases k with
              | zero => exact Bool.eq_not.mpr now
              | succ k =>
                  rw [Nat.add_sub_add_right]
                  exact before k (Nat.lt_of_succ_lt_succ early)

end Word

section First

variable {s rest : Sds} {bit : Bool} {pos : Nat}

theorem exists_in_word
    (other : wordSize ≤ rest.length → leValue (rest.take wordSize) ≠ skipWord bit)
    : (∃ p < 64, bitAt rest p = bit) ∨ bit = true ∧ ∀ p, bitAt rest p = false := by
  by_cases long : wordSize ≤ rest.length
  · refine Or.inl (not_forall_not.mp fun none => other long ?_)
    have same : rest.take wordSize = List.replicate wordSize (skipByte bit) := by
      refine List.ext_getElem? fun i => ?_
      by_cases small : i < wordSize
      · have byte : rest.getD i 0 = skipByte bit := by
          by_contra different
          obtain ⟨p, below, found⟩ := exists_bitAt different
          exact none p ⟨by unfold wordSize at small; omega, found⟩
        rw [List.getElem?_take_of_lt small, List.getElem?_replicate_of_lt small, ← byte,
          List.getD_eq_getElem?_getD, List.getElem?_eq_getElem (small.trans_le long),
            Option.getD_some]
      · rw [List.getElem?_take_eq_none (Nat.le_of_not_lt small), List.getElem?_replicate,
          if_neg small]
    rw [same, skipWord_eq]
  · have short : 8 * rest.length ≤ 63 := by
      unfold wordSize at long
      omega
    cases bit with
    | false => exact Or.inl ⟨63, by decide, bitAt_behind short⟩
    | true =>
        by_cases there : ∃ p < 64, bitAt rest p = true
        · exact Or.inl there
        · refine Or.inr ⟨rfl, fun p => ?_⟩
          by_cases small : p < 64
          · exact Bool.eq_false_iff.mpr fun found => there ⟨p, small, found⟩
          · exact bitAt_behind (by omega)

theorem redisBitpos_least (addr : Nat) (s : Sds) (bit : Bool)
    : (∃ p : Nat, redisBitpos addr s bit = .ok p ∧ IsLeast {p | bitAt s p = bit} p)
      ∨ bit = true ∧ redisBitpos addr s bit = .ok (-1) ∧ ∀ p, bitAt s p = false := by
  obtain ⟨rest, pos, words, skipped, other⟩ :=
    skipWords_skipped (skipUnaligned_skipped addr (Skipped.refl s bit))
  have run : redisBitpos addr s bit
      = if bit = true ∧ loadWord wordSize 0 rest = 0 then .ok (-1)
        else (fun pos : Nat => (pos : Int)) <$> scanBits (loadWord wordSize 0 rest) bit
          (2 ^ 63) pos := by
    rw [redisBitpos]
    dsimp only
    rw [words]
    rfl
  rw [run]
  have bits : ∀ p < 64, (loadWord wordSize 0 rest).testBit (63 - p) = bitAt rest p := by
    intro p small
    have place : 63 - (63 - p) = p := by omega
    rw [testBit_lastWord, if_pos (by omega), place]
  rcases exists_in_word other with ⟨p, small, found⟩ | ⟨rfl, clear⟩
  · left
    have nonzero : ¬(bit = true ∧ loadWord wordSize 0 rest = 0) := by
      rintro ⟨rfl, zero⟩
      rw [← bits p small, zero, Nat.zero_testBit] at found
      cases found
    obtain ⟨j, inside, ran, found, before⟩ :=
      scanBits_ok pos ⟨p, Nat.le_of_lt_succ small, (bits p small).trans found⟩
    rw [if_neg nonzero, ran]
    refine ⟨pos + j, rfl, ?_, fun p first => ?_⟩
    · show bitAt s (pos + j) = bit
      rw [skipped.bitAt, ← bits j (by omega), found]
    · by_contra early
      by_cases skip : p < pos
      · exact (Bool.eq_not_self bit).mp (first.symm.trans (skipped.before skip))
      · have passed := before (p - pos) (by omega)
        rw [bits _ (by omega), ← skipped.bitAt,
          Nat.add_sub_cancel' (Nat.le_of_not_lt skip)] at passed
        exact (Bool.eq_not_self bit).mp (first.symm.trans passed)
  · right
    have zero : loadWord wordSize 0 rest = 0 := by
      refine Nat.eq_of_testBit_eq fun i => ?_
      rw [testBit_lastWord, clear, ite_self, Nat.zero_testBit]
    refine ⟨rfl, if_pos ⟨rfl, zero⟩, fun p => ?_⟩
    by_cases skip : p < pos
    · exact skipped.before skip
    · rw [← Nat.add_sub_cancel' (Nat.le_of_not_lt skip), skipped.bitAt, clear]

/-- The search finds the first bit: a clear one always, at the end of the string when all of its
bits are set, and a set one unless there is none. It does not panic.
-/
theorem redisBitpos_first (addr : Nat) (s : Sds)
    : (∀ bit, (∃ p : Nat, redisBitpos addr s bit = .ok p ∧ IsLeast {p | bitAt s p = bit} p)
        ∨ bit = true ∧ redisBitpos addr s bit = .ok (-1))
      ∧ (redisBitpos addr s true = .ok (-1) ↔ ∀ p, bitAt s p = false)
      ∧ ((∀ p < 8 * s.length, bitAt s p = true)
        → redisBitpos addr s false = .ok (8 * s.length : Nat)) := by
  refine ⟨fun bit => ?_, ⟨fun absent => ?_, fun clear => ?_⟩, fun ones => ?_⟩
  · rcases redisBitpos_least addr s bit with found | ⟨one, absent, -⟩
    · exact Or.inl found
    · exact Or.inr ⟨one, absent⟩
  · rcases redisBitpos_least addr s true with ⟨p, found, -⟩ | ⟨-, -, clear⟩
    · rw [found] at absent
      cases absent
    · exact clear
  · rcases redisBitpos_least addr s true with ⟨p, -, least, -⟩ | ⟨-, absent, -⟩
    · exact absurd (least.symm.trans (clear p)) Bool.true_eq_false_eq_False
    · exact absent
  · rcases redisBitpos_least addr s false with ⟨p, found, least⟩ | ⟨impossible, -⟩
    · have ends : IsLeast {p | bitAt s p = false} (8 * s.length) := by
        refine ⟨bitAt_behind (le_refl _), fun p clear => ?_⟩
        by_contra early
        exact absurd ((ones p (Nat.lt_of_not_le early)).symm.trans clear)
          Bool.true_eq_false_eq_False
      rw [found, least.unique ends]
    · cases impossible

end First

end Redis.Strings
