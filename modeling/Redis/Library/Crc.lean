import Mathlib

/-! Cyclic redundancy checks, the highest bit first: bit by bit, and byte by byte with a table. -/

namespace Redis.Library

variable {w : Nat} {poly x y : BitVec w}

/-- One step of the division by the polynomial `x ^ w + poly`. -/
def crcBit (poly crc : BitVec w) : BitVec w :=
  if crc.msb then (crc <<< 1) ^^^ poly else crc <<< 1

/-- A byte enters at the top of the register, and its bits are divided. -/
def crcByte (poly crc : BitVec w) (byte : UInt8) : BitVec w :=
  (crcBit poly)^[8] (crc ^^^ byte.toBitVec.setWidth w <<< (w - 8))

/-- The check value of some bytes, when the register starts with 0. -/
def crc (poly : BitVec w) (bytes : List UInt8) : BitVec w := bytes.foldl (crcByte poly) 0

theorem crcBit_xor : crcBit poly (x ^^^ y) = crcBit poly x ^^^ crcBit poly y := by
  unfold crcBit
  rw [BitVec.msb_xor, BitVec.shiftLeft_xor_distrib]
  cases x.msb <;> cases y.msb <;> simp [BitVec.xor_assoc, BitVec.xor_comm poly]

theorem crcBits_xor (n : Nat)
    : (crcBit poly)^[n] (x ^^^ y) = (crcBit poly)^[n] x ^^^ (crcBit poly)^[n] y := by
  induction n generalizing x y with
  | zero => rfl
  | succ n ih => simp only [Function.iterate_succ_apply, crcBit_xor, ih]

/-- Bits that do not reach the top are moved. -/
theorem crcBits_low (n : Nat) (low : ∀ i < n, x.getMsbD i = false)
    : (crcBit poly)^[n] x = x <<< n := by
  induction n generalizing x with
  | zero => simp
  | succ n ih =>
      have top : x.msb = false := low 0 (Nat.zero_lt_succ n)
      rw [Function.iterate_succ_apply, crcBit, if_neg (by simp [top]), ih, Nat.add_comm,
        BitVec.shiftLeft_add]
      intro i inside
      rw [BitVec.getMsbD_shiftLeft]
      exact low (i + 1) (by omega)

/-- With the check values of the bytes in a table, a byte takes one step. -/
theorem crcByte_table {table : UInt8 → BitVec w}
    (values : ∀ i, table i = (crcBit poly)^[8] (i.toBitVec.setWidth w <<< (w - 8))) (wide : 8 ≤ w)
    (byte : UInt8)
    : crcByte poly x byte = (x <<< 8) ^^^ table
      (.ofBitVec ((x >>> (w - 8)).setWidth 8) ^^^ byte) := by
  have parts : x ^^^ byte.toBitVec.setWidth w <<< (w - 8)
      = (x <<< 8 >>> 8)
        ^^^ (UInt8.ofBitVec ((x >>> (w - 8)).setWidth 8) ^^^ byte).toBitVec.setWidth w <<<
          (w - 8) := by
    ext i inside
    by_cases low : i < w - 8
    · simp [low, show 8 + i < w by omega]
    · have place : w - 8 + (i - (w - 8)) = i := by omega
      simp [low, place, BitVec.getLsbD_eq_getElem inside, show ¬8 + i < w by omega,
        show i - (w - 8) < 8 by omega]
  rw [crcByte, parts, crcBits_xor, ← values, crcBits_low]
  · congr 1
    ext i inside
    by_cases low : i < 8
    · simp [low]
    · simp [low, show 8 + (i - 8) < w by omega]
  · intro i small
    simp [small.not_ge]

end Redis.Library
