import Mathlib.Data.List.Lex
import Mathlib.Tactic

/-! Byte strings in the order of their bytes, as unsigned numbers. -/

namespace Redis.Library

instance byteOrder : LinearOrder UInt8 where
  le_refl := UInt8.le_refl
  le_trans _ _ _ := UInt8.le_trans
  lt_iff_le_not_ge x y := by
    rw [UInt8.lt_iff_toNat_lt, UInt8.le_iff_toNat_le, UInt8.le_iff_toNat_le]
    omega
  le_antisymm _ _ := UInt8.le_antisymm
  le_total := UInt8.le_total
  toDecidableLE := inferInstance

/-- `memcmp` of two blocks of one size: the difference of the first bytes that differ. -/
def memcmp : List UInt8 → List UInt8 → Int
  | x :: xs, y :: ys => if x = y then memcmp xs ys else (x.toNat : Int) - y.toNat
  | _, _ => 0

/-- The comparison of the common part, and of the lengths when that is equal. -/
def compareBytes (a b : List UInt8) : Int :=
  let minlen := min a.length b.length
  let cmp := memcmp (a.take minlen) (b.take minlen)
  if cmp = 0 then (a.length : Int) - b.length else cmp

section Comparison

variable {x y : UInt8} {a b : List UInt8}

theorem toNat_sub_ne_zero (differ : x ≠ y) : (x.toNat : Int) - y.toNat ≠ 0 := by
  intro zero
  exact differ (UInt8.toNat_inj.mp (by omega))

theorem compareBytes_cons (x y : UInt8) (a b : List UInt8)
    : compareBytes (x :: a) (y :: b)
      = if x = y then compareBytes a b else (x.toNat : Int) - y.toNat := by
  have least : min (x :: a).length (y :: b).length = min a.length b.length + 1 := by
    simp only [List.length_cons]
    omega
  simp only [compareBytes, least, List.take_succ_cons, memcmp]
  split
  · simp only [List.length_cons]
    push_cast
    split
    · omega
    · rfl
  · rename_i differ
    rw [if_neg (toNat_sub_ne_zero differ)]

/-- The order of the bytes is the lexicographic one. -/
theorem compareBytes_lt (a b : List UInt8) : compareBytes a b < 0 ↔ a < b := by
  induction a generalizing b with
  | nil =>
      cases b with
      | nil => simp [compareBytes, memcmp]
      | cons y b =>
          simp [compareBytes, memcmp]
          omega
  | cons x a ih =>
      cases b with
      | nil =>
          simp [compareBytes, memcmp]
          omega
      | cons y b =>
          rw [compareBytes_cons, List.cons_lt_cons_iff]
          split
          · rename_i same
            subst same
            rw [ih]
            simp
          · rename_i differ
            have bytes : (x.toNat : Int) - y.toNat < 0 ↔ x < y := by
              rw [UInt8.lt_iff_toNat_lt]
              omega
            rw [bytes]
            simp [differ]

theorem compareBytes_eq (a b : List UInt8) : compareBytes a b = 0 ↔ a = b := by
  induction a generalizing b with
  | nil =>
      cases b with
      | nil => simp [compareBytes, memcmp]
      | cons y b =>
          simp [compareBytes, memcmp]
          omega
  | cons x a ih =>
      cases b with
      | nil =>
          simp [compareBytes, memcmp]
          omega
      | cons y b =>
          rw [compareBytes_cons, List.cons.injEq]
          split
          · rename_i same
            rw [ih]
            simp [same]
          · rename_i differ
            simp [toNat_sub_ne_zero differ, differ]

theorem compareBytes_gt (a b : List UInt8) : 0 < compareBytes a b ↔ b < a := by
  have less := compareBytes_lt a b
  have equal := compareBytes_eq a b
  rcases lt_trichotomy a b with before | same | after
  · exact iff_of_false (by have := less.mpr before; omega) (lt_asymm before)
  · exact iff_of_false (by have := equal.mpr same; omega) (by simp [same])
  · have notLess : ¬ compareBytes a b < 0 := fun below => lt_asymm after (less.mp below)
    have notEqual : compareBytes a b ≠ 0 := fun zero => (ne_of_gt after) (equal.mp zero)
    exact iff_of_true (by omega) after

end Comparison

end Redis.Library
