import Mathlib.Data.Nat.Bitwise
import Mathlib.Tactic

/-! Numbers whose digits are lanes of a fixed width: one operation on the number is one on every
lane, as long as no lane runs over.
-/

namespace Redis.Library

/-- The number with these lanes of `w` bits, the least significant first. -/
def laneValue (w : Nat) : List Nat → Nat
  | [] => 0
  | lane :: lanes => lane + 2 ^ w * laneValue w lanes

section Lanes

variable {w k mask : Nat} {lanes other : List Nat}

theorem laneValue_lt (fits : ∀ lane ∈ lanes, lane < 2 ^ w)
    : laneValue w lanes < 2 ^ (w * lanes.length) := by
  induction lanes with
  | nil => exact Nat.one_pos
  | cons a lanes ih =>
      have rest : laneValue w lanes + 1 ≤ 2 ^ (w * lanes.length) :=
        ih fun lane member => fits lane (List.mem_cons_of_mem a member)
      calc a + 2 ^ w * laneValue w lanes
          < 2 ^ w + 2 ^ w * laneValue w lanes := Nat.add_lt_add_right (fits a List.mem_cons_self) _
        _ = 2 ^ w * (laneValue w lanes + 1) := by ring
        _ ≤ 2 ^ w * 2 ^ (w * lanes.length) := Nat.mul_le_mul_left _ rest
        _ = 2 ^ (w * (a :: lanes).length) := by rw [← Nat.pow_add, List.length_cons]; ring_nf

theorem laneValue_add (same : lanes.length = other.length)
    : laneValue w lanes + laneValue w other = laneValue w (List.zipWith (· + ·) lanes other) := by
  induction lanes generalizing other with
  | nil =>
      cases other with
      | nil => rfl
      | cons b other => cases same
  | cons a lanes ih =>
      cases other with
      | nil => cases same
      | cons b other =>
          have rest := ih (Nat.succ.inj same)
          rw [List.zipWith_cons_cons, laneValue, laneValue, laneValue, ← rest]
          ring

theorem laneValue_map_add (f g : Nat → Nat)
    : laneValue w (lanes.map f) + laneValue w (lanes.map g)
      = laneValue w (lanes.map fun lane => f lane + g lane) := by
  rw [laneValue_add (by rw [List.length_map, List.length_map]), List.zipWith_map, List.zipWith_self]

theorem laneValue_sub {f : Nat → Nat} (below : ∀ lane ∈ lanes, f lane ≤ lane)
    : laneValue w lanes - laneValue w (lanes.map f)
      = laneValue w (lanes.map fun lane => lane - f lane)
      ∧ laneValue w (lanes.map f) ≤ laneValue w lanes := by
  induction lanes with
  | nil => exact ⟨rfl, le_refl _⟩
  | cons a lanes ih =>
      obtain ⟨rest, less⟩ := ih fun lane member => below lane (List.mem_cons_of_mem a member)
      have here := below a List.mem_cons_self
      have more : 2 ^ w * laneValue w (lanes.map f) ≤ 2 ^ w * laneValue w lanes :=
        Nat.mul_le_mul_left _ less
      simp only [List.map_cons, laneValue]
      rw [← rest, Nat.mul_sub]
      omega

theorem laneValue_mod (inside : k ≤ w) (a : Nat) (rest : List Nat)
    : laneValue w (a :: rest) % 2 ^ k = a % 2 ^ k := by
  have width : 2 ^ w = 2 ^ k * 2 ^ (w - k) := by rw [← Nat.pow_add, Nat.add_sub_cancel' inside]
  rw [laneValue, width, Nat.mul_assoc, Nat.add_mul_mod_self_left]

theorem and_mask_cons {low high : Nat} (small : low < 2 ^ w) (maskSmall : mask < 2 ^ w) (n : Nat)
    : (low + 2 ^ w * high) &&& laneValue w (List.replicate (n + 1) mask)
      = (low &&& mask) + 2 ^ w * (high &&& laneValue w (List.replicate n mask)) := by
  have both : low &&& mask < 2 ^ w := Nat.and_lt_two_pow low maskSmall
  refine Nat.eq_of_testBit_eq fun i => ?_
  rw [List.replicate_succ, laneValue, Nat.testBit_and, Nat.add_comm low, Nat.add_comm mask,
    Nat.add_comm (low &&& mask), Nat.testBit_two_pow_mul_add _ small,
    Nat.testBit_two_pow_mul_add _ maskSmall, Nat.testBit_two_pow_mul_add _ both]
  split
  · rw [Nat.testBit_and]
  · rw [Nat.testBit_and]

theorem and_mask_eq {a b : Nat} (same : a % 2 ^ k = b % 2 ^ k) (maskSmall : mask < 2 ^ k)
    : a &&& mask = b &&& mask := by
  refine Nat.eq_of_testBit_eq fun i => ?_
  rw [Nat.testBit_and, Nat.testBit_and]
  by_cases low : i < k
  · have bits := congrArg (Nat.testBit · i) same
    simp only [Nat.testBit_mod_two_pow, low, decide_true, Bool.true_and] at bits
    rw [bits]
  · have clear : mask.testBit i = false :=
      Nat.testBit_lt_two_pow
        (maskSmall.trans_le (Nat.pow_le_pow_right (by decide) (Nat.le_of_not_lt low)))
    rw [clear, Bool.and_false, Bool.and_false]

theorem shiftRight_cons (inside : k ≤ w) (a high : Nat)
    : (a + 2 ^ w * high) >>> k = a >>> k + 2 ^ (w - k) * (high % 2 ^ k) + 2 ^ w * (high >>> k) := by
  have width : 2 ^ w = 2 ^ k * 2 ^ (w - k) := by rw [← Nat.pow_add, Nat.add_sub_cancel' inside]
  have split : 2 ^ (w - k) * high
      = 2 ^ (w - k) * (high % 2 ^ k) + 2 ^ k * 2 ^ (w - k) * (high / 2 ^ k) := by
    calc 2 ^ (w - k) * high
        = 2 ^ (w - k) * (high % 2 ^ k + 2 ^ k * (high / 2 ^ k)) := by rw [Nat.mod_add_div]
      _ = _ := by ring
  rw [Nat.shiftRight_eq_div_pow, Nat.shiftRight_eq_div_pow, Nat.shiftRight_eq_div_pow, width,
    Nat.mul_assoc, Nat.add_mul_div_left _ _ (Nat.two_pow_pos k), split, Nat.add_assoc,
      Nat.mul_assoc]

theorem laneValue_shift_mask (inside : k ≤ w) (maskSmall : mask < 2 ^ (w - k))
    (fits : ∀ lane ∈ lanes, lane < 2 ^ w)
    : laneValue w lanes >>> k &&& laneValue w (List.replicate lanes.length mask)
      = laneValue w (lanes.map fun lane => lane >>> k &&& mask) := by
  induction lanes with
  | nil => exact Nat.and_zero _
  | cons a lanes ih =>
      have rest := ih fun lane member => fits lane (List.mem_cons_of_mem a member)
      have width : 2 ^ w = 2 ^ k * 2 ^ (w - k) := by rw [← Nat.pow_add, Nat.add_sub_cancel' inside]
      have shifted : a >>> k < 2 ^ (w - k) := by
        rw [Nat.shiftRight_eq_div_pow]
        exact Nat.div_lt_of_lt_mul (width ▸ fits a List.mem_cons_self)
      have moved : laneValue w lanes % 2 ^ k + 1 ≤ 2 ^ k := Nat.mod_lt _ (Nat.two_pow_pos k)
      have low : a >>> k + 2 ^ (w - k) * (laneValue w lanes % 2 ^ k) < 2 ^ w := by
        calc a >>> k + 2 ^ (w - k) * (laneValue w lanes % 2 ^ k)
            < 2 ^ (w - k) + 2 ^ (w - k) * (laneValue w lanes % 2 ^ k) :=
              Nat.add_lt_add_right shifted _
          _ = 2 ^ (w - k) * (laneValue w lanes % 2 ^ k + 1) := by ring
          _ ≤ 2 ^ (w - k) * 2 ^ k := Nat.mul_le_mul_left _ moved
          _ = 2 ^ w := by rw [width, Nat.mul_comm]
      have maskFits : mask < 2 ^ w :=
        maskSmall.trans_le (Nat.pow_le_pow_right (by decide) (Nat.sub_le _ _))
      rw [List.map_cons, List.length_cons, laneValue, shiftRight_cons inside,
        and_mask_cons low maskFits, rest, laneValue,
        and_mask_eq (Nat.add_mul_mod_self_left (a >>> k) _ _) maskSmall]

/-- Adding the shifted number adds in every lane. -/
theorem laneValue_fold_mask (inside : k ≤ w) (maskSmall : mask < 2 ^ (w - k))
    (fits : ∀ lane ∈ lanes, ∀ above < 2 ^ k, (above = 0 ∨ ∃ other ∈ lanes, above = other % 2 ^ k)
      → lane + (lane >>> k + 2 ^ (w - k) * above) < 2 ^ w)
    : (laneValue w lanes + laneValue w lanes >>> k)
        &&& laneValue w (List.replicate lanes.length mask)
      = laneValue w (lanes.map fun lane => (lane + lane >>> k) &&& mask) := by
  induction lanes with
  | nil => exact Nat.and_zero _
  | cons a lanes ih =>
      have rest := ih fun lane member above small low =>
        fits lane (List.mem_cons_of_mem a member) above small
          (low.imp_right fun ⟨other, there, is⟩ => ⟨other, List.mem_cons_of_mem a there, is⟩)
      have above : laneValue w lanes % 2 ^ k = 0
          ∨ ∃ other ∈ a :: lanes, laneValue w lanes % 2 ^ k = other % 2 ^ k := by
        cases lanes with
        | nil => exact Or.inl (Nat.zero_mod _)
        | cons b lanes =>
            exact Or.inr ⟨b, List.mem_cons_of_mem a List.mem_cons_self,
              laneValue_mod inside b lanes⟩
      have low := fits a List.mem_cons_self _ (Nat.mod_lt _ (Nat.two_pow_pos k)) above
      have maskFits : mask < 2 ^ w :=
        maskSmall.trans_le (Nat.pow_le_pow_right (by decide) (Nat.sub_le _ _))
      have split : a + 2 ^ w * laneValue w lanes + (a + 2 ^ w * laneValue w lanes) >>> k
          = a + (a >>> k + 2 ^ (w - k) * (laneValue w lanes % 2 ^ k))
            + 2 ^ w * (laneValue w lanes + laneValue w lanes >>> k) := by
        rw [shiftRight_cons inside]
        ring
      rw [List.map_cons, List.length_cons, laneValue, split, and_mask_cons low maskFits, rest,
        laneValue, ← Nat.add_assoc,
          and_mask_eq (Nat.add_mul_mod_self_left (a + a >>> k) _ _) maskSmall]

end Lanes

end Redis.Library
