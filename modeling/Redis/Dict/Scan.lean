import Redis.Dict.Runs
import Redis.Library.BitReversal

/-! The stateless iteration of `dictScan` and the buckets one call visits. -/

namespace Redis

open Redis.Library

variable {K V : Type}

-- Model of rev and dictScan

/-- The loop of `rev`, which halves `s` in each round. -/
def revLoop : (rounds s : Nat) → (mask v : BitVec 64) → BitVec 64
  | 0, _, _, v => v
  | rounds + 1, s, mask, v =>
      let s := s >>> 1
      if s > 0 then
        let mask := mask ^^^ (mask <<< s)
        revLoop rounds s mask (((v >>> s) &&& mask) ||| ((v <<< s) &&& ~~~mask))
      else v

/-- `rev`: a 64-bit word takes six halvings of its width. -/
def rev (v : BitVec 64) : BitVec 64 := revLoop 7 64 (BitVec.allOnes 64) v

def Dictht.mask (ht : Dictht K V) : BitVec 64 := BitVec.ofNat 64 ht.sizemask

/-- The increment of the bits not covered by the smaller mask. -/
def nextExpansion (v m0 : BitVec 64) : BitVec 64 := (((v ||| m0) + 1) &&& ~~~m0) ||| (v &&& m0)

/-- The `do ... while` loop over the expansions of the cursor in the larger table. -/
def scanExpansions (t1 : Dictht K V) (m0 : BitVec 64)
    : (rounds : Nat) → (v : BitVec 64) → Except Fault (BitVec 64 × List (DictEntry K V))
  | 0, _ => .error .diverged
  | rounds + 1, v => do
      let chain ← t1.bucket (v &&& t1.mask).toNat
      let v := nextExpansion v m0
      if v &&& (m0 ^^^ t1.mask) = 0 then pure (v, chain)
      else do
        let (v, rest) ← scanExpansions t1 m0 rounds v
        pure (v, chain ++ rest)

/-- The closing increment of the reversed cursor, on the bits of the smaller mask. -/
def nextCursor (v m0 : BitVec 64) : BitVec 64 := rev (rev (v ||| ~~~m0) + 1)

/-- The smaller table of a rehash and the larger one. -/
def Dict.scanTables (d : Dict K V) : Dictht K V × Dictht K V :=
  if d.ht0.size > d.ht1.size then (d.ht1, d.ht0) else (d.ht0, d.ht1)

/-- `dictScan`: the next cursor and the entries passed to the callback, in order. -/
def dictScan (d : Dict K V) (v : BitVec 64)
    : Except Fault (BitVec 64 × List (DictEntry K V)) :=
  if d.size = 0 then .ok (0, [])
  else if !d.isRehashing then do
    let chain ← d.ht0.bucket (v &&& d.ht0.mask).toNat
    pure (nextCursor v d.ht0.mask, chain)
  else do
    let (t0, t1) := d.scanTables
    let chain ← t0.bucket (v &&& t0.mask).toNat
    let (v, rest) ← scanExpansions t1 t0.mask t1.size v
    pure (nextCursor v t0.mask, chain ++ rest)

-- rev reverses the bits

theorem swapBlocks_getLsbD {s : Nat} {mask : BitVec 64}
    (places
      : ∀ i : Fin 64,
          if mask.getLsbD i then s + i = i.val ^^^ s else s ≤ i ∧ i.val - s = i.val ^^^ s)
    (v : BitVec 64) {i : Nat} (bound : i < 64)
    : (((v >>> s) &&& mask) ||| ((v <<< s) &&& ~~~mask)).getLsbD i = v.getLsbD (i ^^^ s) := by
  have place := places ⟨i, bound⟩
  simp only [BitVec.getLsbD_or, BitVec.getLsbD_and, BitVec.getLsbD_ushiftRight,
    BitVec.getLsbD_shiftLeft, BitVec.getLsbD_not, bound, decide_true, Bool.true_and]
  cases set : mask.getLsbD i with
  | true =>
      simp only [set, if_true] at place
      simp [place]
  | false =>
      simp only [set, Bool.false_eq_true, if_false] at place
      simp [place.2, Nat.not_lt.mpr place.1]

/-- `rev` reverses the bits of a word. -/
theorem rev_eq_reverse (v : BitVec 64) : rev v = v.reverse := by
  have rounds
      : rev v = revLoop 7 64 (BitVec.allOnes 64) v := rfl
  simp only [revLoop, Nat.reduceShiftRight, gt_iff_lt, Nat.reduceLT, if_true,
    Nat.lt_irrefl, if_false, BitVec.reduceAllOnes] at rounds
  rw [rounds]
  refine BitVec.eq_of_getLsbD_eq (fun i bound => ?_)
  have lower {j s : Nat} (small : j < 64) (width : s < 64) : j ^^^ s < 64 :=
    Nat.xor_lt_two_pow (n := 6) small width
  rw [swapBlocks_getLsbD (s := 1) (by decide) _ bound,
    swapBlocks_getLsbD (s := 2) (by decide) _ (lower bound (by decide)),
    swapBlocks_getLsbD (s := 4) (by decide) _ (lower (lower bound (by decide)) (by decide)),
    swapBlocks_getLsbD (s := 8) (by decide) _
      (lower (lower (lower bound (by decide)) (by decide)) (by decide)),
    swapBlocks_getLsbD (s := 16) (by decide) _
      (lower (lower (lower (lower bound (by decide)) (by decide)) (by decide)) (by decide)),
    swapBlocks_getLsbD (s := 32) (by decide) _
      (lower (lower (lower (lower (lower bound (by decide)) (by decide)) (by decide))
        (by decide)) (by decide))]
  have place : ∀ j : Fin 64, j.val ^^^ 1 ^^^ 2 ^^^ 4 ^^^ 8 ^^^ 16 ^^^ 32 = 63 - j.val := by decide
  rw [BitVec.getLsbD_reverse, BitVec.getMsbD, place ⟨i, bound⟩]
  simp [bound]

end Redis
