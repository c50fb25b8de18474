import Redis.Library.Lanes
import Redis.Strings.BitPositions

/-! The number of set bits of a string: bytes are looked up in a table, and 28 bytes at a time are
counted in the lanes of seven words.
-/

namespace Redis.Strings

open Redis.Library
open Redis.Keyspace (Sds Db Value wrongType)

-- The count

def bitsinbyte : List Nat :=
  [0, 1, 1, 2, 1, 2, 2, 3, 1, 2, 2, 3, 2, 3, 3, 4, 1, 2, 2, 3, 2, 3, 3, 4, 2, 3, 3, 4, 3, 4, 4, 5,
    1, 2, 2, 3, 2, 3, 3, 4, 2, 3, 3, 4, 3, 4, 4, 5, 2, 3, 3, 4, 3, 4, 4, 5, 3, 4, 4, 5, 4, 5, 5, 6,
    1, 2, 2, 3, 2, 3, 3, 4, 2, 3, 3, 4, 3, 4, 4, 5, 2, 3, 3, 4, 3, 4, 4, 5, 3, 4, 4, 5, 4, 5, 5, 6,
    2, 3, 3, 4, 3, 4, 4, 5, 3, 4, 4, 5, 4, 5, 5, 6, 3, 4, 4, 5, 4, 5, 5, 6, 4, 5, 5, 6, 5, 6, 6, 7,
    1, 2, 2, 3, 2, 3, 3, 4, 2, 3, 3, 4, 3, 4, 4, 5, 2, 3, 3, 4, 3, 4, 4, 5, 3, 4, 4, 5, 4, 5, 5, 6,
    2, 3, 3, 4, 3, 4, 4, 5, 3, 4, 4, 5, 4, 5, 5, 6, 3, 4, 4, 5, 4, 5, 5, 6, 4, 5, 5, 6, 5, 6, 6, 7,
    2, 3, 3, 4, 3, 4, 4, 5, 3, 4, 4, 5, 4, 5, 5, 6, 3, 4, 4, 5, 4, 5, 5, 6, 4, 5, 5, 6, 5, 6, 6, 7,
    3, 4, 4, 5, 4, 5, 5, 6, 4, 5, 5, 6, 5, 6, 6, 7, 4, 5, 5, 6, 5, 6, 6, 7, 5, 6, 6, 7, 6, 7, 7, 8]

/-- `bitsinbyte[byte]`. -/
def byteBits (byte : UInt8) : Nat := bitsinbyte.getD byte.toNat 0

/-- `Count initial bytes not aligned to 32 bit.` The bytes are those that are left at the address.
-/
def countUnaligned (addr : Nat) : (rest : Sds) → (bits : Nat) → Sds × Nat
  | [], bits => ([], bits)
  | byte :: rest, bits =>
      if addr &&& 3 = 0 then (byte :: rest, bits)
      else countUnaligned (addr + 1) rest (bits + byteBits byte)

/-- The first line of a word, `aux1` to `aux7`: its bits are added in pairs. -/
def addPairs (aux : UInt32) : UInt32 := aux - (aux >>> 1 &&& 0x55555555)

/-- The second line: the pairs are added. -/
def addFours (aux : UInt32) : UInt32 :=
  (aux &&& (0x33333333 : UInt32)) + (aux >>> 2 &&& 0x33333333)

/-- A term of the sum of the seven words. -/
def addBytes (aux : UInt32) : UInt32 := (aux + aux >>> 4) &&& 0x0F0F0F0F

/-- `*p4++`, at the word with this index. -/
def wordAt (rest : Sds) (i : Nat) : UInt32 := UInt32.ofNat (leValue ((rest.drop (4 * i)).take 4))

/-- What a step over 28 bytes adds. -/
def countStep (rest : Sds) : UInt32 :=
  let term i := addBytes (addFours (addPairs (wordAt rest i)))
  ((term 0 + term 1 + term 2 + term 3 + term 4 + term 5 + term 6) * 0x01010101) >>> 24

/-- `Count bits 28 bytes at a time` -/
def countWords (rest : Sds) (bits : Nat) : Sds × Nat :=
  if 28 ≤ rest.length then countWords (rest.drop 28) (bits + (countStep rest).toNat)
  else (rest, bits)
termination_by rest.length
decreasing_by
  rw [List.length_drop]
  omega

/-- `redisPopcount` of the bytes at an address. -/
def redisPopcount (addr : Nat) (s : Sds) : Nat :=
  let (rest, bits) := countUnaligned addr s 0
  let (rest, bits) := countWords rest bits
  rest.foldl (fun bits byte => bits + byteBits byte) bits

-- Bytes

/-- The lanes of a word after its first line. -/
def pairs (a : Nat) : Nat := a - (a >>> 1 &&& 0x55)

/-- The lanes of a word after its second line. -/
def fours (a : Nat) : Nat := (pairs a &&& 0x33) + (pairs a >>> 2 &&& 0x33)

/-- What the lines make of a lane: no lane runs over into another, and in the end it is the count.
-/
structure LaneCounts (a : Nat) : Prop where
  pairsBelow : a >>> 1 &&& 0x55 ≤ a
  foursLow : fours a % 16 ≤ 4
  foursHigh : fours a ≤ 0x44
  count : (fours a + fours a >>> 4) &&& 0x0F = bitsinbyte.getD a 0
  bits : (List.range 8).countP (fun i => a.testBit (7 - i)) = bitsinbyte.getD a 0
  small : bitsinbyte.getD a 0 ≤ 8

theorem laneCounts {a : Nat} (fits : a < 256) : LaneCounts a := by
  have all : ∀ b : Fin 256, b.val >>> 1 &&& 0x55 ≤ b.val ∧ fours b % 16 ≤ 4 ∧ fours b ≤ 0x44
      ∧ (fours b + fours b >>> 4) &&& 0x0F = bitsinbyte.getD b 0
      ∧ (List.range 8).countP (fun i => b.val.testBit (7 - i)) = bitsinbyte.getD b 0
      ∧ bitsinbyte.getD b 0 ≤ 8 := by
    decide +kernel
  obtain ⟨pairsBelow, foursLow, foursHigh, count, bits, small⟩ := all ⟨a, fits⟩
  exact ⟨pairsBelow, foursLow, foursHigh, count, bits, small⟩

section Words

variable {aux : UInt32} {lanes : List Nat}

theorem leValue_eq_laneValue (bytes : List UInt8)
    : leValue bytes = laneValue 8 (bytes.map (·.toNat)) := by
  induction bytes with
  | nil => rfl
  | cons byte bytes ih =>
      rw [leValue, ih]
      rfl

theorem exists_four {α : Type} {xs : List α} (four : xs.length = 4)
    : ∃ a b c d, xs = [a, b, c, d] := by
  match xs, four with
  | [a, b, c, d], _ => exact ⟨a, b, c, d, rfl⟩

theorem laneValue_four (a b c d : Nat)
    : laneValue 8 [a, b, c, d] = a + 256 * (b + 256 * (c + 256 * d)) := rfl

/-- A word with four lanes. -/
structure Holds (aux : UInt32) (lanes : List Nat) : Prop where
  value : aux.toNat = laneValue 8 lanes
  four : lanes.length = 4
  fits : ∀ lane ∈ lanes, lane < 256

theorem mask_eq (four : lanes.length = 4) (mask : Nat)
    : laneValue 8 (List.replicate lanes.length mask) = mask * 0x01010101 := by
  rw [four]
  show mask + 256 * (mask + 256 * (mask + 256 * (mask + 256 * 0))) = mask * 0x01010101
  omega

theorem Holds.shift_mask (holds : Holds aux lanes) (k mask : Nat) (inside : k ≤ 8)
    (maskSmall : mask < 2 ^ (8 - k))
    : aux.toNat >>> k &&& mask * 0x01010101 = laneValue 8
      (lanes.map fun lane => lane >>> k &&& mask) := by
  rw [← laneValue_shift_mask inside maskSmall holds.fits, holds.value, mask_eq holds.four]

theorem Holds.of_map {f : Nat → Nat} {next : UInt32} (holds : Holds aux lanes)
    (value : next.toNat = laneValue 8 (lanes.map f)) (fits : ∀ lane < 256, f lane < 256)
    : Holds next (lanes.map f) where
  value := value
  four := by rw [List.length_map, holds.four]
  fits lane member := by
    obtain ⟨a, there, rfl⟩ := List.mem_map.mp member
    exact fits a (holds.fits a there)

theorem Holds.addPairs (holds : Holds aux lanes) : Holds (addPairs aux) (lanes.map pairs) := by
  have masked : (aux >>> 1 &&& 0x55555555).toNat
      = laneValue 8 (lanes.map fun a => a >>> 1 &&& 0x55) := by
    rw [UInt32.toNat_and, UInt32.toNat_shiftRight]
    exact holds.shift_mask 1 0x55 (by decide) (by decide)
  obtain ⟨difference, below⟩ := @laneValue_sub 8 lanes (fun a => a >>> 1 &&& 0x55) fun a member =>
    (laneCounts (holds.fits a member)).pairsBelow
  refine holds.of_map ?_ fun a fits => (Nat.sub_le _ _).trans_lt fits
  rw [Strings.addPairs, UInt32.toNat_sub_of_le _ _ ?_, masked, holds.value, difference]
  · rfl
  · rw [UInt32.le_iff_toNat_le, masked, holds.value]
    exact below

theorem Holds.addFours (holds : Holds aux (lanes.map pairs)) (fits : ∀ lane ∈ lanes, lane < 256)
    : Holds (addFours aux) (lanes.map fours) := by
  have low : (aux &&& 0x33333333).toNat = laneValue 8 (lanes.map fun a => pairs a &&& 0x33) := by
    rw [UInt32.toNat_and]
    have masked := holds.shift_mask 0 0x33 (by decide) (by decide)
    rwa [List.map_map] at masked
  have high : (aux >>> 2 &&& 0x33333333).toNat
      = laneValue 8 (lanes.map fun a => pairs a >>> 2 &&& 0x33) := by
    rw [UInt32.toNat_and, UInt32.toNat_shiftRight]
    have masked := holds.shift_mask 2 0x33 (by decide) (by decide)
    rwa [List.map_map] at masked
  have four : lanes.length = 4 := by rw [← holds.four, List.length_map]
  have small : ∀ lane ∈ lanes.map fours, lane < 256 := by
    intro lane member
    obtain ⟨a, there, rfl⟩ := List.mem_map.mp member
    exact (laneCounts (fits a there)).foursHigh.trans_lt (by decide)
  have room : laneValue 8 (lanes.map fours) < 2 ^ 32 := by
    have bound := @laneValue_lt 8 _ small
    rwa [List.length_map, four] at bound
  refine ⟨?_, by rw [List.length_map, four], small⟩
  rw [Strings.addFours, UInt32.toNat_add, low, high, laneValue_map_add]
  exact Nat.mod_eq_of_lt room

theorem Holds.addBytes (holds : Holds aux (lanes.map fours)) (fits : ∀ lane ∈ lanes, lane < 256)
    : Holds (addBytes aux) (lanes.map fun lane => bitsinbyte.getD lane 0) := by
  have four : lanes.length = 4 := by rw [← holds.four, List.length_map]
  have counts : ∀ {lane}, lane ∈ lanes.map fours → lane % 16 ≤ 4 ∧ lane ≤ 0x44 := by
    intro lane member
    obtain ⟨a, there, rfl⟩ := List.mem_map.mp member
    exact ⟨(laneCounts (fits a there)).foursLow, (laneCounts (fits a there)).foursHigh⟩
  have folded := @laneValue_fold_mask 8 4 0x0F (lanes.map fours) (by decide) (by decide) (by
    intro lane member above _ low
    have here := (counts member).2
    have small : above ≤ 4 := by
      rcases low with rfl | ⟨other, there, rfl⟩
      · exact Nat.zero_le _
      · exact (counts there).1
    rw [Nat.shiftRight_eq_div_pow]
    omega)
  have room : aux.toNat < 2 ^ 31 := by
    obtain ⟨a, b, c, d, is⟩ := exists_four holds.four
    rw [holds.value]
    rw [is] at counts ⊢
    have ha := (@counts a (by simp)).2
    have hb := (@counts b (by simp)).2
    have hc := (@counts c (by simp)).2
    have hd := (@counts d (by simp)).2
    rw [laneValue_four]
    omega
  have shifted : aux.toNat >>> 4 < 2 ^ 31 := (Nat.shiftRight_le _ _).trans_lt room
  refine ⟨?_, by rw [List.length_map, four], fun lane member => ?_⟩
  · rw [Strings.addBytes, UInt32.toNat_and, UInt32.toNat_add, UInt32.toNat_shiftRight]
    show (aux.toNat + aux.toNat >>> 4) % 2 ^ 32 &&& 0x0F * 0x01010101 = _
    rw [Nat.mod_eq_of_lt (by omega), holds.value, ← mask_eq holds.four, folded, List.map_map]
    congr 1
    exact List.map_congr_left fun a member => (laneCounts (fits a member)).count
  · obtain ⟨a, there, rfl⟩ := List.mem_map.mp member
    exact (laneCounts (fits a there)).small.trans_lt (by decide)

-- Steps

/-- The lanes of a sum of words, whose counts have this total. -/
def Tally (x : UInt32) (words total : Nat) : Prop :=
  ∃ a b c d, x.toNat = laneValue 8 [a, b, c, d]
    ∧ a ≤ 8 * words ∧ b ≤ 8 * words ∧ c ≤ 8 * words ∧ d ≤ 8 * words ∧ a + b + c + d = total

theorem Tally.add {x y : UInt32} {m n s t : Nat} (first : Tally x m s) (second : Tally y n t)
    (few : m + n ≤ 7)
    : Tally (x + y) (m + n) (s + t) := by
  obtain ⟨a, b, c, d, value, ha, hb, hc, hd, rfl⟩ := first
  obtain ⟨a', b', c', d', value', ha', hb', hc', hd', rfl⟩ := second
  rw [laneValue_four] at value value'
  refine ⟨a + a', b + b', c + c', d + d', ?_, by omega, by omega, by omega, by omega, by omega⟩
  rw [UInt32.toNat_add, value, value', laneValue_four, Nat.mod_eq_of_lt (by omega)]
  omega

theorem Tally.product {x : UInt32} {total : Nat} (tally : Tally x 7 total)
    : ((x * 0x01010101) >>> 24).toNat = total := by
  obtain ⟨a, b, c, d, value, ha, hb, hc, hd, rfl⟩ := tally
  rw [laneValue_four] at value
  rw [UInt32.toNat_shiftRight, UInt32.toNat_mul, value, Nat.shiftRight_eq_div_pow]
  have split : (a + 256 * (b + 256 * (c + 256 * d))) * 0x01010101
      = a + 2 ^ 8 * (a + b) + 2 ^ 16 * (a + b + c) + 2 ^ 24 * (a + b + c + d)
        + 2 ^ 32 * (b + c + d + 2 ^ 8 * (c + d) + 2 ^ 16 * d) := by
    ring
  show (a + 256 * (b + 256 * (c + 256 * d))) * 0x01010101 % 2 ^ 32 / 2 ^ 24 = a + b + c + d
  rw [split, Nat.add_mul_mod_self_left, Nat.mod_eq_of_lt (by omega)]
  omega

theorem tally_word {rest : Sds} {i : Nat} (inside : 4 * (i + 1) ≤ rest.length)
    : Tally (addBytes (addFours (addPairs (wordAt rest i)))) 1
        (((rest.drop (4 * i)).take 4).map byteBits).sum := by
  have four : ((rest.drop (4 * i)).take 4).length = 4 := by
    rw [List.length_take, List.length_drop]
    omega
  generalize read : (rest.drop (4 * i)).take 4 = bytes at four
  have fits : ∀ lane ∈ bytes.map (·.toNat), lane < 256 := by
    intro lane member
    obtain ⟨byte, -, rfl⟩ := List.mem_map.mp member
    exact byte.toNat_lt
  have word : Holds (wordAt rest i) (bytes.map (·.toNat)) := by
    refine ⟨?_, by rw [List.length_map, four], fits⟩
    have below : leValue bytes < 2 ^ 32 := by
      have bound := leValue_lt bytes
      rwa [four] at bound
    rw [wordAt, read, UInt32.toNat_ofNat_of_lt' below, leValue_eq_laneValue]
  have counted := (word.addPairs.addFours fits).addBytes fits
  obtain ⟨a, b, c, d, rfl⟩ := exists_four four
  have small := fun byte : UInt8 => (laneCounts byte.toNat_lt).small
  refine ⟨byteBits a, byteBits b, byteBits c, byteBits d, counted.value, small a, small b, small c,
    small d, ?_⟩
  simp only [List.map_cons, List.map_nil, List.sum_cons, List.sum_nil]
  omega

theorem countStep_eq {rest : Sds} (long : 28 ≤ rest.length)
    : (countStep rest).toNat = ((rest.take 28).map byteBits).sum := by
  have word (i : Nat) (small : i < 7) := @tally_word rest i (by omega)
  have total := ((((((word 0 (by decide)).add (word 1 (by decide)) (by decide)).add
    (word 2 (by decide)) (by decide)).add (word 3 (by decide)) (by decide)).add
    (word 4 (by decide)) (by decide)).add (word 5 (by decide)) (by decide)).add
    (word 6 (by decide)) (by decide)
  rw [countStep, total.product]
  have parts : ∀ k n, rest.take (k + n) = rest.take k ++ (rest.drop k).take n :=
    fun k n => List.take_add
  rw [parts 24 4, parts 20 4, parts 16 4, parts 12 4, parts 8 4, parts 4 4]
  simp only [List.map_append, List.sum_append]
  rfl

end Words

section Whole

variable {rest : Sds} {bits : Nat}

theorem countUnaligned_total (addr : Nat) (rest : Sds) (bits : Nat)
    : (countUnaligned addr rest bits).2
        + ((countUnaligned addr rest bits).1.map byteBits).sum
      = bits + (rest.map byteBits).sum := by
  induction rest generalizing addr bits with
  | nil => rfl
  | cons byte rest ih =>
      rw [countUnaligned]
      split
      · rfl
      · rw [ih, List.map_cons, List.sum_cons, Nat.add_assoc]

theorem countWords_total (rest : Sds) (bits : Nat)
    : (countWords rest bits).2 + ((countWords rest bits).1.map byteBits).sum
      = bits + (rest.map byteBits).sum := by
  induction rest, bits using countWords.induct with
  | case1 rest bits long ih =>
      rw [countWords, if_pos long, ih, countStep_eq long, Nat.add_assoc, ← List.sum_append,
        ← List.map_append, List.take_append_drop]
  | case2 rest bits short => rw [countWords, if_neg short]

theorem foldl_byteBits (rest : Sds) (bits : Nat)
    : rest.foldl (fun bits byte => bits + byteBits byte) bits = bits + (rest.map byteBits).sum := by
  induction rest generalizing bits with
  | nil => rfl
  | cons byte rest ih => rw [List.foldl_cons, ih, List.map_cons, List.sum_cons, Nat.add_assoc]

theorem countP_bitAt (s : Sds)
    : (List.range (8 * s.length)).countP (bitAt s) = (s.map byteBits).sum := by
  induction s with
  | nil => rfl
  | cons byte s ih =>
      have first : (List.range 8).countP (bitAt (byte :: s)) = byteBits byte := by
        rw [byteBits, ← (laneCounts byte.toNat_lt).bits]
        refine List.countP_congr fun i member => ?_
        have small := List.mem_range.mp member
        have index : i / 8 = 0 := Nat.div_eq_of_lt small
        have place : i % 8 = i := Nat.mod_eq_of_lt small
        rw [bitAt, index, place]
        rfl
      have others : bitAt (byte :: s) ∘ (8 + ·) = bitAt s :=
        funext fun p => (bitAt_drop (byte :: s) 1 p).symm
      have length : 8 * (byte :: s).length = 8 + 8 * s.length := by
        rw [List.length_cons]
        omega
      rw [length, List.range_add, List.countP_append, List.countP_map, first, others, ih,
        List.map_cons, List.sum_cons]

/-- The count of the set bits, at any address and of any string, which is the sum over the table. -/
theorem redisPopcount_counts (addr : Nat) (s : Sds)
    : redisPopcount addr s = (List.range (8 * s.length)).countP (bitAt s)
      ∧ redisPopcount addr s = (s.map byteBits).sum := by
  have total : redisPopcount addr s = (s.map byteBits).sum := by
    have unaligned := countUnaligned_total addr s 0
    have words := countWords_total (countUnaligned addr s 0).1 (countUnaligned addr s 0).2
    rw [redisPopcount]
    dsimp only
    rw [foldl_byteBits, words, unaligned, Nat.zero_add]
  exact ⟨total.trans (countP_bitAt s).symm, total⟩

end Whole

end Redis.Strings
