import Mathlib.Data.Nat.Digits.Lemmas
import Redis.Library.Block

/-! The conversions between integers and decimal text of `util.c`. -/

namespace Redis

open Redis.Library

variable {n : Nat} {digits : List UInt8}

-- Canonical decimal text

def digitByte (digit : Nat) : UInt8 := UInt8.ofNat (48 + digit)

/-- The decimal text of a natural number without leading zeros. -/
def naturalText (n : Nat) : List UInt8 :=
  ((if n = 0 then [0] else Nat.digits 10 n).reverse).map digitByte

def decimalText (v : Int) : List UInt8 :=
  if v < 0 then 0x2D :: naturalText v.natAbs else naturalText v.natAbs

theorem naturalText_of_lt (small : n < 10) : naturalText n = [digitByte n] := by
  unfold naturalText
  split
  · rename_i zero
    rw [zero]
    rfl
  · rename_i some
    rw [Nat.digits_of_lt 10 n some small]
    rfl

theorem naturalText_of_ge (large : 10 ≤ n)
    : naturalText n = naturalText (n / 10) ++ [digitByte (n % 10)] := by
  have tail : n / 10 ≠ 0 := by omega
  rw [naturalText, naturalText, if_neg (by omega), if_neg tail,
    Nat.digits_def' (by decide) (by omega)]
  simp

theorem naturalText_push {n d : Nat} (positive : n ≠ 0) (digit : d < 10)
    : naturalText (n * 10 + d) = naturalText n ++ [digitByte d] := by
  rw [naturalText_of_ge (by omega)]
  congr
  · omega
  · omega

theorem length_naturalText_le {n k : Nat} (positive : 0 < k)
    : (naturalText n).length ≤ k ↔ n < 10 ^ k := by
  unfold naturalText
  split
  · rename_i zero
    have power : 0 < 10 ^ k := Nat.pow_pos (by decide)
    simp [zero]
    omega
  · simp [Nat.digits_length_le_iff]

theorem length_naturalText_pos (n : Nat) : 0 < (naturalText n).length := by
  by_contra none
  have small := (length_naturalText_le (n := n) (k := 1) (by decide)).mp (by omega)
  rw [naturalText_of_lt small] at none
  simp at none

-- ll2string

/-- `digits10`; a 64-bit value takes one recursive call at most. -/
def digits10 : (calls v : Nat) → Nat
  | 0, _ => 0
  | calls + 1, v =>
      if v < 10 then 1
      else if v < 100 then 2
      else if v < 1000 then 3
      else if v < 1000000000000 then
        if v < 100000000 then
          if v < 1000000 then
            if v < 10000 then 4 else 5 + (if v ≥ 100000 then 1 else 0)
          else 7 + (if v ≥ 10000000 then 1 else 0)
        else if v < 10000000000 then 9 + (if v ≥ 1000000000 then 1 else 0)
        else 11 + (if v ≥ 100000000000 then 1 else 0)
      else 12 + digits10 calls (v / 1000000000000)

/-- The table `digits` has the two digits of every number below 100. -/
def digitPair (i : Nat) : List UInt8 := [digitByte (i / 10), digitByte (i % 10)]

/-- Writing a pair of digits that ends at `next`. -/
def writePair (dst : List UInt8) (next : Nat) (pair : List UInt8) : Except Fault (List UInt8) :=
  if next = 0 then .error .outOfBounds else writeBytes dst (next - 1) pair

/-- The loop of `ll2string` and the last one or two digits after it. -/
def ll2stringDigits : (rounds : Nat) → (dst : List UInt8) → (value next : Nat)
    → Except Fault (List UInt8)
  | 0, _, _, _ => .error .diverged
  | rounds + 1, dst, value, next =>
      if value ≥ 100 then do
        let dst ← writePair dst next (digitPair (value % 100))
        if next < 2 then .error .outOfBounds
        else ll2stringDigits rounds dst (value / 100) (next - 2)
      else if value < 10 then writeBytes dst next [digitByte value]
      else writePair dst next (digitPair value)

/-- `ll2string` into a buffer: the returned length and the buffer. -/
def ll2string (dst : List UInt8) (svalue : Int) : Except Fault (Nat × List UInt8) :=
  let negative := if svalue < 0 then 1 else 0
  let value := svalue.natAbs
  let length := digits10 2 value + negative
  if length ≥ dst.length then .ok (0, dst)
  else do
    let dst ← writeBytes dst length [0]
    let dst ← ll2stringDigits 10 dst value (length - 1)
    let dst ← (if svalue < 0 then writeBytes dst 0 [0x2D] else pure dst)
    pure (length, dst)

theorem length_naturalText_eq {n k : Nat} (least : 10 ^ k ≤ n) (most : n < 10 ^ (k + 1))
    : (naturalText n).length = k + 1 := by
  have upper := (length_naturalText_le (Nat.succ_pos k)).mpr most
  cases k with
  | zero =>
      have positive := length_naturalText_pos n
      omega
  | succ k =>
      have lower := not_congr (length_naturalText_le (n := n) (Nat.succ_pos k))
      omega

theorem length_naturalText_shift (k : Nat) (least : 10 ^ k ≤ n)
    : (naturalText n).length = k + (naturalText (n / 10 ^ k)).length := by
  induction k with
  | zero => simp
  | succ k ih =>
      have power : 0 < 10 ^ k := Nat.pow_pos (by decide)
      rw [Nat.pow_succ] at least
      have large : 10 ≤ n / 10 ^ k := (Nat.le_div_iff_mul_le power).mpr (by omega)
      rw [ih (by omega), naturalText_of_ge large, Nat.div_div_eq_div_mul, Nat.pow_succ,
        List.length_append, List.length_singleton]
      omega

theorem digits10_of_lt {v : Nat} (calls : Nat) (positive : v ≠ 0) (small : v < 10 ^ 12)
    : digits10 (calls + 1) v = (naturalText v).length := by
  have length {k : Nat} (least : 10 ^ k ≤ v) (most : v < 10 ^ (k + 1))
      : k + 1 = (naturalText v).length := (length_naturalText_eq least most).symm
  rw [digits10]
  split_ifs
  · exact length (k := 0) (by omega) (by omega)
  · exact length (k := 1) (by omega) (by omega)
  · exact length (k := 2) (by omega) (by omega)
  · exact length (k := 3) (by omega) (by omega)
  · exact length (k := 5) (by omega) (by omega)
  · exact length (k := 4) (by omega) (by omega)
  · exact length (k := 7) (by omega) (by omega)
  · exact length (k := 6) (by omega) (by omega)
  · exact length (k := 9) (by omega) (by omega)
  · exact length (k := 8) (by omega) (by omega)
  · exact length (k := 11) (by omega) (by omega)
  · exact length (k := 10) (by omega) (by omega)
  · omega

theorem digits10_eq {v : Nat} (word : v < 2 ^ 64) : digits10 2 v = (naturalText v).length := by
  rcases Nat.lt_or_ge v (10 ^ 12) with small | large
  · by_cases zero : v = 0
    · rw [zero]
      rfl
    · exact digits10_of_lt 1 zero small
  · have high : digits10 1 (v / 10 ^ 12) = (naturalText (v / 10 ^ 12)).length :=
      digits10_of_lt 0 (by omega) (by omega)
    rw [length_naturalText_shift 12 large, ← high, digits10]
    split_ifs <;> first | omega | rfl

theorem naturalText_pair (large : 100 ≤ n)
    : naturalText n = naturalText (n / 100) ++ digitPair (n % 100) := by
  rw [naturalText_of_ge (by omega), naturalText_of_ge (show 10 ≤ n / 10 by omega),
    Nat.div_div_eq_div_mul, List.append_assoc]
  congr 1
  rw [digitPair, show n / 10 % 10 = n % 100 / 10 by omega, show n % 10 = n % 100 % 10 by omega]
  rfl

theorem naturalText_two (large : 10 ≤ n) (small : n < 100) : naturalText n = digitPair n := by
  rw [naturalText_of_ge large, naturalText_of_lt (by omega)]
  rfl

theorem ll2stringDigits_ok (rounds : Nat) {front done : List UInt8} {value next : Nat}
    (enough : value < 100 ^ rounds) (bounded : rounds ≠ 0)
    (reserved : (naturalText value).length ≤ front.length) (place : next + 1 = front.length)
    : ll2stringDigits rounds (front ++ done) value next
      = .ok (front.take (front.length - (naturalText value).length) ++ naturalText value
        ++ done) := by
  induction rounds generalizing front done value next with
  | zero => exact absurd rfl bounded
  | succ rounds ih =>
      -- Writing the last bytes of the front.
      have write (bytes : List UInt8) (few : bytes.length ≤ front.length)
          : writeBytes (front ++ done) (front.length - bytes.length) bytes
            = .ok (front.take (front.length - bytes.length) ++ bytes ++ done) := by
        refine writeBytes_split
          (show _ = front.take (front.length - bytes.length)
            ++ front.drop (front.length - bytes.length) ++ done by rw [List.take_append_drop])
          (by rw [List.length_take]; omega) (by rw [List.length_drop]; omega)
      rw [ll2stringDigits]
      split
      · rename_i large
        have text := naturalText_pair large
        have first := length_naturalText_pos (value / 100)
        have two : (digitPair (value % 100)).length = 2 := rfl
        rw [text, List.length_append, two] at reserved
        have last := write (digitPair (value % 100)) (by omega)
        rw [two, show front.length - 2 = next - 1 by omega] at last
        have kept : (front.take (next - 1)).length = next - 1 := by
          rw [List.length_take]
          omega
        have more : rounds ≠ 0 := by
          rintro rfl
          omega
        have fewer : value / 100 < 100 ^ rounds := by
          rw [Nat.pow_succ] at enough
          omega
        have rest
            : ll2stringDigits rounds (front.take (next - 1) ++ (digitPair (value % 100) ++ done))
                (value / 100) (next - 2)
              = .ok _ :=
          ih fewer more (by omega) (by omega)
        rw [writePair, if_neg (by omega), last, ok_andThen, if_neg (by omega), List.append_assoc,
          rest, text, kept, List.take_take, List.length_append, two]
        rw [show min (next - 1 - (naturalText (value / 100)).length) (next - 1)
          = front.length - ((naturalText (value / 100)).length + 2) by omega]
        simp
      split
      · rename_i small
        rw [naturalText_of_lt small] at reserved ⊢
        have last := write [digitByte value] (by simpa using reserved)
        rwa [List.length_singleton, show front.length - 1 = next by omega] at last ⊢
      · rename_i small large
        rw [naturalText_two (by omega) (by omega)] at reserved ⊢
        have two : (digitPair value).length = 2 := rfl
        have last := write (digitPair value) reserved
        rw [writePair, if_neg (by omega)]
        rwa [two, show front.length - 2 = next - 1 by omega] at last ⊢

theorem ll2string_ok {dst : List UInt8} {svalue : Int} (word : svalue.natAbs < 2 ^ 64)
    (room : (decimalText svalue).length < dst.length)
    : ll2string dst svalue
      = .ok ((decimalText svalue).length,
          decimalText svalue ++ 0 :: dst.drop ((decimalText svalue).length + 1)) := by
  obtain ⟨length, total⟩ : ∃ length, length = (decimalText svalue).length := ⟨_, rfl⟩
  rw [← total] at room ⊢
  have digits : digits10 2 svalue.natAbs = (naturalText svalue.natAbs).length := digits10_eq word
  have positive := length_naturalText_pos svalue.natAbs
  have terminated
      : writeBytes dst length [0] = .ok (dst.take length ++ 0 :: dst.drop (length + 1)) := by
    rw [writeBytes, if_pos (by simpa using room)]
    simp
  have front : (dst.take length).length = length := by
    rw [List.length_take]
    omega
  have bounded : svalue.natAbs < 100 ^ 10 := by omega
  unfold ll2string
  rcases lt_or_ge svalue 0 with negative | natural
  · have text : decimalText svalue = 0x2D :: naturalText svalue.natAbs := if_pos negative
    have parts : length = digits10 2 svalue.natAbs + 1 := by
      rw [total, text, List.length_cons, digits]
    have written
        : ll2stringDigits 10 (dst.take length ++ 0 :: dst.drop (length + 1)) svalue.natAbs
            (length - 1)
          = .ok ((dst.take length).take 1 ++ naturalText svalue.natAbs
              ++ 0 :: dst.drop (length + 1)) := by
      rw [ll2stringDigits_ok 10 bounded (by decide) (by omega) (by omega), front,
        show length - (naturalText svalue.natAbs).length = 1 by omega]
    have signed := writeBytes_split
      (show (dst.take length).take 1 ++ naturalText svalue.natAbs ++ 0 :: dst.drop (length + 1)
        = [] ++ (dst.take length).take 1
          ++ (naturalText svalue.natAbs ++ 0 :: dst.drop (length + 1)) by simp) rfl
      (show [(0x2D : UInt8)].length = ((dst.take length).take 1).length by
        rw [List.length_take, front, List.length_singleton]
        omega)
    simp only [negative, if_true, ← parts]
    rw [if_neg (by omega), terminated, ok_andThen, written, ok_andThen]
    simp only [List.length_nil] at signed
    rw [signed, ok_andThen, text]
    rfl
  · have text : decimalText svalue = naturalText svalue.natAbs := if_neg (by omega)
    have parts : length = digits10 2 svalue.natAbs := by
      rw [total, text, digits]
    have written
        : ll2stringDigits 10 (dst.take length ++ 0 :: dst.drop (length + 1)) svalue.natAbs
            (length - 1)
          = .ok (naturalText svalue.natAbs ++ 0 :: dst.drop (length + 1)) := by
      rw [ll2stringDigits_ok 10 bounded (by decide) (by omega) (by omega), front,
        show length - (naturalText svalue.natAbs).length = 0 by omega]
      rfl
    simp only [not_lt.mpr natural, if_false, Nat.add_zero, ← parts]
    rw [if_neg (by omega), terminated, ok_andThen, written, text]
    rfl

-- string2ll

def ullongMax : Nat := 2 ^ 64 - 1

/-- `p[0] >= low && p[0] <= '9'`. -/
def isDigitFrom (low c : UInt8) : Bool := low ≤ c && c ≤ 0x39

/-- The loop of `string2ll`: the value so far and the bytes not used, or an overflow. -/
def string2llDigits : (v : Nat) → List UInt8 → Option (Nat × List UInt8)
  | v, [] => some (v, [])
  | v, c :: rest =>
      if isDigitFrom 0x30 c then
        let digit := c.toNat - 48
        if v > ullongMax / 10 then none
        else if v * 10 > ullongMax - digit then none
        else string2llDigits (v * 10 + digit) rest
      else some (v, c :: rest)

/-- `string2ll` without the sign. -/
def string2llUnsigned (slen : Nat) : List UInt8 → Option Nat
  | [] => none
  | c :: rest =>
      if isDigitFrom 0x31 c then
        match string2llDigits (c.toNat - 48) rest with
        | some (v, []) => some v
        | _ => none
      else if c = 0x30 ∧ slen = 1 then some 0
      else none

def string2ll (s : List UInt8) : Option Int :=
  if s = [] then none
  else if s = [0x30] then some 0
  else if s.head? = some 0x2D then
    match string2llUnsigned s.length s.tail with
    | some v => if v > 2 ^ 63 then none else some (-v)
    | none => none
  else
    match string2llUnsigned s.length s with
    | some v => if v > 2 ^ 63 - 1 then none else some v
    | none => none

/-- The number that digits spell after a value already read. -/
def horner (v : Nat) (digits : List UInt8) : Nat :=
  digits.foldl (fun v c => v * 10 + (c.toNat - 48)) v

theorem le_horner (v : Nat) (digits : List UInt8) : v ≤ horner v digits := by
  induction digits generalizing v with
  | nil => exact le_rfl
  | cons c rest ih =>
      calc
        v ≤ v * 10 + (c.toNat - 48) := by omega
        _ ≤ horner (v * 10 + (c.toNat - 48)) rest := ih _

theorem digitByte_toNat {c : UInt8} (digit : isDigitFrom 0x30 c = true)
    : c.toNat - 48 < 10 ∧ digitByte (c.toNat - 48) = c := by
  simp only [isDigitFrom, Bool.and_eq_true, decide_eq_true_eq, UInt8.le_iff_toNat_le] at digit
  obtain ⟨low, high⟩ := digit
  simp only [UInt8.reduceToNat] at low high
  refine ⟨by omega, ?_⟩
  apply UInt8.toNat.inj
  rw [digitByte, show 48 + (c.toNat - 48) = c.toNat by omega]
  simp

theorem isDigitFrom_digitByte {d : Nat} (small : d < 10)
    : isDigitFrom 0x30 (digitByte d) = true ∧ (digitByte d).toNat - 48 = d := by
  interval_cases d <;> decide

theorem naturalText_horner {v : Nat} (positive : v ≠ 0)
    (all : ∀ c ∈ digits, isDigitFrom 0x30 c = true)
    : naturalText (horner v digits) = naturalText v ++ digits := by
  induction digits generalizing v with
  | nil => simp [horner]
  | cons c rest ih =>
      obtain ⟨small, byte⟩ := digitByte_toNat (all c List.mem_cons_self)
      have step := ih (v := v * 10 + (c.toNat - 48)) (by omega)
        (fun d member => all d (List.mem_cons_of_mem _ member))
      calc
        naturalText (horner v (c :: rest))
        _ = naturalText (v * 10 + (c.toNat - 48)) ++ rest := step
        _ = naturalText v ++ [c] ++ rest := by rw [naturalText_push positive small, byte]
        _ = naturalText v ++ c :: rest := by simp

theorem string2llDigits_eq_some {v value : Nat} (read : string2llDigits v digits = some (value, []))
    : (∀ c ∈ digits, isDigitFrom 0x30 c = true) ∧ value = horner v digits := by
  induction digits generalizing v with
  | nil =>
      cases read
      exact ⟨by simp, rfl⟩
  | cons c rest ih =>
      rw [string2llDigits] at read
      split at read
      · rename_i digit
        dsimp only at read
        split at read
        · cases read
        split at read
        · cases read
        obtain ⟨all, equal⟩ := ih read
        exact ⟨List.forall_mem_cons.mpr ⟨digit, all⟩, equal⟩
      · cases read

theorem string2llDigits_horner {v : Nat}
    (all : ∀ c ∈ digits, isDigitFrom 0x30 c = true) (small : horner v digits ≤ ullongMax)
    : string2llDigits v digits = some (horner v digits, []) := by
  induction digits generalizing v with
  | nil => rfl
  | cons c rest ih =>
      have digit := all c List.mem_cons_self
      have below := le_horner (v * 10 + (c.toNat - 48)) rest
      have fits : v * 10 + (c.toNat - 48) ≤ ullongMax := le_trans below small
      rw [string2llDigits, if_pos digit]
      dsimp only
      rw [if_neg (by omega), if_neg (by omega)]
      exact ih (fun d member => all d (List.mem_cons_of_mem _ member)) small

theorem naturalText_cases (positive : n ≠ 0)
    : ∃ c rest,
        naturalText n = c :: rest
        ∧ isDigitFrom 0x31 c = true
        ∧ (∀ d ∈ rest, isDigitFrom 0x30 d = true)
        ∧ horner (c.toNat - 48) rest = n := by
  induction n using Nat.strong_induction_on with
  | _ n ih =>
      rcases Nat.lt_or_ge n 10 with small | large
      · refine ⟨digitByte n, [], naturalText_of_lt small, ?_, by simp, ?_⟩
        · interval_cases n <;> first | contradiction | decide
        · exact (isDigitFrom_digitByte small).2
      · obtain ⟨c, rest, text, first, others, value⟩ := ih (n / 10) (by omega) (by omega)
        obtain ⟨last, unit⟩ := isDigitFrom_digitByte (Nat.mod_lt n (show 0 < 10 by decide))
        refine ⟨c, rest ++ [digitByte (n % 10)], ?_, first, ?_, ?_⟩
        · rw [naturalText_of_ge large, text]
          rfl
        · intro d member
          rcases List.mem_append.mp member with inside | same
          · exact others d inside
          · rw [List.mem_singleton.mp same]
            exact last
        · rw [horner, List.foldl_append]
          change horner (c.toNat - 48) rest * 10 + ((digitByte (n % 10)).toNat - 48) = n
          rw [value, unit]
          omega

theorem string2llUnsigned_eq_some {slen v : Nat} {p : List UInt8}
    (long : ∀ rest, p = 0x30 :: rest → slen ≠ 1) (read : string2llUnsigned slen p = some v)
    : v ≠ 0 ∧ p = naturalText v := by
  cases p with
  | nil => cases read
  | cons c rest =>
      rw [string2llUnsigned] at read
      split at read
      · rename_i first
        split at read
        · rename_i value digits
          cases read
          obtain ⟨all, rfl⟩ := string2llDigits_eq_some digits
          have positive : c.toNat - 48 ≠ 0 := by
            simp only [isDigitFrom, Bool.and_eq_true, decide_eq_true_eq,
              UInt8.le_iff_toNat_le, UInt8.reduceToNat] at first
            omega
          have digit : isDigitFrom 0x30 c = true := by
            simp only [isDigitFrom, Bool.and_eq_true, decide_eq_true_eq,
              UInt8.le_iff_toNat_le, UInt8.reduceToNat] at first ⊢
            omega
          have least := le_horner (c.toNat - 48) rest
          refine ⟨by omega, ?_⟩
          obtain ⟨small, byte⟩ := digitByte_toNat digit
          rw [naturalText_horner positive all, naturalText_of_lt small, byte]
          rfl
        · cases read
      split at read
      · rename_i zero
        exact absurd zero.2 (long rest (by rw [zero.1]))
      · cases read

/-- `string2ll` accepts canonical texts of 64-bit numbers. -/
theorem string2ll_eq_some {s : List UInt8} {v : Int} (read : string2ll s = some v)
    : s = decimalText v ∧ -2 ^ 63 ≤ v ∧ v < 2 ^ 63 := by
  unfold string2ll at read
  split at read
  · cases read
  split at read
  · rename_i zero
    cases read
    exact ⟨zero, by decide, by decide⟩
  split at read
  · rename_i some other minus
    obtain ⟨p, rfl⟩ : ∃ p, s = 0x2D :: p := by
      cases s with
      | nil => cases minus
      | cons c p => exact ⟨p, by rw [Option.some.inj minus]⟩
    split at read
    · rename_i n unsigned
      split at read
      · cases read
      · cases read
        obtain ⟨positive, text⟩ := string2llUnsigned_eq_some
          (fun rest first => by simp [List.tail_cons.symm.trans first]) unsigned
        refine ⟨?_, by omega, by omega⟩
        rw [decimalText, if_pos (by omega), Int.natAbs_neg, Int.natAbs_natCast, ← text,
          List.tail_cons]
    · cases read
  · rename_i some other plain
    split at read
    · rename_i n unsigned
      split at read
      · cases read
      · cases read
        have long : ∀ rest, s = 0x30 :: rest → s.length ≠ 1 := by
          intro rest first one
          rw [first, List.length_cons] at one
          rw [List.eq_nil_of_length_eq_zero (show rest.length = 0 by omega)] at first
          exact other first
        obtain ⟨positive, text⟩ := string2llUnsigned_eq_some long unsigned
        refine ⟨?_, by omega, by omega⟩
        rw [decimalText, if_neg (by omega), Int.natAbs_natCast, ← text]
    · cases read

theorem string2llUnsigned_naturalText (slen : Nat) (positive : n ≠ 0) (small : n ≤ ullongMax)
    : string2llUnsigned slen (naturalText n) = some n := by
  obtain ⟨c, rest, text, first, others, value⟩ := naturalText_cases positive
  have digits := string2llDigits_horner others (by rw [value]; exact small)
  rw [text, string2llUnsigned, if_pos first, digits, value]

/-- It reads such a text as the number. -/
theorem string2ll_decimalText {v : Int} (low : -2 ^ 63 ≤ v) (high : v < 2 ^ 63)
    : string2ll (decimalText v) = some v := by
  have word : v.natAbs ≤ ullongMax := by
    unfold ullongMax
    omega
  rcases lt_trichotomy v 0 with negative | rfl | positive
  · have text : decimalText v = 0x2D :: naturalText v.natAbs := if_pos negative
    have unsigned := string2llUnsigned_naturalText (decimalText v).length
      (show v.natAbs ≠ 0 by omega) word
    rw [text] at unsigned ⊢
    rw [string2ll, if_neg (by simp), if_neg (by simp),
      if_pos (show (0x2D :: naturalText v.natAbs).head? = some 0x2D from rfl), List.tail_cons,
      unsigned]
    dsimp only
    rw [if_neg (by omega)]
    congr 1
    omega
  · rfl
  · have text : decimalText v = naturalText v.natAbs := if_neg (by omega)
    have unsigned := string2llUnsigned_naturalText (decimalText v).length
      (show v.natAbs ≠ 0 by omega) word
    obtain ⟨c, rest, shape, first, _⟩ := naturalText_cases (show v.natAbs ≠ 0 by omega)
    have digit : c ≠ 0x2D ∧ c ≠ 0x30 := by
      constructor <;> rintro rfl <;> exact absurd first (by decide)
    rw [text, shape] at unsigned ⊢
    rw [string2ll, if_neg (by simp), if_neg (by simp [digit.2]), if_neg (by simp [digit.1]),
      unsigned]
    dsimp only
    rw [if_neg (by omega)]
    congr 1
    omega

end Redis
