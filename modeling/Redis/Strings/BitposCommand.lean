import Redis.Strings.BitPositions
import Redis.Strings.Ranges

/-! `BITPOS`: the range of bytes that is searched, and what is replied about it. -/

namespace Redis.Strings

open Redis.Library
open Redis.Keyspace (Sds Db ObjectDb Value wrongType)

-- The command

inductive BitposReply where
  | error (text : String)
  | position (n : Int)
deriving DecidableEq, Repr

/-- The bytes that are searched: `start` to `last`, and whether the end was given. -/
structure BitRange where
  start : Int
  last : Int
  endGiven : Bool
deriving DecidableEq, Repr

/-- `Convert negative indexes`. -/
def BitRange.convert (range : BitRange) (strlen : Int) : BitRange :=
  let start := if range.start < 0 then strlen + range.start else range.start
  let last := if range.last < 0 then strlen + range.last else range.last
  let start := if start < 0 then 0 else start
  let last := if last < 0 then 0 else last
  let last := if last ≥ strlen then strlen - 1 else last
  ⟨start, last, range.endGiven⟩

/-- `Parse start/end range if any.` -/
def BitRange.parse (strlen : Int) : List Sds → Except String BitRange
  | [] => .ok ⟨0, strlen - 1, false⟩
  | [first] => do
      let start ← getLongFromObject first
      pure (BitRange.convert ⟨start, strlen - 1, false⟩ strlen)
  | [first, second] => do
      let start ← getLongFromObject first
      let last ← getLongFromObject second
      pure (BitRange.convert ⟨start, last, true⟩ strlen)
  | _ => .error "ERR syntax error"

/-- The end of `bitposCommand`, for a string at an address. -/
def bitposInRange (addr : Nat) (s : Sds) (bit : Bool) (range : BitRange)
    : Except Fault BitposReply :=
  if range.start > range.last then .ok (.position (-1))
  else do
    let bytes := range.last - range.start + 1
    let part ← readBytes s range.start.toNat bytes.toNat
    let pos ← redisBitpos (addr + range.start.toNat) part bit
    if range.endGiven = true ∧ bit = false ∧ pos = bytes * 8 then pure (.position (-1))
    else if pos ≠ -1 then pure (.position (pos + range.start * 8))
    else pure (.position pos)

/-- The arguments are those behind the bit. -/
def bitposCommand {F : Type} (db : Db F) (now : Int) (addr : Nat) (key bitText : Sds)
    (range : List Sds)
    : Except Fault (BitposReply × Db F) :=
  match getLongFromObject bitText with
  | .error text => .ok (.error text, db)
  | .ok bit =>
      if bit ≠ 0 ∧ bit ≠ 1 then .ok (.error "ERR The bit argument must be 1 or 0.", db)
      else
        let db := db.lookupKey now key
        match db.dict key with
        | none => .ok (.position (if bit ≠ 0 then -1 else 0), db)
        | some (.string text) =>
            match BitRange.parse text.length range with
            | .error text => .ok (.error text, db)
            | .ok range => do
                let reply ← bitposInRange addr text (decide (bit = 1)) range
                pure (reply, db)
        | some _ => .ok (.error wrongType, db)

section Range

variable {s : Sds} {p : Nat} {bit : Bool} {range : BitRange}

/-- The bytes of a range are bytes of the string, when there are any. -/
def BitRange.Inside (range : BitRange) (strlen : Int) : Prop :=
  0 ≤ range.start ∧ range.last < strlen ∧ (range.endGiven = false → range.last = strlen - 1)

theorem BitRange.convert_inside (range : BitRange) {strlen : Int} (natural : 0 ≤ strlen)
    (whole : range.endGiven = false → range.last = strlen - 1)
    : (range.convert strlen).Inside strlen := by
  unfold BitRange.convert BitRange.Inside
  dsimp only
  refine ⟨by split_ifs <;> omega, by split_ifs <;> omega, fun given => ?_⟩
  have last := whole given
  split_ifs <;> omega

theorem BitRange.parse_inside {strlen : Int} (natural : 0 ≤ strlen) {args : List Sds}
    (parsed : BitRange.parse strlen args = .ok range)
    : range.Inside strlen := by
  match args, parsed with
  | [], parsed =>
      cases parsed
      exact ⟨le_refl _, by dsimp only; omega, fun _ => rfl⟩
  | [first], parsed =>
      obtain ⟨start, -, whole⟩ := andThen_ok_iff.mp parsed
      cases whole
      exact BitRange.convert_inside _ natural fun _ => rfl
  | [first, second], parsed =>
      obtain ⟨start, -, next⟩ := andThen_ok_iff.mp parsed
      obtain ⟨last, -, whole⟩ := andThen_ok_iff.mp next
      cases whole
      exact BitRange.convert_inside _ natural fun given => by cases given

/-- The positions that are asked for. A range without an end goes on behind the string. -/
def BitRange.Wanted (range : BitRange) (s : Sds) (bit : Bool) (p : Nat) : Prop :=
  8 * range.start ≤ p ∧ (range.endGiven = true → (p : Int) < 8 * (range.last + 1)) ∧ bitAt s p = bit

theorem bitAt_take (s : Sds) {n p : Nat} (inside : p < 8 * n) : bitAt (s.take n) p = bitAt s p := by
  rw [bitAt, bitAt, List.getD_eq_getElem?_getD, List.getD_eq_getElem?_getD,
    List.getElem?_take_of_lt (by omega)]

theorem BitRange.wanted_iff {a n p : Nat} {last : Int} {endGiven : Bool}
    (bytes : last - a + 1 = n) (whole : endGiven = false → s.length ≤ a + n)
    : BitRange.Wanted ⟨a, last, endGiven⟩ s bit p
      ↔ ∃ q, p = 8 * a + q ∧ (endGiven = true → q < 8 * n) ∧ bitAt ((s.drop a).take n) q = bit := by
  have bits : ∀ q, (endGiven = true → q < 8 * n)
      → bitAt ((s.drop a).take n) q = bitAt s (8 * a + q) := by
    intro q within
    by_cases early : q < 8 * n
    · rw [bitAt_take _ early, bitAt_drop]
    · have ends := whole (Bool.eq_false_iff.mpr fun given => early (within given))
      have length : ((s.drop a).take n).length ≤ n := List.length_take_le _ _
      rw [bitAt_behind (by omega), bitAt_behind (by omega)]
  constructor
  · rintro ⟨above, below, found⟩
    dsimp only at above below
    obtain ⟨q, rfl⟩ : ∃ q, p = 8 * a + q := ⟨p - 8 * a, by omega⟩
    have within : endGiven = true → q < 8 * n := fun given => by
      have limit := below given
      omega
    exact ⟨q, rfl, within, (bits q within).trans found⟩
  · rintro ⟨q, rfl, within, found⟩
    refine ⟨?_, fun given => ?_, (bits q within).symm.trans found⟩
    · dsimp only
      omega
    · have limit := within given
      dsimp only
      omega

/-- The reply is the first position that is wanted, or -1 when there is none. -/
theorem bitposInRange_first (addr : Nat) (s : Sds) (bit : Bool) (inside : range.Inside s.length)
    (nonempty : range.start ≤ range.last)
    : (∃ p : Nat, bitposInRange addr s bit range = .ok (.position p)
        ∧ IsLeast {p | range.Wanted s bit p} p)
      ∨ bitposInRange addr s bit range = .ok (.position (-1)) ∧ ∀ p, ¬range.Wanted s bit p := by
  obtain ⟨start, last, endGiven⟩ := range
  obtain ⟨low, high, whole⟩ := inside
  dsimp only at low high whole nonempty
  obtain ⟨a, rfl⟩ := Int.eq_ofNat_of_zero_le low
  obtain ⟨n, bytes⟩ := Int.eq_ofNat_of_zero_le (show 0 ≤ last - a + 1 by omega)
  have read : readBytes s a n = .ok ((s.drop a).take n) := if_pos (by omega)
  have length : ((s.drop a).take n).length ≤ n := List.length_take_le _ _
  have wanted : ∀ p, BitRange.Wanted ⟨a, last, endGiven⟩ s bit p
      ↔ ∃ q, p = 8 * a + q ∧ (endGiven = true → q < 8 * n) ∧ bitAt ((s.drop a).take n) q = bit :=
    fun p => BitRange.wanted_iff bytes fun given => by
      have ends := whole given
      omega
  have run : bitposInRange addr s bit ⟨a, last, endGiven⟩
      = redisBitpos (addr + a) ((s.drop a).take n) bit >>= fun pos =>
          if endGiven = true ∧ bit = false ∧ pos = (n : Int) * 8 then pure (.position (-1))
          else if pos ≠ -1 then pure (.position (pos + a * 8))
          else pure (.position pos) := by
    rw [bitposInRange, if_neg (not_lt.mpr nonempty)]
    dsimp only
    rw [bytes, Int.toNat_natCast, Int.toNat_natCast, read, ok_andThen]
  rw [run]
  simp only [wanted]
  rcases redisBitpos_least (addr + a) ((s.drop a).take n) bit with ⟨q, found, here, least⟩
    | ⟨rfl, absent, clear⟩
  · rw [found, ok_andThen]
    by_cases behind : endGiven = true ∧ bit = false ∧ (q : Int) = (n : Int) * 8
    · rw [if_pos behind]
      refine Or.inr ⟨rfl, ?_⟩
      rintro _ ⟨r, rfl, within, found⟩
      have first : q ≤ r := least found
      have below := within behind.1
      omega
    · rw [if_neg behind, if_pos (by omega)]
      refine Or.inl ⟨8 * a + q, ?_, ⟨q, rfl, fun given => ?_, here⟩, ?_⟩
      · rw [Int.mul_comm, Int.add_comm]
        rfl
      · cases bit with
        | true =>
            by_contra far
            rw [Set.mem_ofPred_eq, bitAt_behind (by omega)] at here
            cases here
        | false =>
            have ends : q ≤ 8 * n := least (bitAt_behind (by omega))
            have other : (q : Int) ≠ (n : Int) * 8 := fun same => behind ⟨given, rfl, same⟩
            omega
      · rintro _ ⟨r, rfl, -, found⟩
        exact Nat.add_le_add_left (least found) _
  · rw [absent, ok_andThen, if_neg (by rintro ⟨-, impossible, -⟩; cases impossible),
      if_neg (by decide)]
    refine Or.inr ⟨rfl, ?_⟩
    rintro _ ⟨r, rfl, -, found⟩
    rw [clear] at found
    cases found

/-- `BITPOS` replies the first position that it was asked for, counted from the start of the string.
An empty range has none, and a range without an end goes on with clear bits behind the string.
-/
theorem bitposCommand_first {F : Type} (db : Db F) (now : Int) (addr : Nat) (key bitText : Sds)
    (args : List Sds) {text : Sds}
    (asked : getLongFromObject bitText = .ok (if bit then 1 else 0))
    (found : (db.lookupKey now key).dict key = some (.string text))
    (parsed : BitRange.parse text.length args = .ok range)
    : ∃ n,
        bitposCommand db now addr key bitText args = .ok (.position n, db.lookupKey now key)
        ∧ (range.start ≤ range.last
          → (∃ p : Nat, n = p ∧ IsLeast {p | range.Wanted text bit p} p)
            ∨ n = -1 ∧ ∀ p, ¬range.Wanted text bit p)
        ∧ (range.last < range.start → n = -1) := by
  have inside := BitRange.parse_inside (Int.natCast_nonneg _) parsed
  have run
      : bitposCommand db now addr key bitText args
        = bitposInRange addr text bit range >>= fun reply =>
          pure (reply, db.lookupKey now key) := by
    rw [bitposCommand, asked]
    dsimp only
    rw [if_neg (by cases bit <;> decide), found]
    dsimp only
    rw [parsed]
    cases bit <;> rfl
  rw [run]
  by_cases nonempty : range.start ≤ range.last
  · rcases bitposInRange_first addr text bit inside nonempty with ⟨p, first, least⟩ | ⟨absent, none⟩
    · exact ⟨p, by rw [first, ok_andThen]; rfl, fun _ => .inl ⟨p, rfl, least⟩, by omega⟩
    · exact ⟨-1, by rw [absent, ok_andThen]; rfl, fun _ => .inr ⟨rfl, none⟩, by omega⟩
  · refine ⟨-1, ?_, fun least => absurd least nonempty, fun _ => rfl⟩
    rw [bitposInRange, if_pos (not_le.mp nonempty), ok_andThen]
    rfl

theorem bitposCommand_first_behind
    : ∃ n,
        bitposCommand ((ObjectDb.empty : Db Unit).store [0x6B] (.string [0xFF])) 0 0 [0x6B]
            [0x30] [[0x30]]
          = .ok (.position n,
              ((ObjectDb.empty : Db Unit).store [0x6B] (.string [0xFF])).lookupKey 0 [0x6B])
        ∧ ((0 : Int) ≤ 0
          → (∃ p : Nat, n = p ∧ IsLeast {p | BitRange.Wanted ⟨0, 0, false⟩ [0xFF] false p} p)
            ∨ n = -1 ∧ ∀ p, ¬BitRange.Wanted ⟨0, 0, false⟩ [0xFF] false p)
        ∧ ((0 : Int) < 0 → n = -1) :=
  @bitposCommand_first false ⟨0, 0, false⟩ _ _ 0 0 [0x6B] [0x30] [[0x30]] [0xFF]
    (by decide) (by rfl) (by decide)

end Range

end Redis.Strings
