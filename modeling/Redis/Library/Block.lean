import Redis.Library.Faults

/-! Heap blocks of bytes with checked accesses, and numbers in little-endian bytes.
A block is the list of its bytes. Reading or writing outside of it is a fault, so that a
computation that returns has touched the block only.
-/

namespace Redis.Library

/-- `memcpy` out of a block. -/
def readBytes (block : List UInt8) (offset size : Nat) : Except Fault (List UInt8) :=
  if offset + size ≤ block.length then .ok ((block.drop offset).take size)
  else .error .outOfBounds

def readByte (block : List UInt8) (offset : Nat) : Except Fault UInt8 :=
  match block[offset]? with
  | some byte => .ok byte
  | none => .error .outOfBounds

/-- `memcpy` into a block. -/
def writeBytes (block : List UInt8) (offset : Nat) (bytes : List UInt8)
    : Except Fault (List UInt8) :=
  if offset + bytes.length ≤ block.length then
    .ok (block.take offset ++ bytes ++ block.drop (offset + bytes.length))
  else .error .outOfBounds

/-- `memmove` inside a block. -/
def moveBytes (block : List UInt8) (target source size : Nat) : Except Fault (List UInt8) := do
  let bytes ← readBytes block source size
  writeBytes block target bytes

/-- `realloc`: the bytes past the old block are whatever the memory held before. -/
def resizeBytes (fresh : Nat → UInt8) (block : List UInt8) (size : Nat) : List UInt8 :=
  block.take size ++ (List.range' block.length (size - block.length)).map fresh

section Blocks

variable {block pre mid post : List UInt8} {offset size : Nat} {bytes next : List UInt8}

theorem readBytes_split (split : block = pre ++ mid ++ post) (start : pre.length = offset)
    (length : mid.length = size)
    : readBytes block offset size = .ok mid := by
  subst split start length
  simp [readBytes]

/-- A write replaces the bytes in the middle of a block. -/
theorem writeBytes_split {bytes : List UInt8} (split : block = pre ++ mid ++ post)
    (start : pre.length = offset) (length : bytes.length = mid.length)
    : writeBytes block offset bytes = .ok (pre ++ bytes ++ post) := by
  subst split start
  simp [writeBytes, length]

theorem readByte_split {byte : UInt8} (split : block = pre ++ byte :: post)
    (start : pre.length = offset)
    : readByte block offset = .ok byte := by
  subst split start
  simp [readByte]

theorem readBytes_within {bytes : List UInt8} (read : readBytes mid offset size = .ok bytes)
    (pre post : List UInt8)
    : readBytes (pre ++ mid ++ post) (pre.length + offset) size = .ok bytes := by
  unfold readBytes at read
  split at read
  · rename_i inside
    cases read
    have parts
        : mid = mid.take offset
          ++ ((mid.drop offset).take size ++ (mid.drop offset).drop size) := by
      rw [List.take_append_drop, List.take_append_drop]
    refine readBytes_split (show _ = (pre ++ mid.take offset) ++ (mid.drop offset).take size
      ++ ((mid.drop offset).drop size ++ post) from ?_) ?_ ?_
    · conv_lhs => rw [parts]
      simp only [List.append_assoc]
    · rw [List.length_append, List.length_take]
      omega
    · rw [List.length_take, List.length_drop]
      omega
  · cases read

theorem readByte_within {byte : UInt8} (read : readByte mid offset = .ok byte)
    (pre post : List UInt8)
    : readByte (pre ++ mid ++ post) (pre.length + offset) = .ok byte := by
  unfold readByte at read
  split at read
  · rename_i found
    cases read
    have inside : offset < mid.length := (List.getElem?_eq_some_iff.mp found).1
    have same : (pre ++ mid ++ post)[pre.length + offset]? = mid[offset]? := by
      rw [List.append_assoc, List.getElem?_append_right (Nat.le_add_right _ _),
        Nat.add_sub_cancel_left, List.getElem?_append_left inside]
    rw [readByte, same, found]
  · cases read

theorem readByte_past (past : block.length ≤ offset)
    : readByte block offset = .error .outOfBounds := by
  rw [readByte, List.getElem?_eq_none past]

theorem length_of_writeBytes (run : writeBytes block offset bytes = .ok next)
    : next.length = block.length := by
  unfold writeBytes at run
  split at run
  · cases run
    simp
    omega
  · cases run

theorem parts_of_writeBytes (run : writeBytes block offset bytes = .ok next)
    : ∃ front back, next = front ++ bytes ++ back ∧ front.length = offset
      ∧ block.take offset = front := by
  unfold writeBytes at run
  split at run
  · cases run
    exact ⟨_, _, rfl, by rw [List.length_take]; omega, rfl⟩
  · cases run

theorem writeBytes_behind (split : block = pre ++ mid ++ post)
    (start : pre.length + mid.length = offset) (run : writeBytes block offset bytes = .ok next)
    : ∃ back, next = pre ++ (mid ++ bytes) ++ back := by
  obtain ⟨front, back, rfl, _, kept⟩ := parts_of_writeBytes run
  have same : front = pre ++ mid := by
    rw [← kept, split]
    exact List.take_left' (by rw [List.length_append, start])
  exact ⟨back, by rw [same]; simp⟩

theorem writeBytes_in_front (split : block = pre ++ post)
    (inside : offset + bytes.length ≤ pre.length) (run : writeBytes block offset bytes = .ok next)
    : ∃ front, next = front ++ post ∧ front.length = pre.length := by
  unfold writeBytes at run
  split at run
  · cases run
    refine ⟨pre.take offset ++ bytes ++ pre.drop (offset + bytes.length), ?_, ?_⟩
    · rw [split, List.take_append_of_le_length (by omega), List.drop_append_of_le_length inside]
      simp
    · simp only [List.length_append, List.length_take, List.length_drop]
      omega
  · cases run

theorem length_of_moveBytes {target source : Nat} {next : List UInt8}
    (run : moveBytes block target source size = .ok next)
    : next.length = block.length := by
  obtain ⟨bytes, _, written⟩ := andThen_ok_iff.mp run
  exact length_of_writeBytes written

theorem inside_of_readBytes {bytes : List UInt8} (run : readBytes block offset size = .ok bytes)
    : offset + size ≤ block.length := by
  unfold readBytes at run
  split at run
  · assumption
  · cases run

theorem length_of_readBytes {block bytes : List UInt8} {offset size : Nat}
    (run : readBytes block offset size = .ok bytes)
    : bytes.length = size := by
  have inside := inside_of_readBytes run
  unfold readBytes at run
  rw [if_pos inside] at run
  cases run
  rw [List.length_take, List.length_drop]
  omega

theorem moveBytes_split {target source : Nat} {bytes pre' mid' post' : List UInt8}
    (sourceSplit : block = pre ++ bytes ++ post) (start : pre.length = source)
    (length : bytes.length = size) (targetSplit : block = pre' ++ mid' ++ post')
    (start' : pre'.length = target) (length' : mid'.length = size)
    : moveBytes block target source size = .ok (pre' ++ bytes ++ post') := by
  rw [moveBytes, readBytes_split sourceSplit start length, ok_andThen]
  exact writeBytes_split targetSplit start' (length.trans length'.symm)

@[simp] theorem length_resizeBytes (fresh : Nat → UInt8)
    : (resizeBytes fresh block size).length = size := by
  simp [resizeBytes]
  omega

theorem prefix_resizeBytes (fresh : Nat → UInt8) (larger : block.length ≤ size)
    : block <+: resizeBytes fresh block size := by
  rw [resizeBytes, List.take_of_length_le larger]
  exact List.prefix_append _ _

theorem resizeBytes_shrink (fresh : Nat → UInt8) (split : block = pre ++ post)
    (length : pre.length = size)
    : resizeBytes fresh block size = pre := by
  subst split length
  simp [resizeBytes]

end Blocks

-- Little-endian numbers

/-- The lowest `size` bytes of a number, the least significant first. -/
def leBytes : (size value : Nat) → List UInt8
  | 0, _ => []
  | size + 1, value => UInt8.ofNat value :: leBytes size (value / 256)

/-- The number that bytes spell, the least significant first. -/
def leValue : List UInt8 → Nat
  | [] => 0
  | byte :: bytes => byte.toNat + 256 * leValue bytes

@[simp] theorem length_leBytes (size value : Nat) : (leBytes size value).length = size := by
  induction size generalizing value with
  | zero => rfl
  | succ size ih => simp [leBytes, ih]

theorem leValue_leBytes (size value : Nat)
    : leValue (leBytes size value) = value % 256 ^ size := by
  induction size generalizing value with
  | zero => simp [leBytes, leValue, Nat.mod_one]
  | succ size ih =>
      have low : (UInt8.ofNat value).toNat = value % 256 := by simp
      rw [leBytes, leValue, ih, low, Nat.pow_succ', Nat.mod_mul]

theorem leBytes_leValue (bytes : List UInt8) : leBytes bytes.length (leValue bytes) = bytes := by
  induction bytes with
  | nil => rfl
  | cons byte bytes ih =>
      have low : UInt8.ofNat (byte.toNat + 256 * leValue bytes) = byte := by
        apply UInt8.toNat.inj
        have small := byte.toNat_lt
        simp
      have high : (byte.toNat + 256 * leValue bytes) / 256 = leValue bytes := by
        have small := byte.toNat_lt
        omega
      rw [List.length_cons, leBytes, leValue, low, high, ih]

theorem leValue_lt (bytes : List UInt8) : leValue bytes < 256 ^ bytes.length := by
  rw [← leBytes_leValue bytes, leValue_leBytes, length_leBytes]
  exact Nat.mod_lt _ (Nat.pow_pos (by decide))

/-- The two's complement bytes of an integer. -/
def signedBytes (size : Nat) (value : Int) : List UInt8 :=
  leBytes size (value % (256 ^ size : Nat)).toNat

/-- The integer that two's complement bytes stand for. -/
def signedValue (bytes : List UInt8) : Int :=
  (leValue bytes : Int).bmod (256 ^ bytes.length)

@[simp] theorem length_signedBytes (size : Nat) (value : Int)
    : (signedBytes size value).length = size := by
  simp [signedBytes]

theorem signedValue_signedBytes {size : Nat} {value : Int}
    (low : -(256 ^ size : Nat) ≤ value * 2) (high : value * 2 < (256 ^ size : Nat))
    : signedValue (signedBytes size value) = value := by
  have positive : 0 < 256 ^ size := Nat.pow_pos (by decide)
  have reduced : 0 ≤ value % (256 ^ size : Nat) := Int.emod_nonneg _ (by omega)
  have small : value % (256 ^ size : Nat) < (256 ^ size : Nat) :=
    Int.emod_lt_of_pos _ (by omega)
  rw [signedValue, signedBytes, length_leBytes, leValue_leBytes, Nat.mod_eq_of_lt (by omega),
    Int.toNat_of_nonneg reduced, Int.emod_bmod]
  exact Int.bmod_eq_of_le_mul_two low high

-- Narrow numbers

/-- The value that an `int` has after an assignment. -/
def int32 (v : Int) : Int := v.bmod (2 ^ 32)

theorem int32_of_lt {n : Nat} (small : n < 2 ^ 31) : int32 n = n := by
  unfold int32
  exact Int.bmod_eq_of_le (by omega) (by omega)

theorem int32_lt (v : Int) : int32 v < 2 ^ 31 := by
  have bound := Int.bmod_lt (x := v) (m := 2 ^ 32) (by decide)
  unfold int32
  omega

theorem int32_eq_self_iff {n : Nat} : int32 n = n ↔ n < 2 ^ 31 := by
  constructor
  · intro same
    have bound := int32_lt n
    omega
  · exact int32_of_lt

theorem int32_of_ge {n : Nat} (long : 2 ^ 31 ≤ n) (small : n < 2 ^ 32) : int32 n = n - 2 ^ 32 := by
  have wraps : int32 ((n : Int) - 2 ^ 32) = n - 2 ^ 32 := Int.bmod_eq_of_le (by omega) (by omega)
  have same : int32 (n - 2 ^ 32 : Int) = int32 n := by
    unfold int32
    exact Int.sub_bmod_right ..
  rw [← same, wraps]

end Redis.Library
