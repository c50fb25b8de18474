import Redis.Library.Block

/-! Words of memory. An operation on the bits of words is one on their bytes, wherever the words
stand in a block.
-/

namespace Redis.Library

-- Bytes of a block

/-- A block of which the bytes from `lo` to `hi` were changed. -/
structure Changed (block next : List UInt8) (lo hi : Nat) (byte : Nat → UInt8) : Prop where
  length : next.length = block.length
  bytes : ∀ i, next.getD i 0 = if lo ≤ i ∧ i < hi then byte i else block.getD i 0

section Blocks

variable {block next last : List UInt8} {lo mid hi offset size : Nat} {f g : Nat → UInt8}

theorem Changed.refl (block : List UInt8) (lo : Nat) (f : Nat → UInt8)
    : Changed block block lo lo f where
  length := rfl
  bytes i := by rw [if_neg (by omega)]

theorem Changed.append (first : Changed block next lo mid f) (second : Changed next last mid hi f)
    (ordered : lo ≤ mid ∧ mid ≤ hi)
    : Changed block last lo hi f where
  length := second.length.trans first.length
  bytes i := by
    rw [second.bytes, first.bytes]
    split_ifs <;> first | rfl | omega

theorem Changed.trans (first : Changed block next lo hi f) (second : Changed next last lo hi g)
    : Changed block last lo hi g where
  length := second.length.trans first.length
  bytes i := by
    rw [second.bytes, first.bytes]
    split_ifs <;> rfl

theorem Changed.congr (changed : Changed block next lo hi f)
    (same : ∀ i, lo ≤ i → i < hi → f i = g i)
    : Changed block next lo hi g where
  length := changed.length
  bytes i := by
    rw [changed.bytes]
    split
    · rename_i inside
      exact same i inside.1 inside.2
    · rfl

theorem readBytes_getD (inside : offset + size ≤ block.length)
    : ∃ bytes, readBytes block offset size = .ok bytes ∧ bytes.length = size
      ∧ ∀ i < size, bytes.getD i 0 = block.getD (offset + i) 0 := by
  refine ⟨(block.drop offset).take size, if_pos inside, ?_, fun i small => ?_⟩
  · rw [List.length_take, List.length_drop]
    omega
  · rw [List.getD_eq_getElem?_getD, List.getD_eq_getElem?_getD, List.getElem?_take_of_lt small,
      List.getElem?_drop]

theorem writeBytes_getD {bytes : List UInt8} (inside : offset + bytes.length ≤ block.length)
    : ∃ next, writeBytes block offset bytes = .ok next
      ∧ Changed block next offset (offset + bytes.length) fun i => bytes.getD (i - offset) 0 := by
  refine ⟨_, if_pos inside, ?_, fun i => ?_⟩
  · simp only [List.length_append, List.length_take, List.length_drop]
    omega
  · have front : (block.take offset).length = offset := by
      rw [List.length_take]
      omega
    simp only [List.getD_eq_getElem?_getD]
    by_cases before : i < offset
    · rw [if_neg (by omega), List.append_assoc, List.getElem?_append_left (by omega),
        List.getElem?_take_of_lt before]
    by_cases within : i < offset + bytes.length
    · rw [if_pos ⟨by omega, within⟩, List.getElem?_append_left (by rw [List.length_append]; omega),
        List.getElem?_append_right (by omega), front]
    · rw [if_neg (by omega), List.getElem?_append_right (by rw [List.length_append]; omega),
        List.length_append, front, List.getElem?_drop]
      congr 2
      omega

theorem leValue_inj {x y : List UInt8} (same : x.length = y.length) (values : leValue x = leValue y)
    : x = y := by
  rw [← leBytes_leValue x, same, values, leBytes_leValue]

end Blocks

-- Bitwise operations

/-- An operation on words that is an operation on each of their bytes. -/
structure Bytewise (word : Nat → Nat → Nat) (byte : UInt8 → UInt8 → UInt8) : Prop where
  zero : word 0 0 = 0
  split : ∀ (a b : UInt8) (x y : Nat),
    word (a.toNat + 256 * x) (b.toNat + 256 * y) = (byte a b).toNat + 256 * word x y

section Operations

variable {word : Nat → Nat → Nat} {byte : UInt8 → UInt8 → UInt8}

theorem Bytewise.leValue_zipWith (bytewise : Bytewise word byte) {x y : List UInt8}
    (same : x.length = y.length)
    : leValue (List.zipWith byte x y) = word (leValue x) (leValue y) := by
  induction x generalizing y with
  | nil =>
      cases y with
      | nil => exact bytewise.zero.symm
      | cons b y => cases same
  | cons a x ih =>
      cases y with
      | nil => cases same
      | cons b y =>
          rw [List.zipWith_cons_cons, leValue, leValue, leValue, bytewise.split,
            ih (Nat.succ.inj same)]

theorem testBit_byte_add (a : UInt8) (x i : Nat)
    : (a.toNat + 256 * x).testBit i = if i < 8 then a.toNat.testBit i else x.testBit (i - 8) := by
  have small : a.toNat < 2 ^ 8 := a.toNat_lt
  rw [Nat.add_comm, show 256 = 2 ^ 8 from rfl, Nat.testBit_two_pow_mul_add x small]

theorem bytewise_and : Bytewise (· &&& ·) (· &&& ·) where
  zero := rfl
  split a b x y := by
    refine Nat.eq_of_testBit_eq fun i => ?_
    rw [Nat.testBit_and, testBit_byte_add, testBit_byte_add, testBit_byte_add, UInt8.toNat_and,
      Nat.testBit_and, Nat.testBit_and]
    split <;> rfl

theorem bytewise_or : Bytewise (· ||| ·) (· ||| ·) where
  zero := rfl
  split a b x y := by
    refine Nat.eq_of_testBit_eq fun i => ?_
    rw [Nat.testBit_or, testBit_byte_add, testBit_byte_add, testBit_byte_add, UInt8.toNat_or,
      Nat.testBit_or, Nat.testBit_or]
    split <;> rfl

theorem bytewise_xor : Bytewise (· ^^^ ·) (· ^^^ ·) where
  zero := rfl
  split a b x y := by
    refine Nat.eq_of_testBit_eq fun i => ?_
    rw [Nat.testBit_xor, testBit_byte_add, testBit_byte_add, testBit_byte_add, UInt8.toNat_xor,
      Nat.testBit_xor, Nat.testBit_xor]
    split <;> rfl

theorem leValue_complement (bytes : List UInt8)
    : leValue (bytes.map (~~~ ·)) = 256 ^ bytes.length - 1 - leValue bytes := by
  induction bytes with
  | nil => rfl
  | cons a bytes ih =>
      have below := leValue_lt bytes
      have byte : (~~~a).toNat = 255 - a.toNat := by
        rw [UInt8.toNat_not]
        rfl
      have small := a.toNat_lt
      rw [List.map_cons, leValue, leValue, ih, byte, List.length_cons, Nat.pow_succ]
      omega

end Operations

-- Words

/-- The word of `size` bytes at an offset. -/
def readWord (size : Nat) (block : List UInt8) (offset : Nat) : Except Fault Nat :=
  leValue <$> readBytes block offset size

def writeWord (size : Nat) (block : List UInt8) (offset value : Nat) : Except Fault (List UInt8) :=
  writeBytes block offset (leBytes size value)

section Words

variable {block source : List UInt8} {size offset : Nat}

theorem readWord_ok (inside : offset + size ≤ block.length)
    : ∃ bytes, readWord size block offset = .ok (leValue bytes) ∧ bytes.length = size
      ∧ ∀ i < size, bytes.getD i 0 = block.getD (offset + i) 0 := by
  obtain ⟨bytes, read, length, same⟩ := readBytes_getD inside
  exact ⟨bytes, by rw [readWord, read, map_ok], length, same⟩

theorem writeWord_ok {bytes : List UInt8} (length : bytes.length = size)
    (inside : offset + size ≤ block.length)
    : ∃ next, writeWord size block offset (leValue bytes) = .ok next
      ∧ Changed block next offset (offset + size) fun i => bytes.getD (i - offset) 0 := by
  subst length
  rw [writeWord, leBytes_leValue]
  exact writeBytes_getD inside

/-- `block[offset] op= source[offset]`, of words. -/
def combineWord (word : Nat → Nat → Nat) (size : Nat) (block source : List UInt8) (offset : Nat)
    : Except Fault (List UInt8) := do
  let value ← readWord size block offset
  let operand ← readWord size source offset
  writeWord size block offset (word value operand)

/-- `block[offset] = ~block[offset]`, of words. -/
def complementWord (size : Nat) (block : List UInt8) (offset : Nat)
    : Except Fault (List UInt8) := do
  let value ← readWord size block offset
  writeWord size block offset (256 ^ size - 1 - value)

/-- A word operation combines its bytes and leaves the others. -/
theorem combineWord_ok {word : Nat → Nat → Nat} {byte : UInt8 → UInt8 → UInt8}
    (bytewise : Bytewise word byte) (inside : offset + size ≤ block.length)
    (within : offset + size ≤ source.length)
    : ∃ next, combineWord word size block source offset = .ok next
      ∧ Changed block next offset (offset + size) fun i =>
        byte (block.getD i 0) (source.getD i 0) := by
  obtain ⟨x, readX, lengthX, sameX⟩ := readWord_ok inside
  obtain ⟨y, readY, lengthY, sameY⟩ := readWord_ok within
  have length : (List.zipWith byte x y).length = size := by
    rw [List.length_zipWith, lengthX, lengthY, Nat.min_self]
  obtain ⟨next, written, changed⟩ := writeWord_ok length inside
  refine ⟨next, ?_, changed.congr fun i low high => ?_⟩
  · rw [combineWord, readX, ok_andThen, readY, ok_andThen,
      ← bytewise.leValue_zipWith (lengthX.trans lengthY.symm), written]
  · have small : i - offset < size := by omega
    have there : offset + (i - offset) = i := by omega
    have byteX := sameX _ small
    have byteY := sameY _ small
    rw [there] at byteX byteY
    rw [← byteX, ← byteY]
    simp [List.getD_eq_getElem?_getD, lengthX, lengthY, small]

theorem complementWord_ok (inside : offset + size ≤ block.length)
    : ∃ next, complementWord size block offset = .ok next
      ∧ Changed block next offset (offset + size) fun i => ~~~block.getD i 0 := by
  obtain ⟨x, readX, lengthX, sameX⟩ := readWord_ok inside
  have length : (x.map (~~~ ·)).length = size := by rw [List.length_map, lengthX]
  obtain ⟨next, written, changed⟩ := writeWord_ok length inside
  refine ⟨next, ?_, changed.congr fun i low high => ?_⟩
  · rw [complementWord, readX, ok_andThen, ← lengthX, ← leValue_complement, lengthX, written]
  · have small : i - offset < size := by omega
    have there : offset + (i - offset) = i := by omega
    have byteX := sameX _ small
    rw [there] at byteX
    rw [← byteX]
    simp [List.getD_eq_getElem?_getD, lengthX, small]

end Words

end Redis.Library
