import Redis.Hyperloglog.Opcodes

/-! The walks that store registers, `hllSparseToDense` and `hllMerge`: exactly when they stay inside
the array, and what they leave in it. The index is an `int` that wraps around.
-/

namespace Redis.Hyperloglog

open Redis.Library

-- The registers that a walk stores

/-- The registers from the one at `start` on that are not zero have an index inside the array. -/
def InsideFrom (start : Nat) (regs : List Nat) : Prop :=
  ∀ i val, regs[i]? = some val → val ≠ 0 → (start + i) % 2 ^ 32 < hllRegisters

/-- The stores of the registers from the one at `start` on. -/
def storeRun {R : Type} (store : R → Nat → Nat → R) : (start : Nat) → List Nat → R → R
  | _, [], r => r
  | start, val :: rest, r =>
      storeRun store (start + 1) rest (if val = 0 then r else store r (start % 2 ^ 32) val)

section Runs

variable {R : Type} {store : R → Nat → Nat → R} {data : List UInt8}

@[simp] theorem insideFrom_nil (start : Nat) : InsideFrom start [] := by simp [InsideFrom]

theorem insideFrom_cons (start val : Nat) (rest : List Nat)
    : InsideFrom start (val :: rest)
      ↔ (val ≠ 0 → start % 2 ^ 32 < hllRegisters) ∧ InsideFrom (start + 1) rest := by
  constructor
  · intro inside
    refine ⟨fun notZero => inside 0 val rfl notZero, fun i other at_i notZero => ?_⟩
    rw [show start + 1 + i = start + (i + 1) by omega]
    exact inside (i + 1) other at_i notZero
  · rintro ⟨first, others⟩ i other at_i notZero
    cases i with
    | zero =>
        cases at_i
        exact first notZero
    | succ i =>
        rw [show start + (i + 1) = start + 1 + i by omega]
        exact others i other at_i notZero

theorem insideFrom_append (start : Nat) (a b : List Nat)
    : InsideFrom start (a ++ b) ↔ InsideFrom start a ∧ InsideFrom (start + a.length) b := by
  induction a generalizing start with
  | nil => simp
  | cons val rest ih =>
      rw [List.cons_append, insideFrom_cons, insideFrom_cons, ih, and_assoc, List.length_cons,
        show start + 1 + rest.length = start + (rest.length + 1) by omega]

theorem insideFrom_zeroes (start len : Nat) : InsideFrom start (List.replicate len 0) := by
  intro i val at_i notZero
  exact absurd (List.eq_of_mem_replicate (List.mem_of_getElem? at_i)) notZero

theorem storeRun_append (start : Nat) (a b : List Nat) (r : R)
    : storeRun store start (a ++ b) r
      = storeRun store (start + a.length) b (storeRun store start a r) := by
  induction a generalizing start r with
  | nil => rfl
  | cons val rest ih =>
      rw [List.cons_append, storeRun, storeRun, ih, List.length_cons,
        show start + 1 + rest.length = start + (rest.length + 1) by omega]

theorem storeRun_zeroes (start len : Nat) (r : R)
    : storeRun store start (List.replicate len 0) r = r := by
  induction len generalizing start with
  | zero => rfl
  | succ len ih => simp [List.replicate_succ, storeRun, ih]

/-- A walk over the registers ends with the stores, or leaves the array. -/
def Fills (store : R → Nat → Nat → R) (start : Nat) (regs : List Nat) (r : R)
    (result : Except Fault (Filling R))
    : Prop :=
  (InsideFrom start regs →
    result = .ok ⟨BitVec.ofNat 32 (start + regs.length), storeRun store start regs r⟩)
  ∧ (¬ InsideFrom start regs → result = .error .outOfBounds)

theorem fillRun_fills {regval : Nat} (notZero : regval ≠ 0) (runlen start : Nat) (r : R)
    : Fills store start (List.replicate runlen regval) r
        (fillRun store regval runlen ⟨BitVec.ofNat 32 start, r⟩) := by
  induction runlen generalizing start r with
  | zero => exact ⟨fun _ => rfl, fun outside => absurd (insideFrom_nil _) outside⟩
  | succ runlen ih =>
      have index : (BitVec.ofNat 32 start).toNat = start % 2 ^ 32 := BitVec.toNat_ofNat _ _
      have following : BitVec.ofNat 32 start + 1 = BitVec.ofNat 32 (start + 1) := by
        rw [BitVec.ofNat_add]
        rfl
      have others := ih (start + 1) (store r (start % 2 ^ 32) regval)
      rw [List.replicate_succ, Fills, insideFrom_cons, fillRun]
      simp only [index, following, storeRun, if_neg notZero, List.length_cons]
      rw [show start + ((List.replicate runlen regval).length + 1)
        = start + 1 + (List.replicate runlen regval).length by omega]
      by_cases first : start % 2 ^ 32 < hllRegisters
      · rw [if_pos first]
        exact ⟨fun inside => others.1 inside.2,
          fun outside => others.2 fun inside => outside ⟨fun _ => first, inside⟩⟩
      · rw [if_neg first]
        exact ⟨fun inside => absurd (inside.1 notZero) first, fun _ => rfl⟩

/-- The values of `VAL` opcodes are not zero. -/
def Opcode.Stored : Opcode → Prop
  | .val value _ => value ≠ 0
  | _ => True

theorem stored_of_mem : ∀ op ∈ opcodes data, op.Stored := by
  fun_induction opcodes data with
  | case1 => simp
  | case2 p rest zero ih => simpa [Opcode.Stored] using ih
  | case3 p notZero long next rest ih => simpa [Opcode.Stored] using ih
  | case4 p notZero long => simp
  | case5 p rest notZero notLong ih => simpa [Opcode.Stored, valValue] using ih

theorem fillOpcode_fills {op : Opcode} (stored : op.Stored) (start : Nat) (r : R)
    : Fills store start op.run r (fillOpcode store ⟨BitVec.ofNat 32 start, r⟩ op) := by
  have zeroes (len : Nat)
      : Fills store start (List.replicate len 0) r
          (.ok ⟨BitVec.ofNat 32 start + BitVec.ofNat 32 len, r⟩) := by
    refine ⟨fun _ => ?_, fun outside => absurd (insideFrom_zeroes _ _) outside⟩
    rw [storeRun_zeroes, List.length_replicate, BitVec.ofNat_add]
  cases op with
  | zero len => exact zeroes len
  | xzero len => exact zeroes len
  | val value len => exact fillRun_fills stored len start r

theorem fillOpcodes_fills {ops : List Opcode} (stored : ∀ op ∈ ops, op.Stored) (start : Nat) (r : R)
    : Fills store start (ops.flatMap Opcode.run) r
        (ops.foldlM (fillOpcode store) ⟨BitVec.ofNat 32 start, r⟩) := by
  induction ops generalizing start r with
  | nil => exact ⟨fun _ => rfl, fun outside => absurd (insideFrom_nil _) outside⟩
  | cons op rest ih =>
      have first := @fillOpcode_fills _ store op (stored op List.mem_cons_self) start r
      have others := ih (fun op inside => stored op (List.mem_cons_of_mem _ inside))
        (start + op.run.length) (storeRun store start op.run r)
      rw [List.flatMap_cons, List.foldlM_cons, Fills, insideFrom_append, storeRun_append,
        List.length_append, ← Nat.add_assoc]
      by_cases inside : InsideFrom start op.run
      · rw [first.1 inside, ok_andThen]
        exact ⟨fun both => others.1 both.2,
          fun outside => others.2 fun rest => outside ⟨inside, rest⟩⟩
      · rw [first.2 inside]
        exact ⟨fun both => absurd both.1 inside, fun _ => rfl⟩

/-- The opcodes of a value can be walked: none is cut, and the registers that are not zero have an
index inside the array.
-/
def Walkable (data : List UInt8) : Prop := Whole data ∧ InsideFrom 0 (registersOf data)

/-- The registers of a value end at `HLL_REGISTERS`, as an `int` counts them. -/
def EndsWell (data : List UInt8) : Prop :=
  (registersOf data).length % 2 ^ 32 = hllRegisters

instance (data : List UInt8) : Decidable (EndsWell data) :=
  inferInstanceAs (Decidable (_ = _))

theorem ofNat_eq_hllRegisters (n : Nat)
    : BitVec.ofNat 32 n = BitVec.ofNat 32 hllRegisters ↔ n % 2 ^ 32 = hllRegisters := by
  rw [← BitVec.toNat_inj, BitVec.toNat_ofNat, BitVec.toNat_ofNat]
  rfl

theorem foldlM_fillOpcode_fills (data : List UInt8) (empty : R)
    : Fills store 0 (registersOf data) empty
        ((opcodes data).foldlM (fillOpcode store) ⟨0, empty⟩) :=
  fillOpcodes_fills stored_of_mem 0 empty

/-- A walk inside the array stores the registers one after the other. -/
theorem fillRegisters_ok (walkable : Walkable data) (empty : R)
    : fillRegisters store empty data
      = .ok (if EndsWell data then some (storeRun store 0 (registersOf data) empty) else none) := by
  rw [fillRegisters, (walkOpcodes_eq _ data).1 walkable.1,
    (foldlM_fillOpcode_fills data empty).1 walkable.2]
  simp only [ok_andThen, ofNat_eq_hllRegisters, Nat.zero_add]
  rfl

theorem fillRegisters_error (unwalkable : ¬ Walkable data) (empty : R)
    : fillRegisters store empty data = .error .outOfBounds := by
  have fills := @foldlM_fillOpcode_fills R store data empty
  rw [fillRegisters]
  by_cases whole : Whole data
  · rw [(walkOpcodes_eq _ data).1 whole, fills.2 fun inside => unwalkable ⟨whole, inside⟩]
    rfl
  · rw [(walkOpcodes_eq _ data).2 whole]
    by_cases inside : InsideFrom 0 (registersOf data)
    · rw [fills.1 inside]
      rfl
    · rw [fills.2 inside]
      rfl

end Runs

-- The dense representation

/-- Bytes with room for all registers. -/
def DenseSize (p : List UInt8) : Prop := p.length = denseBytes

section Dense

variable {p : List UInt8} {i val : Nat}

theorem denseSize_set (size : DenseSize p) (i val : Nat)
    : DenseSize (denseSetRegister p i val) := by
  rwa [DenseSize, denseSetRegister, length_packedSet]

theorem denseGetRegister_lt : denseGetRegister p i < 64 := packedGet_lt (by omega)

theorem denseGetRegister_set (size : DenseSize p) (inside : i < hllRegisters) (fits : val < 64)
    (j : Nat)
    : denseGetRegister (denseSetRegister p i val) j
      = if j = i then val else denseGetRegister p j := by
  have room : (i + 1) * 6 ≤ 8 * p.length := by
    rw [size, denseBytes]
    rw [hllRegisters] at inside
    omega
  split
  · subst j
    exact packedGet_packedSet_self (by omega) (by omega) fits room
  · rename_i different
    exact packedGet_packedSet_of_ne (by omega) (by omega) fits room different

theorem denseGetRegister_zeroes (len i : Nat)
    : denseGetRegister (List.replicate len 0) i = 0 := by
  have byte (k : Nat) : byteAt (List.replicate len 0) k = 0 := by
    rw [byteAt, List.getD_eq_getElem?_getD, List.getElem?_replicate]
    split <;> rfl
  simp [denseGetRegister, packedGet, byte]

/-- The value that the stores leave in register `j`: the last one for it that is not zero. -/
def lastStored (j : Nat) : (start : Nat) → List Nat → (old : Nat) → Nat
  | _, [], old => old
  | start, val :: rest, old =>
      lastStored j (start + 1) rest (if val ≠ 0 ∧ start % 2 ^ 32 = j then val else old)

theorem denseGetRegister_storeRun {start : Nat} {regs : List Nat} (inside : InsideFrom start regs)
    (fits : ∀ val ∈ regs, val < 64) (size : DenseSize p) (j : Nat)
    : DenseSize (storeRun denseSetRegister start regs p)
      ∧ denseGetRegister (storeRun denseSetRegister start regs p) j
        = lastStored j start regs (denseGetRegister p j) := by
  induction regs generalizing start p with
  | nil => exact ⟨size, rfl⟩
  | cons val rest ih =>
      obtain ⟨first, others⟩ := (insideFrom_cons _ _ _).mp inside
      have fitsRest : ∀ val ∈ rest, val < 64 := fun val member =>
        fits val (List.mem_cons_of_mem _ member)
      rw [storeRun, lastStored]
      by_cases zero : val = 0
      · simpa [zero] using ih others fitsRest size
      · have step := ih others fitsRest (denseSize_set size (start % 2 ^ 32) val)
        rw [denseGetRegister_set size (first zero) (fits val List.mem_cons_self)] at step
        simpa [zero, eq_comm] using step

end Dense

-- The pattern of an element

theorem hllRegister_lt (ele : List UInt8) : hllRegister ele < hllRegisters := by
  have below : (murmurHash64A ele 0xadc83b19 &&& hllPMask).toNat ≤ hllPMask.toNat := by
    rw [UInt64.toNat_and]
    exact Nat.and_le_right
  exact Nat.lt_succ_of_le below

theorem and_bit_eq_zero {hash bit : UInt64} {k : Nat} (single : bit.toNat = 2 ^ k)
    : hash &&& bit = 0 ↔ hash.toNat.testBit k = false := by
  rw [← UInt64.toNat_inj, UInt64.toNat_and, single, Nat.and_two_pow]
  cases hash.toNat.testBit k <;> simp

theorem patLenLoop_spec {hash : UInt64} (last : hash.toNat.testBit 63 = true) (rounds : Nat)
    {bit : UInt64} {count : Nat} (total : rounds + count = 51) (some : 0 < rounds)
    (single : bit.toNat = 2 ^ (13 + count))
    : count ≤ patLenLoop hash rounds bit count ∧ patLenLoop hash rounds bit count ≤ 50
      ∧ hash.toNat.testBit (13 + patLenLoop hash rounds bit count) = true
      ∧ ∀ k, 13 + count ≤ k → k < 13 + patLenLoop hash rounds bit count →
        hash.toNat.testBit k = false := by
  induction rounds generalizing bit count with
  | zero => omega
  | succ rounds ih =>
      rw [patLenLoop]
      split
      · rename_i zero
        have clear := (and_bit_eq_zero single).mp zero
        have room : 0 < rounds := by
          by_contra none
          rw [show 13 + count = 63 by omega, last] at clear
          cases clear
        have doubled : (bit <<< 1).toNat = 2 ^ (13 + (count + 1)) := by
          rw [UInt64.toNat_shiftLeft, single]
          have small : 2 ^ (13 + (count + 1)) < 2 ^ 64 := Nat.pow_lt_pow_right (by omega) (by omega)
          rw [show (1 : UInt64).toNat % 64 = 1 from rfl, Nat.shiftLeft_eq, ← Nat.pow_add,
            show 13 + count + 1 = 13 + (count + 1) by omega, Nat.mod_eq_of_lt small]
        obtain ⟨low, high, one, zeroes⟩ := ih (by omega) room doubled
        refine ⟨by omega, high, one, fun k from' before => ?_⟩
        rcases Nat.lt_or_ge k (13 + (count + 1)) with here | later
        · rwa [show k = 13 + count by omega]
        · exact zeroes k later before
      · rename_i notZero
        have set := mt (and_bit_eq_zero single).mpr notZero
        exact ⟨le_rfl, by omega, (Bool.not_eq_false _).mp set, fun k _ _ => by omega⟩

theorem hllPatLen_spec (ele : List UInt8)
    : let hash := murmurHash64A ele 0xadc83b19 ||| ((1 : UInt64) <<< 63)
      1 ≤ hllPatLen ele ∧ hllPatLen ele ≤ 50
      ∧ hash.toNat.testBit (13 + hllPatLen ele) = true
      ∧ ∀ k, 14 ≤ k → k < 13 + hllPatLen ele → hash.toNat.testBit k = false := by
  refine patLenLoop_spec ?_ 50 rfl (by omega) rfl
  rw [UInt64.toNat_or, Nat.testBit_or, show ((1 : UInt64) <<< 63).toNat = 2 ^ 63 from rfl,
    Nat.testBit_two_pow_self, Bool.or_true]

theorem hllPatLen_pos (ele : List UInt8) : 1 ≤ hllPatLen ele := (hllPatLen_spec ele).1

theorem hllPatLen_lt (ele : List UInt8) : hllPatLen ele < 64 :=
  lt_of_le_of_lt (hllPatLen_spec ele).2.1 (by omega)

theorem hllDenseAdd_spec {p : List UInt8} (size : DenseSize p) (ele : List UInt8)
    : ((hllDenseAdd p ele).1 = true ↔ denseGetRegister p (hllRegister ele) < hllPatLen ele)
      ∧ DenseSize (hllDenseAdd p ele).2
      ∧ ∀ j, denseGetRegister (hllDenseAdd p ele).2 j
        = if j = hllRegister ele then max (denseGetRegister p j) (hllPatLen ele)
          else denseGetRegister p j := by
  simp only [hllDenseAdd]
  split
  · rename_i grows
    refine ⟨by simpa using grows, denseSize_set size _ _, fun j => ?_⟩
    rw [denseGetRegister_set size (hllRegister_lt ele) (hllPatLen_lt ele)]
    split
    · subst j
      rw [max_eq_right (le_of_lt grows)]
    · rfl
  · rename_i stays
    refine ⟨by simpa using stays, size, fun j => ?_⟩
    split
    · subst j
      rw [max_eq_left (not_lt.mp stays)]
    · rfl

end Redis.Hyperloglog
