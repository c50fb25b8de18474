import Mathlib.Algebra.Order.Field.Rat
import Redis.Hyperloglog.Refinement
import Redis.Library.Words

/-! The sums of `2^-reg` over the registers of a dense value, a sparse value and an array of bytes,
with rational numbers for the type `double`. Each of the three reads its registers in its own way.
-/

namespace Redis.Hyperloglog.Rational

open Redis.Library
open Redis.Keyspace (Sds)

-- The sums

/-- The table `PE`, as `hllCount` fills it. -/
def powers : List ℚ := 1 :: (List.range' 1 63).map fun j => 1 / 2 ^ j

/-- `PE[reg]`. -/
def power (PE : List ℚ) (reg : Nat) : Except Fault ℚ :=
  match PE[reg]? with
  | some p => .ok p
  | none => .error .outOfBounds

/-- The four registers that `hllDenseSum` takes out of three bytes. -/
def fourRegisters (b0 b1 b2 : UInt8) : List Nat :=
  [b0.toNat &&& 63, (b0.toNat >>> 6 ||| b1.toNat <<< 2) &&& 63,
    (b1.toNat >>> 4 ||| b2.toNat <<< 4) &&& 63, (b2.toNat >>> 2) &&& 63]

/-- `E += PE[r0] + ..` and `if (r0 == 0) ez++`, one register after the other. -/
def addRegisters (PE : List ℚ) (state : ℚ × BitVec 32) : List Nat → Except Fault (ℚ × BitVec 32)
  | [] => .ok state
  | reg :: regs => do
      let p ← power PE reg
      addRegisters PE (state.1 + p, if reg = 0 then state.2 + 1 else state.2) regs

/-- The loop of `hllDenseSum`, over sixteen registers a round. -/
def denseLoop (PE : List ℚ)
    : (rounds : Nat) → List UInt8 → ℚ × BitVec 32 → Except Fault (ℚ × BitVec 32)
  | 0, _, state => .ok state
  | rounds + 1, b0 :: b1 :: b2 :: b3 :: b4 :: b5 :: b6 :: b7 :: b8 :: b9 :: b10 :: b11 :: r,
      state => do
      let state ← addRegisters PE state
        (fourRegisters b0 b1 b2 ++ fourRegisters b3 b4 b5 ++ fourRegisters b6 b7 b8
          ++ fourRegisters b9 b10 b11)
      denseLoop PE rounds r state
  | _ + 1, _, _ => .error .outOfBounds

/-- `hllDenseSum`: the sum, and `ezp`. -/
def hllDenseSum (registers : List UInt8) (PE : List ℚ) : Except Fault (ℚ × BitVec 32) :=
  denseLoop PE 1024 registers (0, 0)

/-- The variables of `hllSparseSum`. -/
structure SparseState where
  E : ℚ
  ez : BitVec 32
  idx : BitVec 32

/-- One opcode in `hllSparseSum`. -/
def sparseRound (PE : List ℚ) (state : SparseState) : Opcode → Except Fault SparseState
  | .zero runlen | .xzero runlen =>
      .ok { state with
        idx := state.idx + BitVec.ofNat 32 runlen
        ez := state.ez + BitVec.ofNat 32 runlen }
  | .val regval runlen => do
      let p ← power PE regval
      pure { state with
        idx := state.idx + BitVec.ofNat 32 runlen
        E := state.E + p * runlen }

/-- `hllSparseSum`: the sum, `ezp`, and whether `invalid` is left alone. -/
def hllSparseSum (sparse : List UInt8) (PE : List ℚ) : Except Fault ((ℚ × BitVec 32) × Bool) := do
  let state ← walkOpcodes (sparseRound PE) ⟨0, 0, 0⟩ sparse
  pure ((state.E + state.ez.toInt, state.ez), state.idx = BitVec.ofNat 32 hllRegisters)

/-- `if (bytes[0]) E += PE[bytes[0]]; else ez++;` and so on. -/
def addBytes (PE : List ℚ) (state : ℚ × BitVec 32) : List UInt8 → Except Fault (ℚ × BitVec 32)
  | [] => .ok state
  | byte :: bytes =>
      if byte ≠ 0 then do
        let p ← power PE byte.toNat
        addBytes PE (state.1 + p, state.2) bytes
      else addBytes PE (state.1, state.2 + 1) bytes

/-- A round of `hllRawSum`, for a word of eight bytes. -/
def rawWord (PE : List ℚ) (state : ℚ × BitVec 32) (word : List UInt8)
    : Except Fault (ℚ × BitVec 32) :=
  if leValue word = 0 then .ok (state.1, state.2 + 8) else addBytes PE state word

/-- The loop of `hllRawSum`. -/
def rawLoop (PE : List ℚ)
    : (rounds : Nat) → List UInt8 → ℚ × BitVec 32 → Except Fault (ℚ × BitVec 32)
  | 0, _, state => .ok state
  | rounds + 1, registers, state => do
      let word ← readBytes registers 0 8
      let state ← rawWord PE state word
      rawLoop PE rounds (registers.drop 8) state

/-- `hllRawSum`: the sum, and `ezp`. -/
def hllRawSum (registers : List UInt8) (PE : List ℚ) : Except Fault (ℚ × BitVec 32) := do
  let state ← rawLoop PE (hllRegisters / 8) registers (0, 0)
  pure (state.1 + state.2.toInt, state.2)

-- Registers as numbers

/-- The sum of `2^-reg`. -/
def inverseSum (regs : List Nat) : ℚ := (regs.map fun reg => (1 : ℚ) / 2 ^ reg).sum

def zeroCount (regs : List Nat) : Nat := regs.count 0

@[simp] theorem inverseSum_nil : inverseSum [] = 0 := rfl

theorem inverseSum_cons (reg : Nat) (regs : List Nat)
    : inverseSum (reg :: regs) = 1 / 2 ^ reg + inverseSum regs := by
  rw [inverseSum, List.map_cons, List.sum_cons]
  rfl

theorem inverseSum_append (regs more : List Nat)
    : inverseSum (regs ++ more) = inverseSum regs + inverseSum more := by
  simp [inverseSum]

theorem zeroCount_append (regs more : List Nat)
    : zeroCount (regs ++ more) = zeroCount regs + zeroCount more := List.count_append

theorem inverseSum_replicate (count reg : Nat)
    : inverseSum (List.replicate count reg) = count * (1 / 2 ^ reg) := by
  simp [inverseSum]

theorem power_powers {reg : Nat} (small : reg < 64) : power powers reg = .ok (1 / 2 ^ reg) := by
  cases reg with
  | zero => simp [power, powers]
  | succ reg =>
      have inside : reg < 63 := by omega
      simp [power, powers, inside, Nat.add_comm]

-- Dense values

theorem addRegisters_ok (regs : List Nat) (state : ℚ × BitVec 32) (small : ∀ reg ∈ regs, reg < 64)
    : addRegisters powers state regs
      = .ok (state.1 + inverseSum regs, state.2 + BitVec.ofNat 32 (zeroCount regs)) := by
  induction regs generalizing state with
  | nil => simp [addRegisters, zeroCount]
  | cons reg regs ih =>
      rw [addRegisters, power_powers (small reg List.mem_cons_self), ok_andThen,
        ih _ fun other member => small other (List.mem_cons_of_mem _ member), inverseSum_cons,
        add_assoc]
      by_cases zero : reg = 0
      · rw [if_pos zero, zero, zeroCount, zeroCount, List.count_cons_self, Nat.add_comm _ 1,
          BitVec.ofNat_add, ← BitVec.add_assoc]
        rfl
      · rw [if_neg zero, zeroCount, zeroCount, List.count_cons_of_ne zero]

theorem or_shifted_and {a b shift : Nat} (past : 6 ≤ shift)
    : (a ||| b <<< shift) &&& 63 = a &&& 63 := by
  refine Nat.eq_of_testBit_eq fun k => ?_
  rw [show 63 = 2 ^ 6 - 1 by rfl, Nat.testBit_and, Nat.testBit_and, Nat.testBit_or,
    Nat.testBit_two_pow_sub_one, Nat.testBit_shiftLeft]
  rcases Nat.lt_or_ge k 6 with low | high
  · simp [show ¬shift ≤ k by omega]
  · simp [Nat.not_lt.mpr high]

/-- The registers of dense data, one after the other. -/
def denseRegisters (count : Nat) (data : List UInt8) : List Nat :=
  (List.range count).map (denseGetRegister data)

theorem denseRegisters_three (b0 b1 b2 : UInt8) (rest : List UInt8) (count : Nat)
    : denseRegisters (4 + count) (b0 :: b1 :: b2 :: rest)
      = fourRegisters b0 b1 b2 ++ denseRegisters count rest := by
  have later : ∀ i, denseGetRegister (b0 :: b1 :: b2 :: rest) (4 + i)
      = denseGetRegister rest i := by
    intro i
    rw [denseGetRegister, denseGetRegister, packedGet, packedGet,
      show (4 + i) * 6 / 8 = i * 6 / 8 + 3 by omega, show (4 + i) * 6 % 8 = i * 6 % 8 by omega]
    rfl
  have head
      : (List.range 4).map (denseGetRegister (b0 :: b1 :: b2 :: rest))
        = fourRegisters b0 b1 b2 := by
    have first : denseGetRegister (b0 :: b1 :: b2 :: rest) 0 = b0.toNat &&& 63 :=
      or_shifted_and (by decide)
    have last : denseGetRegister (b0 :: b1 :: b2 :: rest) 3 = (b2.toNat >>> 2) &&& 63 :=
      or_shifted_and (by decide)
    rw [show List.range 4 = [0, 1, 2, 3] by rfl, List.map_cons, List.map_cons, List.map_cons,
      List.map_cons, first, last]
    rfl
  rw [denseRegisters, List.range_add, List.map_append, head, List.map_map]
  exact congrArg _ (List.map_congr_left fun i _ => later i)

theorem denseRegisters_lt {count : Nat} {data : List UInt8}
    : ∀ reg ∈ denseRegisters count data, reg < 64 := by
  intro reg member
  obtain ⟨i, _, rfl⟩ := List.mem_map.mp member
  exact denseGetRegister_lt

theorem exists_cons {data : List UInt8} {n : Nat} (long : data.length = n + 1)
    : ∃ byte rest, data = byte :: rest ∧ rest.length = n := by
  cases data with
  | nil => cases long
  | cons byte rest => exact ⟨byte, rest, rfl, Nat.succ.inj long⟩

theorem addRegisters_append (PE : List ℚ) (regs more : List Nat) (state : ℚ × BitVec 32)
    : addRegisters PE state (regs ++ more)
      = addRegisters PE state regs >>= fun state => addRegisters PE state more := by
  induction regs generalizing state with
  | nil => rfl
  | cons reg regs ih =>
      rw [List.cons_append, addRegisters, addRegisters]
      cases power PE reg with
      | error fault => rfl
      | ok p => exact ih _

theorem denseLoop_eq (PE : List ℚ) (rounds : Nat) (data : List UInt8) (state : ℚ × BitVec 32)
    (length : data.length = 12 * rounds)
    : denseLoop PE rounds data state
      = addRegisters PE state (denseRegisters (16 * rounds) data) := by
  induction rounds generalizing data state with
  | zero => rfl
  | succ rounds ih =>
      obtain ⟨b0, d0, rfl, l0⟩ := @exists_cons data (12 * rounds + 11) length
      obtain ⟨b1, d1, rfl, l1⟩ := exists_cons l0
      obtain ⟨b2, d2, rfl, l2⟩ := exists_cons l1
      obtain ⟨b3, d3, rfl, l3⟩ := exists_cons l2
      obtain ⟨b4, d4, rfl, l4⟩ := exists_cons l3
      obtain ⟨b5, d5, rfl, l5⟩ := exists_cons l4
      obtain ⟨b6, d6, rfl, l6⟩ := exists_cons l5
      obtain ⟨b7, d7, rfl, l7⟩ := exists_cons l6
      obtain ⟨b8, d8, rfl, l8⟩ := exists_cons l7
      obtain ⟨b9, d9, rfl, l9⟩ := exists_cons l8
      obtain ⟨b10, d10, rfl, l10⟩ := exists_cons l9
      obtain ⟨b11, d11, rfl, l11⟩ := exists_cons l10
      rw [show 16 * (rounds + 1) = 4 + (4 + (4 + (4 + 16 * rounds))) by omega,
        denseRegisters_three, denseRegisters_three, denseRegisters_three, denseRegisters_three,
        ← List.append_assoc, ← List.append_assoc, ← List.append_assoc, addRegisters_append,
        denseLoop]
      exact congrArg _ (funext fun state => ih d11 state l11)

-- Sparse values

theorem zeroCount_replicate (count reg : Nat)
    : zeroCount (List.replicate count reg) = if reg = 0 then count else 0 := by
  by_cases zero : reg = 0
  · rw [if_pos zero, zero, zeroCount, List.count_replicate_self]
  · rw [if_neg zero, zeroCount, List.count_replicate]
    simp [zero]

theorem sparseRound_ok {op : Opcode} (fits : op.Fits) (state : SparseState)
    : sparseRound powers state op
      = .ok ⟨state.E + (inverseSum op.run - zeroCount op.run),
          state.ez + BitVec.ofNat 32 (zeroCount op.run),
          state.idx + BitVec.ofNat 32 op.run.length⟩ := by
  cases op with
  | zero runlen =>
      simp [sparseRound, Opcode.run, inverseSum_replicate, zeroCount_replicate]
  | xzero runlen =>
      simp [sparseRound, Opcode.run, inverseSum_replicate, zeroCount_replicate]
  | val regval runlen =>
      obtain ⟨⟨positive, small⟩, _⟩ := fits
      have notZero : regval ≠ 0 := Nat.ne_of_gt positive
      have found : power powers regval = .ok (1 / 2 ^ regval) := power_powers (by omega)
      rw [sparseRound, found, ok_andThen, Opcode.run, inverseSum_replicate, zeroCount_replicate,
        if_neg notZero, List.length_replicate, mul_comm (runlen : ℚ)]
      simp

theorem sparseRounds_ok (ops : List Opcode) (fits : ∀ op ∈ ops, op.Fits) (state : SparseState)
    : ops.foldlM (sparseRound powers) state
      = .ok ⟨state.E
            + (inverseSum (ops.flatMap Opcode.run) - zeroCount (ops.flatMap Opcode.run)),
          state.ez + BitVec.ofNat 32 (zeroCount (ops.flatMap Opcode.run)),
          state.idx + BitVec.ofNat 32 (ops.flatMap Opcode.run).length⟩ := by
  induction ops generalizing state with
  | nil => simp [zeroCount, pure, Except.pure]
  | cons op ops ih =>
      rw [List.foldlM_cons, sparseRound_ok (fits op List.mem_cons_self), ok_andThen,
        ih fun other member => fits other (List.mem_cons_of_mem _ member), List.flatMap_cons,
        inverseSum_append, zeroCount_append, List.length_append, BitVec.ofNat_add,
        BitVec.ofNat_add, Nat.cast_add, BitVec.add_assoc, BitVec.add_assoc]
      refine congrArg Except.ok (SparseState.mk.injEq .. |>.mpr ⟨?_, rfl, rfl⟩)
      ring

theorem toInt_zeroCount {regs : List Nat} (few : regs.length ≤ hllRegisters)
    : (BitVec.ofNat 32 (zeroCount regs)).toInt = zeroCount regs := by
  have most : zeroCount regs ≤ regs.length := List.count_le_length
  rw [hllRegisters] at few
  have word : (BitVec.ofNat 32 (zeroCount regs)).toNat = zeroCount regs := by
    rw [BitVec.toNat_ofNat, Nat.mod_eq_of_lt (by omega)]
  rw [BitVec.toInt_eq_toNat_of_lt (by omega), word]

theorem hllSparseSum_ok {data : List UInt8} (valid : ValidSparse data)
    : hllSparseSum data powers
      = .ok ((inverseSum (registersOf data), BitVec.ofNat 32 (zeroCount (registersOf data))),
          true) := by
  have walked := sparseRounds_ok (opcodes data) valid.fits ⟨0, 0, 0⟩
  have counted := toInt_zeroCount valid.covers.le
  rw [registersOf] at counted
  rw [hllSparseSum, (walkOpcodes_eq _ data).1 valid.whole]
  erw [walked]
  rw [ok_andThen]
  have covers := valid.covers
  rw [registersOf] at covers ⊢
  simp [counted, covers, pure, Except.pure]

-- Arrays of bytes

theorem addBytes_ok (bytes : List UInt8) (small : ∀ byte ∈ bytes, byte.toNat < 64)
    (state : ℚ × BitVec 32)
    : addBytes powers state bytes
      = .ok (state.1
            + (inverseSum (bytes.map UInt8.toNat) - zeroCount (bytes.map UInt8.toNat)),
          state.2 + BitVec.ofNat 32 (zeroCount (bytes.map UInt8.toNat))) := by
  induction bytes generalizing state with
  | nil => simp [addBytes, zeroCount]
  | cons byte bytes ih =>
      have later := ih fun other member => small other (List.mem_cons_of_mem _ member)
      rw [addBytes, List.map_cons, inverseSum_cons]
      by_cases zero : byte = 0
      · rw [if_neg (by simpa using zero), later, zero]
        simp only [UInt8.toNat_zero, pow_zero, zeroCount, List.count_cons_self, Nat.cast_add,
          Nat.cast_one, Nat.add_comm _ 1, BitVec.ofNat_add, ← BitVec.add_assoc]
        refine congrArg Except.ok (Prod.mk.injEq .. |>.mpr ⟨?_, rfl⟩)
        ring
      · have some : byte.toNat ≠ 0 := fun none => zero (UInt8.toNat_inj.mp none)
        rw [if_pos zero, power_powers (small byte List.mem_cons_self), ok_andThen, later, zeroCount,
          zeroCount, List.count_cons_of_ne some]
        refine congrArg Except.ok (Prod.mk.injEq .. |>.mpr ⟨?_, rfl⟩)
        ring

theorem rawLoop_ok (rounds : Nat) (registers : List UInt8) (length : registers.length = 8 * rounds)
    (small : ∀ byte ∈ registers, byte.toNat < 64) (state : ℚ × BitVec 32)
    : rawLoop powers rounds registers state
      = .ok (state.1
            + (inverseSum (registers.map UInt8.toNat) - zeroCount (registers.map UInt8.toNat)),
          state.2 + BitVec.ofNat 32 (zeroCount (registers.map UInt8.toNat))) := by
  induction rounds generalizing registers state with
  | zero =>
      obtain rfl := List.length_eq_zero_iff.mp length
      simp [rawLoop, zeroCount]
  | succ rounds ih =>
      have read : readBytes registers 0 8 = .ok (registers.take 8) :=
        if_pos (show 0 + 8 ≤ registers.length by omega)
      have word : (registers.take 8).length = 8 := by
        rw [List.length_take]
        omega
      have parts : registers.map UInt8.toNat
          = (registers.take 8).map UInt8.toNat ++ (registers.drop 8).map UInt8.toNat := by
        rw [← List.map_append, List.take_append_drop]
      have round
          : rawWord powers state (registers.take 8)
            = addBytes powers state (registers.take 8) := by
        rw [rawWord]
        split
        · rename_i zero
          -- A word of zeroes is eight registers that are zero.
          have zeroes : registers.take 8 = List.replicate 8 0 :=
            leValue_inj (by simp [word]) (by rw [zero]; rfl)
          rw [zeroes, addBytes_ok _ (by simp)]
          simp only [List.map_replicate, UInt8.toNat_zero, inverseSum_replicate,
            zeroCount_replicate, if_true]
          norm_num
          rfl
        · rfl
      rw [rawLoop, read, ok_andThen, round,
        addBytes_ok _ (fun byte member => small byte (List.mem_of_mem_take member)), ok_andThen,
        ih _ (by rw [List.length_drop]; omega)
          (fun byte member => small byte (List.mem_of_mem_drop member)),
        parts, inverseSum_append, zeroCount_append, BitVec.ofNat_add, BitVec.add_assoc,
          Nat.cast_add]
      refine congrArg Except.ok (Prod.mk.injEq .. |>.mpr ⟨?_, rfl⟩)
      ring

theorem hllRawSum_ok {registers : List UInt8} (length : registers.length = hllRegisters)
    (small : ∀ byte ∈ registers, byte.toNat < 64)
    : hllRawSum registers powers
      = .ok (inverseSum (registers.map UInt8.toNat),
          BitVec.ofNat 32 (zeroCount (registers.map UInt8.toNat))) := by
  have counted : (BitVec.ofNat 32 (zeroCount (registers.map UInt8.toNat))).toInt
      = zeroCount (registers.map UInt8.toNat) := toInt_zeroCount (by rw [List.length_map, length])
  rw [hllRawSum, rawLoop_ok _ _ (by rw [length]; rfl) small, ok_andThen]
  simp [counted, pure, Except.pure]

-- The sums agree

theorem registers_ext {regs others : List Nat} (length : regs.length = hllRegisters)
    (length' : others.length = hllRegisters)
    (same : ∀ i < hllRegisters, regs.getD i 0 = others.getD i 0)
    : regs = others := by
  refine List.ext_getElem (length.trans length'.symm) fun i inside inside' => ?_
  have here := same i (by omega)
  rwa [List.getD_eq_getElem _ _ inside, List.getD_eq_getElem _ _ inside'] at here

/-- The sums over a dense value, over a sparse value and over the array that `hllMerge` fills see
the same registers: `hllDenseSum` adds what `HLL_DENSE_GET_REGISTER` reads, and for values with the
same registers the three have the same sum and the same number of registers that are zero.
-/
theorem register_sums_agree (regs : List Nat) (length : regs.length = hllRegisters)
    : (∀ data PE, DenseSize data →
        hllDenseSum data PE
          = addRegisters PE (0, 0) ((List.range hllRegisters).map (denseGetRegister data)))
      ∧ (∀ data, DenseSize data → (∀ i < hllRegisters, denseGetRegister data i = regs.getD i 0) →
          hllDenseSum data powers
            = .ok (inverseSum regs, BitVec.ofNat 32 (zeroCount regs)))
      ∧ (∀ data, ValidSparse data → registersOf data = regs →
          hllSparseSum data powers
            = .ok ((inverseSum regs, BitVec.ofNat 32 (zeroCount regs)), true))
      ∧ (∀ s, ValidHll s → (∀ i < hllRegisters, registerAt s i = regs.getD i 0) →
          ∃ maxima,
            hllMerge zeroRegisters s = .ok (some maxima)
            ∧ hllRawSum (maxima.map UInt8.ofNat) powers
              = .ok (inverseSum regs, BitVec.ofNat 32 (zeroCount regs)))
      ∧ (BitVec.ofNat 32 (zeroCount regs)).toInt = zeroCount regs := by
  have dense : ∀ data PE, DenseSize data →
      hllDenseSum data PE
        = addRegisters PE (0, 0) ((List.range hllRegisters).map (denseGetRegister data)) :=
    fun data PE size => denseLoop_eq PE 1024 data (0, 0) size
  refine ⟨dense, ?_, ?_, ?_, toInt_zeroCount length.le⟩
  · intro data size same
    have listed : denseRegisters hllRegisters data = regs := by
      refine registers_ext (by simp [denseRegisters]) length fun i inside => ?_
      rw [← same i inside, denseRegisters, List.getD_eq_getElem _ _ (by simpa using inside)]
      simp
    rw [dense data powers size]
    change addRegisters powers (0, 0) (denseRegisters hllRegisters data) = _
    rw [addRegisters_ok _ _ denseRegisters_lt, listed]
    simp
  · rintro data valid rfl
    exact hllSparseSum_ok valid
  · intro s valid same
    have zeroes : Registers zeroRegisters :=
      ⟨List.length_replicate, fun i => by simp [zeroRegisters, List.getD_eq_getElem?_getD]⟩
    obtain ⟨maxima, merged, ⟨length', small⟩, values⟩ := hllMerge_ok valid zeroes
    have equal : maxima = regs := by
      refine registers_ext length' length fun i inside => ?_
      rw [values i inside, same i inside]
      simp [zeroRegisters, List.getD_eq_getElem?_getD]
    have bytes : ∀ reg ∈ regs, reg < 64 := by
      intro reg member
      obtain ⟨i, inside, rfl⟩ := List.getElem_of_mem member
      have here := small i
      rwa [equal, List.getD_eq_getElem _ _ inside] at here
    have restored : (regs.map UInt8.ofNat).map UInt8.toNat = regs := by
      rw [List.map_map]
      refine (List.map_congr_left fun reg member => ?_).trans (List.map_id regs)
      have here := bytes reg member
      exact Nat.mod_eq_of_lt (by omega)
    refine ⟨maxima, merged, ?_⟩
    rw [equal, hllRawSum_ok (by rw [List.length_map, length]), restored]
    intro byte member
    obtain ⟨reg, inside, rfl⟩ := List.mem_map.mp member
    have here := bytes reg inside
    rw [UInt8.toNat_ofNat', Nat.mod_eq_of_lt (by omega)]
    exact here

/-- Two registers are 3: one `VAL` opcode of length 2, or the first 12 bits of the dense value. -/
theorem register_sums_agree_set
    : hllDenseSum (denseSetRegister (denseSetRegister (List.replicate denseBytes 0) 0 3) 1 3) powers
        = .ok (65529 / 4, 16382)
      ∧ hllSparseSum [0x89, 0x7F, 0xFD] powers = .ok ((65529 / 4, 16382), true)
      ∧ ∃ maxima,
          hllMerge zeroRegisters (createHLLObject.take hllHdrSize ++ [0x89, 0x7F, 0xFD])
            = .ok (some maxima)
          ∧ hllRawSum (maxima.map UInt8.ofNat) powers = .ok (65529 / 4, 16382) := by
  have piece : Piece [0x89, 0x7F, 0xFD] (List.replicate 2 3 ++ List.replicate 16382 0) :=
    (@piece_val 0x89 rfl rfl).append (@piece_xzero 0x7F 0xFD rfl rfl)
  have length : (List.replicate 2 3 ++ List.replicate 16382 0).length = hllRegisters := by
    rw [List.length_append, List.length_replicate, List.length_replicate]
    rfl
  have sparse : ValidSparse [0x89, 0x7F, 0xFD] :=
    .of_registers piece.1 (by rw [piece.2, length])
  have valid : ValidHll (createHLLObject.take hllHdrSize ++ [0x89, 0x7F, 0xFD]) :=
    ⟨by decide, rfl, .inr ⟨rfl, sparse⟩⟩
  have sum : inverseSum (List.replicate 2 3 ++ List.replicate 16382 0) = 65529 / 4 := by
    rw [inverseSum_append, inverseSum_replicate, inverseSum_replicate]
    norm_num
  have zero : BitVec.ofNat 32 (zeroCount (List.replicate 2 3 ++ List.replicate 16382 0))
      = 16382 := by
    rw [zeroCount_append, zeroCount_replicate, zeroCount_replicate]
    rfl
  obtain ⟨_, first, second, third, _⟩ :=
    register_sums_agree (List.replicate 2 3 ++ List.replicate 16382 0) length
  rw [sum, zero] at first second third
  have zeroes : DenseSize (List.replicate denseBytes 0) := List.length_replicate
  refine ⟨first _ (denseSize_set (denseSize_set zeroes 0 3) 1 3) fun i inside => ?_,
    second _ sparse piece.2, third _ valid fun i _ => ?_⟩
  · rw [denseGetRegister_set (denseSize_set zeroes 0 3) (by decide) (by decide),
      denseGetRegister_set zeroes (by decide) (by decide), denseGetRegister_zeroes]
    have read (n : Nat) (i : Nat)
        : (List.replicate 2 3 ++ List.replicate n 0).getD i 0 = if i < 2 then 3 else 0 := by
      rw [List.getD_eq_getElem?_getD, List.getElem?_append, List.getElem?_replicate,
        List.getElem?_replicate]
      grind
    rw [read]
    grind
  · rw [registerAt, if_neg (by decide), ← piece.2]
    rfl

end Redis.Hyperloglog.Rational
