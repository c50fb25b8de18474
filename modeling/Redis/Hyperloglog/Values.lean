import Redis.Hyperloglog.SparseAdd

/-! Valid HyperLogLog values: additions, the conversion and the merge keep them valid, and act on
their registers as on an array.
-/

namespace Redis.Hyperloglog

open Redis.Library

variable {data : List UInt8} {maxima : List Nat}

-- Headers

/-- `HYLL`. -/
def magic : List UInt8 := [0x48, 0x59, 0x4C, 0x4C]

/-- Two values agree in the magic and in the encoding, and both have a header. -/
structure SameHeader (s t : List UInt8) : Prop where
  size : hllHdrSize ≤ t.length
  magic : t.take 4 = s.take 4
  encoding : encoding t = encoding s

section Headers

variable {s : List UInt8}

theorem sameHeader_withRegisters (size : hllHdrSize ≤ s.length) (data : List UInt8)
    : SameHeader s (withRegisters s data) ∧ registers (withRegisters s data) = data := by
  have length : (s.take hllHdrSize).length = 16 := by
    rw [List.length_take, min_eq_left size]
    rfl
  refine ⟨⟨?_, ?_, ?_⟩, ?_⟩
  · rw [withRegisters, List.length_append, length, hllHdrSize]
    omega
  · rw [withRegisters, List.take_append_of_le_length (by omega), List.take_take]
    rfl
  · rw [encoding, encoding, withRegisters, List.getD_eq_getElem?_getD, List.getD_eq_getElem?_getD,
      List.getElem?_append_left (by omega), List.getElem?_take_of_lt (by rw [hllHdrSize]; omega)]
  · rw [registers, withRegisters, List.drop_append_of_le_length (by rw [length, hllHdrSize]),
      List.drop_eq_nil_of_le (by rw [length, hllHdrSize]), List.nil_append]

theorem sameHeader_invalidateCache (size : hllHdrSize ≤ s.length)
    : SameHeader s (invalidateCache s) ∧ registers (invalidateCache s) = registers s := by
  refine ⟨⟨by simpa [invalidateCache] using size, ?_, ?_⟩, ?_⟩
  · rw [invalidateCache, List.take_set_of_le (by omega)]
  · simp [encoding, invalidateCache, List.getD_eq_getElem?_getD, List.getElem?_set_ne]
  · rw [registers, registers, invalidateCache, hllHdrSize, List.drop_set_of_lt (by omega)]

theorem sameHeader_setCard (size : hllHdrSize ≤ s.length) (card : UInt64)
    : SameHeader s (setCard s card) ∧ registers (setCard s card) = registers s := by
  rw [hllHdrSize] at size
  have length : (s.take 8).length = 8 := by
    rw [List.length_take]
    omega
  refine ⟨⟨?_, ?_, ?_⟩, ?_⟩
  · simp only [setCard, List.length_append, length, List.length_map, List.length_range, hllHdrSize]
    omega
  · rw [setCard, List.append_assoc, List.take_append_of_le_length (by omega), List.take_take]
    rfl
  · rw [encoding, encoding, setCard, List.getD_eq_getElem?_getD, List.getD_eq_getElem?_getD,
      List.append_assoc, List.getElem?_append_left (by omega), List.getElem?_take_of_lt (by omega)]
  · rw [registers, setCard, hllHdrSize, List.drop_append_of_le_length (by simp [length]),
      List.drop_eq_nil_of_le (by simp [length]), List.nil_append]
    rfl

end Headers

-- Valid values

/-- Opcodes that cover exactly the registers. -/
structure ValidSparse (data : List UInt8) : Prop where
  whole : Whole data
  fits : ∀ op ∈ opcodes data, op.Fits
  covers : (registersOf data).length = hllRegisters

structure ValidHll (s : List UInt8) : Prop where
  size : hllHdrSize ≤ s.length
  magic : s.take 4 = magic
  data : (encoding s = 0 ∧ DenseSize (registers s)) ∨ (encoding s = 1 ∧ ValidSparse (registers s))

/-- Register `i` of a value. -/
def registerAt (s : List UInt8) (i : Nat) : Nat :=
  if encoding s = 0 then denseGetRegister (registers s) i
  else (registersOf (registers s)).getD i 0

theorem ValidSparse.of_registers (whole : Whole data)
    (covers : (registersOf data).length = hllRegisters)
    : ValidSparse data := ⟨whole, fits_of_mem, covers⟩

section Valid

variable {s t : List UInt8}

theorem ValidHll.known (valid : ValidHll s) : encoding s ≤ 1 := by
  rcases valid.data with ⟨dense, -⟩ | ⟨sparse, -⟩
  · exact dense.trans_le (by decide)
  · exact sparse.trans_le (by decide)

theorem ValidHll.dense (valid : ValidHll s) (header : SameHeader s t) (dense : encoding s = 0)
    (size : DenseSize (registers t))
    : ValidHll t :=
  ⟨header.size, by rw [header.magic, valid.magic], Or.inl ⟨by rw [header.encoding, dense], size⟩⟩

theorem ValidHll.sparse (valid : ValidHll s) (header : SameHeader s t) (sparse : encoding s = 1)
    (data : ValidSparse (registers t))
    : ValidHll t :=
  ⟨header.size, by rw [header.magic, valid.magic], Or.inr ⟨by rw [header.encoding, sparse], data⟩⟩

/-- Changing the cached cardinality keeps a value valid and its registers. -/
theorem ValidHll.cached (valid : ValidHll s) (header : SameHeader s t)
    (data : registers t = registers s)
    : ValidHll t ∧ registerAt t = registerAt s := by
  constructor
  · refine ⟨header.size, by rw [header.magic, valid.magic], ?_⟩
    rw [header.encoding, data]
    exact valid.data
  · funext i
    rw [registerAt, registerAt, header.encoding, data]

theorem mem_registersOf_le : ∀ val ∈ registersOf data, val ≤ 32 := by
  intro val member
  rw [registersOf, List.mem_flatMap] at member
  obtain ⟨op, inside, member⟩ := member
  have fits := fits_of_mem op inside
  rw [op.run_eq] at member
  rw [List.eq_of_mem_replicate member]
  cases op with
  | zero len | xzero len => simp [Opcode.value]
  | val value len =>
      simp only [Opcode.Fits] at fits
      simp only [Opcode.value]
      omega

theorem mem_registersOf_lt : ∀ val ∈ registersOf data, val < 64 :=
  fun val member => lt_of_le_of_lt (mem_registersOf_le val member) (by omega)

end Valid

-- The walks of valid values

theorem insideFrom_of_length {start : Nat} {regs : List Nat}
    (short : start + regs.length ≤ hllRegisters)
    : InsideFrom start regs := by
  intro i val at_i _
  have below := (List.getElem?_eq_some_iff.mp at_i).1
  rw [hllRegisters] at short ⊢
  omega

theorem ValidSparse.walkable (valid : ValidSparse data) : Walkable data :=
  ⟨valid.whole, insideFrom_of_length (by rw [Nat.zero_add, valid.covers])⟩

theorem ValidSparse.endsWell (valid : ValidSparse data) : EndsWell data := by
  rw [EndsWell, valid.covers]
  rfl

theorem lastStored_eq {start : Nat} {regs : List Nat} (short : start + regs.length ≤ 2 ^ 32)
    (j old : Nat)
    : lastStored j start regs old
      = if start ≤ j ∧ regs.getD (j - start) 0 ≠ 0 then regs.getD (j - start) 0 else old := by
  induction regs generalizing start old with
  | nil => simp [lastStored]
  | cons val rest ih =>
      rw [List.length_cons] at short
      rw [lastStored, ih (by omega), Nat.mod_eq_of_lt (by omega)]
      rcases lt_trichotomy start j with less | rfl | greater
      · rw [show j - start = j - (start + 1) + 1 by omega, List.getD_cons_succ,
          if_neg (show ¬ (val ≠ 0 ∧ start = j) by omega)]
        simp [show start ≤ j by omega, show start + 1 ≤ j by omega]
      · simp [show ¬ start + 1 ≤ start by omega]
      · simp [show ¬ start ≤ j by omega, show ¬ start + 1 ≤ j by omega, show ¬ start = j by omega]

theorem ValidSparse.lastStored (valid : ValidSparse data) (j : Nat)
    : lastStored j 0 (registersOf data) 0 = (registersOf data).getD j 0 := by
  rw [lastStored_eq (by rw [valid.covers, hllRegisters]; omega), Nat.sub_zero]
  split
  · rfl
  · rename_i zero
    simp only [Nat.zero_le, true_and, not_not] at zero
    exact zero.symm

-- Promotion

/-- The dense value that a walk over the opcodes gives. -/
def converted (s : List UInt8) : List UInt8 :=
  withRegisters (s.set 4 0)
    (storeRun denseSetRegister 0 (registersOf (registers s)) (List.replicate denseBytes 0))

section Promotion

variable {s ele : List UInt8}

theorem hllSparseToDense_walkable (sparse : encoding s ≠ 0) (walkable : Walkable (registers s))
    : hllSparseToDense s
      = .ok (if EndsWell (registers s) then some (converted s) else none) := by
  rw [hllSparseToDense, if_neg sparse, fillRegisters_ok walkable, ok_andThen]
  by_cases endsWell : EndsWell (registers s)
  · rw [if_pos endsWell, if_pos endsWell]
    rfl
  · rw [if_neg endsWell, if_neg endsWell]
    rfl

theorem hllSparseToDense_unwalkable (sparse : encoding s ≠ 0)
    (unwalkable : ¬ Walkable (registers s))
    : hllSparseToDense s = .error .outOfBounds := by
  rw [hllSparseToDense, if_neg sparse, fillRegisters_error unwalkable]
  rfl

theorem converted_spec (size : hllHdrSize ≤ s.length)
    (inside : InsideFrom 0 (registersOf (registers s)))
    : hllHdrSize ≤ (converted s).length ∧ (converted s).take 4 = s.take 4
      ∧ encoding (converted s) = 0 ∧ DenseSize (registers (converted s))
      ∧ ∀ j, denseGetRegister (registers (converted s)) j
        = lastStored j 0 (registersOf (registers s)) 0 := by
  have zeroes : DenseSize (List.replicate denseBytes 0) := List.length_replicate
  have stored := denseGetRegister_storeRun inside mem_registersOf_lt zeroes
  have header := sameHeader_withRegisters (s := s.set 4 0) (by simpa using size)
    (storeRun denseSetRegister 0 (registersOf (registers s)) (List.replicate denseBytes 0))
  have here : 4 < s.length := lt_of_lt_of_le (by rw [hllHdrSize]; omega) size
  refine ⟨header.1.size, ?_, ?_, ?_, fun j => ?_⟩
  · rw [converted, header.1.magic, List.take_set_of_le le_rfl]
  · rw [converted, header.1.encoding, encoding, List.getD_eq_getElem?_getD,
      List.getElem?_set_self here]
    rfl
  · rw [converted, header.2]
    exact (stored 0).1
  · rw [converted, header.2, (stored j).2, denseGetRegister_zeroes]

/-- The value that a promotion leaves: the dense one with the element added. -/
def promoted (s ele : List UInt8) : List UInt8 :=
  withRegisters (converted s) (hllDenseAdd (registers (converted s)) ele).2

theorem promoteAdd_walkable (size : hllHdrSize ≤ s.length) (sparse : encoding s ≠ 0)
    (walkable : Walkable (registers s))
    : promoteAdd s ele
      = if EndsWell (registers s) then
          if lastStored (hllRegister ele) 0 (registersOf (registers s)) 0 < hllPatLen ele then
            .ok (1, promoted s ele)
          else .error .assertion
        else .ok (-1, s) := by
  obtain ⟨-, -, -, denseSize, stored⟩ := converted_spec size walkable.2
  rw [promoteAdd, hllSparseToDense_walkable sparse walkable, ok_andThen]
  by_cases endsWell : EndsWell (registers s)
  · rw [if_pos endsWell, if_pos endsWell]
    have grows := (hllDenseAdd_spec denseSize ele).1
    rw [stored] at grows
    by_cases less : lastStored (hllRegister ele) 0 (registersOf (registers s)) 0 < hllPatLen ele
    · rw [if_pos less]
      simp only [if_pos (grows.mpr less), promoted, pure, Except.pure]
    · rw [if_neg less]
      simp only [if_neg (mt grows.mp less)]
  · rw [if_neg endsWell, if_neg endsWell]
    rfl

theorem promoteAdd_unwalkable (sparse : encoding s ≠ 0) (unwalkable : ¬ Walkable (registers s))
    : promoteAdd s ele = .error .outOfBounds := by
  rw [promoteAdd, hllSparseToDense_unwalkable sparse unwalkable]
  rfl

end Promotion

section Operations

variable {maxBytes : Nat} {s ele : List UInt8}

theorem ValidHll.added (valid : ValidHll s) (dense : encoding s = 0) (ele : List UInt8)
    : let t := withRegisters s (hllDenseAdd (registers s) ele).2
      ValidHll t ∧ ∀ i, registerAt t i
        = if i = hllRegister ele then max (registerAt s i) (hllPatLen ele) else registerAt s i := by
  have size : DenseSize (registers s) := by
    rcases valid.data with ⟨-, size⟩ | ⟨sparse, -⟩
    · exact size
    · rw [dense] at sparse
      cases sparse
  have added := hllDenseAdd_spec size ele
  have header := sameHeader_withRegisters valid.size (hllDenseAdd (registers s) ele).2
  refine ⟨valid.dense header.1 dense (by rw [header.2]; exact added.2.1), fun i => ?_⟩
  rw [registerAt, registerAt, header.1.encoding, dense, if_pos rfl, if_pos rfl, header.2,
    added.2.2]

theorem ValidHll.converted (valid : ValidHll s) (sparse : encoding s ≠ 0)
    : ValidHll (converted s) ∧ encoding (converted s) = 0
      ∧ registerAt (converted s) = registerAt s := by
  have data : ValidSparse (registers s) := by
    rcases valid.data with ⟨dense, -⟩ | ⟨-, data⟩
    · exact absurd dense sparse
    · exact data
  obtain ⟨size, magic, dense, denseSize, stored⟩ := converted_spec valid.size data.walkable.2
  refine ⟨⟨size, by rw [magic, valid.magic], Or.inl ⟨dense, denseSize⟩⟩, dense, ?_⟩
  funext i
  rw [registerAt, registerAt, if_pos dense, if_neg sparse, stored, data.lastStored]

theorem hllSparseToDense_ok (valid : ValidHll s)
    : ∃ dense, hllSparseToDense s = .ok (some dense) ∧ ValidHll dense ∧ encoding dense = 0
        ∧ registerAt dense = registerAt s := by
  by_cases dense : encoding s = 0
  · exact ⟨s, by rw [hllSparseToDense, if_pos dense], valid, dense, rfl⟩
  · have data : ValidSparse (registers s) := by
      rcases valid.data with ⟨isDense, -⟩ | ⟨-, data⟩
      · exact absurd isDense dense
      · exact data
    refine ⟨converted s, ?_, valid.converted dense⟩
    rw [hllSparseToDense_walkable dense data.walkable, if_pos data.endsWell]

/-- An addition to a valid value: what it returns, and the value that it leaves. -/
structure Adds (s ele : List UInt8) (retval : Int) (t : List UInt8) : Prop where
  valid : ValidHll t
  grows : retval = 1 ↔ registerAt s (hllRegister ele) < hllPatLen ele
  others : retval = 1 ∨ retval = 0
  register : ∀ i < hllRegisters, registerAt t i
    = if i = hllRegister ele then max (registerAt s i) (hllPatLen ele) else registerAt s i

theorem promoteAdd_adds (valid : ValidHll s) (sparse : encoding s = 1)
    (less : registerAt s (hllRegister ele) < hllPatLen ele)
    : ∃ t, promoteAdd s ele = .ok (1, t) ∧ Adds s ele 1 t := by
  have notDense : encoding s ≠ 0 := by
    rw [sparse]
    decide
  have data : ValidSparse (registers s) := by
    rcases valid.data with ⟨dense, -⟩ | ⟨-, data⟩
    · exact absurd dense notDense
    · exact data
  obtain ⟨convertedValid, dense, same⟩ := valid.converted notDense
  obtain ⟨addedValid, register⟩ := convertedValid.added dense ele
  rw [same] at register
  have register' := less
  rw [registerAt, if_neg notDense, ← data.lastStored] at register'
  refine ⟨promoted s ele, ?_, addedValid, by simpa using less, Or.inl rfl, fun i _ => register i⟩
  rw [promoteAdd_walkable valid.size notDense data.walkable, if_pos data.endsWell,
    if_pos register']

theorem hllSparseAdd_adds (valid : ValidHll s) (sparse : encoding s = 1)
    : ∃ retval t, hllSparseAdd maxBytes s ele = .ok (retval, t) ∧ Adds s ele retval t := by
  have notDense : encoding s ≠ 0 := by
    rw [sparse]
    decide
  have data : ValidSparse (registers s) := by
    rcases valid.data with ⟨dense, -⟩ | ⟨-, data⟩
    · exact absurd dense notDense
    · exact data
  have inside : hllRegister ele < (registersOf (registers s)).length := by
    rw [data.covers]
    exact hllRegister_lt ele
  obtain ⟨value, register⟩ : ∃ value,
      (registersOf (registers s))[hllRegister ele]? = some value :=
    ⟨_, List.getElem?_eq_getElem inside⟩
  have here : registerAt s (hllRegister ele) = value := by
    rw [registerAt, if_neg notDense, List.getD_eq_getElem?_getD, register, Option.getD_some]
  rcases Nat.lt_or_ge 32 (hllPatLen ele) with long | small
  · -- the registers of a sparse value are at most 32
    have less : registerAt s (hllRegister ele) < hllPatLen ele := by
      rw [here]
      have bound := mem_registersOf_le value (List.mem_of_getElem? register)
      omega
    obtain ⟨t, ran, adds⟩ := promoteAdd_adds valid sparse less
    exact ⟨1, t, by rw [hllSparseAdd_long long, ran], adds⟩
  rcases Nat.lt_or_ge value (hllPatLen ele) with less | large
  · obtain ⟨promotes, replaces⟩ := @hllSparseAdd_raises maxBytes s ele small value register less
    by_cases overflows : Overflows maxBytes s ele
    · obtain ⟨t, ran, adds⟩ := promoteAdd_adds valid sparse (by rwa [here])
      exact ⟨1, t, by rw [promotes overflows, ran], adds⟩
    · obtain ⟨next, ran, registers', whole⟩ := replaces overflows
      have header := sameHeader_withRegisters valid.size next
      have cached := sameHeader_invalidateCache header.1.size
      have nextValid : ValidSparse next :=
        .of_registers (whole.mpr data.whole) (by rw [registers', List.length_set, data.covers])
      have placed : ValidHll (withRegisters s next) :=
        valid.sparse header.1 sparse (by rwa [header.2])
      obtain ⟨finalValid, same⟩ := placed.cached cached.1 cached.2
      refine ⟨1, _, ran, finalValid, by simpa [here] using less, Or.inl rfl, fun i below => ?_⟩
      rw [same, registerAt, registerAt, header.1.encoding, if_neg notDense, if_neg notDense,
        header.2, registers', List.getD_eq_getElem?_getD, List.getD_eq_getElem?_getD]
      split
      · subst i
        rw [List.getElem?_set_self inside, register, Option.getD_some, Option.getD_some,
          max_eq_right (le_of_lt less)]
      · rename_i different
        rw [List.getElem?_set_ne (Ne.symm different)]
  · refine ⟨0, s, hllSparseAdd_unchanged small register large, valid,
      by simpa [here] using large, Or.inr rfl, fun i _ => ?_⟩
    split
    · subst i
      rw [here, max_eq_left large]
    · rfl

theorem hllAdd_long (known : encoding s ≤ 1) (maxBytes : Nat) {ele : List UInt8}
    (long : 2 ^ 31 ≤ ele.length)
    : hllAdd maxBytes s ele = .error .outOfBounds :=
  if_pos ⟨known, long⟩

theorem hllAdd_adds (valid : ValidHll s) (maxBytes : Nat) {ele : List UInt8}
    (short : ele.length < 2 ^ 31)
    : ∃ retval t, hllAdd maxBytes s ele = .ok (retval, t) ∧ Adds s ele retval t := by
  rcases valid.data with ⟨dense, size⟩ | ⟨sparse, -⟩
  · obtain ⟨addedValid, register⟩ := valid.added dense ele
    have grows := (hllDenseAdd_spec size ele).1
    refine ⟨_, _, by rw [hllAdd, if_neg (by omega), if_pos dense], addedValid, ?_, ?_, fun i _ =>
      register i⟩
    · rw [registerAt, if_pos dense, ← grows]
      split <;> simp_all
    · split <;> simp
  · rw [hllAdd, if_neg (by omega), if_neg (by rw [sparse]; decide), if_pos sparse]
    exact hllSparseAdd_adds valid sparse

def Registers (maxima : List Nat) : Prop :=
  maxima.length = hllRegisters ∧ ∀ i, maxima.getD i 0 < 64

theorem raiseRegister_spec (array : Registers maxima) {i val : Nat}
    (inside : i < hllRegisters) (fits : val < 64)
    : Registers (raiseRegister maxima i val)
      ∧ ∀ j, (raiseRegister maxima i val).getD j 0
        = if j = i then max (maxima.getD i 0) val else maxima.getD j 0 := by
  have places : ∀ j, (raiseRegister maxima i val).getD j 0
      = if j = i then max (maxima.getD i 0) val else maxima.getD j 0 := by
    intro j
    rw [raiseRegister]
    split
    · rename_i grows
      rw [List.getD_eq_getElem?_getD]
      split
      · subst j
        rw [List.getElem?_set_self (by rwa [array.1]), Option.getD_some]
        exact (max_eq_right (le_of_lt grows)).symm
      · rename_i different
        rw [List.getElem?_set_ne (Ne.symm different), List.getD_eq_getElem?_getD]
    · rename_i stays
      split
      · subst j
        exact (max_eq_left (not_lt.mp stays)).symm
      · rfl
  refine ⟨⟨?_, fun j => ?_⟩, places⟩
  · rw [raiseRegister]
    split
    · rw [List.length_set, array.1]
    · exact array.1
  · rw [places]
    split
    · exact max_lt (array.2 i) fits
    · exact array.2 j

theorem storeRun_raise {maxima regs : List Nat} (array : Registers maxima) {start : Nat}
    (short : start + regs.length ≤ hllRegisters) (fits : ∀ val ∈ regs, val < 64)
    : Registers (storeRun raiseRegister start regs maxima)
      ∧ ∀ j, (storeRun raiseRegister start regs maxima).getD j 0
        = if start ≤ j then max (maxima.getD j 0) (regs.getD (j - start) 0)
          else maxima.getD j 0 := by
  induction regs generalizing start maxima with
  | nil => exact ⟨array, fun j => by simp [storeRun]⟩
  | cons val rest ih =>
      rw [List.length_cons] at short
      have fitsRest : ∀ val ∈ rest, val < 64 := fun val member =>
        fits val (List.mem_cons_of_mem _ member)
      have small : start < 2 ^ 32 := by
        rw [hllRegisters] at short
        omega
      have raised := raiseRegister_spec array (show start < hllRegisters by omega)
        (fits val List.mem_cons_self)
      have here : Registers (if val = 0 then maxima else raiseRegister maxima (start % 2 ^ 32) val)
          ∧ ∀ j, (if val = 0 then maxima else raiseRegister maxima (start % 2 ^ 32) val).getD j 0
            = if j = start then max (maxima.getD start 0) val else maxima.getD j 0 := by
        rw [Nat.mod_eq_of_lt small]
        split
        · rename_i zero
          subst zero
          refine ⟨array, fun j => ?_⟩
          split
          · subst j
            exact (Nat.max_zero _).symm
          · rfl
        · exact raised
      obtain ⟨kept, places⟩ :=
        ih here.1 (show start + 1 + rest.length ≤ hllRegisters by omega) fitsRest
      rw [storeRun]
      refine ⟨kept, fun j => ?_⟩
      rw [places, here.2]
      rcases lt_trichotomy j start with less | rfl | greater
      · simp [show ¬ start ≤ j by omega, show ¬ start + 1 ≤ j by omega, show j ≠ start by omega]
      · simp
      · rw [if_pos (show start + 1 ≤ j by omega), if_pos (show start ≤ j by omega),
          if_neg (show j ≠ start by omega), show j - start = j - (start + 1) + 1 by omega,
          List.getD_cons_succ]

theorem hllMerge_ok (valid : ValidHll s) (array : Registers maxima)
    : ∃ merged, hllMerge maxima s = .ok (some merged) ∧ Registers merged
        ∧ ∀ i < hllRegisters, merged.getD i 0 = max (maxima.getD i 0) (registerAt s i) := by
  rcases valid.data with ⟨dense, size⟩ | ⟨sparse, data⟩
  · have loop := @foldl_range_places _ _
      (fun maxima i => raiseRegister maxima i (denseGetRegister (registers s) i))
      (fun maxima i => maxima.getD i 0) Registers
      (fun i old => max old (denseGetRegister (registers s) i)) hllRegisters
      (fun maxima i below array => raiseRegister_spec array below denseGetRegister_lt) maxima array
    refine ⟨_, by rw [hllMerge, if_pos dense], loop.1, fun i below => ?_⟩
    rw [registerAt, if_pos dense]
    exact (loop.2 i).trans (if_pos below)
  · have notDense : encoding s ≠ 0 := by
      rw [sparse]
      decide
    obtain ⟨kept, places⟩ := storeRun_raise array
      (show 0 + (registersOf (registers s)).length ≤ hllRegisters by rw [data.covers, Nat.zero_add])
      mem_registersOf_lt
    refine ⟨_, ?_, kept, fun i _ => ?_⟩
    · rw [hllMerge, if_neg notDense, fillRegisters_ok data.walkable, if_pos data.endsWell]
    · rw [places, if_pos (Nat.zero_le i), Nat.sub_zero, registerAt, if_neg notDense]

theorem storeRegisters_spec (size : DenseSize data) (array : Registers maxima)
    : DenseSize (storeRegisters data maxima)
      ∧ ∀ i < hllRegisters, denseGetRegister (storeRegisters data maxima) i = maxima.getD i 0 := by
  have loop := @foldl_range_places _ _ (fun data j => denseSetRegister data j (maxima.getD j 0))
    denseGetRegister DenseSize (fun i _ => maxima.getD i 0) hllRegisters
    (fun data i below size =>
      ⟨denseSize_set size _ _, denseGetRegister_set size below (array.2 i)⟩) data size
  exact ⟨loop.1, fun i below => (loop.2 i).trans (if_pos below)⟩

end Operations

section Cardinality

variable {s : List UInt8}

theorem sumOpcode_eq (state : BitVec 32 × Terms) (op : Opcode)
    : sumOpcode state op
      = .ok (state.1 + BitVec.ofNat 32 op.run.length, state.2 ++ [(op.value, op.run.length)]) := by
  cases op <;> simp [sumOpcode, Opcode.run, Opcode.value]

theorem foldlM_sumOpcode (ops : List Opcode) (n : Nat) (terms : Terms)
    : ops.foldlM sumOpcode (BitVec.ofNat 32 n, terms)
      = .ok (BitVec.ofNat 32 (n + (ops.flatMap Opcode.run).length),
          terms ++ ops.map fun op => (op.value, op.run.length)) := by
  induction ops generalizing n terms with
  | nil => simp [pure, Except.pure]
  | cons op rest ih =>
      rw [List.foldlM_cons, sumOpcode_eq, ok_andThen, ← BitVec.ofNat_add, ih, List.flatMap_cons,
        List.length_append, List.map_cons, Nat.add_assoc]
      simp

theorem hllSparseSum_whole (whole : Whole data)
    : let terms := (opcodes data).map fun op => (op.value, op.run.length)
      hllSparseSum data = .ok (terms, decide (EndsWell data)) ∧ lookupPowers terms = .ok terms := by
  have walk := foldlM_sumOpcode (opcodes data) 0 []
  rw [Nat.zero_add, List.nil_append] at walk
  refine ⟨?_, if_pos ?_⟩
  · rw [hllSparseSum, (walkOpcodes_eq _ data).1 whole]
    erw [walk]
    simp only [ok_andThen, ofNat_eq_hllRegisters]
    rfl
  · rw [List.all_eq_true]
    intro term member
    obtain ⟨op, inside, rfl⟩ := List.mem_map.mp member
    have fits := fits_of_mem op inside
    cases op with
    | zero len | xzero len => rfl
    | val value len =>
        simp only [Opcode.Fits] at fits
        exact decide_eq_true (show value < 64 by omega)

theorem hllSparseSum_cut (cut : ¬ Whole data) : hllSparseSum data = .error .outOfBounds := by
  have walk := foldlM_sumOpcode (opcodes data) 0 []
  rw [hllSparseSum, (walkOpcodes_eq _ data).2 cut]
  erw [walk]
  rfl

theorem lookupPowers_dense (data : List UInt8)
    : lookupPowers (hllDenseSum data) = .ok (hllDenseSum data) := by
  refine if_pos ?_
  rw [List.all_eq_true]
  intro term member
  obtain ⟨j, -, rfl⟩ := List.mem_map.mp member
  exact decide_eq_true denseGetRegister_lt

theorem ValidSparse.countedOpcodes (valid : ValidSparse (registers s))
    : countedOpcodes s = registers s := by
  have size := length_le_registersOf valid.whole
  rw [valid.covers, hllRegisters] at size
  exact if_pos (by omega)

theorem hllCount_whole (estimate : Terms → UInt64)
    (whole : encoding s ≠ 0 → Whole (countedOpcodes s))
    : ∃ result, hllCount estimate s = .ok result := by
  rw [hllCount]
  split
  · rw [lookupPowers_dense]
    exact ⟨_, rfl⟩
  · rename_i sparse
    obtain ⟨sum, powers⟩ := hllSparseSum_whole (whole sparse)
    rw [sum, ok_andThen]
    simp only [powers]
    exact ⟨_, rfl⟩

theorem hllCount_cut (estimate : Terms → UInt64) (sparse : encoding s ≠ 0)
    (cut : ¬ Whole (countedOpcodes s))
    : hllCount estimate s = .error .outOfBounds := by
  rw [hllCount, if_neg sparse, hllSparseSum_cut cut]
  rfl

theorem hllRawCount_ok (estimate : Terms → UInt64) (array : Registers maxima)
    : ∃ card, hllRawCount estimate maxima = .ok card := by
  have all : lookupPowers (maxima.map fun reg => (reg, 1))
      = .ok (maxima.map fun reg => (reg, 1)) := by
    refine if_pos ?_
    rw [List.all_eq_true]
    intro term member
    obtain ⟨reg, inside, rfl⟩ := List.mem_map.mp member
    obtain ⟨i, here⟩ := List.mem_iff_getElem?.mp inside
    have small := array.2 i
    rw [List.getD_eq_getElem?_getD, here, Option.getD_some] at small
    exact decide_eq_true small
  rw [hllRawCount, all]
  exact ⟨_, rfl⟩

end Cardinality

end Redis.Hyperloglog
