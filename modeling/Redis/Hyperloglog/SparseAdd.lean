import Redis.Hyperloglog.Filling

/-! `hllSparseAdd` on any string of opcodes: the opcode that it finds, the sequence that it puts in
its place, and the merge of adjacent values, all said by the registers that the bytes stand for.
-/

namespace Redis.Hyperloglog

open Redis.Library

-- The opcode that covers a register

/-- The opcode that covers a register, with the first register that it covers. -/
def coveringFrom (index : Nat) : (first : Nat) → List Opcode → Option (Nat × Opcode)
  | _, [] => none
  | first, op :: rest =>
      if index < first + op.run.length then some (first, op)
      else coveringFrom index (first + op.run.length) rest

/-- The bounds that the bits of an opcode leave. -/
def Opcode.Fits : Opcode → Prop
  | .zero len => 1 ≤ len ∧ len ≤ 64
  | .xzero len => 1 ≤ len ∧ len ≤ 16384
  | .val value len => (1 ≤ value ∧ value ≤ 32) ∧ 1 ≤ len ∧ len ≤ 4

def Opcode.size : Opcode → Nat
  | .xzero _ => 2
  | _ => 1

def Opcode.value : Opcode → Nat
  | .val value _ => value
  | _ => 0

theorem Opcode.run_eq (op : Opcode) : op.run = List.replicate op.run.length op.value := by
  cases op <;> simp [Opcode.run, Opcode.value]

/-- The opcode found is one of the string, between whole opcodes, and covers the register. -/
structure Finds (index : Nat) (data : List UInt8) (found : Located) : Prop where
  bytes : found.before ++ found.prev ++ found.code ++ found.next = data
  wholeBefore : Whole found.before
  wholePrev : Whole found.prev
  code : Piece found.code found.opcode.run
  size : found.code.length = found.opcode.size
  fits : found.opcode.Fits
  first : found.first = (registersOf (found.before ++ found.prev)).length
  low : found.first ≤ index
  high : index < found.first + found.opcode.run.length

/-- The outcome of the search of step 1 in the opcodes from `first` on. -/
def Locates (index first : Nat) (data rest : List UInt8) (result : Except Fault Located) : Prop :=
  (index < first + (registersOf rest).length →
    ∃ found, result = .ok found ∧ Finds index data found
      ∧ coveringFrom index first (opcodes rest) = some (found.first, found.opcode))
  ∧ (first + (registersOf rest).length ≤ index → result = .error .outOfBounds)

theorem fits_zero (p : UInt8) : (Opcode.zero (zeroLen p)).Fits :=
  ⟨by rw [zeroLen]; omega, zeroLen_le p⟩

theorem fits_xzero (p next : UInt8) : (Opcode.xzero (xzeroLen p next)).Fits :=
  ⟨by rw [xzeroLen]; omega, xzeroLen_le⟩

theorem fits_val (p : UInt8) : (Opcode.val (valValue p) (valLen p)).Fits :=
  ⟨⟨by rw [valValue]; omega, valValue_le p⟩, by rw [valLen]; omega, valLen_le p⟩

theorem fits_of_mem {data : List UInt8} : ∀ op ∈ opcodes data, op.Fits := by
  fun_induction opcodes data with
  | case1 => simp
  | case2 p rest zero ih => simpa [fits_zero] using ih
  | case3 p notZero long next rest ih => simpa [fits_xzero] using ih
  | case4 p notZero long => simp
  | case5 p rest notZero notLong ih => simpa [fits_val] using ih

/-- A string begins with a whole opcode, and the search looks at it first. -/
structure Heads (data code : List UInt8) (op : Opcode) (rest : List UInt8) : Prop where
  bytes : data = code ++ rest
  shorter : rest.length < data.length
  piece : Piece code op.run
  size : code.length = op.size
  fits : op.Fits
  opcodes : opcodes data = op :: opcodes rest
  search : ∀ index before prev first,
    locate index before prev first data
    = if index < first + op.run.length then .ok ⟨before, prev, op, code, rest, first⟩
      else locate index (before ++ prev) code (first + op.run.length) rest

theorem heads_or_cut (data : List UInt8)
    : data = [] ∨ (∃ p, data = [p] ∧ isZero p = false ∧ isXzero p = true)
      ∨ ∃ code op rest, Heads data code op rest := by
  have covers (index first len : Nat) (positive : 1 ≤ len)
      : index ≤ first + len - 1 ↔ index < first + len := by omega
  cases data with
  | nil => exact Or.inl rfl
  | cons p rest =>
      cases zero : isZero p with
      | true =>
          refine Or.inr (Or.inr ⟨[p], .zero (zeroLen p), rest, rfl, by simp,
            piece_zero zero, rfl, fits_zero p, (opcodes_zero zero).1, fun index before prev first =>
              ?_⟩)
          rw [locate.eq_def]
          simp [zero, Opcode.run, covers _ _ _ (fits_zero p).1]
      | false =>
          cases long : isXzero p with
          | false =>
              refine Or.inr (Or.inr ⟨[p], .val (valValue p) (valLen p), rest, rfl, by simp,
                piece_val zero long, rfl, fits_val p, (opcodes_val zero long).1,
                fun index before prev first => ?_⟩)
              rw [locate.eq_def]
              simp [zero, isVal_eq, long, Opcode.run, covers _ _ _ (fits_val p).2.1]
          | true =>
              cases rest with
              | nil => exact Or.inr (Or.inl ⟨p, rfl, zero, long⟩)
              | cons next rest =>
                  refine Or.inr (Or.inr ⟨[p, next], .xzero (xzeroLen p next), rest, rfl, by simp,
                    piece_xzero zero long, rfl, fits_xzero p next, (opcodes_xzero next zero long).1,
                    fun index before prev first => ?_⟩)
                  rw [locate.eq_def]
                  simp [zero, isVal_eq, long, Opcode.run, covers _ _ _ (fits_xzero p next).1]

theorem locate_locates {index first : Nat} {before prev : List UInt8}
    (wholeBefore : Whole before) (wholePrev : Whole prev)
    (place : first = (registersOf (before ++ prev)).length) (low : first ≤ index)
    (data : List UInt8)
    : Locates index first (before ++ prev ++ data) data (locate index before prev first data) := by
  rcases heads_or_cut data with rfl | ⟨p, rfl, notZero, long⟩ | ⟨code, op, rest, heads⟩
  · refine ⟨fun inside => ?_, fun _ => rfl⟩
    rw [registersOf_nil, List.length_nil] at inside
    omega
  · constructor
    · intro inside
      rw [registersOf, (opcodes_cut notZero long).1, List.flatMap_nil, List.length_nil] at inside
      omega
    · intro _
      rw [locate.eq_def]
      simp [notZero, isVal_eq, long]
  · have wholeBoth : Whole (before ++ prev) := (whole_append wholeBefore prev).mpr wholePrev
    have total : (registersOf data).length = op.run.length + (registersOf rest).length := by
      rw [heads.bytes, registersOf_append heads.piece.1, heads.piece.2, List.length_append]
    rw [Locates, heads.search, heads.opcodes, coveringFrom, total, ← Nat.add_assoc]
    by_cases covers : index < first + op.run.length
    · -- the opcode in front covers the register
      rw [if_pos covers, if_pos covers]
      refine ⟨fun _ => ⟨_, rfl, ?_, rfl⟩, by omega⟩
      exact ⟨by rw [heads.bytes, List.append_assoc], wholeBefore, wholePrev, heads.piece,
        heads.size, heads.fits, place, low, covers⟩
    · rw [if_neg covers, if_neg covers]
      have following : first + op.run.length = (registersOf (before ++ prev ++ code)).length := by
        rw [registersOf_append wholeBoth, heads.piece.2, List.length_append, place]
      have shorter := heads.shorter
      have later := locate_locates wholeBoth heads.piece.1 following
        (show first + op.run.length ≤ index by omega) rest
      rwa [List.append_assoc _ code, ← heads.bytes] at later
termination_by data.length

-- The sequence in its place

theorem set_replicate {α : Type} (len k : Nat) (inside : k < len) (old new : α)
    : (List.replicate len old).set k new
      = List.replicate k old ++ [new] ++ List.replicate (len - 1 - k) old := by
  obtain ⟨after, rfl⟩ : ∃ after, len = k + (1 + after) := ⟨len - 1 - k, by omega⟩
  rw [← List.replicate_append_replicate, List.set_append_right _ _ (by simp), Nat.add_comm 1 after,
    List.replicate_succ]
  simp

section Split

variable {index count first : Nat} {op : Opcode}

theorem piece_splitSeq (fits : op.Fits) (positive : 1 ≤ count) (small : count ≤ 32)
    (low : first ≤ index) (high : index < first + op.run.length)
    : Piece (splitSeq index count first op) (op.run.set (index - first) count) := by
  have value : Piece [valSet count 1] [count] := piece_valSet positive small (by omega) (by omega)
  cases op with
  | zero len | xzero len =>
      simp only [Opcode.run, List.length_replicate] at high
      have span : len ≤ 16384 := by
        simp only [Opcode.Fits] at fits
        omega
      rw [splitSeq, Opcode.run, set_replicate _ _ (by omega),
        show first + len - 1 - index = len - 1 - (index - first) by omega]
      exact ((piece_zeroSeq (by omega)).append value).append (piece_zeroSeq (by omega))
  | val old len =>
      simp only [Opcode.run, List.length_replicate] at high
      obtain ⟨⟨oldPositive, oldSmall⟩, lenPositive, lenSmall⟩ := fits
      rw [splitSeq, Opcode.run, set_replicate _ _ (by omega),
        show first + len - 1 - index = len - 1 - (index - first) by omega]
      exact ((piece_valSeq oldPositive oldSmall (by omega)).append value).append
        (piece_valSeq oldPositive oldSmall (by omega))

end Split

theorem mergeVals_registers (scanlen : Nat) (data : List UInt8)
    : registersOf (mergeVals scanlen data) = registersOf data
      ∧ (Whole (mergeVals scanlen data) ↔ Whole data) := by
  have behind {code rest rest' : List UInt8} {run : List Nat} (piece : Piece code run)
      (kept : registersOf rest' = registersOf rest ∧ (Whole rest' ↔ Whole rest))
      : registersOf (code ++ rest') = registersOf (code ++ rest)
        ∧ (Whole (code ++ rest') ↔ Whole (code ++ rest)) := by
    rw [registersOf_append piece.1, registersOf_append piece.1, whole_append piece.1,
      whole_append piece.1, kept.1, kept.2]
    exact ⟨rfl, Iff.rfl⟩
  fun_induction mergeVals scanlen data with
  | case1 | case2 => exact ⟨rfl, Iff.rfl⟩
  | case3 scanlen p long second rest ih =>
      have notZero : isZero p = false := by
        cases zero : isZero p with
        | false => rfl
        | true => exact absurd (isXzero_eq_false zero) (by simp [long])
      exact behind (piece_xzero notZero long) ih
  | case4 | case8 => exact ⟨rfl, Iff.rfl⟩
  | case5 scanlen p rest notLong zero ih => exact behind (piece_zero zero) ih
  | case6 scanlen p notLong notZero q after merges ih =>
      obtain ⟨isValue, same, small⟩ := merges
      rw [isVal_eq, Bool.and_eq_true, Bool.not_eq_true', Bool.not_eq_true'] at isValue
      have left := piece_val ((Bool.not_eq_true _).mp notZero) ((Bool.not_eq_true _).mp notLong)
      have right := piece_val isValue.1 isValue.2
      have both := left.append right
      rw [← same, List.replicate_append_replicate] at both
      have merged := piece_valSet (fits_val p).1.1 (fits_val p).1.2
        (Nat.add_pos_left (fits_val p).2.1 (valLen q)) small
      rw [ih.1, ih.2]
      change registersOf ([valSet (valValue p) (valLen p + valLen q)] ++ after)
          = registersOf ([p] ++ [q] ++ after)
        ∧ (Whole ([valSet (valValue p) (valLen p + valLen q)] ++ after)
          ↔ Whole ([p] ++ [q] ++ after))
      rw [registersOf_append merged.1, registersOf_append both.1, whole_append merged.1,
        whole_append both.1, merged.2, both.2]
      exact ⟨rfl, Iff.rfl⟩
  | case7 scanlen p notLong notZero q after differ ih =>
      exact behind (piece_val ((Bool.not_eq_true _).mp notZero) ((Bool.not_eq_true _).mp notLong))
        ih

section Step

variable {maxBytes index count : Nat} {data : List UInt8} {found : Located}

theorem Finds.registers (finds : Finds index data found)
    : registersOf data
      = registersOf (found.before ++ found.prev) ++ found.opcode.run ++ registersOf found.next := by
  have wholeBoth := (whole_append finds.wholeBefore found.prev).mpr finds.wholePrev
  rw [← finds.bytes, List.append_assoc _ found.code, registersOf_append wholeBoth,
    registersOf_append finds.code.1, finds.code.2, List.append_assoc]

theorem Finds.value (finds : Finds index data found)
    : (registersOf data)[index]? = some found.opcode.value := by
  have low := finds.low
  have high := finds.high
  have first := finds.first
  rw [finds.registers, List.append_assoc, List.getElem?_append_right (by omega), ← first,
    List.getElem?_append_left (by omega), found.opcode.run_eq, List.getElem?_replicate,
    if_pos (by omega)]

theorem Finds.replaced (finds : Finds index data found) {seq : List UInt8}
    (piece : Piece seq (found.opcode.run.set (index - found.first) count))
    : registersOf (found.before ++ mergeVals 5 (found.prev ++ seq ++ found.next))
        = (registersOf data).set index count
      ∧ (Whole (found.before ++ mergeVals 5 (found.prev ++ seq ++ found.next)) ↔ Whole data) := by
  have low := finds.low
  have high := finds.high
  have first := finds.first
  have wholeBoth := (whole_append finds.wholeBefore found.prev).mpr finds.wholePrev
  have wholeSeq := (whole_append finds.wholePrev seq).mpr piece.1
  have merged := mergeVals_registers 5 (found.prev ++ seq ++ found.next)
  constructor
  · rw [registersOf_append finds.wholeBefore, merged.1, registersOf_append wholeSeq,
      registersOf_append finds.wholePrev, piece.2, finds.registers,
      registersOf_append finds.wholeBefore]
    rw [registersOf_append finds.wholeBefore] at first
    rw [List.append_assoc _ found.opcode.run, List.set_append_right _ _ (by omega), ← first,
      List.set_append_left _ _ (by omega)]
    simp only [List.append_assoc]
  · rw [whole_append finds.wholeBefore, merged.2, whole_append wholeSeq, ← finds.bytes,
      List.append_assoc _ found.code, whole_append wholeBoth, whole_append finds.code.1]

/-- The sequence is longer than the opcode, and too long for the sparse representation. -/
def Outgrows (maxBytes len index count first : Nat) (op : Opcode) : Prop :=
  op.size < (splitSeq index count first op).length
  ∧ maxBytes < len + ((splitSeq index count first op).length - op.size)

/-- The outcome of a step for a register that is too small. -/
def Raises (maxBytes len index count : Nat) (found : Located) (step : SparseStep) : Prop :=
  (Outgrows maxBytes len index count found.first found.opcode → step = .promote)
  ∧ (¬ Outgrows maxBytes len index count found.first found.opcode →
    ∃ seq, step = .replace seq ∧ Piece seq (found.opcode.run.set (index - found.first) count))

theorem generalStep_raises (finds : Finds index data found) (positive : 1 ≤ count)
    (small : count ≤ 32) (len : Nat)
    : Raises maxBytes len index count found (generalStep maxBytes len index count found) := by
  have split := piece_splitSeq finds.fits positive small finds.low finds.high
  rw [generalStep, finds.size]
  exact ⟨fun outgrows => if_pos outgrows, fun fits => ⟨_, if_neg fits, split⟩⟩

theorem replace_raises (finds : Finds index data found) (positive : 1 ≤ count)
    (small : count ≤ 32) (len : Nat) (one : found.opcode.run.length = 1)
    (byte : found.opcode.size = 1)
    : Raises maxBytes len index count found (.replace [valSet count 1]) := by
  have low := finds.low
  have high := finds.high
  have place : index = found.first := by omega
  have seq : splitSeq index count found.first found.opcode = [valSet count 1] := by
    cases op : found.opcode with
    | zero span | val curval span =>
        rw [op] at one
        simp only [Opcode.run, List.length_replicate] at one
        simp [splitSeq, zeroSeq, valSeq, place, one]
    | xzero span => simp [op, Opcode.size] at byte
  refine ⟨fun outgrows => ?_, fun _ => ⟨_, rfl, ?_⟩⟩
  · have grows := outgrows.1
    rw [seq, byte] at grows
    exact absurd grows (lt_irrefl 1)
  · rw [← seq]
    exact piece_splitSeq finds.fits positive small low high

theorem sparseStep_spec (finds : Finds index data found) (positive : 1 ≤ count)
    (small : count ≤ 32) (len : Nat)
    : (count ≤ found.opcode.value → sparseStep maxBytes len index count found = .unchanged)
      ∧ (found.opcode.value < count →
        Raises maxBytes len index count found (sparseStep maxBytes len index count found)) := by
  have general := @generalStep_raises maxBytes _ _ _ _ finds positive small len
  have replace := @replace_raises maxBytes _ _ _ _ finds positive small len
  rw [sparseStep]
  cases op : found.opcode with
  | zero runlen =>
      refine ⟨fun large => absurd (le_trans positive large) (by simp [Opcode.value]), fun _ => ?_⟩
      by_cases one : runlen = 1
      · simpa [one] using replace (by simp [op, Opcode.run, one]) (by simp [op, Opcode.size])
      · simpa [one] using general
  | xzero runlen =>
      exact ⟨fun large => absurd (le_trans positive large) (by simp [Opcode.value]),
        fun _ => general⟩
  | val oldcount runlen =>
      refine ⟨fun large => if_pos large, fun less => ?_⟩
      have notLarge : ¬ oldcount ≥ count := not_le.mpr less
      by_cases one : runlen = 1
      · simpa [notLarge, one] using replace (by simp [op, Opcode.run, one])
          (by simp [op, Opcode.size])
      · simpa [notLarge, one] using general

end Step

section Outcomes

variable {maxBytes : Nat} {s ele : List UInt8}

/-- The register of an element would need more bytes than the sparse representation may have. -/
def Overflows (maxBytes : Nat) (s ele : List UInt8) : Prop :=
  ∃ first op, coveringFrom (hllRegister ele) 0 (opcodes (registers s)) = some (first, op)
    ∧ Outgrows maxBytes s.length (hllRegister ele) (hllPatLen ele) first op

theorem hllSparseAdd_found
    (inside : hllRegister ele < (registersOf (registers s)).length)
    : ∃ found, locate (hllRegister ele) [] [] 0 (registers s) = .ok found
        ∧ Finds (hllRegister ele) (registers s) found
        ∧ coveringFrom (hllRegister ele) 0 (opcodes (registers s))
          = some (found.first, found.opcode)
        ∧ registers s ≠ [] := by
  have search := (@locate_locates (hllRegister ele) 0 [] [] whole_nil whole_nil rfl (Nat.zero_le _)
    (registers s)).1 (by simpa using inside)
  obtain ⟨found, ran, finds, covering⟩ := search
  refine ⟨found, ran, finds, covering, fun empty => ?_⟩
  rw [empty, registersOf_nil, List.length_nil] at inside
  omega

theorem hllSparseAdd_long (long : 32 < hllPatLen ele)
    : hllSparseAdd maxBytes s ele = promoteAdd s ele := by
  rw [hllSparseAdd, if_pos long]

theorem hllSparseAdd_empty (small : hllPatLen ele ≤ 32) (empty : registers s = [])
    : hllSparseAdd maxBytes s ele = .ok (-1, s) := by
  rw [hllSparseAdd, if_neg (by omega), if_pos empty]

theorem hllSparseAdd_short (small : hllPatLen ele ≤ 32) (notEmpty : registers s ≠ [])
    (short : (registersOf (registers s)).length ≤ hllRegister ele)
    : hllSparseAdd maxBytes s ele = .error .outOfBounds := by
  have search := (@locate_locates (hllRegister ele) 0 [] [] whole_nil whole_nil rfl (Nat.zero_le _)
    (registers s)).2 (by simpa using short)
  rw [hllSparseAdd, if_neg (by omega), if_neg notEmpty, search]
  rfl

theorem hllSparseAdd_unchanged (small : hllPatLen ele ≤ 32) {value : Nat}
    (register : (registersOf (registers s))[hllRegister ele]? = some value)
    (large : hllPatLen ele ≤ value)
    : hllSparseAdd maxBytes s ele = .ok (0, s) := by
  obtain ⟨found, ran, finds, -, notEmpty⟩ :=
    hllSparseAdd_found (List.getElem?_eq_some_iff.mp register).1
  rw [finds.value, Option.some.injEq] at register
  have step := (@sparseStep_spec maxBytes _ _ _ _ finds (hllPatLen_pos ele) small s.length).1
    (by rwa [register])
  rw [hllSparseAdd, if_neg (by omega), if_neg notEmpty, ran, ok_andThen, step]
  rfl

/-- A register that is too small is raised, in a dense value if the bytes overflow. -/
theorem hllSparseAdd_raises (small : hllPatLen ele ≤ 32) {value : Nat}
    (register : (registersOf (registers s))[hllRegister ele]? = some value)
    (less : value < hllPatLen ele)
    : (Overflows maxBytes s ele → hllSparseAdd maxBytes s ele = promoteAdd s ele)
      ∧ (¬ Overflows maxBytes s ele →
        ∃ data,
          hllSparseAdd maxBytes s ele = .ok (1, invalidateCache (withRegisters s data))
          ∧ registersOf data
            = (registersOf (registers s)).set (hllRegister ele) (hllPatLen ele)
          ∧ (Whole data ↔ Whole (registers s))) := by
  obtain ⟨found, ran, finds, covering, notEmpty⟩ :=
    hllSparseAdd_found (List.getElem?_eq_some_iff.mp register).1
  rw [finds.value, Option.some.injEq] at register
  have step := (@sparseStep_spec maxBytes _ _ _ _ finds (hllPatLen_pos ele) small s.length).2
    (by rwa [register])
  have overflows : Overflows maxBytes s ele
      ↔ Outgrows maxBytes s.length (hllRegister ele) (hllPatLen ele) found.first found.opcode := by
    constructor
    · rintro ⟨first, op, covers, outgrows⟩
      rw [covering] at covers
      cases covers
      exact outgrows
    · exact fun outgrows => ⟨_, _, covering, outgrows⟩
  rw [overflows, hllSparseAdd, if_neg (by omega), if_neg notEmpty, ran, ok_andThen]
  constructor
  · intro outgrows
    rw [step.1 outgrows]
  · intro fits
    obtain ⟨seq, replaces, piece⟩ := step.2 fits
    rw [replaces]
    exact ⟨_, rfl, finds.replaced piece⟩

end Outcomes

end Redis.Hyperloglog
