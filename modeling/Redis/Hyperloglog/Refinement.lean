import Redis.Hyperloglog.Values

/-! Runs of the commands on valid values against what each key was given: a register is the maximum
of the starting registers and of the patterns of the elements that reached the key.
-/

namespace Redis.Hyperloglog

open Redis.Library
open Redis.Keyspace (Sds)

-- What a key was given

/-- The largest of some numbers, or 0. -/
def largest (numbers : List Nat) : Nat := numbers.foldr max 0

@[simp] theorem largest_nil : largest [] = 0 := rfl

theorem largest_cons (n : Nat) (rest : List Nat) : largest (n :: rest) = max n (largest rest) := rfl

theorem largest_append (a b : List Nat)
    : largest (a ++ b) = max (largest a) (largest b) := by
  induction a with
  | nil => exact (Nat.zero_max (largest b)).symm
  | cons n rest ih => rw [List.cons_append, largest_cons, largest_cons, ih, ← Nat.max_assoc]

/-- The longest pattern of the elements that hash to a register. -/
def patterns (elements : List Sds) (i : Nat) : Nat :=
  largest ((elements.filter fun ele => hllRegister ele = i).map hllPatLen)

theorem patterns_cons (ele : Sds) (rest : List Sds) (i : Nat)
    : patterns (ele :: rest) i
      = if hllRegister ele = i then max (hllPatLen ele) (patterns rest i)
        else patterns rest i := by
  rw [patterns, List.filter_cons]
  by_cases here : hllRegister ele = i
  · rw [if_pos here, if_pos (by simpa using here), List.map_cons, largest_cons]
    rfl
  · rw [if_neg here, if_neg (by simpa using here)]
    rfl

theorem patterns_append (a b : List Sds) (i : Nat)
    : patterns (a ++ b) i = max (patterns a i) (patterns b i) := by
  rw [patterns, List.filter_append, List.map_append, largest_append]
  rfl

/-- What reached a key: the keys whose starting values did, and the elements. -/
structure Held (K : Type) where
  starts : List K
  elements : List Sds

section Machine

variable {K : Type} [DecidableEq K]

/-- A register of a key, from the starting registers. -/
def Held.register (start : K → Nat → Nat) (held : Held K) (i : Nat) : Nat :=
  max (largest (held.starts.map fun key => start key i)) (patterns held.elements i)

def Held.add (held : Held K) (elements : List Sds) : Held K :=
  { held with elements := held.elements ++ elements }

def Held.union (a b : Held K) : Held K := ⟨a.starts ++ b.starts, a.elements ++ b.elements⟩

/-- What a key holds, nothing for a key that is not there. -/
def heldAt (holdings : K → Option (Held K)) (key : K) : Held K := (holdings key).getD ⟨[], []⟩

/-- What several keys hold together. -/
def heldTogether (holdings : K → Option (Held K)) (keys : List K) : Held K :=
  keys.foldr (fun key rest => (heldAt holdings key).union rest) ⟨[], []⟩

def holdCommand (holdings : K → Option (Held K)) : Command K → K → Option (Held K)
  | .pfadd key elements => Function.update holdings key (some ((heldAt holdings key).add elements))
  | .pfcount _ _ => holdings
  | .pfmerge key sources =>
      Function.update holdings key (some (heldTogether holdings (key :: sources)))

def holdCommands (holdings : K → Option (Held K)) : List (Nat × Command K) → K → Option (Held K)
  | [] => holdings
  | (_, command) :: rest => holdCommands (holdCommand holdings command) rest

/-- Every key holds a valid value, with the registers of what reached it. -/
def Represents (start : K → Nat → Nat) (db : K → Option Value) (holdings : K → Option (Held K))
    : Prop :=
  ∀ key,
    match holdings key with
    | none => db key = none
    | some held =>
        ∃ s, db key = some (.string (.sds s)) ∧ ValidHll s
          ∧ ∀ i < hllRegisters, registerAt s i = held.register start i

/-- The keys of a database hold valid values. -/
def AllValid (db : K → Option Value) : Prop :=
  ∀ key value, db key = some value → ∃ s, value = .string (.sds s) ∧ ValidHll s

/-- The registers at a key at the start. -/
def startRegisters (db : K → Option Value) (key : K) (i : Nat) : Nat :=
  match db key with
  | some (.string (.sds s)) => registerAt s i
  | _ => 0

/-- What the keys hold at the start: their own values. -/
def startHoldings (db : K → Option Value) (key : K) : Option (Held K) :=
  (db key).map fun _ => ⟨[key], []⟩

end Machine

theorem register_add {K : Type} (start : K → Nat → Nat) (held : Held K) (elements : List Sds)
    (i : Nat)
    : (held.add elements).register start i
      = max (held.register start i) (patterns elements i) := by
  rw [Held.register, Held.add, patterns_append, Held.register, Nat.max_assoc]

theorem register_union {K : Type} (start : K → Nat → Nat) (a b : Held K) (i : Nat)
    : (a.union b).register start i = max (a.register start i) (b.register start i) := by
  simp only [Held.register, Held.union, List.map_append, largest_append, patterns_append]
  exact max_max_max_comm _ _ _ _

theorem represents_start {K : Type} {db : K → Option Value} (valid : AllValid db)
    : Represents (startRegisters db) db (startHoldings db) := by
  intro key
  cases found : db key with
  | none => simp [startHoldings, found]
  | some value =>
      obtain ⟨s, rfl, validValue⟩ := valid key value found
      simp only [startHoldings, found, Option.map_some]
      refine ⟨s, rfl, validValue, fun i _ => ?_⟩
      simp [Held.register, startRegisters, found, largest_cons, patterns]

-- The values of commands

theorem createHLLObject_valid
    : ValidHll createHLLObject ∧ ∀ i, registerAt createHLLObject i = 0 := by
  have data : registers createHLLObject = xzeroSet hllRegisters := rfl
  obtain ⟨p, next, bytes, notZero, long, length⟩ :=
    xzeroSet_opcode (show 0 < hllRegisters by decide) le_rfl
  have piece := @piece_xzero p next notZero long
  rw [← bytes, length] at piece
  have sparse : encoding createHLLObject = 1 := rfl
  refine ⟨⟨by decide, rfl, Or.inr ⟨sparse, ?_⟩⟩, fun i => ?_⟩
  · rw [data]
    exact .of_registers piece.1 (by rw [piece.2, List.length_replicate])
  · rw [registerAt, sparse, if_neg (by decide), data, piece.2, List.getD_eq_getElem?_getD,
      List.getElem?_replicate]
    split <;> rfl

theorem isHLLObjectOrReply_valid {s : Sds} (valid : ValidHll s)
    : isHLLObjectOrReply (.string (.sds s)) = .ok (.ok s) := by
  have size := valid.size
  have magic : ¬ s.take 4 ≠ [0x48, 0x59, 0x4C, 0x4C] := not_not.mpr valid.magic
  have coding : ¬ encoding s > 1 := UInt8.not_lt.mpr valid.known
  have length : ¬ (encoding s = 0 ∧ s.length ≠ hllHdrSize + denseBytes) := by
    rintro ⟨dense, differs⟩
    rcases valid.data with ⟨-, data⟩ | ⟨sparse, -⟩
    · rw [DenseSize, registers, List.length_drop] at data
      omega
    · rw [dense] at sparse
      cases sparse
  simp only [isHLLObjectOrReply, stringObjectLen, ok_andThen, if_neg (not_lt.mpr size),
    if_neg magic, if_neg coding, if_neg length, pure, Except.pure]

theorem registers_zero : Registers zeroRegisters := by
  refine ⟨List.length_replicate, fun i => ?_⟩
  rw [zeroRegisters, List.getD_eq_getElem?_getD, List.getElem?_replicate]
  split <;> decide

theorem getD_zeroRegisters (i : Nat) : zeroRegisters.getD i 0 = 0 := by
  rw [zeroRegisters, List.getD_eq_getElem?_getD, List.getElem?_replicate]
  split <;> rfl

section Commands

variable {K : Type} {start : K → Nat → Nat} {holdings : K → Option (Held K)}
  {server : Server K} {db : K → Option Value} {elements : List Sds} {s : Sds}

theorem addElements_ok (valid : ValidHll s) (maxBytes updated : Nat)
    (short : ∀ ele ∈ elements, ele.length < 2 ^ 31)
    : ∃ count t, addElements maxBytes updated s elements = .ok (some count, t) ∧ ValidHll t
        ∧ ∀ i < hllRegisters, registerAt t i = max (registerAt s i) (patterns elements i) := by
  induction elements generalizing updated s with
  | nil => exact ⟨updated, s, rfl, valid, fun i _ => (Nat.max_zero _).symm⟩
  | cons ele rest ih =>
      obtain ⟨here, others⟩ := List.forall_mem_cons.mp short
      obtain ⟨retval, next, ran, adds⟩ := hllAdd_adds valid maxBytes here
      obtain ⟨count, t, rest', valid', register⟩ :=
        ih adds.valid (if retval = 1 then updated + 1 else updated) others
      refine ⟨count, t, ?_, valid', fun i below => ?_⟩
      · have notInvalid : retval ≠ -1 := by
          rcases adds.others with rfl | rfl <;> decide
        rw [addElements, ran, ok_andThen]
        simp only [if_neg notInvalid, rest']
      · rw [register i below, adds.register i below, patterns_cons]
        by_cases here : hllRegister ele = i
        · rw [if_pos here, if_pos here.symm]
          exact Nat.max_assoc _ _ _
        · rw [if_neg here, if_neg (Ne.symm here)]

/-- Elements that were added to a valid value were hashed. -/
theorem addElements_short {maxBytes : Nat} {updated : Nat}
    {result : Option Nat × Sds} (valid : ValidHll s)
    (ran : addElements maxBytes updated s elements = .ok result)
    : ∀ ele ∈ elements, ele.length < 2 ^ 31 := by
  induction elements generalizing updated s with
  | nil => exact fun _ member => absurd member List.not_mem_nil
  | cons ele rest ih =>
      rw [addElements] at ran
      rcases Nat.lt_or_ge ele.length (2 ^ 31) with short | long
      · obtain ⟨retval, next, added, adds⟩ := hllAdd_adds valid maxBytes short
        rw [added, ok_andThen] at ran
        have notInvalid : retval ≠ -1 := by
          rcases adds.others with rfl | rfl <;> decide
        simp only [if_neg notInvalid] at ran
        exact List.forall_mem_cons.mpr ⟨short, ih adds.valid ran⟩
      · rw [hllAdd_long valid.known maxBytes long] at ran
        cases ran

theorem Represents.found (represents : Represents start db holdings) {key : K} {held : Held K}
    (holds : holdings key = some held)
    : ∃ s, db key = some (.string (.sds s)) ∧ ValidHll s
        ∧ ∀ i < hllRegisters, registerAt s i = held.register start i := by
  have here := represents key
  rwa [holds] at here

theorem Represents.missing (represents : Represents start db holdings) {key : K}
    (holds : holdings key = none)
    : db key = none := by
  have here := represents key
  rwa [holds] at here

theorem mergeKeys_ok (represents : Represents start db holdings) {maxima : List Nat}
    (array : Registers maxima) (keys : List K)
    : ∃ merged, mergeKeys db maxima keys = .ok (.ok merged) ∧ Registers merged
        ∧ ∀ i < hllRegisters,
          merged.getD i 0
          = max (maxima.getD i 0) ((heldTogether holdings keys).register start i) := by
  induction keys generalizing maxima with
  | nil => exact ⟨maxima, rfl, array, fun i _ => (Nat.max_zero _).symm⟩
  | cons key rest ih =>
      rw [mergeKeys, heldTogether, List.foldr_cons, ← heldTogether]
      cases holds : holdings key with
      | none =>
          obtain ⟨merged, ran, kept, register⟩ := ih array
          rw [represents.missing holds]
          refine ⟨merged, ran, kept, fun i below => ?_⟩
          rw [register i below, heldAt, holds]
          rfl
      | some held =>
          obtain ⟨s, found, valid, registerHere⟩ := represents.found holds
          obtain ⟨next, here, nextArray, raised⟩ := hllMerge_ok valid array
          obtain ⟨merged, ran, kept, register⟩ := ih nextArray
          simp only [found, isHLLObjectOrReply_valid valid, ok_andThen, here]
          refine ⟨merged, ran, kept, fun i below => ?_⟩
          rw [register i below, raised i below, registerHere i below, register_union, heldAt, holds,
            Option.getD_some]
          exact Nat.max_assoc _ _ _

variable [DecidableEq K]

theorem Represents.update (represents : Represents start db holdings) (key : K)
    {held : Held K} (valid : ValidHll s)
    (register : ∀ i < hllRegisters, registerAt s i = held.register start i)
    : Represents start (Function.update db key (some (.string (.sds s))))
        (Function.update holdings key (some held)) := by
  intro other
  by_cases same : other = key
  · subst other
    simp only [Function.update_self]
    exact ⟨s, rfl, valid, register⟩
  · simpa [same] using represents other

theorem Represents.keep (represents : Represents start db holdings) {key : K}
    {held : Held K} (holds : holdings key = some held) (valid : ValidHll s)
    (register : ∀ i < hllRegisters, registerAt s i = held.register start i)
    : Represents start (Function.update db key (some (.string (.sds s)))) holdings := by
  have updated := represents.update key valid register
  rwa [← holds, Function.update_eq_self] at updated

theorem pfaddTo_represents (represents : Represents start server.db holdings) (maxBytes : Nat)
    (key : K) (updated : Nat) (valid : ValidHll s) (short : ∀ ele ∈ elements, ele.length < 2 ^ 31)
    (register : ∀ i < hllRegisters, registerAt s i = (heldAt holdings key).register start i)
    : ∃ reply next, pfaddTo maxBytes server key updated s elements = .ok (reply, next)
        ∧ Represents start next.db (holdCommand holdings (.pfadd key elements)) := by
  obtain ⟨count, t, ran, validNext, added⟩ := addElements_ok valid maxBytes updated short
  have sums : ∀ i < hllRegisters,
      registerAt t i = ((heldAt holdings key).add elements).register start i := by
    intro i below
    rw [register_add, ← register i below, added i below]
  rw [pfaddTo, ran, ok_andThen]
  by_cases none : count = 0
  · simp only [if_pos none]
    exact ⟨_, _, rfl, represents.update key validNext sums⟩
  · simp only [if_neg none]
    have cached := sameHeader_invalidateCache validNext.size
    obtain ⟨validFinal, same⟩ := validNext.cached cached.1 cached.2
    exact ⟨_, _, rfl, represents.update key validFinal (by rwa [same])⟩

theorem pfaddCommand_represents (represents : Represents start server.db holdings) (maxBytes : Nat)
    (key : K) (short : ∀ ele ∈ elements, ele.length < 2 ^ 31)
    : ∃ reply next, pfaddCommand maxBytes server key elements = .ok (reply, next)
        ∧ Represents start next.db (holdCommand holdings (.pfadd key elements)) := by
  rw [pfaddCommand]
  cases holds : holdings key with
  | none =>
      rw [represents.missing holds]
      refine pfaddTo_represents represents maxBytes key 1 createHLLObject_valid.1 short ?_
      intro i _
      rw [createHLLObject_valid.2, heldAt, holds]
      rfl
  | some held =>
      obtain ⟨s, found, valid, register⟩ := represents.found holds
      simp only [found, isHLLObjectOrReply_valid valid, ok_andThen]
      refine pfaddTo_represents represents maxBytes key 0 valid short ?_
      rw [heldAt, holds]
      exact register

theorem pfcountCommand_represents (represents : Represents start server.db holdings)
    (estimate : Terms → UInt64) (key : K) (others : List K)
    : ∃ reply next, pfcountCommand estimate server key others = .ok (reply, next)
        ∧ Represents start next.db (holdCommand holdings (.pfcount key others)) := by
  rw [pfcountCommand]
  split
  · rw [pfcountOne]
    cases holds : holdings key with
    | none =>
        rw [represents.missing holds]
        exact ⟨_, _, rfl, represents⟩
    | some held =>
        obtain ⟨s, found, valid, register⟩ := represents.found holds
        simp only [found, isHLLObjectOrReply_valid valid, ok_andThen]
        split
        · exact ⟨_, _, rfl, represents.keep holds valid register⟩
        · have whole : encoding s ≠ 0 → Whole (countedOpcodes s) := by
            intro notDense
            rcases valid.data with ⟨dense, -⟩ | ⟨-, data⟩
            · exact absurd dense notDense
            · rw [data.countedOpcodes]
              exact data.whole
          obtain ⟨result, counted⟩ := hllCount_whole estimate whole
          rw [counted, ok_andThen]
          cases result with
          | none => exact ⟨_, _, rfl, represents.keep holds valid register⟩
          | some card =>
              have cached := sameHeader_setCard valid.size card
              obtain ⟨validNext, same⟩ := valid.cached cached.1 cached.2
              exact ⟨_, _, rfl, represents.keep holds validNext (by rwa [same])⟩
  · obtain ⟨merged, ran, array, -⟩ := mergeKeys_ok represents registers_zero (key :: others)
    obtain ⟨card, counted⟩ := hllRawCount_ok estimate array
    simp only [ran, ok_andThen, counted]
    exact ⟨_, _, rfl, represents⟩

theorem pfmergeTo_represents (represents : Represents start server.db holdings) (key : K)
    (sources : List K) (valid : ValidHll s) {merged : List Nat} (array : Registers merged)
    (register : ∀ i < hllRegisters,
      merged.getD i 0 = (heldTogether holdings (key :: sources)).register start i)
    : ∃ reply next, pfmergeTo server key s merged = .ok (reply, next)
        ∧ Represents start next.db (holdCommand holdings (.pfmerge key sources)) := by
  obtain ⟨dense, ran, validDense, isDense, -⟩ := hllSparseToDense_ok valid
  have size : DenseSize (registers dense) := by
    rcases validDense.data with ⟨-, size⟩ | ⟨sparse, -⟩
    · exact size
    · rw [isDense] at sparse
      cases sparse
  obtain ⟨storedSize, stored⟩ := storeRegisters_spec size array
  have header := sameHeader_withRegisters validDense.size (storeRegisters (registers dense) merged)
  have validStored := validDense.dense header.1 isDense (by rwa [header.2])
  have cached := sameHeader_invalidateCache validStored.size
  obtain ⟨validNext, same⟩ := validStored.cached cached.1 cached.2
  rw [pfmergeTo, ran, ok_andThen]
  refine ⟨_, _, rfl, represents.update key validNext fun i below => ?_⟩
  rw [same, registerAt, header.1.encoding, if_pos isDense, header.2, stored i below,
    register i below]

theorem pfmergeCommand_represents (represents : Represents start server.db holdings) (key : K)
    (sources : List K)
    : ∃ reply next, pfmergeCommand server key sources = .ok (reply, next)
        ∧ Represents start next.db (holdCommand holdings (.pfmerge key sources)) := by
  obtain ⟨merged, ran, array, register⟩ := mergeKeys_ok represents registers_zero (key :: sources)
  have merges : ∀ i < hllRegisters,
      merged.getD i 0 = (heldTogether holdings (key :: sources)).register start i := by
    intro i below
    rw [register i below, getD_zeroRegisters, Nat.zero_max]
  rw [pfmergeCommand, ran, ok_andThen]
  cases holds : holdings key with
  | none =>
      simp only [represents.missing holds]
      exact pfmergeTo_represents represents key sources createHLLObject_valid.1 array merges
  | some held =>
      obtain ⟨s, found, valid, -⟩ := represents.found holds
      simp only [found]
      exact pfmergeTo_represents represents key sources valid array merges

/-- The elements that the command adds are shorter than `2 ^ 31` bytes. -/
def Command.Short : Command K → Prop
  | .pfadd _ elements => ∀ ele ∈ elements, ele.length < 2 ^ 31
  | .pfcount .. | .pfmerge .. => True

theorem runCommand_represents (represents : Represents start server.db holdings) (maxBytes : Nat)
    (estimate : Terms → UInt64) {command : Command K} (short : command.Short)
    : ∃ reply next, runCommand maxBytes estimate server command = .ok (reply, next)
        ∧ Represents start next.db (holdCommand holdings command) := by
  cases command with
  | pfadd key elements => exact pfaddCommand_represents represents maxBytes key short
  | pfcount key others => exact pfcountCommand_represents represents estimate key others
  | pfmerge key sources => exact pfmergeCommand_represents represents key sources

theorem runCommands_represents (represents : Represents start server.db holdings)
    (estimate : Terms → UInt64) {commands : List (Nat × Command K)}
    (short : ∀ command ∈ commands, command.2.Short)
    : ∃ final, runCommands estimate server commands = .ok final
        ∧ Represents start final.db (holdCommands holdings commands) := by
  induction commands generalizing server holdings with
  | nil => exact ⟨server, rfl, represents⟩
  | cons first rest ih =>
      obtain ⟨maxBytes, command⟩ := first
      obtain ⟨here, others⟩ := List.forall_mem_cons.mp short
      obtain ⟨reply, next, ran, kept⟩ := runCommand_represents represents maxBytes estimate here
      obtain ⟨final, after, holds⟩ := ih kept others
      exact ⟨final, by rw [runCommands, ran, ok_andThen, after], holds⟩

/-- Additions to valid sparse values raise one register, whether they promote the value or not, and
after any commands on elements that can be hashed every key holds a valid value with the registers
that an array would have.
-/
theorem hyperloglog_registers (server : Server K) (valid : AllValid server.db)
    (estimate : Terms → UInt64) (commands : List (Nat × Command K))
    (short : ∀ command ∈ commands, command.2.Short)
    : (∀ maxBytes s ele, ValidHll s → encoding s = 1 →
        ∃ retval t, hllSparseAdd maxBytes s ele = .ok (retval, t) ∧ Adds s ele retval t)
      ∧ ∃ final, runCommands estimate server commands = .ok final
        ∧ Represents (startRegisters server.db) final.db
          (holdCommands (startHoldings server.db) commands) :=
  ⟨fun _ _ _ validValue sparse => hllSparseAdd_adds validValue sparse,
    runCommands_represents (represents_start valid) estimate short⟩

end Commands

/-- An empty value, that becomes dense with its second element, and a merge into it. -/
theorem hyperloglog_registers_promoted
    : (∃ retval t, hllSparseAdd 20 createHLLObject [0x61] = .ok (retval, t)
        ∧ Adds createHLLObject [0x61] retval t)
      ∧ ∃ final,
        runCommands (fun _ => 0)
          (⟨fun key => if key = 0 then some (.string (.sds createHLLObject)) else none, 0, []⟩
            : Server Nat)
          [(23, .pfadd 0 [[0x61], [0x62]]), (3000, .pfadd 1 [[0x63]]), (3000, .pfmerge 0 [1])]
          = .ok final
        ∧ Represents
          (startRegisters fun key => if key = 0 then some (.string (.sds createHLLObject))
            else none)
          final.db
          (holdCommands
            (startHoldings fun key =>
              if key = 0 then some (.string (.sds createHLLObject)) else none)
            [(23, .pfadd 0 [[0x61], [0x62]]), (3000, .pfadd 1 [[0x63]]), (3000, .pfmerge 0 [1])]) :=
  have valid : AllValid fun key : Nat =>
      if key = 0 then some (.string (.sds createHLLObject)) else none := by
    intro key value found
    dsimp only at found
    split at found
    · exact ⟨createHLLObject, (Option.some.inj found).symm, createHLLObject_valid.1⟩
    · cases found
  have both := hyperloglog_registers
    (⟨fun key => if key = 0 then some (.string (.sds createHLLObject)) else none, 0, []⟩
      : Server Nat) valid (fun _ => 0)
    [(23, .pfadd 0 [[0x61], [0x62]]), (3000, .pfadd 1 [[0x63]]), (3000, .pfmerge 0 [1])]
    (by simp [Command.Short])
  ⟨both.1 20 createHLLObject [0x61] createHLLObject_valid.1 rfl, both.2⟩

/-- An element of `2 ^ 31` bytes is read beyond its end. -/
theorem long_element_not_added
    : ¬ ∃ final, runCommands (fun _ => 0) (⟨fun _ => none, 0, []⟩ : Server Nat)
        [(3000, .pfadd 0 [List.replicate (2 ^ 31) 0])] = .ok final := by
  have long : 2 ^ 31 ≤ (List.replicate (2 ^ 31) (0 : UInt8)).length :=
    (List.length_replicate ..).ge
  generalize List.replicate (2 ^ 31) (0 : UInt8) = ele at long ⊢
  have known : encoding createHLLObject ≤ 1 := by decide
  rintro ⟨final, ran⟩
  rw [runCommands, runCommand, pfaddCommand, pfaddTo, addElements,
    hllAdd_long known 3000 long] at ran
  cases ran

end Redis.Hyperloglog
