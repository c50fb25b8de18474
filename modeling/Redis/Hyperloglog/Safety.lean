import Redis.Hyperloglog.Refinement

/-! The commands on any strings: a command stays inside the values and the arrays of registers
exactly when the values that it reaches pass a check that the code does not make.
-/

namespace Redis.Hyperloglog

open Redis.Library
open Redis.Keyspace (Sds)

-- Computations that complete

/-- The code completes, without a fault. -/
def Completes {α : Type} (run : Except Fault α) : Prop := ∃ value, run = .ok value

section Completes

variable {α β : Type}

@[simp] theorem completes_ok (value : α) : Completes (.ok value : Except Fault α) := ⟨value, rfl⟩

@[simp] theorem completes_pure (value : α) : Completes (pure value : Except Fault α) := ⟨value, rfl⟩

@[simp] theorem not_completes_error (fault : Fault) : ¬ Completes
    (.error fault : Except Fault α) := by
  rintro ⟨value, run⟩
  cases run

theorem completes_andThen {first : Except Fault α} {next : α → Except Fault β}
    (total : ∀ value, Completes (next value))
    : Completes (first >>= next) ↔ Completes first := by
  cases first with
  | error fault => simp
  | ok value => simpa using total value

end Completes

-- What the code would have to check

/-- The value is not a number whose text is as long as a header. -/
def HeaderReadable : Value → Prop
  | .string (.int value) => (StringObject.int value).text.length < hllHdrSize
  | _ => True

/-- What `isHLLObjectOrReply` asks of a string. -/
structure Accepted (s : Sds) : Prop where
  size : hllHdrSize ≤ s.length
  magic : s.take 4 = magic
  known : encoding s ≤ 1
  dense : encoding s = 0 → s.length = hllHdrSize + denseBytes

/-- The promotion of a value stays inside the registers and meets its assertion. -/
def PromotionSafe (s ele : Sds) : Prop :=
  Walkable (registers s)
  ∧ (EndsWell (registers s) →
    lastStored (hllRegister ele) 0 (registersOf (registers s)) 0 < hllPatLen ele)

/-- An addition stays inside the element if an `int` takes its length. To stay inside a sparse
value, a pattern that no `VAL` can hold needs a value that can be promoted; any other needs whole
opcodes up to the register, and a value that can be promoted when the new opcodes do not fit.
-/
def AdditionSafe (maxBytes : Nat) (s ele : Sds) : Prop :=
  (encoding s ≤ 1 → ele.length < 2 ^ 31)
  ∧ (encoding s = 1 →
    if 32 < hllPatLen ele then PromotionSafe s ele
    else registers s = []
      ∨ ∃ value, (registersOf (registers s))[hllRegister ele]? = some value
        ∧ (value < hllPatLen ele → Overflows maxBytes s ele → PromotionSafe s ele))

/-- Every addition finds a value that is safe for it. -/
def AdditionsSafe (maxBytes : Nat) (s : Sds) : List Sds → Prop
  | [] => True
  | ele :: rest =>
      AdditionSafe maxBytes s ele
      ∧ ∀ retval t, hllAdd maxBytes s ele = .ok (retval, t) → retval ≠ -1 →
        AdditionsSafe maxBytes t rest

section Commands

variable {K : Type} [DecidableEq K]

/-- The values that a merge reaches can be walked. -/
def SourcesSafe (db : K → Option Value) : List K → Prop
  | [] => True
  | key :: rest =>
      match db key with
      | none => SourcesSafe db rest
      | some o =>
          HeaderReadable o
          ∧ ∀ s, o = .string (.sds s) → Accepted s →
            (encoding s = 1 → Walkable (registers s))
            ∧ ((encoding s = 1 → EndsWell (registers s)) → SourcesSafe db rest)

/-- The values that a command reaches are safe for it. -/
def CommandSafe (maxBytes : Nat) (db : K → Option Value) : Command K → Prop
  | .pfadd key elements =>
      (db key = none → ∀ ele ∈ elements, ele.length < 2 ^ 31)
      ∧ ∀ o, db key = some o →
        HeaderReadable o
        ∧ ∀ s, o = .string (.sds s) → Accepted s → AdditionsSafe maxBytes s elements
  | .pfcount key others =>
      if others = [] then
        ∀ o, db key = some o →
          HeaderReadable o
          ∧ ∀ s, o = .string (.sds s) → Accepted s → encoding s = 1 → validCache s = false →
            Whole (countedOpcodes s)
      else SourcesSafe db (key :: others)
  | .pfmerge key sources => SourcesSafe db (key :: sources)

end Commands

-- Operations

theorem encoding_cases {s : Sds} (accepted : Accepted s) : encoding s = 0 ∨ encoding s = 1 := by
  have bound := UInt8.le_iff_toNat_le.mp accepted.known
  rw [show (1 : UInt8).toNat = 1 from rfl] at bound
  rcases Nat.le_one_iff_eq_zero_or_eq_one.mp bound with zero | one
  · exact Or.inl (UInt8.toNat_inj.mp zero)
  · exact Or.inr (UInt8.toNat_inj.mp one)

theorem isHLLObjectOrReply_accepted {s : Sds} (accepted : Accepted s)
    : isHLLObjectOrReply (.string (.sds s)) = .ok (.ok s) := by
  have magic : ¬ s.take 4 ≠ [0x48, 0x59, 0x4C, 0x4C] := not_not.mpr accepted.magic
  have known : ¬ encoding s > 1 := UInt8.not_lt.mpr accepted.known
  have dense : ¬ (encoding s = 0 ∧ s.length ≠ hllHdrSize + denseBytes) :=
    fun differs => differs.2 (accepted.dense differs.1)
  simp only [isHLLObjectOrReply, stringObjectLen, ok_andThen, if_neg (not_lt.mpr accepted.size),
    if_neg magic, if_neg known, if_neg dense, pure, Except.pure]

theorem isHLLObjectOrReply_refused {s : Sds} (refused : ¬ Accepted s)
    : ∃ reply, isHLLObjectOrReply (.string (.sds s)) = .ok (.error reply) := by
  simp only [isHLLObjectOrReply, stringObjectLen, ok_andThen]
  by_cases size : s.length < hllHdrSize
  · exact ⟨_, if_pos size⟩
  rw [if_neg size]
  by_cases magic : s.take 4 ≠ [0x48, 0x59, 0x4C, 0x4C]
  · exact ⟨_, if_pos magic⟩
  rw [if_neg magic]
  by_cases known : encoding s > 1
  · exact ⟨_, if_pos known⟩
  rw [if_neg known]
  by_cases dense : encoding s = 0 ∧ s.length ≠ hllHdrSize + denseBytes
  · exact ⟨_, if_pos dense⟩
  exact absurd ⟨not_lt.mp size, not_not.mp magic, UInt8.not_lt.mp known,
    fun zero => by_contra fun differs => dense ⟨zero, differs⟩⟩ refused

theorem isHLLObjectOrReply_cases (o : Value)
    : (¬ HeaderReadable o ∧ isHLLObjectOrReply o = .error .outOfBounds)
      ∨ (HeaderReadable o ∧ (∃ reply, isHLLObjectOrReply o = .ok (.error reply))
        ∧ ∀ s, o = .string (.sds s) → ¬ Accepted s)
      ∨ (HeaderReadable o ∧ ∃ s, o = .string (.sds s) ∧ Accepted s
        ∧ isHLLObjectOrReply o = .ok (.ok s)) := by
  cases o with
  | other => exact Or.inr (Or.inl ⟨trivial, ⟨_, rfl⟩, fun s same => by cases same⟩)
  | string o =>
      cases o with
      | int value =>
          rw [isHLLObjectOrReply, stringObjectLen_ok, ok_andThen]
          by_cases short : (StringObject.int value).text.length < hllHdrSize
          · rw [if_pos short]
            exact Or.inr (Or.inl ⟨short, ⟨_, rfl⟩, fun s same => by cases same⟩)
          · rw [if_neg short]
            exact Or.inl ⟨short, rfl⟩
      | sds s =>
          by_cases accepted : Accepted s
          · exact Or.inr (Or.inr ⟨trivial, s, rfl, accepted, isHLLObjectOrReply_accepted accepted⟩)
          · exact Or.inr (Or.inl ⟨trivial, isHLLObjectOrReply_refused accepted,
              fun t same => by cases same; exact accepted⟩)

section Additions

variable {maxBytes : Nat} {s ele : Sds}

theorem promoteAdd_completes (size : hllHdrSize ≤ s.length) (sparse : encoding s = 1)
    : Completes (promoteAdd s ele) ↔ PromotionSafe s ele := by
  have notDense : encoding s ≠ 0 := by
    rw [sparse]
    decide
  by_cases walkable : Walkable (registers s)
  · rw [promoteAdd_walkable size notDense walkable, PromotionSafe]
    split
    · rename_i endsWell
      split
      · rename_i less
        exact iff_of_true (completes_ok _) ⟨walkable, fun _ => less⟩
      · rename_i notLess
        exact iff_of_false (not_completes_error _) fun safe => notLess (safe.2 endsWell)
    · rename_i endsBadly
      exact iff_of_true (completes_ok _) ⟨walkable, fun endsWell => absurd endsWell endsBadly⟩
  · rw [promoteAdd_unwalkable notDense walkable]
    exact iff_of_false (not_completes_error _) fun safe => walkable safe.1

theorem hllAdd_completes (size : hllHdrSize ≤ s.length)
    : Completes (hllAdd maxBytes s ele) ↔ AdditionSafe maxBytes s ele := by
  rw [AdditionSafe]
  by_cases long : encoding s ≤ 1 ∧ 2 ^ 31 ≤ ele.length
  · rw [hllAdd_long long.1 maxBytes long.2]
    exact iff_of_false (not_completes_error _) fun safe => not_lt.mpr long.2 (safe.1 long.1)
  have short : encoding s ≤ 1 → ele.length < 2 ^ 31 := fun known =>
    not_le.mp fun large => long ⟨known, large⟩
  rw [hllAdd, if_neg long, and_iff_right short]
  by_cases dense : encoding s = 0
  · rw [if_pos dense]
    exact iff_of_true (completes_ok _) fun sparse => by rw [dense] at sparse; cases sparse
  rw [if_neg dense]
  by_cases sparse : encoding s = 1
  · rw [if_pos sparse]
    simp only [sparse, forall_const]
    by_cases long : 32 < hllPatLen ele
    · rw [if_pos long, hllSparseAdd_long long, promoteAdd_completes size sparse]
    rw [if_neg long]
    by_cases empty : registers s = []
    · rw [hllSparseAdd_empty (not_lt.mp long) empty]
      exact iff_of_true (completes_ok _) (Or.inl empty)
    rcases Nat.lt_or_ge (hllRegister ele) (registersOf (registers s)).length with inside | short
    · have register := List.getElem?_eq_getElem inside
      simp only [empty, false_or, register, Option.some.injEq, exists_eq_left']
      rcases Nat.lt_or_ge (registersOf (registers s))[hllRegister ele] (hllPatLen ele)
        with less | large
      · obtain ⟨promotes, replaces⟩ :=
          @hllSparseAdd_raises maxBytes _ _ (not_lt.mp long) _ register less
        by_cases overflows : Overflows maxBytes s ele
        · rw [promotes overflows, promoteAdd_completes size sparse]
          exact ⟨fun safe _ _ => safe, fun safe => safe less overflows⟩
        · obtain ⟨data, ran, -⟩ := replaces overflows
          rw [ran]
          exact iff_of_true (completes_ok _) fun _ overflows' => absurd overflows' overflows
      · rw [hllSparseAdd_unchanged (not_lt.mp long) register large]
        exact iff_of_true (completes_ok _) fun less => absurd less (not_lt.mpr large)
    · rw [hllSparseAdd_short (not_lt.mp long) empty short]
      refine iff_of_false (not_completes_error _) ?_
      rintro (isEmpty | ⟨value, register, -⟩)
      · exact empty isEmpty
      · exact absurd (List.getElem?_eq_some_iff.mp register).1 (not_lt.mpr short)
  · rw [if_neg sparse]
    exact iff_of_true (completes_ok _) fun isSparse => absurd isSparse sparse

theorem hllAdd_size (size : hllHdrSize ≤ s.length) {retval : Int} {t : Sds}
    (ran : hllAdd maxBytes s ele = .ok (retval, t))
    : hllHdrSize ≤ t.length := by
  have promotion : ∀ {retval t}, encoding s ≠ 0 → promoteAdd s ele = .ok (retval, t) →
      hllHdrSize ≤ t.length := by
    intro retval t notDense ran
    by_cases walkable : Walkable (registers s)
    · rw [promoteAdd_walkable size notDense walkable] at ran
      split at ran
      · split at ran
        · cases ran
          exact (sameHeader_withRegisters (converted_spec size walkable.2).1 _).1.size
        · cases ran
      · cases ran
        exact size
    · rw [promoteAdd_unwalkable notDense walkable] at ran
      cases ran
  rw [hllAdd] at ran
  split at ran
  · cases ran
  split at ran
  · cases ran
    exact (sameHeader_withRegisters size _).1.size
  rename_i notDense
  split at ran
  · rw [hllSparseAdd] at ran
    split at ran
    · exact promotion notDense ran
    split at ran
    · cases ran
      exact size
    obtain ⟨found, -, step⟩ := andThen_ok_iff.mp ran
    split at step
    · cases step
      exact size
    · cases step
      exact (sameHeader_invalidateCache (sameHeader_withRegisters size _).1.size).1.size
    · exact promotion notDense step
  · cases ran
    exact size

theorem addElements_completes (size : hllHdrSize ≤ s.length) (updated : Nat) (elements : List Sds)
    : Completes (addElements maxBytes updated s elements) ↔ AdditionsSafe maxBytes s elements := by
  induction elements generalizing s updated with
  | nil => exact iff_of_true (completes_ok _) trivial
  | cons ele rest ih =>
      rw [addElements, AdditionsSafe, ← hllAdd_completes size]
      cases ran : hllAdd maxBytes s ele with
      | error fault => simp
      | ok result =>
          obtain ⟨retval, t⟩ := result
          rw [ok_andThen]
          by_cases invalid : retval = -1
          · simp [invalid]
          · simp only [if_neg invalid, ih (hllAdd_size size ran), completes_ok, true_and]
            constructor
            · intro safe retval' t' same _
              cases same
              exact safe
            · exact fun safe => safe retval t rfl invalid

end Additions

section Merges

variable {s : Sds} {maxima : List Nat}

theorem storeRun_registers {start : Nat} {regs : List Nat} (array : Registers maxima)
    (inside : InsideFrom start regs) (fits : ∀ val ∈ regs, val < 64)
    : Registers (storeRun raiseRegister start regs maxima) := by
  induction regs generalizing start maxima with
  | nil => exact array
  | cons val rest ih =>
      obtain ⟨first, others⟩ := (insideFrom_cons _ _ _).mp inside
      rw [storeRun]
      refine ih ?_ others fun val member => fits val (List.mem_cons_of_mem _ member)
      split
      · exact array
      · rename_i notZero
        exact (raiseRegister_spec array (first notZero) (fits val List.mem_cons_self)).1

theorem hllMerge_cases (accepted : Accepted s) (array : Registers maxima)
    : ((encoding s = 1 ∧ ¬ Walkable (registers s)) ∧ hllMerge maxima s = .error .outOfBounds)
      ∨ ((encoding s = 1 → Walkable (registers s))
        ∧ ((¬ (encoding s = 1 → EndsWell (registers s)) ∧ hllMerge maxima s = .ok none)
          ∨ ((encoding s = 1 → EndsWell (registers s))
            ∧ ∃ merged, hllMerge maxima s = .ok (some merged) ∧ Registers merged))) := by
  rcases encoding_cases accepted with dense | sparse
  · have size : DenseSize (registers s) := by
      rw [DenseSize, registers, List.length_drop, accepted.dense dense, Nat.add_sub_cancel_left]
    have notSparse {P : Prop} : encoding s = 1 → P :=
      fun sparse => by rw [dense] at sparse; cases sparse
    obtain ⟨merged, ran, kept, -⟩ :=
      hllMerge_ok ⟨accepted.size, accepted.magic, Or.inl ⟨dense, size⟩⟩ array
    exact Or.inr ⟨notSparse, Or.inr ⟨notSparse, merged, ran, kept⟩⟩
  · have notDense : encoding s ≠ 0 := by
      rw [sparse]
      decide
    rw [hllMerge, if_neg notDense]
    by_cases walkable : Walkable (registers s)
    · rw [fillRegisters_ok walkable]
      refine Or.inr ⟨fun _ => walkable, ?_⟩
      by_cases endsWell : EndsWell (registers s)
      · rw [if_pos endsWell]
        exact Or.inr ⟨fun _ => endsWell, _, rfl,
          storeRun_registers array walkable.2 mem_registersOf_lt⟩
      · rw [if_neg endsWell]
        exact Or.inl ⟨fun all => endsWell (all sparse), rfl⟩
    · rw [fillRegisters_error walkable]
      exact Or.inl ⟨⟨sparse, walkable⟩, rfl⟩

end Merges

section Commands

variable {K : Type} {db : K → Option Value} {maxima : List Nat}

theorem mergeKeys_cases (array : Registers maxima) (keys : List K)
    : (¬ SourcesSafe db keys ∧ ∃ fault, mergeKeys db maxima keys = .error fault)
      ∨ (SourcesSafe db keys
        ∧ ((∃ reply, mergeKeys db maxima keys = .ok (.error reply))
          ∨ ∃ merged, mergeKeys db maxima keys = .ok (.ok merged) ∧ Registers merged)) := by
  induction keys generalizing maxima with
  | nil => exact Or.inr ⟨trivial, Or.inr ⟨maxima, rfl, array⟩⟩
  | cons key rest ih =>
      rw [mergeKeys, SourcesSafe]
      cases db key with
      | none => exact ih array
      | some o =>
          simp only
          rcases isHLLObjectOrReply_cases o
            with ⟨unreadable, ran⟩ | ⟨readable, ⟨reply, ran⟩, refused⟩
              | ⟨readable, s, rfl, accepted, ran⟩
          · exact Or.inl ⟨fun safe => unreadable safe.1, _, by rw [ran]; rfl⟩
          · exact Or.inr ⟨⟨readable, fun s same accepted => absurd accepted (refused s same)⟩,
              Or.inl ⟨reply, by rw [ran]; rfl⟩⟩
          · rw [ran, ok_andThen]
            rcases hllMerge_cases accepted array
              with ⟨⟨sparse, unwalkable⟩, merge⟩
                | ⟨walkable, ⟨endsBadly, merge⟩ | ⟨endsWell, next, merge, kept⟩⟩
            · simp only [merge, error_andThen]
              exact Or.inl
                ⟨fun safe => unwalkable ((safe.2 s rfl accepted).1 sparse), Fault.outOfBounds, rfl⟩
            · simp only [merge, ok_andThen]
              refine Or.inr ⟨⟨readable, fun t same _ => ?_⟩, Or.inl ⟨_, rfl⟩⟩
              cases same
              exact ⟨walkable, fun endsWell => absurd endsWell endsBadly⟩
            · simp only [merge, ok_andThen]
              have later : (HeaderReadable (.string (.sds s))
                    ∧ ∀ t, Value.string (.sds s) = .string (.sds t) → Accepted t →
                      (encoding t = 1 → Walkable (registers t))
                      ∧ ((encoding t = 1 → EndsWell (registers t)) → SourcesSafe db rest))
                  ↔ SourcesSafe db rest := by
                constructor
                · exact fun safe => (safe.2 s rfl accepted).2 endsWell
                · refine fun safe => ⟨readable, fun t same _ => ?_⟩
                  cases same
                  exact ⟨walkable, fun _ => safe⟩
              rw [later]
              exact ih kept

theorem mergeKeys_head {key : K} {rest : List K} {merged : List Nat} (array : Registers maxima)
    (ran : mergeKeys db maxima (key :: rest) = .ok (.ok merged))
    : db key = none ∨ ∃ s, db key = some (.string (.sds s)) ∧ Accepted s
        ∧ (encoding s = 1 → Walkable (registers s)) := by
  rw [mergeKeys] at ran
  cases found : db key with
  | none => exact Or.inl rfl
  | some o =>
      rw [found] at ran
      simp only at ran
      rcases isHLLObjectOrReply_cases o
        with ⟨-, check⟩ | ⟨-, ⟨reply, check⟩, -⟩ | ⟨-, s, rfl, accepted, check⟩
      · rw [check] at ran
        cases ran
      · rw [check] at ran
        cases ran
      · refine Or.inr ⟨s, rfl, accepted, ?_⟩
        rw [check, ok_andThen] at ran
        rcases hllMerge_cases accepted array with ⟨-, merge⟩ | ⟨walkable, -⟩
        · simp only [merge] at ran
          cases ran
        · exact walkable

variable [DecidableEq K] {server : Server K}

theorem pfaddTo_completes (server : Server K) (maxBytes : Nat) (key : K) (updated : Nat) {s : Sds}
    (size : hllHdrSize ≤ s.length) (elements : List Sds)
    : Completes (pfaddTo maxBytes server key updated s elements)
      ↔ AdditionsSafe maxBytes s elements := by
  rw [pfaddTo, completes_andThen, addElements_completes size]
  rintro ⟨count, t⟩
  cases count with
  | none => exact completes_ok _
  | some count =>
      by_cases none : count = 0
      · simp [none]
      · simp [none]

theorem pfaddCommand_completes (server : Server K) (maxBytes : Nat) (key : K) (elements : List Sds)
    : Completes (pfaddCommand maxBytes server key elements)
      ↔ CommandSafe maxBytes server.db (.pfadd key elements) := by
  rw [pfaddCommand, CommandSafe]
  cases found : server.db key with
  | none =>
      simp only [pfaddTo_completes server maxBytes key 1 createHLLObject_valid.1.size,
        ← addElements_completes createHLLObject_valid.1.size 1]
      constructor
      · rintro ⟨result, ran⟩
        exact ⟨fun _ => addElements_short createHLLObject_valid.1 ran,
          fun o impossible => by cases impossible⟩
      · intro safe
        obtain ⟨count, t, ran, -⟩ :=
          addElements_ok createHLLObject_valid.1 maxBytes 1 (safe.1 trivial)
        exact ⟨_, ran⟩
  | some o =>
      simp only [reduceCtorEq, false_implies, true_and, Option.some.injEq, forall_eq']
      rcases isHLLObjectOrReply_cases o
        with ⟨unreadable, ran⟩ | ⟨readable, ⟨reply, ran⟩, refused⟩
          | ⟨readable, s, rfl, accepted, ran⟩
      · rw [ran]
        exact iff_of_false (not_completes_error _) fun safe => unreadable safe.1
      · rw [ran]
        exact iff_of_true (completes_ok _)
          ⟨readable, fun s same accepted => absurd accepted (refused s same)⟩
      · rw [ran, ok_andThen]
        simp only [pfaddTo_completes server maxBytes key 0 accepted.size]
        constructor
        · intro safe
          refine ⟨readable, fun t same _ => ?_⟩
          cases same
          exact safe
        · exact fun safe => safe.2 s rfl accepted

theorem pfcountOne_completes (server : Server K) (estimate : Terms → UInt64) (key : K)
    : Completes (pfcountOne estimate server key)
      ↔ ∀ o, server.db key = some o →
          HeaderReadable o
          ∧ ∀ s, o = .string (.sds s) → Accepted s → encoding s = 1 → validCache s = false →
            Whole (countedOpcodes s) := by
  rw [pfcountOne]
  cases found : server.db key with
  | none => exact iff_of_true (completes_ok _) fun o impossible => by cases impossible
  | some o =>
      simp only [Option.some.injEq, forall_eq']
      rcases isHLLObjectOrReply_cases o
        with ⟨unreadable, ran⟩ | ⟨readable, ⟨reply, ran⟩, refused⟩
          | ⟨readable, s, rfl, accepted, ran⟩
      · rw [ran]
        exact iff_of_false (not_completes_error _) fun safe => unreadable safe.1
      · rw [ran]
        exact iff_of_true (completes_ok _)
          ⟨readable, fun s same accepted => absurd accepted (refused s same)⟩
      · rw [ran, ok_andThen]
        simp only
        cases cached : validCache s with
        | true =>
            refine iff_of_true (completes_ok _) ⟨readable, fun t same _ _ stale => ?_⟩
            cases same
            rw [cached] at stale
            cases stale
        | false =>
            have counts : Completes (hllCount estimate s)
                ↔ (encoding s = 1 → Whole (countedOpcodes s)) := by
              by_cases whole : encoding s = 1 → Whole (countedOpcodes s)
              · refine iff_of_true (hllCount_whole estimate fun notDense => ?_) whole
                exact whole ((encoding_cases accepted).resolve_left notDense)
              · refine iff_of_false ?_ whole
                push Not at whole
                rw [hllCount_cut estimate (by rw [whole.1]; decide) whole.2]
                exact not_completes_error _
            rw [if_neg (by decide), completes_andThen, counts]
            · constructor
              · intro safe
                refine ⟨readable, fun t same _ sparse _ => ?_⟩
                cases same
                exact safe sparse
              · exact fun safe sparse => safe.2 s rfl accepted sparse cached
            · intro result
              cases result <;> exact completes_ok _

theorem pfcountCommand_completes (server : Server K) (maxBytes : Nat) (estimate : Terms → UInt64)
    (key : K) (others : List K)
    : Completes (pfcountCommand estimate server key others)
      ↔ CommandSafe maxBytes server.db (.pfcount key others) := by
  rw [pfcountCommand, CommandSafe]
  split
  · exact pfcountOne_completes server estimate key
  · rcases @mergeKeys_cases K server.db _ registers_zero (key :: others)
      with ⟨unsafeSource, fault, ran⟩ | ⟨safe, ⟨reply, ran⟩ | ⟨merged, ran, array⟩⟩
    · rw [ran]
      exact iff_of_false (not_completes_error _) unsafeSource
    · rw [ran]
      exact iff_of_true (completes_ok _) safe
    · obtain ⟨card, counted⟩ := hllRawCount_ok estimate array
      rw [ran, ok_andThen]
      simp only [counted, ok_andThen]
      exact iff_of_true (completes_ok _) safe

theorem pfmergeTo_completes (server : Server K) (key : K) {s : Sds} (merged : List Nat)
    (walkable : encoding s ≠ 0 → Walkable (registers s))
    : Completes (pfmergeTo server key s merged) := by
  rw [pfmergeTo, completes_andThen]
  · by_cases dense : encoding s = 0
    · rw [hllSparseToDense, if_pos dense]
      exact completes_ok _
    · rw [hllSparseToDense_walkable dense (walkable dense)]
      exact completes_ok _
  · intro dense
    cases dense <;> exact completes_ok _

theorem pfmergeCommand_completes (server : Server K) (maxBytes : Nat) (key : K) (sources : List K)
    : Completes (pfmergeCommand server key sources)
      ↔ CommandSafe maxBytes server.db (.pfmerge key sources) := by
  rw [pfmergeCommand, CommandSafe]
  rcases @mergeKeys_cases K server.db _ registers_zero (key :: sources)
    with ⟨unsafeSource, fault, ran⟩ | ⟨safe, ⟨reply, ran⟩ | ⟨merged, ran, array⟩⟩
  · rw [ran]
    exact iff_of_false (not_completes_error _) unsafeSource
  · rw [ran]
    exact iff_of_true (completes_ok _) safe
  · refine iff_of_true ?_ safe
    rw [ran, ok_andThen]
    rcases mergeKeys_head registers_zero ran with missing | ⟨s, found, accepted, walkable⟩
    · simp only [missing]
      refine pfmergeTo_completes server key merged fun notDense => ?_
      rcases createHLLObject_valid.1.data with ⟨dense, -⟩ | ⟨-, data⟩
      · exact absurd dense notDense
      · exact data.walkable
    · simp only [found]
      exact pfmergeTo_completes server key merged fun notDense =>
        walkable ((encoding_cases accepted).resolve_left notDense)

/-- A command completes, or replies with an error, exactly when the values it reaches are safe. -/
theorem hyperloglog_completes_iff (server : Server K) (maxBytes : Nat) (estimate : Terms → UInt64)
    (command : Command K)
    : Completes (runCommand maxBytes estimate server command)
      ↔ CommandSafe maxBytes server.db command := by
  cases command with
  | pfadd key elements => exact pfaddCommand_completes server maxBytes key elements
  | pfcount key others => exact pfcountCommand_completes server maxBytes estimate key others
  | pfmerge key sources => exact pfmergeCommand_completes server maxBytes key sources

end Commands

/-- `PFCOUNT` of a number of 16 digits reads a header at the address that is the number, and a merge
of a forged value with a `VAL` opcode behind the last register writes behind the array.
-/
theorem hyperloglog_faults
    : ¬ Completes (runCommand 3000 (fun _ => 0)
        (⟨fun _ => some (.string (.int 1000000000000000)), 0, []⟩ : Server Nat) (.pfcount 0 []))
      ∧ ¬ Completes (runCommand 3000 (fun _ => 0)
        (⟨fun _ => some (.string (.sds (createHLLObject ++ [0x80]))), 0, []⟩ : Server Nat)
        (.pfmerge 0 [])) := by
  constructor
  · rintro ⟨result, ran⟩
    have refused : isHLLObjectOrReply (.string (.int 1000000000000000)) = .error .outOfBounds := by
      decide
    simp only [runCommand, pfcountCommand, if_pos, pfcountOne, refused, error_andThen] at ran
    cases ran
  · rintro ⟨result, ran⟩
    have accepted : isHLLObjectOrReply (.string (.sds (createHLLObject ++ [0x80])))
        = .ok (.ok (createHLLObject ++ [0x80])) := rfl
    have merge : hllMerge zeroRegisters (createHLLObject ++ [0x80]) = .error .outOfBounds := rfl
    simp only [runCommand, pfmergeCommand, mergeKeys, accepted, ok_andThen, merge,
      error_andThen] at ran
    cases ran

end Redis.Hyperloglog
