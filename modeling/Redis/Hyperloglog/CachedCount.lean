import Redis.Hyperloglog.Refinement

/-! The cardinality in the header of a HyperLogLog value is that of its registers whenever it is
marked valid. A change of the registers marks it invalid, in the value or in the command.
-/

namespace Redis.Hyperloglog

open Redis.Library
open Redis.Keyspace (Sds)

variable {elements : List Sds}

-- The cached cardinality

theorem littleEndian_toNat {data : List UInt8} (short : data.length ≤ 8)
    : (littleEndian data).toNat = leValue data := by
  induction data with
  | nil => rfl
  | cons byte rest ih =>
      rw [List.length_cons] at short
      have high := ih (by omega)
      have bound : leValue rest < 256 ^ 7 :=
        lt_of_lt_of_le (leValue_lt rest) (Nat.pow_le_pow_right (by omega) (by omega))
      have low : byte.toNat < 2 ^ 8 := byte.toNat_lt
      have shifted : leValue rest <<< 8 % 2 ^ 64 = leValue rest <<< 8 := by
        rw [Nat.shiftLeft_eq]
        omega
      have step : littleEndian (byte :: rest) = littleEndian rest <<< 8 ||| byte.toUInt64 := rfl
      rw [step, UInt64.toNat_or, UInt64.toNat_shiftLeft, high, UInt8.toNat_toUInt64, leValue]
      calc leValue rest <<< ((8 : UInt64).toNat % 64) % 2 ^ 64 ||| byte.toNat
          = leValue rest <<< 8 ||| byte.toNat := by rw [← shifted]; rfl
        _ = leValue rest <<< 8 + byte.toNat := (Nat.shiftLeft_add_eq_or_of_lt low _).symm
        _ = byte.toNat + 256 * leValue rest := by rw [Nat.shiftLeft_eq]; omega

theorem leBytes_eq_map (size value : Nat)
    : leBytes size value = (List.range size).map fun i => UInt8.ofNat (value / 256 ^ i) := by
  induction size generalizing value with
  | zero => rfl
  | succ size ih =>
      rw [leBytes, ih, List.range_succ_eq_map, List.map_cons, List.map_map, pow_zero, Nat.div_one]
      refine congrArg _ (List.map_congr_left fun i _ => ?_)
      rw [Function.comp_apply, Nat.div_div_eq_div_mul, ← Nat.pow_succ']

theorem card_setCard {s : Sds} (size : hllHdrSize ≤ s.length) (c : UInt64)
    : card (setCard s c) = c := by
  have front : (s.take 8).length = 8 := by
    rw [hllHdrSize] at size
    rw [List.length_take]
    omega
  have bytes : (List.range 8).map (fun i => (c >>> UInt64.ofNat (8 * i)).toUInt8)
      = leBytes 8 c.toNat := by
    rw [leBytes_eq_map]
    refine List.map_congr_left fun i member => UInt8.toNat.inj ?_
    have small : i < 8 := List.mem_range.mp member
    have shift : (UInt64.ofNat (8 * i)).toNat % 64 = 8 * i := by
      rw [UInt64.toNat_ofNat']
      omega
    rw [UInt64.toNat_toUInt8, UInt64.toNat_shiftRight, shift, Nat.shiftRight_eq_div_pow,
      UInt8.toNat_ofNat', Nat.pow_mul]
  have stored : ((setCard s c).drop 8).take 8 = leBytes 8 c.toNat := by
    rw [setCard, bytes, List.append_assoc, List.drop_append_of_le_length (by rw [front]),
      List.drop_eq_nil_of_le (by rw [front]), List.nil_append,
      List.take_append_of_le_length (by rw [length_leBytes]), List.take_of_length_le]
    rw [length_leBytes]
  refine UInt64.toNat.inj ?_
  rw [card, stored, littleEndian_toNat (by rw [length_leBytes]), leValue_leBytes]
  exact Nat.mod_eq_of_lt c.toNat_lt

theorem validCache_invalidateCache {s : Sds} (size : hllHdrSize ≤ s.length)
    : validCache (invalidateCache s) = false := by
  have inside : 15 < s.length := lt_of_lt_of_le (by rw [hllHdrSize]; omega) size
  have marked : ∀ byte mask : UInt8, (byte ||| mask) &&& mask = mask := by
    intro byte mask
    refine UInt8.eq_of_toBitVec_eq (BitVec.eq_of_getElem_eq fun i below => ?_)
    simp only [UInt8.toBitVec_and, UInt8.toBitVec_or, BitVec.getElem_and, BitVec.getElem_or]
    cases byte.toBitVec[i] <;> cases mask.toBitVec[i] <;> rfl
  rw [validCache, invalidateCache, List.getD_eq_getElem?_getD, List.getElem?_set_self inside,
    Option.getD_some, marked]
  rfl

/-- A valid value whose cached cardinality, when it is marked valid, is the one of its registers. -/
structure Cached (estimate : Terms → UInt64) (s : Sds) : Prop where
  valid : ValidHll s
  current : validCache s → hllCount estimate s = .ok (some (card s))

theorem ValidHll.invalidated {s : Sds} (valid : ValidHll s) (estimate : Terms → UInt64)
    : Cached estimate (invalidateCache s) := by
  have header := sameHeader_invalidateCache valid.size
  refine ⟨(valid.cached header.1 header.2).1, fun marked => ?_⟩
  rw [validCache_invalidateCache valid.size] at marked
  cases marked

-- The cardinality as a function of the registers

/-- The registers that the summands of a cardinality stand for. -/
def registersCounted (terms : Terms) : List Nat :=
  terms.flatMap fun term => List.replicate term.2 term.1

def registerContents (s : Sds) : List Nat := (List.range hllRegisters).map (registerAt s)

theorem registersCounted_ones (value : Nat → Nat) (indexes : List Nat)
    : registersCounted (indexes.map fun i => (value i, 1)) = indexes.map value := by
  induction indexes with
  | nil => rfl
  | cons i rest ih =>
      rw [List.map_cons, registersCounted, List.flatMap_cons, ← registersCounted, ih]
      rfl

theorem map_getD_range (values : List Nat)
    : (List.range values.length).map (fun i => values.getD i 0) = values := by
  refine List.ext_getElem (by simp) fun i below inside => ?_
  rw [List.getElem_map, List.getElem_range, List.getD_eq_getElem?_getD,
    List.getElem?_eq_getElem inside, Option.getD_some]

theorem hllCount_registers {s : Sds} (valid : ValidHll s) (cardinality : List Nat → UInt64)
    : hllCount (fun terms => cardinality (registersCounted terms)) s
      = .ok (some (cardinality (registerContents s))) := by
  rw [hllCount]
  rcases valid.data with ⟨dense, -⟩ | ⟨sparse, data⟩
  · have at_i : registerAt s = denseGetRegister (registers s) := by
      funext i
      rw [registerAt, if_pos dense]
    have counted : registersCounted (hllDenseSum (registers s)) = registerContents s := by
      rw [hllDenseSum, registersCounted_ones, registerContents, at_i]
    rw [if_pos dense, lookupPowers_dense, ok_andThen, counted]
    rfl
  · have notDense : encoding s ≠ 0 := by
      rw [sparse]
      decide
    have at_i : registerAt s = fun i => (registersOf (registers s)).getD i 0 := by
      funext i
      rw [registerAt, if_neg notDense]
    have counted
        : registersCounted ((opcodes (registers s)).map fun op => (op.value, op.run.length))
        = registerContents s := by
      rw [registerContents, at_i, ← data.covers, map_getD_range, registersCounted, List.flatMap_map,
        registersOf]
      exact List.flatMap_congr fun op _ => op.run_eq.symm
    obtain ⟨summed, powers⟩ := hllSparseSum_whole data.whole
    rw [if_neg notDense, data.countedOpcodes, summed, ok_andThen]
    simp only [powers, ok_andThen, decide_eq_true data.endsWell, if_true, counted]
    rfl

section Additions

variable {maxBytes : Nat} {s t ele : Sds}

theorem withRegisters_self : withRegisters s (registers s) = s := List.take_append_drop _ _

theorem promoteAdd_changes {retval : Int} (ran : promoteAdd s ele = .ok (retval, t))
    : retval ≠ 0 := by
  obtain ⟨dense, -, ran⟩ := andThen_ok_iff.mp ran
  cases dense with
  | none =>
      cases ran
      decide
  | some dense =>
      dsimp only at ran
      split at ran
      · cases ran
        decide
      · cases ran

theorem hllSparseAdd_unchanged_bytes (ran : hllSparseAdd maxBytes s ele = .ok (0, t)) : t = s := by
  rw [hllSparseAdd] at ran
  dsimp only at ran
  split at ran
  · exact absurd rfl (promoteAdd_changes ran)
  split at ran
  · cases ran
  obtain ⟨found, -, ran⟩ := andThen_ok_iff.mp ran
  split at ran
  · cases ran
    rfl
  · cases ran
  · exact absurd rfl (promoteAdd_changes ran)

theorem hllAdd_unchanged_bytes (ran : hllAdd maxBytes s ele = .ok (0, t)) : t = s := by
  rw [hllAdd] at ran
  split at ran
  · cases ran
  split at ran
  · simp only [Except.ok.injEq, Prod.mk.injEq, hllDenseAdd] at ran
    obtain ⟨returned, rfl⟩ := ran
    split at returned
    · cases returned
    · rename_i stays
      rw [if_neg stays]
      exact withRegisters_self
  split at ran
  · exact hllSparseAdd_unchanged_bytes ran
  · cases ran

theorem addElements_counts {updated count : Nat}
    (valid : ValidHll s) (ran : addElements maxBytes updated s elements = .ok (some count, t))
    : updated < count ∨ (count = updated ∧ t = s) := by
  induction elements generalizing updated s with
  | nil =>
      cases ran
      exact Or.inr ⟨rfl, rfl⟩
  | cons ele rest ih =>
      obtain ⟨retval, next, added, adds⟩ :=
        hllAdd_adds valid maxBytes (addElements_short valid ran ele List.mem_cons_self)
      rw [addElements, added, ok_andThen] at ran
      rcases adds.others with rfl | rfl
      · have later : updated + 1 < count ∨ (count = updated + 1 ∧ t = next) := ih adds.valid ran
        exact Or.inl (by omega)
      · have same : next = s := hllAdd_unchanged_bytes added
        subst same
        exact ih adds.valid ran

end Additions

section Commands

variable {K : Type} {estimate : Terms → UInt64} {maxBytes : Nat} {server next : Server K} {key : K}
  {reply : Reply}

/-- The key is absent, or its value has a current cardinality. -/
def CachedAt (estimate : Terms → UInt64) (db : K → Option Value) (key : K) : Prop :=
  ∀ value, db key = some value → ∃ s, value = .string (.sds s) ∧ Cached estimate s

def Command.target : Command K → K
  | .pfadd key _ | .pfcount key _ | .pfmerge key _ => key

variable [DecidableEq K] {s : Sds}

theorem cachedAt_store (cached : Cached estimate s)
    : CachedAt estimate (server.store key s).db key := by
  intro value holds
  have stored : (server.store key s).db key = some (.string (.sds s)) := Function.update_self ..
  rw [stored] at holds
  exact ⟨s, (Option.some.inj holds).symm, cached⟩

theorem pfaddTo_cached {updated : Nat} (valid : ValidHll s)
    (current : updated = 0 → Cached estimate s)
    (ran : pfaddTo maxBytes server key updated s elements = .ok (reply, next))
    : CachedAt estimate next.db key := by
  obtain ⟨result, loop, -⟩ := andThen_ok_iff.mp ran
  obtain ⟨count, t, added, validNext, -⟩ :=
    addElements_ok valid maxBytes updated (addElements_short valid loop)
  rw [pfaddTo, added, ok_andThen] at ran
  dsimp only at ran
  split at ran
  · rename_i zero
    have same := addElements_counts valid added
    cases ran
    rcases same with more | ⟨none, rfl⟩
    · omega
    · exact cachedAt_store (current (by omega))
  · cases ran
    exact cachedAt_store (validNext.invalidated estimate)

theorem pfaddCommand_cached (cached : CachedAt estimate server.db key)
    (ran : pfaddCommand maxBytes server key elements = .ok (reply, next))
    : CachedAt estimate next.db key := by
  rw [pfaddCommand] at ran
  cases holds : server.db key with
  | none =>
      rw [holds] at ran
      exact pfaddTo_cached createHLLObject_valid.1 (fun one => absurd one (by omega)) ran
  | some value =>
      obtain ⟨s, rfl, current⟩ := cached value holds
      simp only [holds, isHLLObjectOrReply_valid current.valid, ok_andThen] at ran
      exact pfaddTo_cached current.valid (fun _ => current) ran

theorem Cached.setCard {c : UInt64} (valid : ValidHll s)
    (counted : hllCount estimate s = .ok (some c))
    : Cached estimate (setCard s c) := by
  have header := sameHeader_setCard valid.size c
  refine ⟨(valid.cached header.1 header.2).1, fun _ => ?_⟩
  rw [card_setCard valid.size, ← counted, hllCount, hllCount, countedOpcodes, countedOpcodes,
    header.1.encoding, header.2]

theorem hllCount_valid (valid : ValidHll s) (estimate : Terms → UInt64)
    : ∃ c, hllCount estimate s = .ok (some c) := by
  rw [hllCount]
  rcases valid.data with ⟨dense, -⟩ | ⟨sparse, data⟩
  · exact ⟨_, by rw [if_pos dense, lookupPowers_dense]; rfl⟩
  · have notDense : encoding s ≠ 0 := by
      rw [sparse]
      decide
    obtain ⟨summed, powers⟩ := hllSparseSum_whole data.whole
    refine ⟨estimate ((opcodes (registers s)).map fun op => (op.value, op.run.length)), ?_⟩
    rw [if_neg notDense, data.countedOpcodes, summed, ok_andThen]
    simp only [powers, ok_andThen, decide_eq_true data.endsWell, if_true]
    rfl

theorem pfcountOne_cached (holds : server.db key = some (.string (.sds s)))
    (cached : Cached estimate s)
    : ∃ c next, pfcountOne estimate server key = .ok (.number c, next)
        ∧ hllCount estimate s = .ok (some c) ∧ CachedAt estimate next.db key := by
  simp only [pfcountOne, holds, isHLLObjectOrReply_valid cached.valid, ok_andThen]
  split
  · rename_i marked
    exact ⟨_, _, rfl, cached.current marked, cachedAt_store cached⟩
  · obtain ⟨c, counted⟩ := hllCount_valid cached.valid estimate
    rw [counted, ok_andThen]
    exact ⟨c, _, rfl, rfl, cachedAt_store (Cached.setCard cached.valid counted)⟩

theorem pfcountCommand_cached {others : List K} (cached : CachedAt estimate server.db key)
    (ran : pfcountCommand estimate server key others = .ok (reply, next))
    : CachedAt estimate next.db key := by
  rw [pfcountCommand] at ran
  split at ran
  · cases holds : server.db key with
    | none =>
        rw [pfcountOne, holds] at ran
        cases ran
        exact cached
    | some value =>
        obtain ⟨s, rfl, current⟩ := cached value holds
        obtain ⟨c, after, counted, -, kept⟩ := pfcountOne_cached holds current
        rw [counted] at ran
        cases ran
        exact kept
  · obtain ⟨outcome, -, ran⟩ := andThen_ok_iff.mp ran
    cases outcome with
    | error refusal =>
        cases ran
        exact cached
    | ok maxima =>
        obtain ⟨c, -, ran⟩ := andThen_ok_iff.mp ran
        cases ran
        exact cached

theorem denseSize_storeRegisters {data : List UInt8} (size : DenseSize data) (maxima : List Nat)
    : DenseSize (storeRegisters data maxima) := by
  rw [storeRegisters]
  induction List.range hllRegisters generalizing data with
  | nil => exact size
  | cons j rest ih => exact ih (denseSize_set size j (maxima.getD j 0))

theorem pfmergeTo_cached {maxima : List Nat} (valid : ValidHll s)
    (ran : pfmergeTo server key s maxima = .ok (reply, next))
    : CachedAt estimate next.db key := by
  obtain ⟨dense, converts, validDense, isDense, -⟩ := hllSparseToDense_ok valid
  have size : DenseSize (registers dense) := by
    rcases validDense.data with ⟨-, size⟩ | ⟨sparse, -⟩
    · exact size
    · rw [isDense] at sparse
      cases sparse
  have header := sameHeader_withRegisters validDense.size (storeRegisters (registers dense) maxima)
  have validStored := validDense.dense header.1 isDense
    (by rw [header.2]; exact denseSize_storeRegisters size maxima)
  rw [pfmergeTo, converts, ok_andThen] at ran
  cases ran
  exact cachedAt_store (validStored.invalidated estimate)

theorem pfmergeCommand_cached {sources : List K} (cached : CachedAt estimate server.db key)
    (ran : pfmergeCommand server key sources = .ok (reply, next))
    : CachedAt estimate next.db key := by
  obtain ⟨outcome, -, ran⟩ := andThen_ok_iff.mp ran
  cases outcome with
  | error refusal =>
      cases ran
      exact cached
  | ok maxima =>
      cases holds : server.db key with
      | none =>
          simp only [holds] at ran
          exact pfmergeTo_cached createHLLObject_valid.1 ran
      | some value =>
          obtain ⟨s, rfl, current⟩ := cached value holds
          simp only [holds] at ran
          exact pfmergeTo_cached current.valid ran

-- Runs

/-- The commands that store at one key leave the others. -/
def OnlyAt (key : K) (server next : Server K) : Prop :=
  ∀ other ≠ key, next.db other = server.db other

omit [DecidableEq K] in
theorem onlyAt_refl : OnlyAt key server server := fun _ _ => rfl

theorem onlyAt_store (s : Sds) : OnlyAt key server (server.store key s) :=
  fun _ different => Function.update_of_ne different _ _

theorem pfaddTo_onlyAt {updated : Nat}
    (ran : pfaddTo maxBytes server key updated s elements = .ok (reply, next))
    : OnlyAt key server next := by
  obtain ⟨⟨count, t⟩, -, ran⟩ := andThen_ok_iff.mp ran
  cases count with
  | none =>
      cases ran
      exact onlyAt_store t
  | some count =>
      dsimp only at ran
      split at ran
      · cases ran
        exact onlyAt_store t
      · cases ran
        exact onlyAt_store (invalidateCache t)

theorem pfcountOne_onlyAt (ran : pfcountOne estimate server key = .ok (reply, next))
    : OnlyAt key server next := by
  rw [pfcountOne] at ran
  cases holds : server.db key with
  | none =>
      rw [holds] at ran
      cases ran
      exact onlyAt_refl
  | some value =>
      rw [holds] at ran
      obtain ⟨checked, -, ran⟩ := andThen_ok_iff.mp ran
      cases checked with
      | error refusal =>
          cases ran
          exact onlyAt_refl
      | ok s =>
          dsimp only at ran
          split at ran
          · cases ran
            exact onlyAt_store s
          · obtain ⟨counted, -, ran⟩ := andThen_ok_iff.mp ran
            cases counted with
            | none =>
                cases ran
                exact onlyAt_store s
            | some c =>
                cases ran
                exact onlyAt_store (Hyperloglog.setCard s c)

theorem pfmergeTo_onlyAt {maxima : List Nat}
    (ran : pfmergeTo server key s maxima = .ok (reply, next))
    : OnlyAt key server next := by
  obtain ⟨dense, -, ran⟩ := andThen_ok_iff.mp ran
  cases dense with
  | none =>
      cases ran
      exact onlyAt_store s
  | some dense =>
      cases ran
      exact onlyAt_store _

theorem runCommand_onlyAt {command : Command K}
    (ran : runCommand maxBytes estimate server command = .ok (reply, next))
    : OnlyAt command.target server next := by
  cases command with
  | pfadd key elements =>
      change pfaddCommand maxBytes server key elements = _ at ran
      rw [pfaddCommand] at ran
      split at ran
      · exact pfaddTo_onlyAt ran
      · obtain ⟨checked, -, ran⟩ := andThen_ok_iff.mp ran
        cases checked with
        | error refusal =>
            cases ran
            exact onlyAt_refl
        | ok s => exact pfaddTo_onlyAt ran
  | pfcount key others =>
      change pfcountCommand estimate server key others = _ at ran
      rw [pfcountCommand] at ran
      split at ran
      · exact pfcountOne_onlyAt ran
      · obtain ⟨outcome, -, ran⟩ := andThen_ok_iff.mp ran
        cases outcome with
        | error refusal =>
            cases ran
            exact onlyAt_refl
        | ok maxima =>
            obtain ⟨c, -, ran⟩ := andThen_ok_iff.mp ran
            cases ran
            exact onlyAt_refl
  | pfmerge key sources =>
      obtain ⟨outcome, -, ran⟩ := andThen_ok_iff.mp ran
      cases outcome with
      | error refusal =>
          cases ran
          exact onlyAt_refl
      | ok maxima =>
          dsimp only at ran
          split at ran
          · exact pfmergeTo_onlyAt ran
          · exact pfmergeTo_onlyAt ran
          · cases ran

theorem runCommand_cached {command : Command K} (cached : CachedAt estimate server.db key)
    (ran : runCommand maxBytes estimate server command = .ok (reply, next))
    : CachedAt estimate next.db key := by
  by_cases here : key = command.target
  · subst here
    cases command with
    | pfadd key elements => exact pfaddCommand_cached cached ran
    | pfcount key others => exact pfcountCommand_cached cached ran
    | pfmerge key sources => exact pfmergeCommand_cached cached ran
  · intro value holds
    rw [runCommand_onlyAt ran key here] at holds
    exact cached value holds

/-- The servers that the commands on HyperLogLog values reach from one where a key is absent, while
anything is done to the other keys.
-/
inductive CountedRun (estimate : Terms → UInt64) (key : K) : Server K → Prop where
  | absent {server : Server K} (missing : server.db key = none) : CountedRun estimate key server
  | command {server next : Server K} (before : CountedRun estimate key server) {maxBytes : Nat}
      {command : Command K} {reply : Reply}
      (ran : runCommand maxBytes estimate server command = .ok (reply, next))
      : CountedRun estimate key next
  | elsewhere {server next : Server K} (before : CountedRun estimate key server)
      (same : next.db key = server.db key)
      : CountedRun estimate key next

theorem CountedRun.cached (run : CountedRun estimate key server)
    : CachedAt estimate server.db key := by
  induction run with
  | absent missing =>
      intro value holds
      rw [missing] at holds
      cases holds
  | command _ ran ih => exact runCommand_cached ih ran
  | elsewhere _ same ih =>
      intro value holds
      rw [same] at holds
      exact ih value holds

/-- The estimate by a cardinality that depends on the registers only. -/
def estimateBy (cardinality : List Nat → UInt64) : Terms → UInt64 :=
  fun terms => cardinality (registersCounted terms)

/-- In every run on a key that was absent at first, the value of the key has a cardinality, the
cached one is that when it is marked valid, and `PFCOUNT` replies it.
-/
theorem cardinality_current (cardinality : List Nat → UInt64)
    (run : CountedRun (estimateBy cardinality) key server)
    : ∀ value, server.db key = some value →
        ∃ s, value = .string (.sds s)
          ∧ hllCount (estimateBy cardinality) s = .ok (some (cardinality (registerContents s)))
          ∧ (validCache s → card s = cardinality (registerContents s))
          ∧ ∃ next, pfcountCommand (estimateBy cardinality) server key []
            = .ok (.number (cardinality (registerContents s)), next) := by
  intro value holds
  obtain ⟨s, rfl, cached⟩ := run.cached value holds
  have counted : hllCount (estimateBy cardinality) s
      = .ok (some (cardinality (registerContents s))) := hllCount_registers cached.valid cardinality
  obtain ⟨c, next, replied, same, -⟩ := pfcountOne_cached holds cached
  have replies : c = cardinality (registerContents s) := by
    rw [counted] at same
    cases same
    rfl
  refine ⟨s, rfl, counted, fun marked => ?_, next, ?_⟩
  · have current := cached.current marked
    rw [counted] at current
    exact (Option.some.inj (Except.ok.inj current)).symm
  · rw [pfcountCommand, if_pos rfl, replied, replies]

end Commands

/-- A value that is created and counted, gets an element for its first register, and is counted
again.
-/
theorem cardinality_current_counted
    : ∃ (server : Server Nat) (s : Sds), server.db 0 = some (.string (.sds s))
      ∧ validCache s = false
        ∧ ∃ next,
          pfcountCommand (estimateBy fun values => UInt64.ofNat (values.headD 0)) server 0 []
          = .ok (.number 6, next) := by
  let estimate := estimateBy fun values => UInt64.ofNat (values.headD 0)
  let first : Server Nat :=
    ((⟨fun _ => none, 0, []⟩ : Server Nat).store 0 (invalidateCache createHLLObject)).signal 0
  let counted := setCard (invalidateCache createHLLObject) 0
  let second := (first.store 0 counted).signal 0
  let raised : Sds := [0x48, 0x59, 0x4C, 0x4C, 1] ++ List.replicate 10 0 ++ [0x80, 0x94, 0x7F, 0xFE]
  have creates : runCommand 3000 estimate ⟨fun _ => none, 0, []⟩ (.pfadd 0 [])
      = .ok (.cone, first) :=
    rfl
  have counts : runCommand 3000 estimate first (.pfcount 0 []) = .ok (.number 0, second) := rfl
  have elements : addElements 3000 0 counted [[0x75, 0x68, 0x6D]] = .ok (some 1, raised) := by
    decide +kernel
  have adds : runCommand 3000 estimate second (.pfadd 0 [[0x75, 0x68, 0x6D]])
      = .ok (.cone, (second.store 0 (invalidateCache raised)).signal 0) := by
    have holds : second.db 0 = some (.string (.sds counted)) := rfl
    have accepted : isHLLObjectOrReply (.string (.sds counted)) = .ok (.ok counted) := rfl
    rw [runCommand, pfaddCommand, holds]
    dsimp only
    rw [accepted, ok_andThen]
    dsimp only
    rw [pfaddTo, elements]
    rfl
  have started : CountedRun estimate 0 (⟨fun _ => none, 0, []⟩ : Server Nat) := .absent rfl
  have run := ((started.command creates).command counts).command adds
  obtain ⟨s, same, -, -, replied⟩ :=
    cardinality_current (fun values => UInt64.ofNat (values.headD 0)) run _ rfl
  obtain rfl : invalidateCache raised = s := StringObject.sds.inj (Value.string.inj same)
  have register : (registerContents (invalidateCache raised)).headD 0 = 6 := by
    rw [registerContents, hllRegisters, List.range_succ_eq_map]
    rfl
  rw [register] at replied
  exact ⟨_, invalidateCache raised, rfl, by decide, replied⟩

end Redis.Hyperloglog
