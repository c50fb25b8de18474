import Redis.Commands.KeyExtraction
import Redis.Keyspace.Replay

/-! When the keys found among the arguments are those that the command uses. -/

namespace Redis

open Redis.Library
open Redis.Keyspace (Sds getLongLongFromObject strtol_of_getLongLong)

-- Agreement

/-- The array holds positions of arguments, and those of the keys if the command accepts its
arguments.
-/
structure KeysFound (clusterEnabled : Bool) (proc : GetKeysProc) (argv : List Sds)
    (result : ExtractedKeys) (positions : List Nat)
    : Prop where
  run : getKeysFromCommand proc argv = .ok result
  count : result.numkeys = positions.length
  cells : result.keys.take positions.length = positions.map some
  inside : ∀ position ∈ positions, 1 ≤ position ∧ position < argv.length
  used : ∀ used, commandKeys clusterEnabled argv proc = .ok used → positions.Perm used

def KeysAgree (clusterEnabled : Bool) (proc : GetKeysProc) (argv : List Sds) : Prop :=
  ∃ result positions, KeysFound clusterEnabled proc argv result positions

/-- How many arguments a reader passes behind a word that it takes for an option. -/
def hiddenArguments (word : Sds) : Nat :=
  if isOption word limitText then 2
  else if isOption word getText || isOption word byText then 1
  else 0

/-- A reader that passes the arguments of `LIMIT`, `GET` and `BY`, and takes every other argument
for an option, stops at argument `k`.
-/
def stopsAt : (skip : Nat) → List Sds → (k : Nat) → Bool
  | _, [], _ => false
  | _ + 1, _ :: _, 0 => false
  | skip + 1, _ :: args, k + 1 => stopsAt skip args k
  | 0, _ :: _, 0 => true
  | 0, word :: args, k + 1 => stopsAt (hiddenArguments word) args k

/-- `STORE` with an argument behind it. -/
def IsStoreAt (args : List Sds) (k : Nat) : Prop :=
  k + 1 < args.length ∧ isOption (args.getD k []) storeText = true

/-- The condition under which the keys are found: no negative number of keys, and the reader of
`SORT` stops at the last `STORE` and at no other behind it.
-/
def KeysReadable (clusterEnabled : Bool) (argv : List Sds) : GetKeysProc → Prop
  | .zunionInter => 0 ≤ atoi (argv.getD 2 [])
  | .eval => 0 ≤ atoi (argv.getD 2 [])
  | .sort =>
      ∀ read k,
        sortOptions clusterEnabled 0 2 (argv.drop 2) .initial = .ok read
        → read.storekey = some (k + 3)
        → stopsAt 0 (argv.drop 2) k = true
          ∧ ∀ later, k < later → stopsAt 0 (argv.drop 2) later = true
            → ¬IsStoreAt (argv.drop 2) later

section Counts

variable {argv : List Sds} {clusterEnabled : Bool}

theorem argvAt_two (arity : 3 ≤ argv.length) : argvAt argv 2 = .ok (argv.getD 2 []) := by
  have there : argv[2]? = some (argv.getD 2 []) := by
    rw [List.getD_eq_getElem?_getD, List.getElem?_eq_getElem (by omega)]
    rfl
  rw [argvAt, there]

theorem setKeyAt_next (written : List (Option Nat)) (free position : Nat)
    : setKeyAt (written ++ List.replicate (free + 1) none) written.length position
      = .ok (written ++ [some position] ++ List.replicate free none) := by
  have inside
      : 0 ≤ (written.length : Int)
        ∧ (written.length : Int) < (written ++ List.replicate (free + 1) none).length := by
    simp only [List.length_append, List.length_replicate]
    omega
  rw [setKeyAt, if_pos inside, Int.toNat_natCast, List.set_append_right _ _ (Nat.le_refl _),
    Nat.sub_self, List.replicate_succ, List.set_cons_zero, List.append_assoc, List.singleton_append]

theorem addKeysFrom3_ok (n free : Nat)
    : addKeysFrom3 (List.replicate (n + free) none) n
      = .ok ((List.range' 3 n).map some ++ List.replicate free none) := by
  rw [addKeysFrom3, Int.toNat_natCast]
  induction n generalizing free with
  | zero => simp [pure, Except.pure]
  | succ n ih =>
      have room : n + 1 + free = n + (free + 1) := by omega
      have length : ((List.range' 3 n).map (some : Nat → Option Nat)).length = n := by simp
      have written := setKeyAt_next ((List.range' 3 n).map some) free (3 + n)
      rw [length] at written
      rw [List.range_succ, List.foldlM_append, room, ih, ok_andThen]
      simp only [List.foldlM_cons, List.foldlM_nil]
      rw [written, ok_andThen, List.range'_concat]
      simp [pure, Except.pure]

theorem atoi_of_getLongLong {text : Sds} {n : Nat}
    (read : getLongLongFromObject text = some (n : Int)) (small : n < 2 ^ 31)
    : atoi text = n :=
  atoi_of_strtol (strtol_of_getLongLong read) small

theorem zunionInterSetnum_some {setnum : Nat} (argc : argv.length < 2 ^ 31)
    (accepted : zunionInterSetnum argv = .ok setnum)
    : atoi (argv.getD 2 []) = setnum ∧ setnum + 3 ≤ argv.length := by
  unfold zunionInterSetnum at accepted
  split at accepted
  · cases accepted
  · rename_i v number
    split at accepted
    · cases accepted
    · rename_i positive
      split at accepted
      · cases accepted
      · obtain rfl : v.toNat = setnum := Except.ok.inj accepted
        obtain ⟨n, rfl⟩ : ∃ n : Nat, v = n := ⟨v.toNat, by omega⟩
        rw [Int.toNat_natCast]
        exact ⟨atoi_of_getLongLong number (by omega), by omega⟩

theorem evalNumkeys_some {numkeys : Nat} (argc : argv.length < 2 ^ 31)
    (arity : 3 ≤ argv.length) (accepted : evalNumkeys argv = .ok numkeys)
    : atoi (argv.getD 2 []) = numkeys ∧ numkeys + 3 ≤ argv.length := by
  unfold evalNumkeys at accepted
  split at accepted
  · cases accepted
  · rename_i v number
    split at accepted
    · cases accepted
    · split at accepted
      · cases accepted
      · obtain rfl : v.toNat = numkeys := Except.ok.inj accepted
        obtain ⟨n, rfl⟩ : ∃ n : Nat, v = n := ⟨v.toNat, by omega⟩
        rw [Int.toNat_natCast]
        exact ⟨atoi_of_getLongLong number (by omega), by omega⟩

theorem keysAgree_none {proc : GetKeysProc} (run : getKeysFromCommand proc argv = .ok ⟨[], 0⟩)
    (refused : ∀ used, commandKeys clusterEnabled argv proc ≠ .ok used)
    : KeysAgree clusterEnabled proc argv := by
  refine ⟨⟨[], 0⟩, [], run, rfl, rfl, ?_, ?_⟩
  · intro position member
    cases member
  · intro used accepted
    exact absurd accepted (refused used)

theorem zunionInterGetKeys_iff (arity : 4 ≤ argv.length) (argc : argv.length < 2 ^ 31)
    : KeysAgree clusterEnabled .zunionInter argv ↔ 0 ≤ atoi (argv.getD 2 []) := by
  have first := @argvAt_two argv (by omega)
  constructor
  · rintro ⟨result, positions, found⟩
    by_contra negative
    have run : zunionInterGetKeys argv = .ok result := found.run
    rw [zunionInterGetKeys, first, ok_andThen, if_neg (by omega)] at run
    by_cases minusOne : atoi (argv.getD 2 []) = -1
    · rw [minusOne] at run
      cases run
    · rw [zmallocInts, if_pos (by omega)] at run
      cases run
  · intro positive
    obtain ⟨n, number⟩ : ∃ n : Nat, atoi (argv.getD 2 []) = n :=
      ⟨_, (Int.toNat_of_nonneg positive).symm⟩
    by_cases many : n + 3 ≤ argv.length
    · refine ⟨⟨(List.range' 3 n).map some ++ [some 1], n + 1⟩, List.range' 3 n ++ [1], ?_, ?_, ?_,
        ?_, ?_⟩
      · have last := setKeyAt_next ((List.range' 3 n).map some) 0 1
        simp only [List.length_map, List.length_range', List.replicate_zero,
          List.append_nil] at last
        rw [getKeysFromCommand, zunionInterGetKeys, first, ok_andThen, number, if_neg (by omega),
          zmallocInts, if_neg (by omega), ok_andThen]
        have size : ((n : Int) + 1).toNat = n + 1 := by omega
        rw [size, addKeysFrom3_ok, ok_andThen, last]
        rfl
      · simp
      · simp
      · intro position member
        rcases List.mem_append.mp member with source | target
        · have range := List.mem_range'_1.mp source
          omega
        · obtain rfl := List.mem_singleton.mp target
          omega
      · intro used accepted
        obtain ⟨setnum, read, positions⟩ := andThen_ok_iff.mp accepted
        have same := (zunionInterSetnum_some argc read).1
        obtain rfl : setnum = n := by omega
        cases positions
        exact List.perm_append_singleton 1 _
    · refine keysAgree_none ?_ ?_
      · rw [getKeysFromCommand, zunionInterGetKeys, first, ok_andThen, number, if_pos (by omega)]
        rfl
      · intro used accepted
        obtain ⟨setnum, read, _⟩ := andThen_ok_iff.mp accepted
        have same := zunionInterSetnum_some argc read
        omega

theorem evalGetKeys_iff (arity : 3 ≤ argv.length) (argc : argv.length < 2 ^ 31)
    : KeysAgree clusterEnabled .eval argv ↔ 0 ≤ atoi (argv.getD 2 []) := by
  have first := argvAt_two arity
  constructor
  · rintro ⟨result, positions, found⟩
    by_contra negative
    have run : evalGetKeys argv = .ok result := found.run
    rw [evalGetKeys, first, ok_andThen, if_neg (by omega), zmallocInts, if_pos (by omega)] at run
    cases run
  · intro positive
    obtain ⟨n, number⟩ : ∃ n : Nat, atoi (argv.getD 2 []) = n :=
      ⟨_, (Int.toNat_of_nonneg positive).symm⟩
    by_cases many : n + 3 ≤ argv.length
    · refine ⟨⟨(List.range' 3 n).map some, n⟩, List.range' 3 n, ?_, ?_, ?_, ?_, ?_⟩
      · have cells := addKeysFrom3_ok n 0
        rw [Nat.add_zero, List.replicate_zero, List.append_nil] at cells
        rw [getKeysFromCommand, evalGetKeys, first, ok_andThen, number, if_neg (by omega),
          zmallocInts, if_neg (by omega), ok_andThen, Int.toNat_natCast, cells]
        rfl
      · simp
      · simp
      · intro position member
        have range := List.mem_range'_1.mp member
        omega
      · intro used accepted
        obtain ⟨numkeys, read, positions⟩ := andThen_ok_iff.mp accepted
        have same := (evalNumkeys_some argc arity read).1
        obtain rfl : numkeys = n := by omega
        cases positions
        exact List.Perm.refl _
    · refine keysAgree_none ?_ ?_
      · rw [getKeysFromCommand, evalGetKeys, first, ok_andThen, number, if_pos (by omega)]
        rfl
      · intro used accepted
        obtain ⟨numkeys, read, _⟩ := andThen_ok_iff.mp accepted
        have same := evalNumkeys_some argc arity read
        omega

end Counts

section SortOptions

variable {clusterEnabled : Bool}

theorem isOption_unique {word name other : List UInt8} (first : isOption word name = true)
    (second : isOption word other = true)
    : name.map lowerCase = other.map lowerCase := by
  simp only [isOption, strcaseEqual, beq_iff_eq] at first second
  rw [← first, second]

theorem isOption_other {word name other : List UInt8} (option : isOption word name = true)
    (different : name.map lowerCase ≠ other.map lowerCase)
    : isOption word other = false :=
  Bool.eq_false_iff.mpr fun same => different (isOption_unique option same)

theorem hiddenArguments_other {word name : List UInt8} (option : isOption word name = true)
    (limit : name.map lowerCase ≠ limitText.map lowerCase)
    (get : name.map lowerCase ≠ getText.map lowerCase)
    (by' : name.map lowerCase ≠ byText.map lowerCase)
    : hiddenArguments word = 0 := by
  simp [hiddenArguments, isOption_other option limit, isOption_other option get,
    isOption_other option by']

theorem hiddenArguments_store {word : Sds} (store : isOption word storeText = true)
    : hiddenArguments word = 0 :=
  hiddenArguments_other store (by decide) (by decide) (by decide)

theorem sortGlance_eq (arg : Sds) (more : Bool)
    : sortGlance arg more sortSkiplist
      = if isOption arg storeText && more then .store
        else if hiddenArguments arg = 0 then .plain
        else .skips (hiddenArguments arg) := by
  have hidden := @hiddenArguments_store arg
  simp only [sortSkiplist, sortGlance, hiddenArguments] at hidden ⊢
  grind

theorem isStoreAt_succ (arg : Sds) (args : List Sds) (k : Nat)
    : IsStoreAt (arg :: args) (k + 1) ↔ IsStoreAt args k := by
  rw [IsStoreAt, IsStoreAt, List.length_cons, List.getD_cons_succ]
  exact and_congr_left' (by omega)

/-- Where the reader last stops at a `STORE`. -/
def LastStore (skip : Nat) (args : List Sds) : Option Nat → Prop
  | none => ∀ k, stopsAt skip args k = true → ¬IsStoreAt args k
  | some k =>
      stopsAt skip args k = true
      ∧ IsStoreAt args k
      ∧ ∀ later, k < later → stopsAt skip args later = true → ¬IsStoreAt args later

section Last

variable {skip skip' : Nat} {arg : Sds} {args : List Sds}

theorem LastStore.behind (stops : ∀ k, stopsAt skip (arg :: args) (k + 1) = stopsAt skip' args k)
    {k : Nat} (last : LastStore skip' args (some k))
    : LastStore skip (arg :: args) (some (k + 1)) := by
  obtain ⟨stop, store, none⟩ := last
  refine ⟨by rw [stops, stop], (isStoreAt_succ arg args k).mpr store, ?_⟩
  intro later order
  cases later with
  | zero => exact absurd order (Nat.not_lt_zero _)
  | succ later =>
      rw [stops, isStoreAt_succ]
      exact none later (by omega)

theorem LastStore.pass (stops : ∀ k, stopsAt skip (arg :: args) (k + 1) = stopsAt skip' args k)
    (head : stopsAt skip (arg :: args) 0 = true → ¬IsStoreAt (arg :: args) 0) {last : Option Nat}
    (isLast : LastStore skip' args last)
    : LastStore skip (arg :: args) (last.map (· + 1)) := by
  cases last with
  | some k => exact isLast.behind stops
  | none =>
      intro k
      cases k with
      | zero => exact head
      | succ k =>
          rw [stops, isStoreAt_succ]
          exact isLast k

theorem LastStore.here (stops : ∀ k, stopsAt skip (arg :: args) (k + 1) = stopsAt skip' args k)
    (last : LastStore skip' args none) (head : stopsAt skip (arg :: args) 0 = true)
    (store : IsStoreAt (arg :: args) 0)
    : LastStore skip (arg :: args) (some 0) := by
  refine ⟨head, store, ?_⟩
  intro later order
  cases later with
  | zero => exact absurd order (Nat.lt_irrefl 0)
  | succ later =>
      rw [stops, isStoreAt_succ]
      exact last later

theorem LastStore.unique {first second : Option Nat} (one : LastStore skip args first)
    (other : LastStore skip args second)
    : first = second := by
  cases first with
  | none =>
      cases second with
      | none => rfl
      | some k => exact absurd other.2.1 (one k other.1)
  | some k =>
      cases second with
      | none => exact absurd one.2.1 (other k one.1)
      | some k' =>
          rcases Nat.lt_trichotomy k k' with less | same | greater
          · exact absurd other.2.1 (one.2.2 k' less other.1)
          · rw [same]
          · exact absurd one.2.1 (other.2.2 k greater one.1)

end Last

theorem sortKeysLoop_ok (skip i : Nat) (args : List Sds) (second : Option Nat) (foundStore : Nat)
    : ∃ last,
        LastStore skip args last
        ∧ sortKeysLoop 1 skip i args [some 1, second] foundStore
          = .ok ([some 1, last.elim second fun k => some (i + k + 1)],
              last.elim foundStore fun _ => 1) := by
  induction args generalizing skip i second foundStore with
  | nil =>
      refine ⟨none, ?_, ?_⟩
      · intro k stop store
        exact absurd store.1 (Nat.not_lt_zero _)
      · cases skip <;> rfl
  | cons arg args ih =>
      have shift (last : Option Nat)
          : (last.map (· + 1)).elim second (fun k => some (i + k + 1))
            = last.elim second fun k => some (i + 1 + k + 1) := by
        cases last with
        | none => rfl
        | some k => simp only [Option.map_some, Option.elim_some, Nat.add_assoc, Nat.add_comm 1]
      -- An argument that is passed, or stopped at and no `STORE`.
      have pass {skip skip' : Nat}
          (stops : ∀ k, stopsAt skip (arg :: args) (k + 1) = stopsAt skip' args k)
          (head : stopsAt skip (arg :: args) 0 = true → ¬IsStoreAt (arg :: args) 0)
          (run : sortKeysLoop 1 skip i (arg :: args) [some 1, second] foundStore
            = sortKeysLoop 1 skip' (i + 1) args [some 1, second] foundStore)
          : ∃ last,
              LastStore skip (arg :: args) last
              ∧ sortKeysLoop 1 skip i (arg :: args) [some 1, second] foundStore
                = .ok ([some 1, last.elim second fun k => some (i + k + 1)],
                    last.elim foundStore fun _ => 1) := by
        obtain ⟨last, isLast, ran⟩ := ih skip' (i + 1) second foundStore
        refine ⟨last.map (· + 1), isLast.pass stops head, ?_⟩
        rw [run, ran, shift]
        cases last <;> rfl
      cases skip with
      | succ skip => exact pass (fun _ => rfl) (fun stop => nomatch stop) rfl
      | zero =>
          have glance := sortGlance_eq arg (!args.isEmpty)
          by_cases store : (isOption arg storeText && !args.isEmpty) = true
          · rw [if_pos store] at glance
            rw [Bool.and_eq_true] at store
            have stops (k : Nat) : stopsAt 0 (arg :: args) (k + 1) = stopsAt 0 args k := by
              rw [stopsAt, hiddenArguments_store store.1]
            have room : args ≠ [] := by
              rintro rfl
              exact absurd store.2 (by simp)
            have here : IsStoreAt (arg :: args) 0 :=
              ⟨Nat.succ_lt_succ (List.length_pos_of_ne_nil room), store.1⟩
            have write : setKeyAt [some 1, second] 1 (i + 1) = .ok [some 1, some (i + 1)] := rfl
            obtain ⟨last, isLast, ran⟩ := ih 0 (i + 1) (some (i + 1)) 1
            rw [sortKeysLoop, glance]
            dsimp only
            rw [write, ok_andThen, ran]
            cases last with
            | none => exact ⟨some 0, isLast.here stops rfl here, rfl⟩
            | some k =>
                refine ⟨some (k + 1), isLast.behind stops, ?_⟩
                simp only [Option.elim_some, Nat.add_assoc, Nat.add_comm 1]
          · rw [if_neg store] at glance
            have stops (k : Nat)
                : stopsAt 0 (arg :: args) (k + 1) = stopsAt (hiddenArguments arg) args k := rfl
            refine pass stops ?_ ?_
            · rintro - ⟨room, word⟩
              refine store ?_
              rw [Bool.and_eq_true]
              refine ⟨word, ?_⟩
              cases args with
              | nil => exact absurd room (Nat.lt_irrefl 1)
              | cons next args => rfl
            · rw [sortKeysLoop, glance]
              split_ifs with none
              · rw [none]
              · rfl

theorem sortOption_cases {j skip : Nat} {word : Sds} {args : List Sds}
    {read next : SortArguments}
    (accepted : sortOption clusterEnabled j word args read = .ok (skip, next))
    : (isOption word storeText = true ∧ args ≠ [] ∧ next.storekey = some (j + 1) ∧ skip = 1)
      ∨ (isOption word storeText = false
        ∧ next.storekey = read.storekey
        ∧ skip = hiddenArguments word) := by
  unfold sortOption at accepted
  split at accepted
  · rename_i asc
    cases accepted
    exact .inr ⟨isOption_other asc (by decide), rfl,
      (hiddenArguments_other asc (by decide) (by decide) (by decide)).symm⟩
  split at accepted
  · rename_i desc
    cases accepted
    exact .inr ⟨isOption_other desc (by decide), rfl,
      (hiddenArguments_other desc (by decide) (by decide) (by decide)).symm⟩
  split at accepted
  · rename_i alpha
    cases accepted
    exact .inr ⟨isOption_other alpha (by decide), rfl,
      (hiddenArguments_other alpha (by decide) (by decide) (by decide)).symm⟩
  split at accepted
  · rename_i limit
    have two : hiddenArguments word = 2 := if_pos limit.1
    split at accepted
    · cases accepted
      exact .inr ⟨isOption_other limit.1 (by decide), rfl, two.symm⟩
    · cases accepted
  split at accepted
  · rename_i store
    cases accepted
    exact .inl ⟨store.1, List.ne_nil_of_length_pos store.2, rfl, rfl⟩
  split at accepted
  · rename_i by'
    have one : hiddenArguments word = 1 := by
      simp [hiddenArguments, isOption_other by'.1 (show _ ≠ limitText.map lowerCase by decide),
        by'.1]
    have word' := isOption_other by'.1 (show _ ≠ storeText.map lowerCase by decide)
    split at accepted
    · cases accepted
      exact .inr ⟨word', rfl, one.symm⟩
    split at accepted
    · cases accepted
    · cases accepted
      exact .inr ⟨word', rfl, one.symm⟩
  split at accepted
  · rename_i get
    have one : hiddenArguments word = 1 := by
      simp [hiddenArguments, isOption_other get.1 (show _ ≠ limitText.map lowerCase by decide),
        get.1]
    split at accepted
    · cases accepted
    · cases accepted
      exact .inr ⟨isOption_other get.1 (by decide), rfl, one.symm⟩
  · cases accepted

theorem sortOptions_last {skip j : Nat} {args : List Sds} {read final : SortArguments}
    (accepted : sortOptions clusterEnabled skip j args read = .ok final)
    : (final.storekey = read.storekey ∧ LastStore skip args none)
      ∨ ∃ k, final.storekey = some (j + k + 1) ∧ IsStoreAt args k := by
  induction args generalizing skip j read with
  | nil =>
      have same : read = final := by
        cases skip <;> exact Except.ok.inj accepted
      exact .inl ⟨by rw [same], fun k _ store => absurd store.1 (Nat.not_lt_zero _)⟩
  | cons arg args ih =>
      have behind {k : Nat} (key : final.storekey = some (j + 1 + k + 1)) (store : IsStoreAt args k)
          : ∃ k, final.storekey = some (j + k + 1) ∧ IsStoreAt (arg :: args) k :=
        ⟨k + 1, by rw [key]; congr 1; omega, (isStoreAt_succ arg args k).mpr store⟩
      cases skip with
      | succ skip =>
          have stops (k : Nat) : stopsAt (skip + 1) (arg :: args) (k + 1) = stopsAt skip args k :=
            rfl
          rcases ih accepted with ⟨same, none⟩ | ⟨k, key, store⟩
          · exact .inl ⟨same, none.pass stops (fun stop => absurd stop Bool.false_ne_true)⟩
          · exact .inr (behind key store)
      | zero =>
          obtain ⟨⟨skip, next⟩, option, rest⟩ := andThen_ok_iff.mp accepted
          rcases sortOption_cases option with ⟨word, some, key, rfl⟩ | ⟨word, same, rfl⟩
          · have here : IsStoreAt (arg :: args) 0 :=
              ⟨Nat.succ_lt_succ (List.length_pos_of_ne_nil some), word⟩
            rcases ih rest with ⟨last, _⟩ | ⟨k, last, store⟩
            · exact .inr ⟨0, by rw [last, key, Nat.add_zero], here⟩
            · exact .inr (behind last store)
          · rcases ih rest with ⟨last, none⟩ | ⟨k, last, store⟩
            · refine .inl ⟨last.trans same, none.pass (fun _ => rfl) ?_⟩
              rintro - ⟨_, store⟩
              exact Bool.false_ne_true (word.symm.trans store)
            · exact .inr (behind last store)

theorem toList_perm_iff {first second : Option Nat}
    : first.toList.Perm second.toList ↔ first = second := by
  cases first <;> cases second <;> simp

theorem sortKeys_agree_iff {argv : List Sds} {last : Option Nat}
    (arity : 2 ≤ argv.length) (isLast : LastStore 0 (argv.drop 2) last)
    : KeysAgree clusterEnabled .sort argv
      ↔ ∀ read,
          sortOptions clusterEnabled 0 2 (argv.drop 2) .initial = .ok read
          → last.map (· + 3) = read.storekey := by
  obtain ⟨other, isOther, ran⟩ := sortKeysLoop_ok 0 2 (argv.drop 2) none 0
  obtain rfl : other = last := isOther.unique isLast
  have run
      : getKeysFromCommand .sort argv
        = .ok ⟨[some 1, other.elim none fun k => some (2 + k + 1)],
            1 + (other.elim 0 fun _ => 1 : Nat)⟩ := by
    have first : zmallocInts 2 = .ok [none, none] := rfl
    have second : setKeyAt [none, none] 0 1 = .ok [some 1, none] := rfl
    rw [getKeysFromCommand, sortGetKeys, first, ok_andThen, second, ok_andThen, ran]
    rfl
  have keys {used : List Nat} (accepted : commandKeys clusterEnabled argv .sort = .ok used)
      : ∃ read,
          sortOptions clusterEnabled 0 2 (argv.drop 2) .initial = .ok read
          ∧ used = 1 :: read.storekey.toList := by
    obtain ⟨read, options, positions⟩ := andThen_ok_iff.mp accepted
    exact ⟨read, options, (Except.ok.inj positions).symm⟩
  constructor
  · rintro ⟨result, positions, found⟩ read accepted
    have result' := Except.ok.inj (run.symm.trans found.run)
    have count := found.count
    have cells := found.cells
    have used := found.used (1 :: read.storekey.toList) (by rw [commandKeys, accepted]; rfl)
    rw [← result'] at count cells
    rw [← toList_perm_iff, ← List.perm_cons 1]
    refine List.Perm.trans (List.Perm.of_eq ?_) used
    cases other with
    | none =>
        have length : positions.length = 1 := by simpa using count.symm
        obtain ⟨position, rfl⟩ := List.length_eq_one_iff.mp length
        simpa using cells
    | some k =>
        have length : positions.length = 2 := by
          have two : (positions.length : Int) = 1 + 1 := by simpa using count.symm
          omega
        obtain ⟨first, second, rfl⟩ := List.length_eq_two.mp length
        simp at cells
        simp [← cells.1, ← cells.2]
        omega
  · intro agree
    refine ⟨_, 1 :: (other.map (· + 3)).toList, run, ?_, ?_, ?_, ?_⟩
    · cases other <;> simp
    · cases other with
      | none => rfl
      | some k => simp [Nat.add_comm 2 k]
    · intro position member
      rcases List.mem_cons.mp member with rfl | store
      · omega
      · obtain ⟨k, rfl, rfl⟩ : ∃ k, other = some k ∧ k + 3 = position := by
          simpa using store
        have room := isLast.2.1.1
        rw [List.length_drop] at room
        omega
    · intro used accepted
      obtain ⟨read, options, rfl⟩ := keys accepted
      rw [agree read options]

theorem sortGetKeys_iff {argv : List Sds} (arity : 2 ≤ argv.length)
    : KeysAgree clusterEnabled .sort argv ↔ KeysReadable clusterEnabled argv .sort := by
  obtain ⟨last, isLast, _⟩ := sortKeysLoop_ok 0 2 (argv.drop 2) none 0
  rw [sortKeys_agree_iff arity isLast]
  constructor
  · intro agree read k accepted key
    have same := agree read accepted
    rw [key] at same
    obtain ⟨k', rfl, shifted⟩ := Option.map_eq_some_iff.mp same
    obtain rfl : k' = k := by omega
    exact ⟨isLast.1, isLast.2.2⟩
  · intro readable read accepted
    rcases sortOptions_last accepted with ⟨same, none⟩ | ⟨k, key, store⟩
    · rw [isLast.unique none, same]
      rfl
    · have key' : read.storekey = some (k + 3) := by
        rw [key]
        congr 1
        omega
      obtain ⟨stop, later⟩ := readable read k accepted key'
      rw [isLast.unique (show LastStore 0 (argv.drop 2) (some k) from ⟨stop, store, later⟩), key']
      rfl

end SortOptions

/-- Exactly when the keys found are those that the command uses. -/
theorem keysAgree_iff (clusterEnabled : Bool) (proc : GetKeysProc) (argv : List Sds)
    (arity : proc.arity ≤ argv.length) (argc : argv.length < 2 ^ 31)
    : KeysAgree clusterEnabled proc argv ↔ KeysReadable clusterEnabled argv proc := by
  cases proc with
  | zunionInter => exact zunionInterGetKeys_iff arity argc
  | eval => exact evalGetKeys_iff arity argc
  | sort => exact sortGetKeys_iff arity

/-- `EVAL s 2 a b`. -/
theorem keysAgree_twoKeys
    : KeysAgree true .eval
        [[0x45, 0x56, 0x41, 0x4C], [0x73], [0x32], [0x61], [0x62]] :=
  (keysAgree_iff true .eval _ (by decide) (by decide)).mpr (show 0 ≤ atoi [0x32] by decide)

/-- `SORT k STORE store ASC` stores at `store` and gives `ASC` as its key; `EVAL s -1` gives a
negative number of keys.
-/
theorem keys_disagree
    : ¬KeysAgree false .sort
        [[0x53, 0x4F, 0x52, 0x54], [0x6B], [0x53, 0x54, 0x4F, 0x52, 0x45],
          [0x73, 0x74, 0x6F, 0x72, 0x65], [0x41, 0x53, 0x43]]
      ∧ ¬KeysAgree false .eval [[0x45, 0x56, 0x41, 0x4C], [0x73], [0x2D, 0x31]] := by
  constructor
  · intro agree
    have readable := (sortGetKeys_iff (by decide)).mp agree
    obtain ⟨_, none⟩ := readable ⟨false, false, 0, -1, some 3, none, false, []⟩ 0 (by decide) rfl
    exact none 1 (by decide) (by decide) ⟨by decide, by decide⟩
  · intro agree
    have count : 0 ≤ atoi [0x2D, 0x31] := (evalGetKeys_iff (by decide) (by decide)).mp agree
    exact absurd count (by decide)

end Redis
