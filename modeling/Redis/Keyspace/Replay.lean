import Mathlib.Data.List.TakeWhile
import Redis.Commands.Propagation
import Redis.Keyspace.Commands

/-! Replaying on a copy what a master propagates. -/

namespace Redis.Keyspace

open Redis.Lists (Where listTypePop listTypePush)
open Redis.Propagation (Stream)

variable {F L : Type} (env : Environment L) (stream : Stream)

-- The two streams

/-- The argument of `PEXPIREAT` in `catAppendOnlyExpireAtCommand`, for `SETEX` and `PSETEX`. -/
def expireAtText (time : Sds) (unit : TimeUnit) : Sds :=
  let milliseconds :=
    match unit with
    | .seconds => longLong (strtol time * 1000)
    | .milliseconds => strtol time
  decimalText (longLong (env.now + milliseconds))

/-- The commands that are fed for a command: `feedAppendOnlyFile` translates `SETEX` and `PSETEX`.
-/
def feed : Stream → Request → List Request
  | .aof, .setex key seconds value =>
      [.set key value [], .pexpireat key (expireAtText env seconds .seconds)]
  | .aof, .psetex key milliseconds value =>
      [.set key value [], .pexpireat key (expireAtText env milliseconds .milliseconds)]
  | _, request => [request]

def ObjectDb.execute (db : Db F) (request : Request)
    : Db F := (Run.call env .copy ⟨db, []⟩ request).db

def ObjectDb.replay (db : Db F) (requests : List Request) : Db F :=
  (requests.flatMap (feed env stream)).foldl (ObjectDb.execute env) db

/-- Replaying what was propagated so far gives the database. -/
def Reproduced (start : Db F) (run : Run F) : Prop :=
  start.replay env stream run.propagated = run.db

variable {env stream} {start : Db F} {run : Run F} {key : Sds} {request : Request} {db : Db F}

theorem replay_append (start : Db F) (requests more : List Request)
    : start.replay env stream (requests ++ more)
      = (start.replay env stream requests).replay env stream more := by
  simp [ObjectDb.replay]

@[simp]
theorem expireIfNeeded_copy (run : Run F) (key : Sds)
    : run.expireIfNeeded env .copy key = run := by
  simp [Run.expireIfNeeded]

@[simp]
theorem change_db (run : Run F) (request : Request) (result : Option (Db F))
    : (run.change request result).db = result.getD run.db := by
  cases result <;> rfl

theorem Reproduced.change (reproduced : Reproduced env stream start run) {result : Option (Db F)}
    (same : ∀ db, result = some db → run.db.replay env stream [request] = db)
    : Reproduced env stream start (run.change request result) := by
  cases result with
  | none => exact reproduced
  | some db =>
      unfold Reproduced at reproduced ⊢
      simp only [Run.change]
      rw [replay_append, reproduced]
      exact same db rfl

theorem Reproduced.verbatim (reproduced : Reproduced env stream start run) (request : Request)
    (result : Option (Db F)) (fed : feed env stream request = [request])
    (same : run.db.execute env request = result.getD run.db)
    : Reproduced env stream start (run.change request result) := by
  refine reproduced.change ?_
  intro db changed
  simp [ObjectDb.replay, fed, same, changed]

theorem isExpired_stored {now : Int} (expired : db.isExpired now key = true)
    : db.dict key ≠ none := by
  intro absent
  simp [ObjectDb.isExpired, db.expires_in_dict key absent] at expired

theorem Reproduced.expireIfNeeded (reproduced : Reproduced env stream start run) (role : Role)
    (key : Sds)
    : Reproduced env stream start (run.expireIfNeeded env role key) := by
  unfold Run.expireIfNeeded
  split
  · rename_i expired
    have stored := isExpired_stored expired.2
    refine reproduced.verbatim (.del key) (some (run.db.dbDelete key)) ?_ ?_
    · cases stream <;> rfl
    · simp only [ObjectDb.execute, Run.call, expireIfNeeded_copy, change_db, ObjectDb.del]
      cases found : run.db.dict key with
      | none => exact absurd found stored
      | some value => rfl
  · exact reproduced

-- Numbers

theorem wholeDigits_some {text : Sds} {n : Nat} (read : wholeDigits text = some n)
    : text ≠ [] ∧ (∀ c ∈ text, isDigitFrom 0x30 c = true) ∧ horner 0 text = n := by
  unfold wholeDigits at read
  split at read
  · rename_i whole
    exact ⟨whole.1, by simpa using whole.2, Option.some.inj read⟩
  · cases read

theorem wholeDigits_naturalText (n : Nat) : wholeDigits (naturalText n) = some n := by
  unfold wholeDigits
  rw [if_pos ⟨naturalText_ne_nil n, by simpa using naturalText_digits n⟩, horner_naturalText]

theorem cString_decimalText (v : Int) : cString (decimalText v) = decimalText v := by
  have digits : ∀ n, ∀ c ∈ naturalText n, c ≠ 0 := by
    intro n c inside
    exact (digit_facts (naturalText_digits n c inside)).2.2.2.2
  refine List.takeWhile_eq_self_iff.mpr ?_
  intro c member
  unfold decimalText at member
  split at member
  · rcases List.mem_cons.mp member with rfl | inside
    · decide
    · simpa using digits _ c inside
  · simpa using digits _ c member

theorem wholeNumber_decimalText (v : Int) : wholeNumber (decimalText v) = some v := by
  unfold decimalText
  split
  · have value : -(v.natAbs : Int) = v := by omega
    simp only [wholeNumber, List.cons_ne_nil, if_false, List.head?_cons, if_true, List.tail_cons,
      wholeDigits_naturalText, Option.map_some, value]
  · have value : (v.natAbs : Int) = v := by omega
    obtain ⟨c, more, split⟩ := List.exists_cons_of_ne_nil (naturalText_ne_nil v.natAbs)
    obtain ⟨_, notMinus, notPlus, _⟩ :=
      digit_facts (naturalText_digits v.natAbs c (by simp [split]))
    have whole := wholeDigits_naturalText v.natAbs
    rw [split] at whole ⊢
    unfold wholeNumber
    rw [if_neg (List.cons_ne_nil c more), if_neg (by simpa using notMinus),
      if_neg (by simpa using notPlus), whole, Option.map_some, value]

theorem getLongLongFromObject_decimalText {v : Int} (low : -2 ^ 63 ≤ v) (high : v < 2 ^ 63)
    : getLongLongFromObject (decimalText v) = some v := by
  rw [getLongLongFromObject, cString_decimalText, wholeNumber_decimalText]
  refine Option.filter_eq_some_iff.mpr ⟨rfl, ?_⟩
  simpa using ⟨low, high⟩

theorem leadingDigits_cString (text : Sds) : leadingDigits (cString text) = leadingDigits text := by
  unfold leadingDigits cString
  rw [List.takeWhile_takeWhile]
  congr 3
  funext c
  cases digit : isDigitFrom 0x30 c with
  | false => rfl
  | true => simp [(digit_facts digit).2.2.2.2]

theorem leadingDigits_whole {text : Sds} {n : Nat} (read : wholeDigits text = some n)
    : leadingDigits text = n := by
  obtain ⟨_, digits, value⟩ := wholeDigits_some read
  rw [leadingDigits, List.takeWhile_eq_self_iff.mpr digits, value]

theorem strtol_of_getLongLong {text : Sds} {v : Int} (read : getLongLongFromObject text = some v)
    : strtol text = v := by
  obtain ⟨number, inRange⟩ := Option.filter_eq_some_iff.mp read
  have range : -2 ^ 63 ≤ v ∧ v < 2 ^ 63 := by simpa using inRange
  have unsigned : ∀ n : Nat, wholeDigits (cString text) = some n → leadingDigits text = n := by
    intro n whole
    rw [← leadingDigits_cString]
    exact leadingDigits_whole whole
  unfold wholeNumber at number
  cases text with
  | nil =>
      cases number
      rfl
  | cons c more =>
      have signed : ∀ n : Nat, wholeDigits (cString more) = some n → leadingDigits more = n := by
        intro n whole
        rw [← leadingDigits_cString]
        exact leadingDigits_whole whole
      by_cases ends : c = 0
      · subst ends
        cases number
        rfl
      · have front : cString (c :: more) = c :: cString more := by simp [cString, ends]
        rw [front] at number unsigned
        simp only [List.cons_ne_nil, if_false, List.head?_cons, Option.some.injEq,
          List.tail_cons] at number
        split at number
        · rename_i minus
          subst minus
          obtain ⟨n, whole, rfl⟩ := Option.map_eq_some_iff.mp number
          change max (-2 ^ 63) (-leadingDigits more) = _
          rw [signed n whole]
          omega
        · split at number
          · rename_i plus
            subst plus
            obtain ⟨n, whole, rfl⟩ := Option.map_eq_some_iff.mp number
            change min (2 ^ 63 - 1) (leadingDigits more) = _
            rw [signed n whole]
            omega
          · obtain ⟨n, whole, rfl⟩ := Option.map_eq_some_iff.mp number
            obtain ⟨_, digits, _⟩ := wholeDigits_some whole
            obtain ⟨notSpace, notMinus, notPlus, _⟩ := digit_facts (digits c List.mem_cons_self)
            rw [strtol, List.dropWhile_cons_of_neg (by simp [notSpace]), signedDigits,
              if_neg (by simpa using notMinus), if_neg (by simpa using notPlus), unsigned n whole]
            omega

-- Commands

theorem setKey_stored (db : Db F) (key : Sds) (value : Value F)
    : (db.setKey key value).dict key ≠ none := by
  simp [ObjectDb.setKey, ObjectDb.removeExpire, ObjectDb.store]

theorem execute_pexpireat (stored : db.dict key ≠ none) {time : Int}
    (low : -2 ^ 63 ≤ time) (high : time < 2 ^ 63)
    : db.execute env (.pexpireat key (decimalText time)) = db.setExpire key time := by
  simp only [ObjectDb.execute, Run.call, getLongLongFromObject_decimalText low high, Run.pexpireat,
    expireIfNeeded_copy]
  cases found : db.dict key with
  | none => exact absurd found stored
  | some value => simp

theorem execute_set (db : Db F) (key value : Sds)
    : db.execute env (.set key value []) = db.setKey key (.string value) := by
  simp [ObjectDb.execute, Run.call, setOptions, SetFlags.noFlags, Run.setGenericCommand,
    ObjectDb.setGeneric]

theorem replay_setex {key value time : Sds} {unit : TimeUnit} {ms : Int}
    (read : expireMilliseconds time unit = some ms)
    : (db.execute env (.set key value [])).execute env (.pexpireat key (expireAtText env time unit))
      = (db.setKey key (.string value)).setExpire key (longLong (env.now + ms)) := by
  obtain ⟨low, high⟩ := longLong_range (env.now + ms)
  have text : expireAtText env time unit = decimalText (longLong (env.now + ms)) := by
    unfold expireMilliseconds at read
    split at read
    · cases read
    · rename_i v number
      split at read
      · cases read
      · have value := strtol_of_getLongLong number
        cases unit with
        | seconds =>
            cases read
            simp [expireAtText, value]
        | milliseconds =>
            cases read
            simp [expireAtText, value]
  rw [execute_set, text, execute_pexpireat (setKey_stored db key _) low high]

/-- The time that the command has is accepted. -/
def SetFlags.Accepted (flags : SetFlags) : Prop :=
  ∀ time unit, flags.expire = some (time, unit) → expireMilliseconds time unit ≠ none

theorem Reproduced.setGeneric {role : Role} (reproduced : Reproduced env stream start run)
    {flags : SetFlags} {value : Sds}
    (same : flags.Accepted → ∀ db : Db F, db.replay env stream [request]
      = (Run.setGenericCommand env .copy ⟨db, []⟩ request flags key value).db)
    : Reproduced env stream start (run.setGenericCommand env role request flags key value) := by
  unfold Run.setGenericCommand
  cases expire : flags.expire with
  | none =>
      have accepted : flags.Accepted := by simp [SetFlags.Accepted, expire]
      refine (reproduced.expireIfNeeded role key).change ?_
      intro db changed
      rw [same accepted]
      simp [Run.setGenericCommand, expire, changed]
  | some pair =>
      obtain ⟨time, unit⟩ := pair
      cases read : expireMilliseconds time unit with
      | none => simpa [read] using reproduced
      | some ms =>
          have accepted : flags.Accepted := by simp [SetFlags.Accepted, expire, read]
          simp only [read]
          refine (reproduced.expireIfNeeded role key).change ?_
          intro db changed
          rw [same accepted]
          simp [Run.setGenericCommand, expire, read, changed]

theorem execute_setGeneric_time {key value time : Sds}
    {unit : TimeUnit} (accepted : SetFlags.Accepted ⟨false, false, some (time, unit)⟩)
    : (db.execute env (.set key value [])).execute env (.pexpireat key (expireAtText env time unit))
      = (Run.setGenericCommand env .copy ⟨db, []⟩ request ⟨false, false, some (time, unit)⟩ key
          value).db := by
  cases read : expireMilliseconds time unit with
  | none => exact absurd read (accepted time unit rfl)
  | some ms =>
      rw [replay_setex read]
      simp [Run.setGenericCommand, read, ObjectDb.setGeneric]

theorem removeExpire_eq_self (none : db.expires key = none) : db.removeExpire key = db := by
  refine ObjectDb.ext rfl ?_
  simp only [ObjectDb.removeExpire]
  rw [← none, Function.update_eq_self]

theorem Reproduced.incrbyfloat (reproduced : Reproduced env stream start run) {increment : Sds}
    (noTime : run.db.incremented env key increment ≠ none → run.db.expires key = none)
    : Reproduced env stream start (run.incrbyfloat env key increment) := by
  unfold Run.incrbyfloat
  split
  · exact reproduced
  · rename_i text done
    have none : run.db.expires key = .none := noTime (by simp [done])
    refine reproduced.verbatim _ _ (by cases stream <;> rfl) ?_
    rw [execute_set, Option.getD_some, ObjectDb.setKey]
    exact removeExpire_eq_self none

theorem Reproduced.spop (reproduced : Reproduced env stream start run) (key : Sds)
    : Reproduced env stream start (run.spop env key) := by
  unfold Run.spop
  split
  · rename_i members found
    split
    · exact reproduced
    · rename_i member chosen
      have inside := env.random_mem members member chosen
      have removed : members.filter (fun other => other ∉ [member]) = members.erase member := by
        ext other
        simp [and_comm]
      have fewer : members.erase member ≠ members := by
        intro same
        rw [← same] at inside
        exact Finset.notMem_erase member members inside
      refine reproduced.verbatim _ _ (by cases stream <;> rfl) ?_
      simp only [ObjectDb.execute, Run.call, expireIfNeeded_copy, change_db, ObjectDb.removeMembers,
        found, removed, if_neg fewer]
      split <;> rfl
  · exact reproduced

theorem Reproduced.hincrbyfloat (reproduced : Reproduced env stream start run) (key field : Sds)
    (incr : L)
    : Reproduced env stream start (run.hincrbyfloat env key field incr) := by
  unfold Run.hincrbyfloat
  split
  · exact reproduced
  · dsimp only
    split
    · exact reproduced
    · refine reproduced.verbatim _ _ (by cases stream <;> rfl) ?_
      simp [ObjectDb.execute, Run.call]

theorem Reproduced.blockingPop (place : Where) (keys : List Sds)
    (reproduced : Reproduced env stream start run)
    : Reproduced env stream start (run.blockingPop env .master place keys) := by
  induction keys generalizing run with
  | nil => exact reproduced
  | cons key keys ih =>
      have expired := reproduced.expireIfNeeded .master key
      unfold Run.blockingPop
      dsimp only
      split
      · exact ih expired
      · exact ih expired
      · refine expired.verbatim _ _ (by cases stream <;> rfl) ?_
        simp [ObjectDb.execute, Run.call]
      · exact expired

theorem expireIfNeeded_kept {role : Role} {source : Sds} (target : Sds) {value : Value F}
    (found : (run.expireIfNeeded env role source).db.dict source = some value)
    : ((run.expireIfNeeded env role source).expireIfNeeded env role target).db.dict source
      = some value := by
  by_cases same : target = source
  · subst same
    by_cases expired : role = .master ∧ run.db.isExpired env.now target
    · simp [Run.expireIfNeeded, expired, ObjectDb.dbDelete] at found
    · have untouched : run.expireIfNeeded env role target = run := if_neg expired
      rw [untouched] at found ⊢
      rw [untouched]
      exact found
  · rw [Run.expireIfNeeded]
    split
    · exact (Function.update_of_ne (Ne.symm same) _ _).trans found
    · exact found

theorem Reproduced.brpoplpush (reproduced : Reproduced env stream start run) (source target : Sds)
    {timeout : Sds} (accepted : isTimeout timeout = true)
    : Reproduced env stream start
        (run.brpoplpush env .master (.brpoplpush source target timeout) source target) := by
  have expired := reproduced.expireIfNeeded .master source
  unfold Run.brpoplpush
  dsimp only
  split
  · rename_i value rest found
    have kept := expireIfNeeded_kept target found
    refine (expired.expireIfNeeded .master target).verbatim _ _ (by cases stream <;> rfl) ?_
    simp [ObjectDb.execute, Run.call, accepted, Run.brpoplpush, kept]
  · exact expired

theorem Reproduced.pexpireat (reproduced : Reproduced env stream start run) (role : Role)
    {time : Int} (fed : feed env stream request = [request])
    (same : ∀ db : Db F, db.dict key ≠ none → db.execute env request = db.setExpire key time)
    : Reproduced env stream start (run.pexpireat env role request key time) := by
  have expired := reproduced.expireIfNeeded role key
  unfold Run.pexpireat
  dsimp only
  split
  · exact expired
  · rename_i value found
    split
    · refine expired.verbatim _ _ (by cases stream <;> rfl) ?_
      simp [ObjectDb.execute, Run.call, ObjectDb.del, found]
    · exact expired.verbatim _ _ fed (same _ (by simp [found]))

/-- Replaying what a command propagates has the same effect. -/
theorem Reproduced.call (reproduced : Reproduced env stream start run) (request : Request)
    (noTime : ∀ key increment, request = .incrbyfloat key increment
      → (run.expireIfNeeded env .master key).db.incremented env key increment ≠ none
      → (run.expireIfNeeded env .master key).db.expires key = none)
    : Reproduced env stream start (run.call env .master request) := by
  cases request with
  | set key value options =>
      unfold Run.call
      dsimp only
      split
      · exact reproduced
      · rename_i flags parsed
        refine reproduced.setGeneric ?_
        intro _ db
        have fed : feed env stream (.set key value options) = [.set key value options] := by
          cases stream <;> rfl
        simp [ObjectDb.replay, fed, ObjectDb.execute, Run.call, parsed]
  | setex key seconds value =>
      refine reproduced.setGeneric ?_
      intro accepted db
      cases stream with
      | slaves => rfl
      | aof => exact execute_setGeneric_time accepted
  | psetex key milliseconds value =>
      refine reproduced.setGeneric ?_
      intro accepted db
      cases stream with
      | slaves => rfl
      | aof => exact execute_setGeneric_time accepted
  | incrbyfloat key increment =>
      exact (reproduced.expireIfNeeded .master key).incrbyfloat (noTime key increment rfl)
  | spop key => exact (reproduced.expireIfNeeded .master key).spop key
  | hincrbyfloat key field increment =>
      unfold Run.call
      dsimp only
      split
      · exact reproduced
      · exact (reproduced.expireIfNeeded .master key).hincrbyfloat key field _
  | bpop place keys timeout =>
      unfold Run.call
      dsimp only
      split
      · exact reproduced.blockingPop place keys
      · exact reproduced
  | brpoplpush source target timeout =>
      unfold Run.call
      dsimp only
      split
      · rename_i accepted
        exact reproduced.brpoplpush source target accepted
      · exact reproduced
  | pexpireat key time =>
      unfold Run.call
      dsimp only
      split
      · exact reproduced
      · rename_i v number
        refine reproduced.pexpireat .master (by cases stream <;> rfl) ?_
        intro db stored
        cases found : db.dict key with
        | none => exact absurd found stored
        | some value => simp [ObjectDb.execute, Run.call, number, Run.pexpireat, found]
  | getset key | srem key | hset key | pop place key | lpush key | del key =>
      refine (reproduced.expireIfNeeded .master key).verbatim _ _ (by cases stream <;> rfl) ?_
      simp [ObjectDb.execute, Run.call]

end Redis.Keyspace
