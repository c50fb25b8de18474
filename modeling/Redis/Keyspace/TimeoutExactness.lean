import Redis.Keyspace.Timeouts

/-! When the times that commands compare and record are those that their arguments stand for. -/

namespace Redis.Keyspace

open Redis.Lists (Where listTypePop)
open ObjectDb (OnlyExpired onMaster expireIfNeeded_only dict_lookupKey)

variable {F : Type}

-- Commands

/-- The commands that take a time to live or a timeout. -/
inductive TimedRequest where
  | expire (key param : Sds)
  | pexpire (key param : Sds)
  | expireat (key param : Sds)
  | pexpireat (key param : Sds)
  | set (key value : Sds) (options : List Sds)
  | setex (key seconds value : Sds)
  | psetex (key milliseconds value : Sds)
  | restore (key ttl serialized : Sds) (options : List Sds)
  | blpop (keys : List Sds) (timeout : Sds)
  | brpop (keys : List Sds) (timeout : Sds)
  | brpoplpush (source target timeout : Sds)
  | wait (numreplicas timeout : Sds)
deriving DecidableEq, Repr

/-- A time argument: its text and unit, and whether it counts from now. -/
structure TimeArgument where
  text : Sds
  unit : TimeUnit
  relative : Bool
deriving DecidableEq, Repr

def TimedRequest.call (context : TimedContext F) (db : Db F) : TimedRequest → TimedOutcome F
  | .expire key param => context.expireCommand db key param
  | .pexpire key param => context.pexpireCommand db key param
  | .expireat key param => context.expireatCommand db key param
  | .pexpireat key param => context.pexpireatCommand db key param
  | .set key value options => context.setCommand db key value options
  | .setex key seconds value => context.setexCommand db key seconds value
  | .psetex key milliseconds value => context.psetexCommand db key milliseconds value
  | .restore key ttl serialized options => context.restoreCommand db key ttl serialized options
  | .blpop keys timeout => context.blpopCommand db keys timeout
  | .brpop keys timeout => context.brpopCommand db keys timeout
  | .brpoplpush source target timeout => context.brpoplpushCommand db source target timeout
  | .wait numreplicas timeout => context.waitCommand db numreplicas timeout

/-- The time argument of a command; `SET` need not have one. -/
def TimedRequest.argument : TimedRequest → Option TimeArgument
  | .expire _ param => some ⟨param, .seconds, true⟩
  | .pexpire _ param => some ⟨param, .milliseconds, true⟩
  | .expireat _ param => some ⟨param, .seconds, false⟩
  | .pexpireat _ param => some ⟨param, .milliseconds, false⟩
  | .set _ _ options =>
      (setOptions .noFlags options).bind fun flags =>
        flags.expire.map fun (text, unit) => ⟨text, unit, true⟩
  | .setex _ seconds _ => some ⟨seconds, .seconds, true⟩
  | .psetex _ milliseconds _ => some ⟨milliseconds, .milliseconds, true⟩
  | .restore _ ttl _ _ => some ⟨ttl, .milliseconds, true⟩
  | .blpop _ timeout => some ⟨timeout, .seconds, true⟩
  | .brpop _ timeout => some ⟨timeout, .seconds, true⟩
  | .brpoplpush _ _ timeout => some ⟨timeout, .seconds, true⟩
  | .wait _ timeout => some ⟨timeout, .milliseconds, true⟩

/-- The milliseconds of a unit. -/
def TimeUnit.factor : TimeUnit → Int
  | .seconds => 1000
  | .milliseconds => 1

/-- The time that an argument stands for, as a number without bounds. -/
def TimeArgument.exactTime (argument : TimeArgument) (now t : Int) : Int :=
  (if argument.relative then now else 0) + t * argument.unit.factor

inductive TimeUse where
  | expires (key : Sds)
  | stores (key : Sds)
  | waits
deriving DecidableEq, Repr

def TimedRequest.use : TimedRequest → TimeUse
  | .expire key _ | .pexpire key _ | .expireat key _ | .pexpireat key _ => .expires key
  | .set key _ _ | .setex key _ _ | .psetex key _ _ | .restore key _ _ _ => .stores key
  | .blpop _ _ | .brpop _ _ | .brpoplpush _ _ _ | .wait _ _ => .waits

/-- The command comes to use its time `t`: it is not refused before, and the time is not 0 where 0
stands for no time.
-/
def TimedRequest.Uses (context : TimedContext F) (db : Db F) (t : Int) : TimedRequest → Prop
  | .expire key _ | .pexpire key _ | .expireat key _ | .pexpireat key _ =>
      (db.lookupKey context.now key).dict key ≠ none
  | .set key _ options =>
      0 < t ∧ ∃ flags,
        setOptions .noFlags options = some flags
        ∧ ¬ flags.Aborts (db.lookupKey context.now key) key
  | .setex _ _ _ | .psetex _ _ _ => 0 < t
  | .restore key _ serialized options =>
      0 < t ∧ options.all isReplace = true
      ∧ (options ≠ [] ∨ (db.lookupKey context.now key).dict key = none)
      ∧ ∃ value, context.payload serialized = .ok value
  | .blpop keys _ | .brpop keys _ =>
      0 < t ∧ context.multi = false
      ∧ ∀ key ∈ keys,
          (db.lookupKey context.now key).dict key = none
          ∨ (db.lookupKey context.now key).dict key = some (.list [])
  | .brpoplpush source _ _ =>
      0 < t ∧ context.multi = false ∧ (db.lookupKey context.now source).dict source = none
  | .wait numreplicas _ =>
      0 < t ∧ context.multi = false
      ∧ ∃ n, getLongLongFromObject numreplicas = some n ∧ context.acks < n

-- Exactness

/-- Where the time is to be found after the command. -/
def TimeUse.Recorded (now : Int) (outcome : TimedOutcome F) (time : Int) : TimeUse → Prop
  | .expires key =>
      (time ≤ now ∧ outcome.db.dict key = none)
      ∨ (now < time ∧ outcome.db.expires key = some time)
  | .stores key => outcome.db.expires key = some time
  | .waits => outcome.reply = .blocked

/-- What is asked of each use: a key is deleted only when its time is over, no expire time in the
past is stored, and a positive timeout is a deadline in the future, and so not 0.
-/
def TimeUse.Sound (now : Int) (before : Db F) (outcome : TimedOutcome F) (t exact : Int)
    : TimeUse → Prop
  | .expires key =>
      (before.lookupKey now key).dict key ≠ none → outcome.db.dict key = none → exact ≤ now
  | .stores key =>
      ∀ time, outcome.time = some time → outcome.db.expires key = some time → now ≤ time
  | .waits => ∀ time, outcome.time = some time → 0 < t → now < time ∧ time ≠ 0

/-- The command is refused and changes nothing, or its time is exact. -/
structure TimesExact (use : TimeUse) (now : Int) (before : Db F) (t exact : Int)
    (outcome : TimedOutcome F)
    : Prop where
  refused : ∀ text, outcome.reply = .error text → outcome.time = none
    ∧ OnlyExpired (onMaster now) before outcome.db
  recorded : ∀ time, outcome.time = some time → use.Recorded now outcome time
  same : ∀ time, outcome.time = some time → time = exact
  sound : use.Sound now before outcome t exact

/-- The time that a command is asked for. A timeout of 0 is no time, and kept as 0. -/
def TimedRequest.exactTime (request : TimedRequest) (argument : TimeArgument) (now t : Int) : Int :=
  if request.use = .waits ∧ t = 0 then 0 else argument.exactTime now t

section Databases

variable {now : Int} {db before middle after : Db F} {key : Sds}

theorem onlyExpired_lookupKey (now : Int) (db : Db F) (key : Sds)
    : OnlyExpired (onMaster now) db (db.lookupKey now key) :=
  expireIfNeeded_only db _ key

theorem setExpire_expires_self {time : Int} (present : db.dict key ≠ none)
    : (db.setExpire key time).expires key = some time := by
  rw [ObjectDb.setExpire]
  dsimp only
  rw [if_neg present, Function.update_self]

theorem longLong_scale (unit : TimeUnit) (v base : Int)
    : longLong (unit.scale v + base) = longLong (base + v * unit.factor) := by
  cases unit with
  | seconds =>
      rw [TimeUnit.scale, TimeUnit.factor, longLong, longLong, longLong, Int.bmod_add_bmod,
        Int.add_comm]
  | milliseconds => rw [TimeUnit.scale, TimeUnit.factor, Int.mul_one, Int.add_comm]

end Databases

section Exactness

variable {use : TimeUse} {context : TimedContext F} {now t exact : Int} {db before : Db F}
  {outcome : TimedOutcome F} {key param : Sds} {basetime v : Int} {unit : TimeUnit}

theorem TimesExact.of_unused (unused : outcome.time = none)
    (refused : ∀ text, outcome.reply = .error text → OnlyExpired (onMaster now) before outcome.db)
    (kept : ∀ key, use = .expires key → (before.lookupKey now key).dict key ≠ none →
      outcome.db.dict key ≠ none)
    : TimesExact use now before t exact outcome := by
  refine ⟨fun text error => ⟨unused, refused text error⟩, ?_, ?_, ?_⟩
  · intro time used
    cases unused.symm.trans used
  · intro time used
    cases unused.symm.trans used
  · cases use with
    | expires key => exact fun present deleted => absurd deleted (kept key rfl present)
    | stores key =>
        intro time used
        cases unused.symm.trans used
    | waits =>
        intro time used
        cases unused.symm.trans used

theorem expireGenericCommand_exact (basetime : Int) (unit : TimeUnit) (key : Sds)
    (parsed : getLongLongFromObject param = some v)
    : TimesExact (.expires key) context.now db v (basetime + v * unit.factor)
        (context.expireGenericCommand db basetime unit key param)
      ↔ ((db.lookupKey context.now key).dict key ≠ none
        → FitsLongLong (basetime + v * unit.factor)) := by
  unfold TimedContext.expireGenericCommand
  rw [parsed]
  dsimp only
  rw [longLong_scale]
  cases found : (db.lookupKey context.now key).dict key with
  | none =>
      refine iff_of_true (.of_unused rfl (fun text error => nomatch error) ?_)
        (fun present => absurd rfl present)
      rintro other same present
      cases same
      exact absurd found present
  | some value =>
      have present : (db.lookupKey context.now key).dict key ≠ none := by rw [found]; exact nofun
      constructor
      · intro exact _
        refine (longLong_eq_self_iff _).mp (exact.same _ ?_)
        dsimp only
        split <;> rfl
      · intro fits
        have same := (longLong_eq_self_iff _).mpr (fits nofun)
        dsimp only
        rw [same]
        split
        · rename_i past
          refine ⟨fun text error => (nomatch error), fun time used => ?_, fun time used =>
            ?_, fun _ _ => past⟩
          · cases used
            exact .inl ⟨past, Function.update_self ..⟩
          · exact (Option.some.inj used).symm
        · rename_i future
          refine ⟨fun text error => (nomatch error), fun time used => ?_, fun time used => ?_,
            fun _ deleted => absurd deleted present⟩
          · cases used
            exact .inr ⟨Int.not_le.mp future, setExpire_expires_self present⟩
          · exact (Option.some.inj used).symm

theorem stored_exact (reply : TimedReply) (answered : ∀ text, reply ≠ .error text) {exact : Int}
    (future : context.now < exact) (present : db.dict key ≠ none)
    : TimesExact (.stores key) context.now before v exact
        ⟨reply, db.setExpire key (longLong exact), some (longLong exact)⟩
      ↔ FitsLongLong exact := by
  constructor
  · intro times
    exact (longLong_eq_self_iff _).mp (times.same _ rfl)
  · intro fits
    rw [(longLong_eq_self_iff _).mpr fits]
    refine ⟨fun text error => absurd error (answered text), fun time used => ?_,
      fun time used => ?_, fun time used _ => ?_⟩
    · cases used
      exact setExpire_expires_self present
    · exact (Option.some.inj used).symm
    · cases used
      omega

variable (context db) in
theorem setGenericCommand_exact (name : String) (flags : SetFlags) (key value : Sds)
    (timed : flags.expire = some (param, unit)) (parsed : getLongLongFromObject param = some v)
    : TimesExact (.stores key) context.now db v (context.now + v * unit.factor)
        (context.setGenericCommand db name flags key value)
      ↔ (0 < v ∧ ¬ flags.Aborts (db.lookupKey context.now key) key →
          FitsLongLong (context.now + v * unit.factor)) := by
  have factor : 1 ≤ unit.factor := by cases unit <;> decide
  unfold TimedContext.setGenericCommand
  rw [timed]
  dsimp only
  rw [parsed]
  dsimp only
  split
  · rename_i refused
    refine iff_of_true
      (.of_unused rfl (fun text error => .refl _ db) (fun other use => by cases use))
        (fun used => ?_)
    omega
  · rename_i accepted
    have positive : 0 < v := by omega
    unfold TimedContext.setGenericKey
    dsimp only
    split
    · rename_i aborts
      exact iff_of_true
        (.of_unused rfl (fun text error => by cases error) (fun other use => by cases use))
        (fun used => absurd aborts used.2)
    · rename_i goes
      have exactTime : longLong (context.now + unit.scale v)
          = longLong (context.now + v * unit.factor) := by
        rw [Int.add_comm, longLong_scale]
      have future : context.now < context.now + v * unit.factor := by
        have product : 1 * 1 ≤ v * unit.factor :=
          Int.mul_le_mul positive factor (by decide) (by omega)
        omega
      have present : ((db.lookupKey context.now key).setKey key (.string value)).dict key
          ≠ none := by
        rw [ObjectDb.setKey, ObjectDb.removeExpire, ObjectDb.store_dict_self]
        rintro ⟨⟩
      rw [exactTime, stored_exact .ok (fun text error => by cases error) future present]
      exact ⟨fun fits _ => fits, fun fits => fits ⟨positive, goes⟩⟩

theorem restoreCommand_exact (key serialized : Sds) (options : List Sds)
    (parsed : getLongLongFromObject param = some v)
    : TimesExact (.stores key) context.now db v (context.now + v * TimeUnit.factor .milliseconds)
        (context.restoreCommand db key param serialized options)
      ↔ (0 < v ∧ options.all isReplace = true
          ∧ (options ≠ [] ∨ (db.lookupKey context.now key).dict key = none)
          ∧ (∃ value, context.payload serialized = .ok value) →
          FitsLongLong (context.now + v * TimeUnit.factor .milliseconds)) := by
  have same : context.now + v * TimeUnit.factor .milliseconds = context.now + v := by
    rw [TimeUnit.factor, Int.mul_one]
  rw [same]
  have unchanged : OnlyExpired (onMaster context.now) db
      (context.restoreLookup db (!options.isEmpty) key) := by
    unfold TimedContext.restoreLookup
    split
    · exact .refl _ db
    · exact onlyExpired_lookupKey _ db key
  unfold TimedContext.restoreCommand
  split
  · rename_i syntaxError
    refine iff_of_true (.of_unused rfl (fun text error => .refl _ db) nofun) (fun used => ?_)
    obtain ⟨option, member, other⟩ := List.any_eq_true.mp syntaxError
    have replace := List.all_eq_true.mp used.2.1 option member
    rw [replace] at other
    cases other
  rename_i accepted
  dsimp only
  split
  · rename_i busy
    refine iff_of_true (.of_unused rfl (fun text error => unchanged) nofun) (fun used => ?_)
    obtain ⟨keep, present⟩ := busy
    have empty : options = [] := by simpa using keep
    subst empty
    rcases used.2.2.1 with some | absent
    · exact absurd rfl some
    · exact absurd absent present
  rename_i free
  rw [parsed]
  dsimp only
  rcases lt_trichotomy v 0 with negative | rfl | positive
  · rw [if_pos negative]
    exact iff_of_true (.of_unused rfl (fun text error => unchanged) nofun)
      (fun used => absurd used.1 (by omega))
  · rw [if_neg (by decide)]
    refine iff_of_true ?_ (fun used => absurd used.1 (by decide))
    cases context.payload serialized with
    | error text => exact .of_unused rfl (fun text error => unchanged) nofun
    | ok value =>
        dsimp only
        rw [if_pos rfl]
        exact .of_unused rfl (fun text error => nomatch error) nofun
  · rw [if_neg (by omega)]
    cases loaded : context.payload serialized with
    | error text =>
        refine iff_of_true (.of_unused rfl (fun text error => unchanged) nofun) (fun used => ?_)
        obtain ⟨value, ok⟩ := used.2.2.2
        cases ok
    | ok value =>
        have present (cleared : Db F) : (cleared.store key value).dict key ≠ none := by
          rw [ObjectDb.store_dict_self]
          exact nofun
        dsimp only
        rw [if_neg (by omega), stored_exact .ok nofun (by omega) (present _)]
        refine ⟨fun fits _ => fits, fun fits => fits ⟨positive, ?_, ?_, value, rfl⟩⟩
        · simpa using accepted
        · by_cases empty : options = []
          · subst empty
            exact .inr (by simpa [TimedContext.restoreLookup] using free)
          · exact .inl empty

-- Timeouts

theorem blocked_exact (natural : 0 ≤ context.now) {time exact : Int} (zero : v = 0 → time = 0)
    (positive : 0 < v → time = longLong exact ∧ context.now < exact) (parsed : 0 ≤ v)
    : TimesExact .waits context.now before v (if v = 0 then 0 else exact) ⟨.blocked, db, some time⟩
      ↔ (0 < v → FitsLongLong exact) := by
  constructor
  · intro times some
    have same := times.same _ rfl
    rw [(positive some).1, if_neg (by omega)] at same
    exact (longLong_eq_self_iff _).mp same
  · intro fits
    have same : time = if v = 0 then 0 else exact := by
      split
      · rename_i none
        exact zero none
      · rw [(positive (by omega)).1]
        exact (longLong_eq_self_iff _).mpr (fits (by omega))
    refine ⟨fun text error => (nomatch error), fun time used => rfl, fun other used => ?_,
      fun other used some => ?_⟩
    · exact (Option.some.inj used).symm.trans same
    · cases used
      have future := (positive some).2
      rw [same, if_neg (by omega)]
      omega

theorem getTimeout_ok (parsed : getLongLongFromObject param = some v) (natural : 0 ≤ v) (now : Int)
    (unit : TimeUnit)
    : ∃ time,
        getTimeoutFromObjectOrReply now param unit = .ok time
        ∧ (v = 0 → time = 0)
        ∧ (0 < v → time = longLong (now + v * unit.factor) ∧ now < now + v * unit.factor) := by
  unfold getTimeoutFromObjectOrReply
  rw [parsed]
  dsimp only
  rw [if_neg (by omega)]
  split
  · rename_i positive
    have factor : 1 ≤ unit.factor := by cases unit <;> decide
    have product : 1 * 1 ≤ v * unit.factor := Int.mul_le_mul positive factor (by decide) (by omega)
    exact ⟨_, rfl, fun zero => by omega, fun _ => ⟨longLong_scale .., by omega⟩⟩
  · rename_i none
    exact ⟨v, rfl, fun zero => zero, fun positive => absurd positive none⟩

theorem getTimeout_refused (parsed : getLongLongFromObject param = some v) (negative : v < 0)
    (now : Int)
    (unit : TimeUnit)
    : ∃ text, getTimeoutFromObjectOrReply now param unit = .error text := by
  unfold getTimeoutFromObjectOrReply
  rw [parsed]
  dsimp only
  rw [if_pos negative]
  exact ⟨_, rfl⟩

theorem lookupKey_lookupKey (db : Db F) (now : Int) (key other : Sds)
    : ((db.lookupKey now other).lookupKey now key).dict key = (db.lookupKey now key).dict key := by
  rw [dict_lookupKey, dict_lookupKey]
  exact (onlyExpired_lookupKey now db other).find key

/-- What the loop over the keys leaves: it finds nothing to pop exactly when no key has a list with
elements or another value, and an error changes nothing.
-/
theorem blockingPopLoop_spec (now : Int) (place : Where) (keys : List Sds) (db : Db F)
    : ((blockingPopLoop now place keys db).1 = none
        ↔ ∀ key ∈ keys,
            (db.lookupKey now key).dict key = none ∨ (db.lookupKey now key).dict key = some
              (.list []))
      ∧ ∀ text, (blockingPopLoop now place keys db).1 = some (.error text) →
          OnlyExpired (onMaster now) db (blockingPopLoop now place keys db).2 := by
  induction keys generalizing db with
  | nil => exact ⟨by simp [blockingPopLoop], nofun⟩
  | cons key keys ih =>
      have step := onlyExpired_lookupKey now db key
      obtain ⟨others, errors⟩ := ih (db.lookupKey now key)
      simp only [lookupKey_lookupKey] at others
      have stops {value : Value F} (found : (db.lookupKey now key).dict key = some value)
          (other : value ≠ .list [])
          : ¬ ∀ key' ∈ key :: keys,
              (db.lookupKey now key').dict key' = none
              ∨ (db.lookupKey now key').dict key' = some (.list []) := by
        intro empty
        rcases empty key List.mem_cons_self with none | nil
        · cases found.symm.trans none
        · exact other (Option.some.inj (found.symm.trans nil))
      rw [blockingPopLoop]
      cases found : (db.lookupKey now key).dict key with
      | none =>
          dsimp only
          refine ⟨?_, fun text error => step.trans (errors text error)⟩
          rw [others, List.forall_mem_cons, found]
          simp
      | some value =>
          cases value with
          | list items =>
              cases items with
              | nil =>
                  dsimp only [listTypePop]
                  refine ⟨?_, fun text error => step.trans (errors text error)⟩
                  rw [others, List.forall_mem_cons, found]
                  simp
              | cons item items =>
                  obtain ⟨popped, pops⟩ : ∃ popped, listTypePop place (item :: items)
                    = some popped := by
                    cases place <;> exact ⟨_, rfl⟩
                  simp only [pops]
                  exact ⟨iff_of_false nofun (stops found nofun), nofun⟩
          | string text =>
              dsimp only
              exact ⟨iff_of_false nofun (stops found nofun), fun _ _ => step⟩
          | set members =>
              dsimp only
              exact ⟨iff_of_false nofun (stops found nofun), fun _ _ => step⟩
          | zset score =>
              dsimp only
              exact ⟨iff_of_false nofun (stops found nofun), fun _ _ => step⟩
          | hash field =>
              dsimp only
              exact ⟨iff_of_false nofun (stops found nofun), fun _ _ => step⟩

theorem blockingPopGenericCommand_exact (natural : 0 ≤ context.now) (place : Where)
    (keys : List Sds)
    (parsed : getLongLongFromObject param = some v)
    : TimesExact .waits context.now db v
        (if v = 0 then 0 else context.now + v * TimeUnit.factor .seconds)
        (context.blockingPopGenericCommand db place keys param)
      ↔ (0 < v ∧ context.multi = false
          ∧ (∀ key ∈ keys,
              (db.lookupKey context.now key).dict key = none
              ∨ (db.lookupKey context.now key).dict key = some (.list [])) →
          FitsLongLong (context.now + v * TimeUnit.factor .seconds)) := by
  unfold TimedContext.blockingPopGenericCommand
  rcases lt_or_ge v 0 with negative | accepted
  · obtain ⟨text, refused⟩ := getTimeout_refused parsed negative context.now .seconds
    rw [refused]
    exact iff_of_true (.of_unused rfl (fun text error => .refl _ db) nofun)
      (fun used => absurd used.1 (by omega))
  · obtain ⟨time, timed, zero, positive⟩ := getTimeout_ok parsed accepted context.now .seconds
    obtain ⟨nothing, errors⟩ := blockingPopLoop_spec context.now place keys db
    rw [timed, ← nothing]
    dsimp only
    cases looped : blockingPopLoop context.now place keys db with
    | mk reply after =>
        rw [looped] at errors
        cases reply with
        | some reply =>
            refine iff_of_true (.of_unused rfl (fun text error => errors text ?_) nofun)
              (fun used => nomatch used.2.2)
            exact congrArg some error
        | none =>
            dsimp only
            cases multi : context.multi with
            | true =>
                exact iff_of_true (.of_unused rfl (fun text error => nomatch error) nofun)
                  (fun used => nomatch used.2.1)
            | false =>
                rw [if_neg Bool.false_ne_true, blocked_exact natural zero positive accepted]
                exact ⟨fun fits used => fits used.1, fun fits some => fits ⟨some, rfl, rfl⟩⟩

theorem brpoplpushCommand_exact (natural : 0 ≤ context.now) (source target : Sds)
    (parsed : getLongLongFromObject param = some v)
    : TimesExact .waits context.now db v
        (if v = 0 then 0 else context.now + v * TimeUnit.factor .seconds)
        (context.brpoplpushCommand db source target param)
      ↔ (0 < v ∧ context.multi = false ∧ (db.lookupKey context.now source).dict source = none →
          FitsLongLong (context.now + v * TimeUnit.factor .seconds)) := by
  have looked := onlyExpired_lookupKey context.now db source
  unfold TimedContext.brpoplpushCommand
  rcases lt_or_ge v 0 with negative | accepted
  · obtain ⟨text, refused⟩ := getTimeout_refused parsed negative context.now .seconds
    rw [refused]
    exact iff_of_true (.of_unused rfl (fun text error => .refl _ db) nofun)
      (fun used => absurd used.1 (by omega))
  obtain ⟨time, timed, zero, positive⟩ := getTimeout_ok parsed accepted context.now .seconds
  rw [timed]
  dsimp only
  have unused {outcome : TimedOutcome F} {value : Value F} (none : outcome.time = none)
      (refused : ∀ text, outcome.reply = .error text
        → OnlyExpired (onMaster context.now) db outcome.db)
      : TimesExact .waits context.now db v
          (if v = 0 then 0 else context.now + v * TimeUnit.factor .seconds) outcome
        ↔ (0 < v ∧ context.multi = false ∧ some value = Option.none →
          FitsLongLong (context.now + v * TimeUnit.factor .seconds)) :=
    iff_of_true (.of_unused none refused nofun) (fun used => nomatch used.2.2)
  cases found : (db.lookupKey context.now source).dict source with
  | none =>
      dsimp only
      cases multi : context.multi with
      | true =>
          exact iff_of_true (.of_unused rfl (fun text error => nomatch error) nofun)
            (fun used => nomatch used.2.1)
      | false =>
          rw [if_neg Bool.false_ne_true, blocked_exact natural zero positive accepted]
          exact ⟨fun fits used => fits used.1, fun fits some => fits ⟨some, rfl, rfl⟩⟩
  | some value =>
      cases value with
      | list items =>
          dsimp only
          cases listTypePop .tail items with
          | none => exact unused rfl fun text error => nomatch error
          | some popped =>
              dsimp only
              cases ((db.lookupKey context.now source).lookupKey context.now target).rpoplpush
                  source target with
              | none =>
                  exact unused rfl fun text error => looked.trans (onlyExpired_lookupKey _ _ target)
              | some after => exact unused rfl fun text error => nomatch error
      | string text => exact unused rfl fun text error => looked
      | set members => exact unused rfl fun text error => looked
      | zset score => exact unused rfl fun text error => looked
      | hash field => exact unused rfl fun text error => looked

theorem waitCommand_exact (natural : 0 ≤ context.now) (numreplicas : Sds)
    (parsed : getLongLongFromObject param = some v)
    : TimesExact .waits context.now db v
        (if v = 0 then 0 else context.now + v * TimeUnit.factor .milliseconds)
        (context.waitCommand db numreplicas param)
      ↔ (0 < v ∧ context.multi = false
          ∧ (∃ n, getLongLongFromObject numreplicas = some n ∧ context.acks < n) →
          FitsLongLong (context.now + v * TimeUnit.factor .milliseconds)) := by
  unfold TimedContext.waitCommand
  cases replicas : getLongLongFromObject numreplicas with
  | none =>
      refine iff_of_true (.of_unused rfl (fun text error => .refl _ db) nofun) (fun used => ?_)
      obtain ⟨n, read, _⟩ := used.2.2
      cases read
  | some n =>
      dsimp only
      rcases lt_or_ge v 0 with negative | accepted
      · obtain ⟨text, refused⟩ := getTimeout_refused parsed negative context.now .milliseconds
        rw [refused]
        exact iff_of_true (.of_unused rfl (fun text error => .refl _ db) nofun)
          (fun used => absurd used.1 (by omega))
      · obtain ⟨time, timed, zero, positive⟩ :=
          getTimeout_ok parsed accepted context.now .milliseconds
        rw [timed]
        dsimp only
        by_cases done : context.acks ≥ n ∨ context.multi = true
        · rw [if_pos done]
          refine iff_of_true (.of_unused rfl (fun text error => nomatch error) nofun)
            (fun used => ?_)
          obtain ⟨_, single, other, read, fewer⟩ := used
          cases read
          rcases done with enough | multi
          · omega
          · rw [single] at multi
            cases multi
        · have fewer : context.acks < n := by
            by_contra enough
            exact done (.inl (by omega))
          have single : context.multi = false :=
            Bool.eq_false_iff.mpr fun multi => done (.inr multi)
          rw [if_neg done, blocked_exact natural zero positive accepted]
          exact ⟨fun fits used => fits used.1, fun fits some => fits ⟨some, single, n, rfl, fewer⟩⟩

/-- A command compares or records the exact time of its argument, unless it is refused, exactly
when the time that it comes to use fits in 64 bits.
-/
theorem times_exact_iff (context : TimedContext F) (natural : 0 ≤ context.now) (db : Db F)
    {request : TimedRequest} {argument : TimeArgument} {t : Int}
    (timed : request.argument = some argument)
    (parsed : getLongLongFromObject argument.text = some t)
    : TimesExact request.use context.now db t (request.exactTime argument context.now t)
        (request.call context db)
      ↔ (request.Uses context db t → FitsLongLong (argument.exactTime context.now t)) := by
  have waits (unit : TimeUnit) (text : Sds)
      : (if TimeUse.waits = .waits ∧ t = 0 then 0
          else TimeArgument.exactTime ⟨text, unit, true⟩ context.now t)
        = if t = 0 then 0 else context.now + t * unit.factor := by
    simp [TimeArgument.exactTime]
  cases request with
  | expire key param =>
      cases timed
      exact expireGenericCommand_exact context.now .seconds key parsed
  | pexpire key param =>
      cases timed
      exact expireGenericCommand_exact context.now .milliseconds key parsed
  | expireat key param =>
      cases timed
      exact expireGenericCommand_exact 0 .seconds key parsed
  | pexpireat key param =>
      cases timed
      exact expireGenericCommand_exact 0 .milliseconds key parsed
  | set key value options =>
      obtain ⟨flags, parsedOptions, expire⟩ := Option.bind_eq_some_iff.mp timed
      obtain ⟨⟨text, unit⟩, expires, rfl⟩ := Option.map_eq_some_iff.mp expire
      have set := setGenericCommand_exact context db "set" flags key value expires parsed
      have goes : (0 < t ∧ ¬ flags.Aborts (db.lookupKey context.now key) key)
          ↔ TimedRequest.Uses context db t (.set key value options) := by
        constructor
        · exact fun used => ⟨used.1, flags, parsedOptions, used.2⟩
        · rintro ⟨positive, other, parsedOther, goes⟩
          cases parsedOptions.symm.trans parsedOther
          exact ⟨positive, goes⟩
      rw [goes] at set
      simp only [TimedRequest.call, TimedContext.setCommand, parsedOptions]
      exact set
  | setex key seconds value =>
      cases timed
      have set :=
        setGenericCommand_exact context db "setex" ⟨false, false, some (seconds, .seconds)⟩
        key value rfl parsed
      simp only [SetFlags.Aborts, Bool.false_eq_true, false_and, or_self, not_false_eq_true,
        and_true] at set
      exact set
  | psetex key milliseconds value =>
      cases timed
      have set := setGenericCommand_exact context db "psetex"
        ⟨false, false, some (milliseconds, .milliseconds)⟩ key value rfl parsed
      simp only [SetFlags.Aborts, Bool.false_eq_true, false_and, or_self, not_false_eq_true,
        and_true] at set
      exact set
  | restore key ttl serialized options =>
      cases timed
      exact restoreCommand_exact key serialized options parsed
  | blpop keys timeout =>
      cases timed
      rw [TimedRequest.exactTime, TimedRequest.use, waits]
      exact blockingPopGenericCommand_exact natural .head keys parsed
  | brpop keys timeout =>
      cases timed
      rw [TimedRequest.exactTime, TimedRequest.use, waits]
      exact blockingPopGenericCommand_exact natural .tail keys parsed
  | brpoplpush source target timeout =>
      cases timed
      rw [TimedRequest.exactTime, TimedRequest.use, waits]
      exact brpoplpushCommand_exact natural source target parsed
  | wait numreplicas timeout =>
      cases timed
      rw [TimedRequest.exactTime, TimedRequest.use, waits]
      exact waitCommand_exact natural numreplicas parsed

end Exactness

-- A wrap

/-- A server in 2015 with one key. -/
def wrapContext : TimedContext Unit where
  now := 1430000000000
  multi := false
  acks := 0
  payload := fun _ => .error "Bad data format"

def wrapDb : Db Unit := ObjectDb.empty.store [0x6B] (.string [0x76])

/-- `9223372036854775`. -/
def wrapSeconds : Sds :=
  [0x39, 0x32, 0x32, 0x33, 0x33, 0x37, 0x32, 0x30, 0x33, 0x36, 0x38, 0x35, 0x34, 0x37, 0x37, 0x35]

theorem times_exact_iff_pexpire
    : TimesExact (.expires [0x6B]) wrapContext.now wrapDb 5 (1430000000000 + 5 * 1)
        (TimedRequest.call wrapContext wrapDb (.pexpire [0x6B] [0x35]))
      ↔ (TimedRequest.Uses wrapContext wrapDb 5 (.pexpire [0x6B] [0x35]) →
          FitsLongLong (1430000000000 + 5 * 1)) :=
  @times_exact_iff Unit wrapContext (by decide) wrapDb (.pexpire [0x6B] [0x35])
    ⟨[0x35], .milliseconds, true⟩ 5 rfl (by decide)

/-- `EXPIRE` with a time to live of 292 million years deletes the key. -/
theorem expire_wraps
    : getLongLongFromObject wrapSeconds = some 9223372036854775
      ∧ (TimedRequest.call wrapContext wrapDb (.expire [0x6B] wrapSeconds)).db.dict [0x6B] = none
      ∧ ¬ TimesExact (.expires [0x6B]) wrapContext.now wrapDb 9223372036854775
          (1430000000000 + 9223372036854775 * 1000)
          (TimedRequest.call wrapContext wrapDb (.expire [0x6B] wrapSeconds)) := by
  have parsed : getLongLongFromObject wrapSeconds = some 9223372036854775 := by decide
  have present : (wrapDb.lookupKey wrapContext.now [0x6B]).dict [0x6B] ≠ none := nofun
  refine ⟨parsed, rfl, fun exact => ?_⟩
  have fits := (expireGenericCommand_exact wrapContext.now .seconds [0x6B] parsed).mp exact present
  exact absurd fits.2 (by decide)

end Redis.Keyspace
