import Redis.Keyspace.Replay

/-! Expire times in the append only file, which is fed absolute times for relative ones. -/

namespace Redis.Keyspace

variable {F L : Type}

-- The commands that set expire times

inductive ExpireCommand where
  | expire (key seconds : Sds)
  | pexpire (key milliseconds : Sds)
  | expireat (key seconds : Sds)
  | pexpireat (key milliseconds : Sds)
  | setex (key seconds value : Sds)
  | psetex (key milliseconds value : Sds)
  | set (key value : Sds) (options : List Sds)
deriving DecidableEq, Repr

/-- `cmd->proc` of the commands that `catAppendOnlyExpireAtCommand` translates. -/
inductive ExpireProc where
  | expireCommand
  | pexpireCommand
  | expireatCommand
  | setexCommand
  | psetexCommand
deriving DecidableEq, Repr

section Commands

variable (env : Environment L) (role : Role)

def catAppendOnlyExpireAtCommand (proc : ExpireProc) (key seconds : Sds) : Request :=
  let time := strtol seconds
  let time :=
    if proc = .expireCommand ∨ proc = .setexCommand ∨ proc = .expireatCommand then
      longLong (time * 1000)
    else time
  let time :=
    if proc = .expireCommand ∨ proc = .pexpireCommand ∨ proc = .setexCommand
        ∨ proc = .psetexCommand then
      longLong (env.now + time)
    else time
  .pexpireat key (decimalText time)

/-- What `feedAppendOnlyFile` appends for a command. -/
def feedAppendOnlyFile : ExpireCommand → List Request
  | .expire key seconds => [catAppendOnlyExpireAtCommand env .expireCommand key seconds]
  | .pexpire key milliseconds =>
      [catAppendOnlyExpireAtCommand env .pexpireCommand key milliseconds]
  | .expireat key seconds => [catAppendOnlyExpireAtCommand env .expireatCommand key seconds]
  | .setex key seconds value =>
      [.set key value [], catAppendOnlyExpireAtCommand env .setexCommand key seconds]
  | .psetex key milliseconds value =>
      [.set key value [], catAppendOnlyExpireAtCommand env .psetexCommand key milliseconds]
  | .pexpireat key milliseconds => [.pexpireat key milliseconds]
  | .set key value options => [.set key value options]

/-- What a command leaves, with what the file is fed for it: the command itself, or a `DEL`. -/
structure Fed (F : Type) where
  db : Db F
  fed : List Request

/-- `expireIfNeeded`, which feeds `DEL`. -/
def Fed.expireIfNeeded (run : Fed F) (key : Sds) : Fed F :=
  if role = .master ∧ run.db.isExpired env.now key then
    ⟨run.db.dbDelete key, run.fed ++ [.del key]⟩
  else run

/-- A time of this unit in milliseconds. -/
def TimeUnit.scale : TimeUnit → Int → Int
  | .seconds, v => longLong (v * 1000)
  | .milliseconds, v => v

def Fed.expireGenericCommand (run : Fed F) (command : ExpireCommand) (basetime : Int)
    (unit : TimeUnit) (key param : Sds) : Fed F :=
  match getLongLongFromObject param with
  | none => run
  | some v =>
      let time := longLong (basetime + unit.scale v)
      let run := run.expireIfNeeded env role key
      match run.db.dict key with
      | none => run
      | some _ =>
          if time ≤ env.now ∧ role = .master then
            ⟨run.db.dbDelete key, run.fed ++ [.del key]⟩
          else ⟨run.db.setExpire key time, run.fed ++ feedAppendOnlyFile env command⟩

/-- The time of `setGenericCommand`, if there is one, in milliseconds; it may be refused. -/
def SetFlags.milliseconds (flags : SetFlags) : Option (Option Int) :=
  match flags.expire with
  | none => some none
  | some (time, unit) => (expireMilliseconds time unit).map some

def Fed.setGenericCommand (run : Fed F) (command : ExpireCommand) (flags : SetFlags)
    (key value : Sds) : Fed F :=
  match flags.milliseconds with
  | none => run
  | some milliseconds =>
      let run := run.expireIfNeeded env role key
      match run.db.setGeneric env flags key value milliseconds with
      | none => run
      | some db => ⟨db, run.fed ++ feedAppendOnlyFile env command⟩

/-- A command, with what the file is fed. -/
def Fed.call (run : Fed F) (command : ExpireCommand) : Fed F :=
  match command with
  | .expire key seconds => run.expireGenericCommand env role command env.now .seconds key seconds
  | .pexpire key milliseconds =>
      run.expireGenericCommand env role command env.now .milliseconds key milliseconds
  | .expireat key seconds => run.expireGenericCommand env role command 0 .seconds key seconds
  | .pexpireat key milliseconds =>
      run.expireGenericCommand env role command 0 .milliseconds key milliseconds
  | .setex key seconds value =>
      run.setGenericCommand env role command ⟨false, false, some (seconds, .seconds)⟩ key value
  | .psetex key milliseconds value =>
      run.setGenericCommand env role command ⟨false, false, some (milliseconds, .milliseconds)⟩ key
        value
  | .set key value options =>
      match setOptions .noFlags options with
      | none => run
      | some flags => run.setGenericCommand env role command flags key value

end Commands

-- The file

/-- A command in the file; `SELECT` is fed when the database changes. -/
inductive FileEntry where
  | select (id : Nat)
  | command (request : Request)
deriving DecidableEq, Repr

/-- A command of a client that has selected a database, with the time at which it is executed. -/
structure TimedCommand where
  now : Int
  dictid : Nat
  command : ExpireCommand
deriving DecidableEq, Repr

/-- The databases, with the file and `server.aof_selected_db`. -/
structure AofServer (F : Type) where
  dbs : Nat → Db F
  aofSelectedDb : Option Nat
  file : List FileEntry

/-- The databases that are loaded, and the one that the fake client has selected. -/
structure Loaded (F : Type) where
  dbs : Nat → Db F
  selected : Nat

section File

variable (env : Environment L) (role : Role)

def Environment.at (now : Int) : Environment L := { env with now }

/-- `feedAppendOnlyFile` of what a command is translated to. -/
def AofServer.feed (server : AofServer F) (dictid : Nat) (request : Request) : AofServer F :=
  { server with
    file :=
      server.file ++ (if server.aofSelectedDb = some dictid then [] else [.select dictid])
        ++ [.command request]
    aofSelectedDb := some dictid }

def AofServer.step (server : AofServer F) (c : TimedCommand) : AofServer F :=
  let run := Fed.call (env.at c.now) role ⟨server.dbs c.dictid, []⟩ c.command
  run.fed.foldl (fun server request => server.feed c.dictid request)
    { server with dbs := Function.update server.dbs c.dictid run.db }

/-- A server that was started with these databases executes commands. -/
def AofServer.run (dbs : Nat → Db F) (commands : List TimedCommand) : AofServer F :=
  commands.foldl (AofServer.step env role) ⟨dbs, none, []⟩

/-- A command of the file; while `server.loading` is set keys do not expire. -/
def Loaded.execute (loaded : Loaded F) : FileEntry → Loaded F
  | .select id => { loaded with selected := id }
  | .command request =>
      { loaded with
        dbs :=
          Function.update loaded.dbs loaded.selected
            ((loaded.dbs loaded.selected).execute env request) }

/-- The file is replayed, each command at its own time. -/
def Loaded.replay : (later : Nat → Int) → Loaded F → List FileEntry → Loaded F
  | _, loaded, [] => loaded
  | later, loaded, entry :: entries =>
      Loaded.replay (fun i => later (i + 1)) (loaded.execute (env.at (later 0)) entry) entries

/-- Replaying the file at any later time gives every key the expire time that it had. -/
def ExpiresRestored (dbs : Nat → Db F) (commands : List TimedCommand) : Prop :=
  ∀ (selected : Nat) (later : Nat → Int), (∀ i, ∀ c ∈ commands, c.now ≤ later i) →
    ∀ id key, ((Loaded.replay env later ⟨dbs, selected⟩ (AofServer.run env role dbs commands).file
      ).dbs id).expires key = ((AofServer.run env role dbs commands).dbs id).expires key

def ObjectDb.finds (db : Db F) (key : Sds) : Bool :=
  (db.dict key).isSome && !(decide (role = .master) && db.isExpired env.now key)

/-- A `SET` with `EX` or `PX` sets an expire time. -/
def ObjectDb.setsRelativeTime (db : Db F) : ExpireCommand → Bool
  | .set key _ options =>
      match setOptions .noFlags options with
      | none => false
      | some flags =>
          match flags.milliseconds with
          | some (some _) =>
              !(flags.nx && db.finds env role key) && !(flags.xx && !db.finds env role key)
          | _ => false
  | _ => false

/-- No `SET` with `EX` or `PX` sets an expire time. -/
def AofServer.noRelativeTimes : AofServer F → List TimedCommand → Bool
  | _, [] => true
  | server, c :: commands =>
      !(server.dbs c.dictid).setsRelativeTime (env.at c.now) role c.command
        && AofServer.noRelativeTimes (server.step env role c) commands

end File

section Requests

variable {env : Environment L} {role : Role}

/-- Requests are executed on a copy, each at its own time. -/
def ObjectDb.replayAt (env : Environment L) : (later : Nat → Int) → Db F → List Request → Db F
  | _, db, [] => db
  | later, db, request :: requests =>
      ObjectDb.replayAt env (fun i => later (i + 1)) (db.execute (env.at (later 0)) request)
        requests

theorem replayAt_append (env : Environment L) (later : Nat → Int) (db : Db F)
    (first second : List Request)
    : db.replayAt env later (first ++ second)
      = (db.replayAt env later first).replayAt env (fun i => later (i + first.length)) second := by
  induction first generalizing later db with
  | nil => rfl
  | cons request first ih =>
      simp only [List.cons_append, ObjectDb.replayAt, List.length_cons]
      rw [ih]
      simp only [Nat.add_assoc]

/-- What was fed leads to the database whenever it is replayed. -/
def Followed (env : Environment L) (start : Db F) (run : Fed F) : Prop :=
  ∀ later, start.replayAt env later run.fed = run.db

variable {start : Db F} {run : Fed F} {key : Sds} {now : Environment L} {command : ExpireCommand}
  {db : Db F} {unit : TimeUnit}

theorem Followed.append (followed : Followed env start run) {requests : List Request}
    (same : ∀ later, run.db.replayAt env later requests = db)
    : Followed env start ⟨db, run.fed ++ requests⟩ := by
  intro later
  rw [replayAt_append, followed later]
  exact same _

theorem replayAt_del (stored : db.dict key ≠ none) (later : Nat → Int)
    : db.replayAt env later [.del key] = db.dbDelete key := by
  simp only [ObjectDb.replayAt, ObjectDb.execute, Run.call, expireIfNeeded_copy, change_db,
    ObjectDb.del]
  cases found : db.dict key with
  | none => exact absurd found stored
  | some value => rfl

theorem replayAt_pexpireat (stored : db.dict key ≠ none) {text : Sds} {time : Int}
    (read : getLongLongFromObject text = some time) (later : Nat → Int)
    : db.replayAt env later [.pexpireat key text] = db.setExpire key time := by
  simp only [ObjectDb.replayAt, ObjectDb.execute, Run.call, read, Run.pexpireat,
    expireIfNeeded_copy]
  cases found : db.dict key with
  | none => exact absurd found stored
  | some value => simp

theorem Followed.expireIfNeeded (followed : Followed env start run) (role : Role)
    (now : Environment L) (key : Sds)
    : Followed env start (run.expireIfNeeded now role key) := by
  unfold Fed.expireIfNeeded
  split
  · rename_i expired
    exact followed.append (replayAt_del (isExpired_stored expired.2))
  · exact followed

theorem Followed.expireGenericCommand (followed : Followed env start run)
    {basetime : Int} {param : Sds} (same : ∀ v, getLongLongFromObject param = some v → ∃ text,
      feedAppendOnlyFile now command = [.pexpireat key text]
      ∧ getLongLongFromObject text = some (longLong (basetime + unit.scale v)))
    : Followed env start (run.expireGenericCommand now role command basetime unit key param) := by
  have expired := followed.expireIfNeeded role now key
  unfold Fed.expireGenericCommand
  split
  · exact followed
  · rename_i v read
    obtain ⟨text, fed, time⟩ := same v read
    dsimp only
    split
    · exact expired
    · rename_i value found
      have stored : (run.expireIfNeeded now role key).db.dict key ≠ none := by simp [found]
      split
      · exact expired.append (replayAt_del stored)
      · rw [fed]
        exact expired.append (replayAt_pexpireat stored time)

theorem Followed.setGenericCommand (followed : Followed env start run)
    {flags : SetFlags} {value : Sds}
    (same : ∀ (milliseconds : Option Int) (db : Db F), flags.milliseconds = some milliseconds →
      (run.expireIfNeeded now role key).db.setGeneric now flags key value milliseconds = some db →
      ∀ later, (run.expireIfNeeded now role key).db.replayAt env later
        (feedAppendOnlyFile now command) = db)
    : Followed env start (run.setGenericCommand now role command flags key value) := by
  have expired := followed.expireIfNeeded role now key
  unfold Fed.setGenericCommand
  split
  · exact followed
  · rename_i milliseconds accepted
    dsimp only
    split
    · exact expired
    · rename_i db set
      exact expired.append (same milliseconds db accepted set)

theorem longLong_longLong (v : Int) : longLong (longLong v) = longLong v := Int.bmod_bmod

theorem longLong_of_getLongLong {text : Sds} {v : Int} (read : getLongLongFromObject text = some v)
    : longLong v = v := by
  obtain ⟨_, inRange⟩ := Option.filter_eq_some_iff.mp read
  have range : -2 ^ 63 ≤ v ∧ v < 2 ^ 63 := by simpa using inRange
  refine Int.bmod_eq_of_le ?_ ?_
  · omega
  · omega

theorem getLongLong_longLong (v : Int)
    : getLongLongFromObject (decimalText (longLong v)) = some (longLong v) := by
  obtain ⟨low, high⟩ := longLong_range v
  exact getLongLongFromObject_decimalText low high

theorem replayAt_setex {value time : Sds} {milliseconds moment : Int}
    (text : getLongLongFromObject time = some (longLong (moment + milliseconds)))
    (later : Nat → Int)
    : db.replayAt env later [.set key value [], .pexpireat key time]
      = (db.setKey key (.string value)).setExpire key (longLong (moment + milliseconds)) := by
  have set : db.replayAt env later [.set key value []] = db.setKey key (.string value) :=
    execute_set db key value
  have both := replayAt_append env later db [.set key value []] [.pexpireat key time]
  rw [List.singleton_append] at both
  rw [both, set]
  exact replayAt_pexpireat (setKey_stored db key _) text _

theorem replayAt_set {db db' : Db F} {value : Sds} {options : List Sds} {flags : SetFlags}
    (parsed : setOptions .noFlags options = some flags)
    (timeless : flags.expire = none) (set : db.setGeneric now flags key value none = some db')
    (later : Nat → Int)
    : db.replayAt env later [.set key value options] = db' := by
  have same : db.setGeneric (env.at (later 0)) flags key value none = some db' := set
  simp [ObjectDb.replayAt, ObjectDb.execute, Run.call, parsed, Run.setGenericCommand, timeless,
    same]

theorem scale_strtol {time : Sds} {milliseconds : Int}
    (read : expireMilliseconds time unit = some milliseconds)
    : unit.scale (strtol time) = milliseconds := by
  unfold expireMilliseconds at read
  split at read
  · cases read
  · rename_i v number
    split at read
    · cases read
    · rw [strtol_of_getLongLong number]
      cases unit with
      | seconds => exact Option.some.inj read
      | milliseconds => exact Option.some.inj read

theorem replayAt_translated {db db' : Db F} {proc : ExpireProc}
    {value time : Sds} {milliseconds : Option Int}
    (translated : catAppendOnlyExpireAtCommand now proc key time
      = .pexpireat key (decimalText (longLong (now.now + unit.scale (strtol time)))))
    (accepted : SetFlags.milliseconds ⟨false, false, some (time, unit)⟩ = some milliseconds)
    (set : db.setGeneric now ⟨false, false, some (time, unit)⟩ key value milliseconds = some db')
    (later : Nat → Int)
    : db.replayAt env later [.set key value [], catAppendOnlyExpireAtCommand now proc key time]
      = db' := by
  obtain ⟨ms, read, rfl⟩ := Option.map_eq_some_iff.mp accepted
  have result : db' = (db.setKey key (.string value)).setExpire key (longLong (now.now + ms)) := by
    simpa [ObjectDb.setGeneric] using set.symm
  rw [translated, scale_strtol read, result]
  exact replayAt_setex (getLongLong_longLong _) later

theorem expireIfNeeded_finds (role : Role) (run : Fed F) (now : Environment L) (key : Sds)
    : (run.expireIfNeeded now role key).db.dict key ≠ none
      ↔ run.db.finds now role key = true := by
  unfold Fed.expireIfNeeded ObjectDb.finds
  split
  · rename_i expired
    simp [ObjectDb.dbDelete, expired.1, expired.2]
  · rename_i kept
    cases role with
    | copy => simp [Option.isSome_iff_ne_none]
    | master =>
        have live : run.db.isExpired now.now key = false := by simpa using kept
        simp [live, Option.isSome_iff_ne_none]

theorem setGeneric_finds (role : Role) (run : Fed F) (now : Environment L) (flags : SetFlags)
    (key value : Sds)
    (milliseconds : Option Int)
    : (run.expireIfNeeded now role key).db.setGeneric now flags key value milliseconds ≠ none
      ↔ (!(flags.nx && run.db.finds now role key) && !(flags.xx && !run.db.finds now role key))
        = true := by
  have finds := expireIfNeeded_finds role run now key
  cases found : run.db.finds now role key with
  | false =>
      have absent : (run.expireIfNeeded now role key).db.dict key = none := by
        simpa [found] using finds
      cases milliseconds <;> simp [ObjectDb.setGeneric, absent]
  | true =>
      have stored : (run.expireIfNeeded now role key).db.dict key ≠ none := finds.mpr found
      cases milliseconds <;> simp [ObjectDb.setGeneric, stored]

theorem Followed.call (followed : Followed env start run)
    (absolute : run.db.setsRelativeTime now role command = false)
    : Followed env start (run.call now role command) := by
  cases command with
  | expire key seconds =>
      refine followed.expireGenericCommand fun v read => ⟨_, rfl, ?_⟩
      rw [strtol_of_getLongLong read]
      exact getLongLong_longLong _
  | pexpire key milliseconds =>
      refine followed.expireGenericCommand fun v read => ⟨_, rfl, ?_⟩
      rw [strtol_of_getLongLong read]
      exact getLongLong_longLong _
  | expireat key seconds =>
      refine followed.expireGenericCommand fun v read => ⟨_, rfl, ?_⟩
      rw [strtol_of_getLongLong read, Int.zero_add, TimeUnit.scale, longLong_longLong]
      exact getLongLong_longLong _
  | pexpireat key milliseconds =>
      refine followed.expireGenericCommand fun v read => ⟨_, rfl, ?_⟩
      rw [Int.zero_add, TimeUnit.scale, longLong_of_getLongLong read]
      exact read
  | setex key seconds value =>
      have translated : catAppendOnlyExpireAtCommand now .setexCommand key seconds
          = .pexpireat key
            (decimalText (longLong (now.now + TimeUnit.scale .seconds (strtol seconds)))) := by
        simp [catAppendOnlyExpireAtCommand, TimeUnit.scale]
      exact followed.setGenericCommand fun _ _ accepted set =>
        replayAt_translated translated accepted set
  | psetex key milliseconds value =>
      have translated : catAppendOnlyExpireAtCommand now .psetexCommand key milliseconds
          = .pexpireat key
            (decimalText (longLong (now.now + TimeUnit.scale .milliseconds (strtol milliseconds))))
          := by
        simp [catAppendOnlyExpireAtCommand, TimeUnit.scale]
      exact followed.setGenericCommand fun _ _ accepted set =>
        replayAt_translated translated accepted set
  | set key value options =>
      simp only [Fed.call, ObjectDb.setsRelativeTime] at absolute ⊢
      cases parsed : setOptions .noFlags options with
      | none => exact followed
      | some flags =>
          refine followed.setGenericCommand fun milliseconds db accepted set => ?_
          simp only [parsed, accepted] at absolute
          cases milliseconds with
          | none =>
              have timeless : flags.expire = none := by
                cases expire : flags.expire with
                | none => rfl
                | some pair => simp [SetFlags.milliseconds, expire] at accepted
              exact replayAt_set parsed timeless set
          | some ms =>
              have passes := (setGeneric_finds role run now flags key value
                (some ms)).mp (by rw [set]; exact Option.some_ne_none db)
              exact absurd (absolute.symm.trans passes) Bool.false_ne_true

theorem relative_call (env : Environment L) (relative : db.setsRelativeTime now role command = true)
    : ∃ key milliseconds,
        (Fed.call now role ⟨db, []⟩ command).db.expires key
          = some (longLong (now.now + milliseconds))
        ∧ ∀ moment, (db.replayAt env (fun _ => moment) (Fed.call now role ⟨db, []⟩ command).fed
          ).expires key = some (longLong (moment + milliseconds)) := by
  cases command with
  | expire | pexpire | expireat | pexpireat | setex | psetex => cases relative
  | set key value options =>
      unfold ObjectDb.setsRelativeTime at relative
      cases parsed : setOptions .noFlags options with
      | none => simp [parsed] at relative
      | some flags =>
          simp only [parsed] at relative
          split at relative
          · rename_i ms accepted
            have passes :=
              (setGeneric_finds role ⟨db, []⟩ now flags key value (some ms)).mpr relative
            have looked : Followed env db (Fed.expireIfNeeded now role ⟨db, []⟩ key) :=
              Followed.expireIfNeeded (fun _ => rfl) role now key
            simp only [Fed.call, parsed, Fed.setGenericCommand, accepted]
            generalize Fed.expireIfNeeded now role ⟨db, []⟩ key = run at passes looked
            have free : ¬ ((flags.nx ∧ run.db.dict key ≠ none)
                ∨ (flags.xx ∧ run.db.dict key = none)) := by
              intro stops
              exact passes (if_pos stops)
            have set : ∀ now : Environment L, run.db.setGeneric now flags key value (some ms)
                = some ((run.db.setKey key (.string value)).setExpire key
                  (longLong (now.now + ms))) :=
              fun now => if_neg free
            have expires : ∀ time, ((run.db.setKey key (.string value)).setExpire key time).expires
                key = some time := by
              intro time
              have stored := setKey_stored run.db key (.string value)
              simp [ObjectDb.setExpire, stored]
            refine ⟨key, ms, ?_, fun moment => ?_⟩
            · simp only [set]
              exact expires _
            · have expire : ∃ pair, flags.expire = some pair
                  ∧ expireMilliseconds pair.1 pair.2 = some ms := by
                cases expire : flags.expire with
                | none => simp [SetFlags.milliseconds, expire] at accepted
                | some pair =>
                    refine ⟨pair, rfl, ?_⟩
                    simpa [SetFlags.milliseconds, expire] using accepted
              obtain ⟨pair, expire, read⟩ := expire
              simp only [set]
              rw [replayAt_append, looked]
              simp only [feedAppendOnlyFile, ObjectDb.replayAt, ObjectDb.execute, Run.call, parsed,
                Run.setGenericCommand, expire, read, expireIfNeeded_copy, change_db, set,
                Option.getD_some]
              exact expires _
          · cases relative

end Requests

section Replay

variable {env : Environment L} {role : Role} {dbs : Nat → Db F} {server : AofServer F}

theorem loaded_replay_append (later : Nat → Int) (loaded : Loaded F)
    (first second : List FileEntry)
    : loaded.replay env later (first ++ second)
      = (loaded.replay env later first).replay env (fun i => later (i + first.length)) second := by
  induction first generalizing later loaded with
  | nil => rfl
  | cons entry first ih =>
      simp only [List.cons_append, Loaded.replay, List.length_cons]
      rw [ih]
      simp only [Nat.add_assoc]

theorem replay_commands (later : Nat → Int) (loaded : Loaded F) (requests : List Request)
    : loaded.replay env later (requests.map .command)
      = { loaded with
          dbs :=
            Function.update loaded.dbs loaded.selected
              ((loaded.dbs loaded.selected).replayAt env later requests) } := by
  induction requests generalizing later loaded with
  | nil => simp [Loaded.replay, ObjectDb.replayAt]
  | cons request requests ih =>
      simp only [List.map_cons, Loaded.replay, ih]
      simp [Loaded.execute, ObjectDb.replayAt]

theorem feed_file (requests : List Request) (dictid : Nat) (server : AofServer F)
    : (requests.foldl (fun server request => server.feed dictid request) server).file
        = server.file
          ++ (if requests = [] ∨ server.aofSelectedDb = some dictid then []
            else [.select dictid])
          ++ requests.map .command
      ∧ (requests.foldl (fun server request => server.feed dictid request) server).aofSelectedDb
        = if requests = [] then server.aofSelectedDb else some dictid := by
  induction requests generalizing server with
  | nil => simp
  | cons request requests ih =>
      obtain ⟨file, selected⟩ := ih (server.feed dictid request)
      simp only [List.foldl_cons]
      rw [file, selected]
      simp [AofServer.feed]

@[simp]
theorem at_now (env : Environment L) (now : Int) : (env.at now).now = now := rfl

theorem feed_dbs (requests : List Request) (dictid : Nat) (server : AofServer F)
    : (requests.foldl (fun server request => server.feed dictid request) server).dbs
      = server.dbs := by
  induction requests generalizing server with
  | nil => rfl
  | cons request requests ih => exact ih (server.feed dictid request)

theorem step_dbs (server : AofServer F) (c : TimedCommand)
    : (server.step env role c).dbs = Function.update server.dbs c.dictid
        (Fed.call (env.at c.now) role ⟨server.dbs c.dictid, []⟩ c.command).db :=
  feed_dbs ..

/-- The file leads to the databases of the server whenever it is replayed. -/
structure FollowsFile (env : Environment L) (dbs : Nat → Db F) (server : AofServer F) : Prop where
  contents : ∀ selected later,
    (Loaded.replay env later ⟨dbs, selected⟩ server.file).dbs = server.dbs
  selection : ∀ selected later id, server.aofSelectedDb = some id →
    (Loaded.replay env later ⟨dbs, selected⟩ server.file).selected = id

theorem FollowsFile.replay_step (follows : FollowsFile env dbs server) (role : Role)
    (c : TimedCommand) (selected : Nat) (later : Nat → Int)
    : ∃ k,
        (Loaded.replay env later ⟨dbs, selected⟩ (server.step env role c).file).dbs
          = Function.update server.dbs c.dictid ((server.dbs c.dictid).replayAt env
            (fun i => later (i + k))
            (Fed.call (env.at c.now) role ⟨server.dbs c.dictid, []⟩ c.command).fed)
        ∧ ∀ id, (server.step env role c).aofSelectedDb = some id →
          (Loaded.replay env later ⟨dbs, selected⟩ (server.step env role c).file).selected
            = id := by
  have before := follows.contents selected later
  have chosen := follows.selection selected later
  unfold AofServer.step
  dsimp only
  generalize Fed.call (env.at c.now) role ⟨server.dbs c.dictid, []⟩ c.command = run
  obtain ⟨file, next⟩ := feed_file run.fed c.dictid
    { server with dbs := Function.update server.dbs c.dictid run.db }
  rw [file, next]
  simp only [loaded_replay_append, replay_commands]
  generalize Loaded.replay env later ⟨dbs, selected⟩ server.file = loaded at before chosen
  by_cases nothing : run.fed = []
  · refine ⟨0, ?_, ?_⟩
    · simp [nothing, Loaded.replay, ObjectDb.replayAt, before]
    · simpa [nothing, Loaded.replay] using chosen
  by_cases same : server.aofSelectedDb = some c.dictid
  · have here := chosen c.dictid same
    refine ⟨server.file.length, ?_, ?_⟩
    · simp [same, Loaded.replay, before, here]
    · simp [nothing, same, Loaded.replay, here]
  · refine ⟨server.file.length + 1, ?_, ?_⟩
    · simp [nothing, same, Loaded.replay, Loaded.execute, before]
    · simp [nothing, same, Loaded.replay, Loaded.execute]

theorem FollowsFile.step (follows : FollowsFile env dbs server) {c : TimedCommand}
    (absolute : (server.dbs c.dictid).setsRelativeTime (env.at c.now) role c.command = false)
    : FollowsFile env dbs (server.step env role c) := by
  have followed : Followed env (server.dbs c.dictid)
      (Fed.call (env.at c.now) role ⟨server.dbs c.dictid, []⟩ c.command) :=
    Followed.call (fun _ => rfl) absolute
  constructor
  · intro selected later
    obtain ⟨k, contents, _⟩ := follows.replay_step role c selected later
    rw [contents, followed, step_dbs]
  · intro selected later
    obtain ⟨_, _, selection⟩ := follows.replay_step role c selected later
    exact selection

theorem FollowsFile.step_relative (follows : FollowsFile env dbs server) {c : TimedCommand}
    (relative : (server.dbs c.dictid).setsRelativeTime (env.at c.now) role c.command = true)
    (selected : Nat)
    : ∃ key milliseconds,
        ((server.step env role c).dbs c.dictid).expires key
          = some (longLong (c.now + milliseconds))
        ∧ ∀ moment, ((Loaded.replay env (fun _ => moment) ⟨dbs, selected⟩
            (server.step env role c).file).dbs c.dictid).expires key
          = some (longLong (moment + milliseconds)) := by
  obtain ⟨key, ms, set, replayed⟩ := relative_call env relative
  refine ⟨key, ms, ?_, fun moment => ?_⟩
  · rw [step_dbs]
    simpa using set
  · obtain ⟨k, contents, _⟩ := follows.replay_step role c selected fun _ => moment
    rw [contents]
    simpa using replayed moment

theorem longLong_succ (v : Int) : longLong (v + 1) ≠ longLong v := by
  intro same
  have residues : (v + 1) % (2 ^ 64 : Nat) = v % (2 ^ 64 : Nat) := by
    have both := congrArg (· % ((2 ^ 64 : Nat) : Int)) same
    simpa only [longLong, Int.bmod_emod] using both
  omega

theorem exists_later (moments : List Int) (now milliseconds : Int)
    : ∃ later, (∀ moment ∈ moments, moment ≤ later)
      ∧ longLong (later + milliseconds) ≠ longLong (now + milliseconds) := by
  have bounded : ∃ last, ∀ moment ∈ moments, moment ≤ last := by
    induction moments with
    | nil => exact ⟨0, by simp⟩
    | cons first rest ih =>
        obtain ⟨last, bound⟩ := ih
        refine ⟨max first last, fun moment member => ?_⟩
        rcases List.mem_cons.mp member with rfl | inside
        · exact le_max_left _ _
        · exact (bound moment inside).trans (le_max_right _ _)
  obtain ⟨last, bound⟩ := bounded
  by_cases same : longLong (last + milliseconds) = longLong (now + milliseconds)
  · refine ⟨last + 1, fun moment member => (bound moment member).trans (by omega), ?_⟩
    rw [← same, Int.add_right_comm]
    exact longLong_succ _
  · exact ⟨last, bound, same⟩

theorem run_append_one (dbs : Nat → Db F) (commands : List TimedCommand) (c : TimedCommand)
    : AofServer.run env role dbs (commands ++ [c])
      = (AofServer.run env role dbs commands).step env role c := by
  simp [AofServer.run]

theorem FollowsFile.expiresRestored {commands : List TimedCommand}
    (follows : FollowsFile env dbs (.run env role dbs commands))
    : ExpiresRestored env role dbs commands := by
  intro selected later _ id key
  rw [follows.contents]

theorem expiresRestored_from {done : List TimedCommand}
    (follows : FollowsFile env dbs (.run env role dbs done)) (commands : List TimedCommand)
    : (∀ n, ExpiresRestored env role dbs (done ++ commands.take n))
      ↔ (AofServer.run env role dbs done).noRelativeTimes env role commands = true := by
  induction commands generalizing done with
  | nil => simpa [AofServer.noRelativeTimes] using follows.expiresRestored
  | cons c commands ih =>
      simp only [AofServer.noRelativeTimes, Bool.and_eq_true, Bool.not_eq_true']
      cases relative : ObjectDb.setsRelativeTime (env.at c.now) role
          ((AofServer.run env role dbs done).dbs c.dictid) c.command with
      | false =>
          have next : FollowsFile env dbs (.run env role dbs (done ++ [c])) := by
            rw [run_append_one]
            exact follows.step relative
          rw [← run_append_one, ← ih next]
          constructor
          · intro always
            exact ⟨rfl, fun n => by simpa using always (n + 1)⟩
          · rintro ⟨_, always⟩ n
            cases n with
            | zero => simpa using follows.expiresRestored
            | succ n => simpa using always n
      | true =>
          refine iff_of_false (fun always => ?_) (by simp)
          have once : ExpiresRestored env role dbs (done ++ [c]) := by simpa using always 1
          obtain ⟨key, ms, set, replayed⟩ := follows.step_relative relative 0
          obtain ⟨later, behind, other⟩ :=
            exists_later ((done ++ [c]).map (·.now)) c.now ms
          have same := once 0 (fun _ => later)
            (fun _ c member => behind _ (List.mem_map_of_mem member)) c.dictid key
          rw [run_append_one, set, replayed later] at same
          exact other (Option.some.inj same)

/-- Replaying the file restores the expire times after every command, if and only if no `SET` with
`EX` or `PX` sets one.
-/
theorem file_restores_expires (env : Environment L) (role : Role) (dbs : Nat → Db F)
    (commands : List TimedCommand)
    : (∀ n, ExpiresRestored env role dbs (commands.take n))
      ↔ (AofServer.run env role dbs []).noRelativeTimes env role commands = true := by
  have start : FollowsFile env dbs (.run env role dbs []) := ⟨fun _ _ => rfl, nofun⟩
  simpa using expiresRestored_from start commands

end Replay

-- A relative time in the file

/-- An environment without `long double` numbers. -/
def timesOnly : Environment Unit where
  now := 0
  parse _ := none
  zero := ()
  add _ _ := ()
  isNanOrInf _ := false
  text _ := []
  random _ := none
  random_mem := random_mem_of_none

/-- A server without keys executes `SET k v EX 10` at the time 1000. -/
def setWithTime : List TimedCommand :=
  [⟨1000, 0, .set [0x6B] [0x76] [[0x45, 0x58], [0x31, 0x30]]⟩]

/-- When the file is replayed 5 seconds later, the key lives 5 seconds longer. -/
theorem set_ex_lives_longer
    : ((AofServer.run timesOnly .master (fun _ => (ObjectDb.empty : Db Unit)) setWithTime).dbs
      0).expires
        [0x6B] = some 11000
      ∧ ((Loaded.replay timesOnly (fun _ => 6000) ⟨fun _ => (ObjectDb.empty : Db Unit), 0⟩
          (AofServer.run timesOnly .master (fun _ => (ObjectDb.empty : Db Unit))
            setWithTime).file).dbs
          0).expires [0x6B] = some 16000
      ∧ ¬ ∀ n, ExpiresRestored timesOnly .master (fun _ => (ObjectDb.empty : Db Unit))
          (setWithTime.take n) := by
  have server
      : ((AofServer.run timesOnly .master (fun _ => (ObjectDb.empty : Db Unit)) setWithTime).dbs
      0).expires [0x6B] = some 11000 := by decide
  have loaded : ((Loaded.replay timesOnly (fun _ => 6000) ⟨fun _ => (ObjectDb.empty : Db Unit), 0⟩
      (AofServer.run timesOnly .master (fun _ => (ObjectDb.empty : Db Unit)) setWithTime).file).dbs
      0).expires [0x6B] = some 16000 := by decide
  refine ⟨server, loaded, fun always => ?_⟩
  have same := always 1 0 (fun _ => 6000) (fun _ => by decide) 0 [0x6B]
  rw [show setWithTime.take 1 = setWithTime from rfl, server, loaded] at same
  exact absurd same (by decide)

end Redis.Keyspace
