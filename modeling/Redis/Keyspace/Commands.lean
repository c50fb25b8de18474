import Redis.Keyspace.Model
import Redis.Replication.Backlog

/-! The commands that propagate something else than themselves, with what they propagate. -/

namespace Redis.Keyspace

open Redis.Lists (Where listTypePop listTypePush)

/-- What the server takes from outside: the clock, `long double` arithmetic, random members. -/
structure Environment (L : Type) where
  /-- `mstime()`. -/
  now : Int
  /-- `getLongDoubleFromObject`. -/
  parse : Sds → Option L
  zero : L
  add : L → L → L
  /-- `isnan(value) || isinf(value)`. -/
  isNanOrInf : L → Bool
  /-- `createStringObjectFromLongDouble`. -/
  text : L → Sds
  /-- `setTypeRandomElement`. -/
  random : Finset Sds → Option Sds
  random_mem : ∀ members member, random members = some member → member ∈ members

theorem random_mem_of_none (members : Finset Sds) (member : Sds)
    (chosen : (none : Option Sds) = some member) : member ∈ members := by
  cases chosen

/-- A server that owns its keys, or one that gets its commands from a master or from a file. -/
inductive Role where
  | master
  | copy
deriving DecidableEq, Repr

/-- The commands, with their arguments as they are sent. -/
inductive Request where
  | set (key value : Sds) (options : List Sds)
  | setex (key seconds value : Sds)
  | psetex (key milliseconds value : Sds)
  | getset (key value : Sds)
  | incrbyfloat (key increment : Sds)
  | spop (key : Sds)
  | srem (key : Sds) (members : List Sds)
  | hincrbyfloat (key field increment : Sds)
  | hset (key field value : Sds)
  /-- `LPOP` and `RPOP`. -/
  | pop (place : Where) (key : Sds)
  /-- `BLPOP` and `BRPOP`. -/
  | bpop (place : Where) (keys : List Sds) (timeout : Sds)
  | brpoplpush (source target timeout : Sds)
  | lpush (key : Sds) (values : List Sds)
  | del (key : Sds)
  | pexpireat (key time : Sds)
deriving DecidableEq, Repr

/-- A database and the commands that were propagated. -/
structure Run (F : Type) where
  db : Db F
  propagated : List Request

variable {F L : Type} (env : Environment L) (role : Role)

/-- `expireIfNeeded`: only a master deletes, and propagates the deletion. -/
def Run.expireIfNeeded (run : Run F) (key : Sds) : Run F :=
  if role = .master ∧ run.db.isExpired env.now key then
    ⟨run.db.dbDelete key, run.propagated ++ [.del key]⟩
  else run

/-- What a command changes, and the command that `call` propagates for it. -/
def Run.change (run : Run F) (request : Request) : Option (Db F) → Run F
  | none => run
  | some db => ⟨db, run.propagated ++ [request]⟩

-- Strings

/-- `UNIT_SECONDS` and `UNIT_MILLISECONDS`. -/
inductive TimeUnit where
  | seconds
  | milliseconds
deriving DecidableEq, Repr

/-- The options of `SET`. -/
structure SetFlags where
  nx : Bool
  xx : Bool
  expire : Option (Sds × TimeUnit)

/-- `REDIS_SET_NO_FLAGS`. -/
def SetFlags.noFlags : SetFlags := ⟨false, false, none⟩

/-- `nx`, `xx`, `ex` and `px`. -/
def nxText : Sds := [0x6E, 0x78]
def xxText : Sds := [0x78, 0x78]
def exText : Sds := [0x65, 0x78]
def pxText : Sds := [0x70, 0x78]

/-- The loop of `setCommand` over the options. -/
def setOptions : SetFlags → List Sds → Option SetFlags
  | flags, [] => some flags
  | flags, option :: [] =>
      if isOption option nxText then some { flags with nx := true }
      else if isOption option xxText then some { flags with xx := true }
      else none
  | flags, option :: next :: options =>
      if isOption option nxText then setOptions { flags with nx := true } (next :: options)
      else if isOption option xxText then setOptions { flags with xx := true } (next :: options)
      else if isOption option exText then
        setOptions { flags with expire := some (next, .seconds) } options
      else if isOption option pxText then
        setOptions { flags with expire := some (next, .milliseconds) } options
      else none

/-- The time of `setGenericCommand` in milliseconds. -/
def expireMilliseconds (time : Sds) (unit : TimeUnit) : Option Int :=
  match getLongLongFromObject time with
  | none => none
  | some v =>
      if v ≤ 0 then none
      else
        match unit with
        | .seconds => some (longLong (v * 1000))
        | .milliseconds => some v

/-- The key of `setGenericCommand` gets its value, and its expire time behind that. -/
def ObjectDb.setGeneric (db : Db F) (flags : SetFlags) (key value : Sds) (milliseconds : Option Int)
    : Option (Db F) :=
  if (flags.nx ∧ db.dict key ≠ none) ∨ (flags.xx ∧ db.dict key = none) then none
  else
    match milliseconds with
    | none => some (db.setKey key (.string value))
    | some ms => some ((db.setKey key (.string value)).setExpire key (longLong (env.now + ms)))

def Run.setGenericCommand (run : Run F) (request : Request) (flags : SetFlags) (key value : Sds)
    : Run F :=
  match flags.expire with
  | none =>
      let run := run.expireIfNeeded env role key
      run.change request (run.db.setGeneric env flags key value none)
  | some (time, unit) =>
      match expireMilliseconds time unit with
      | none => run
      | some ms =>
          let run := run.expireIfNeeded env role key
          run.change request (run.db.setGeneric env flags key value (some ms))

/-- `getsetCommand`. -/
def ObjectDb.getset (db : Db F) (key value : Sds) : Option (Db F) :=
  match db.dict key with
  | none | some (.string _) => some (db.setKey key (.string value))
  | some _ => none

/-- The text that `incrbyfloatCommand` stores. -/
def ObjectDb.incremented (db : Db F) (key increment : Sds) : Option Sds :=
  let value :=
    match db.dict key with
    | none => some env.zero
    | some (.string text) => env.parse text
    | some _ => none
  match value, env.parse increment with
  | some value, some incr =>
      if env.isNanOrInf (env.add value incr) then none else some (env.text (env.add value incr))
  | _, _ => none

/-- `incrbyfloatCommand`: the value is overwritten, and `SET` is propagated. -/
def Run.incrbyfloat (run : Run F) (key increment : Sds) : Run F :=
  match run.db.incremented env key increment with
  | none => run
  | some text => run.change (.set key text []) (some (run.db.store key (.string text)))

-- Sets and hashes

/-- `spopCommand` propagates `SREM`. -/
def Run.spop (run : Run F) (key : Sds) : Run F :=
  match run.db.dict key with
  | some (.set members) =>
      match env.random members with
      | none => run
      | some member =>
          let rest := members.erase member
          run.change (.srem key [member])
            (some (if rest = ∅ then run.db.dbDelete key else run.db.store key (.set rest)))
  | _ => run

/-- `hincrbyfloatCommand` propagates `HSET`. -/
def Run.hincrbyfloat (run : Run F) (key field : Sds) (incr : L) : Run F :=
  match run.db.fieldsOrCreate key with
  | none => run
  | some fields =>
      let value :=
        match fields field with
        | none => some env.zero
        | some current => env.parse current
      match value with
      | none => run
      | some value =>
          let text := env.text (env.add value incr)
          run.change (.hset key field text) (run.db.setField key field text)

-- Lists

/-- `getTimeoutFromObjectOrReply` accepts the timeout. -/
def isTimeout (timeout : Sds) : Bool :=
  match getLongLongFromObject timeout with
  | none => false
  | some v => 0 ≤ v

/-- The loop of `blockingPopGenericCommand`; it propagates `LPOP` or `RPOP`. A client that blocks
changes nothing.
-/
def Run.blockingPop (place : Where) : List Sds → Run F → Run F
  | [], run => run
  | key :: keys, run =>
      let run := run.expireIfNeeded env role key
      match run.db.dict key with
      | none => Run.blockingPop place keys run
      | some (.list []) => Run.blockingPop place keys run
      | some (.list (_ :: _)) =>
          run.change (.pop place key) ((run.db.pop place key).map Prod.snd)
      | some _ => run

/-- `rpoplpushCommand` behind its lookups. -/
def ObjectDb.rpoplpush (db : Db F) (source target : Sds) : Option (Db F) :=
  match db.dict source with
  | some (.list items) =>
      match listTypePop .tail items with
      | none => none
      | some (value, rest) =>
          ((db.store source (.list rest)).push .head target [value]).map
            (fun db => db.deleteIfEmpty source)
  | _ => none

/-- `brpoplpushCommand`; `rpoplpushCommand` looks the destination up if the source has elements. -/
def Run.brpoplpush (run : Run F) (request : Request) (source target : Sds) : Run F :=
  let run := run.expireIfNeeded env role source
  match run.db.dict source with
  | some (.list (_ :: _)) =>
      let run := run.expireIfNeeded env role target
      run.change request (run.db.rpoplpush source target)
  | _ => run

/-- `delCommand`. -/
def ObjectDb.del (db : Db F) (key : Sds) : Option (Db F) :=
  match db.dict key with
  | none => none
  | some _ => some (db.dbDelete key)

/-- `expireGenericCommand` with an absolute time in milliseconds. -/
def Run.pexpireat (run : Run F) (request : Request) (key : Sds) (time : Int) : Run F :=
  let run := run.expireIfNeeded env role key
  match run.db.dict key with
  | none => run
  | some _ =>
      if time ≤ env.now ∧ role = .master then run.change (.del key) (some (run.db.dbDelete key))
      else run.change request (some (run.db.setExpire key time))

-- Commands

/-- `call` of a command. -/
def Run.call (run : Run F) (request : Request) : Run F :=
  match request with
  | .set key value options =>
      match setOptions .noFlags options with
      | none => run
      | some flags => run.setGenericCommand env role request flags key value
  | .setex key seconds value =>
      run.setGenericCommand env role request ⟨false, false, some (seconds, .seconds)⟩ key value
  | .psetex key milliseconds value =>
      run.setGenericCommand env role request ⟨false, false, some (milliseconds, .milliseconds)⟩ key
        value
  | .getset key value =>
      let run := run.expireIfNeeded env role key
      run.change request (run.db.getset key value)
  | .incrbyfloat key increment => (run.expireIfNeeded env role key).incrbyfloat env key increment
  | .spop key => (run.expireIfNeeded env role key).spop env key
  | .srem key members =>
      let run := run.expireIfNeeded env role key
      run.change request (run.db.removeMembers key members)
  | .hincrbyfloat key field increment =>
      match env.parse increment with
      | none => run
      | some incr => (run.expireIfNeeded env role key).hincrbyfloat env key field incr
  | .hset key field value =>
      let run := run.expireIfNeeded env role key
      run.change request (run.db.setField key field value)
  | .pop place key =>
      let run := run.expireIfNeeded env role key
      run.change request ((run.db.pop place key).map Prod.snd)
  | .bpop place keys timeout =>
      if isTimeout timeout then run.blockingPop env role place keys else run
  | .brpoplpush source target timeout =>
      if isTimeout timeout then run.brpoplpush env role request source target else run
  | .lpush key values =>
      let run := run.expireIfNeeded env role key
      run.change request (run.db.push .head key values)
  | .del key =>
      let run := run.expireIfNeeded env role key
      run.change request (run.db.del key)
  | .pexpireat key time =>
      match getLongLongFromObject time with
      | none => run
      | some v => run.pexpireat env role request key v

end Redis.Keyspace
