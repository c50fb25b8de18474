import Redis.Keyspace.ObjectDb
import Redis.Replication.Backlog

/-! The commands that take a time to live or a timeout, on a master that is not loading, with their
replies and the absolute time that they compare or record.
-/

namespace Redis.Keyspace

open Redis.Lists (Where listTypePop)

/-- The replies of these commands; a client that blocks gets none. -/
inductive TimedReply where
  /-- An error, with the text behind the minus sign. -/
  | error (text : String)
  | ok
  | integer (value : Int)
  | nullBulk
  | nullMultiBulk
  | bulk (value : Sds)
  | popped (key value : Sds)
  | blocked
  /-- The server aborts on a failed assertion. -/
  | aborted
deriving DecidableEq, Repr

structure TimedOutcome (F : Type) where
  reply : TimedReply
  db : Db F
  /-- The absolute time that is compared with the clock, set as an expire time or kept in
  `bpop.timeout`.
  -/
  time : Option Int

structure TimedContext (F : Type) where
  /-- `mstime()`. -/
  now : Int
  /-- `c->flags & REDIS_MULTI`. -/
  multi : Bool
  /-- `replicationCountAcksByOffset(c->woff)`. -/
  acks : Int
  /-- `verifyDumpPayload`, `rdbLoadObjectType` and `rdbLoadObject` of a payload, or what
  `restoreCommand` says of it.
  -/
  payload : Sds → Except String (Value F)

variable {F : Type}

-- Expire times

def notAnInteger : String := "ERR value is not an integer or out of range"

def wrongType : String := "WRONGTYPE Operation against a key holding the wrong kind of value"

section Expiring

variable (context : TimedContext F) (db : Db F)

def TimedContext.expireGenericCommand (basetime : Int) (unit : TimeUnit) (key param : Sds)
    : TimedOutcome F :=
  match getLongLongFromObject param with
  | none => ⟨.error notAnInteger, db, none⟩
  | some v =>
      let time := longLong (unit.scale v + basetime)
      let db := db.lookupKey context.now key
      match db.dict key with
      | none => ⟨.integer 0, db, none⟩
      | some _ =>
          if time ≤ context.now then ⟨.integer 1, db.dbDelete key, some time⟩
          else ⟨.integer 1, db.setExpire key time, some time⟩

def TimedContext.expireCommand (key param : Sds) : TimedOutcome F :=
  context.expireGenericCommand db context.now .seconds key param

def TimedContext.expireatCommand (key param : Sds) : TimedOutcome F :=
  context.expireGenericCommand db 0 .seconds key param

def TimedContext.pexpireCommand (key param : Sds) : TimedOutcome F :=
  context.expireGenericCommand db context.now .milliseconds key param

def TimedContext.pexpireatCommand (key param : Sds) : TimedOutcome F :=
  context.expireGenericCommand db 0 .milliseconds key param

/-- `NX` or `XX` keep `setGenericCommand` from setting the key. -/
def SetFlags.Aborts (flags : SetFlags) (db : Db F) (key : Sds) : Prop :=
  (flags.nx = true ∧ db.dict key ≠ none) ∨ (flags.xx = true ∧ db.dict key = none)

instance (flags : SetFlags) (key : Sds) : Decidable (flags.Aborts db key) :=
  inferInstanceAs (Decidable ((flags.nx = true ∧ ¬ db.dict key = none)
    ∨ (flags.xx = true ∧ db.dict key = none)))

/-- The part of `setGenericCommand` behind the check of the time. -/
def TimedContext.setGenericKey (flags : SetFlags) (key value : Sds) (milliseconds : Option Int)
    : TimedOutcome F :=
  let db := db.lookupKey context.now key
  if flags.Aborts db key then ⟨.nullBulk, db, none⟩
  else
    let db := db.setKey key (.string value)
    match milliseconds with
    | none => ⟨.ok, db, none⟩
    | some ms =>
        let time := longLong (context.now + ms)
        ⟨.ok, db.setExpire key time, some time⟩

/-- `setGenericCommand` of the command `name`. -/
def TimedContext.setGenericCommand (name : String) (flags : SetFlags) (key value : Sds)
    : TimedOutcome F :=
  match flags.expire with
  | none => context.setGenericKey db flags key value none
  | some (expire, unit) =>
      match getLongLongFromObject expire with
      | none => ⟨.error notAnInteger, db, none⟩
      | some v =>
          if v ≤ 0 then ⟨.error ("ERR invalid expire time in " ++ name), db, none⟩
          else context.setGenericKey db flags key value (some (unit.scale v))

def TimedContext.setCommand (key value : Sds) (options : List Sds) : TimedOutcome F :=
  match setOptions .noFlags options with
  | none => ⟨.error "ERR syntax error", db, none⟩
  | some flags => context.setGenericCommand db "set" flags key value

def TimedContext.setexCommand (key seconds value : Sds) : TimedOutcome F :=
  context.setGenericCommand db "setex" ⟨false, false, some (seconds, .seconds)⟩ key value

def TimedContext.psetexCommand (key milliseconds value : Sds) : TimedOutcome F :=
  context.setGenericCommand db "psetex" ⟨false, false, some (milliseconds, .milliseconds)⟩ key value

/-- `!strcasecmp(option,"replace")`. -/
def isReplace (option : Sds) : Bool :=
  strcaseEqual (cString option) [0x72, 0x65, 0x70, 0x6C, 0x61, 0x63, 0x65]

/-- Without `REPLACE`, `restoreCommand` looks the key up. -/
def TimedContext.restoreLookup (replace : Bool) (key : Sds) : Db F :=
  if replace then db else db.lookupKey context.now key

def TimedContext.restoreCommand (key ttl serialized : Sds) (options : List Sds) : TimedOutcome F :=
  if options.any (fun option => !isReplace option) then ⟨.error "ERR syntax error", db, none⟩
  else
    let replace := !options.isEmpty
    let looked := context.restoreLookup db replace key
    if replace = false ∧ looked.dict key ≠ none then
      ⟨.error "BUSYKEY Target key name already exists.", looked, none⟩
    else
      match getLongLongFromObject ttl with
      | none => ⟨.error notAnInteger, looked, none⟩
      | some ttl =>
          if ttl < 0 then ⟨.error "ERR Invalid TTL value, must be >= 0", looked, none⟩
          else
            match context.payload serialized with
            | .error text => ⟨.error text, looked, none⟩
            | .ok value =>
                let cleared := if replace then looked.dbDelete key else looked
                let added := cleared.store key value
                if ttl = 0 then ⟨.ok, added, none⟩
                else
                  let time := longLong (context.now + ttl)
                  ⟨.ok, added.setExpire key time, some time⟩

end Expiring

section Blocking

variable (context : TimedContext F) (db : Db F)

def getTimeoutFromObjectOrReply (now : Int) (object : Sds) (unit : TimeUnit) : Except String Int :=
  match getLongLongFromObject object with
  | none => .error "ERR timeout is not an integer or out of range"
  | some tval =>
      if tval < 0 then .error "ERR timeout is negative"
      else if tval > 0 then .ok (longLong (unit.scale tval + now))
      else .ok tval

/-- The loop of `blockingPopGenericCommand`: the reply, unless there is nothing to pop. -/
def blockingPopLoop (now : Int) (place : Where) : List Sds → Db F → Option TimedReply × Db F
  | [], db => (none, db)
  | key :: keys, db =>
      let db := db.lookupKey now key
      match db.dict key with
      | none => blockingPopLoop now place keys db
      | some (.list items) =>
          match listTypePop place items with
          | none => blockingPopLoop now place keys db
          | some (value, rest) =>
              (some (.popped key value), (db.store key (.list rest)).deleteIfEmpty key)
      | some _ => (some (.error wrongType), db)

def TimedContext.blockingPopGenericCommand (place : Where) (keys : List Sds) (timeout : Sds)
    : TimedOutcome F :=
  match getTimeoutFromObjectOrReply context.now timeout .seconds with
  | .error text => ⟨.error text, db, none⟩
  | .ok timeout =>
      match blockingPopLoop context.now place keys db with
      | (some reply, db) => ⟨reply, db, none⟩
      | (none, db) =>
          if context.multi then ⟨.nullMultiBulk, db, none⟩ else ⟨.blocked, db, some timeout⟩

def TimedContext.blpopCommand (keys : List Sds) (timeout : Sds) : TimedOutcome F :=
  context.blockingPopGenericCommand db .head keys timeout

def TimedContext.brpopCommand (keys : List Sds) (timeout : Sds) : TimedOutcome F :=
  context.blockingPopGenericCommand db .tail keys timeout

def TimedContext.brpoplpushCommand (source target timeout : Sds) : TimedOutcome F :=
  match getTimeoutFromObjectOrReply context.now timeout .seconds with
  | .error text => ⟨.error text, db, none⟩
  | .ok timeout =>
      let db := db.lookupKey context.now source
      match db.dict source with
      | none => if context.multi then ⟨.nullBulk, db, none⟩ else ⟨.blocked, db, some timeout⟩
      | some (.list items) =>
          match listTypePop .tail items with
          | none => ⟨.aborted, db, none⟩
          | some (value, _) =>
              let db := db.lookupKey context.now target
              match db.rpoplpush source target with
              | none => ⟨.error wrongType, db, none⟩
              | some db => ⟨.bulk value, db, none⟩
      | some _ => ⟨.error wrongType, db, none⟩

def TimedContext.waitCommand (numreplicas timeout : Sds) : TimedOutcome F :=
  match getLongLongFromObject numreplicas with
  | none => ⟨.error notAnInteger, db, none⟩
  | some numreplicas =>
      match getTimeoutFromObjectOrReply context.now timeout .milliseconds with
      | .error text => ⟨.error text, db, none⟩
      | .ok timeout =>
          if context.acks ≥ numreplicas ∨ context.multi
            = true then ⟨.integer context.acks, db, none⟩
          else ⟨.blocked, db, some timeout⟩

end Blocking

end Redis.Keyspace
