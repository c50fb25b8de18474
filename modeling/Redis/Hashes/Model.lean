import Redis.Keyspace.ObjectDb
import Redis.Keyspace.Timeouts
import Redis.Rdb.Objects
import Redis.Strings.Integers
import Redis.Ziplist.Lookup

/-! The commands of `t_hash.c` on the two encodings of a hash. -/

namespace Redis.Hashes

open Redis.Library
open Redis.Keyspace (Sds ObjectDb getLongLongFromString wrongType)
open Redis.Rdb (HashObject entryObject entryPairs hashTypeConvert)
open Redis.SideIndexes (Moment)
open Redis.Strings (getLongLongFromSds)

-- Objects and replies

/-- `robj`: a hash, or a value of another type. -/
inductive Robj (W : Type) where
  | hash (o : HashObject)
  | other (value : W)

inductive HashReply where
  | error (text : String)
  | ok
  | integer (n : Int)
  | bulk (text : Sds)
  | nullBulk
  /-- Bulks, or null bulks, behind the length that is announced. -/
  | multiBulk (header : Int) (elements : List (Option Sds))
deriving DecidableEq, Repr

/-- The order in which the iterator of a dictionary goes through its entries. -/
structure DictOrder where
  entries : List (StringObject × StringObject) → List (StringObject × StringObject)
  perm : ∀ dict, (entries dict).Perm dict

/-- The bytes of new memory, `hash_max_ziplist_entries`, `hash_max_ziplist_value` and the order of
the dictionaries.
-/
structure Env where
  fresh : Nat → UInt8
  maxZiplistEntries : Nat
  maxZiplistValue : Nat
  order : DictOrder

/-- The bytes that `(unsigned int) sdslen(s)` counts. -/
def unsignedBytes (s : Sds) : Sds := s.take (s.length % 2 ^ 32)

def createHashObject : HashObject := .ziplist ziplistNew

-- The functions on one hash

/-- `dictFind` and `dictGetVal`, nothing for a key that is not there. -/
def dictFetch (dict : List (StringObject × StringObject)) (key : StringObject)
    : Option StringObject :=
  (dict.find? fun entry => entry.1.text = key.text).map Prod.snd

/-- `dictReplace`: whether the key is new, and the entries. -/
def dictReplace (dict : List (StringObject × StringObject)) (key val : StringObject)
    : Bool × List (StringObject × StringObject) :=
  match Rdb.dictAdd dict key val with
  | some dict => (true, dict)
  | none => (false, dict.map fun entry => if entry.1.text = key.text then (entry.1, val) else entry)

/-- `dictDelete`, nothing for `DICT_ERR`. -/
def dictDelete (dict : List (StringObject × StringObject)) (key : StringObject)
    : Option (List (StringObject × StringObject)) :=
  if Rdb.dictFind (dict.map Prod.fst) key then some
    (dict.filter fun entry => entry.1.text ≠ key.text)
  else none

/-- The look-up of a decoded field by `ziplistIndex` and `ziplistFind`. -/
def ziplistFindField (zl : List UInt8) (field : Sds) : Except Fault (Option Nat) := do
  match ← ziplistIndex zl 0 with
  | none => pure none
  | some fptr => ziplistFind zl fptr (unsignedBytes field) 1

/-- `hashTypeGetFromZiplist`, nothing for -1. -/
def hashTypeGetFromZiplist (zl : List UInt8) (field : StringObject)
    : Except Fault (Option ZipValue) := do
  let field ← field.decoded
  match ← ziplistFindField zl field with
  | none => pure none
  | some fptr =>
      match ← ziplistNext zl fptr with
      | none => .error .assertion
      | some vptr =>
          match ← ziplistGet zl vptr with
          | none => .error .assertion
          | some value => pure (some value)

/-- `hashTypeGetObject`, nothing for `NULL`. -/
def hashTypeGetObject (o : HashObject) (field : StringObject)
    : Except Fault (Option StringObject) :=
  match o with
  | .ziplist zl => do
      let value ← hashTypeGetFromZiplist zl field
      pure (value.map entryObject)
  | .ht dict => .ok (dictFetch dict field)

def hashTypeExists (o : HashObject) (field : StringObject) : Except Fault Bool :=
  match o with
  | .ziplist zl => do
      let value ← hashTypeGetFromZiplist zl field
      pure value.isSome
  | .ht dict => .ok (dictFetch dict field).isSome

/-- `hashTypeLength`, which may write the count of a ziplist to its header. -/
def hashTypeLength : HashObject → Except Fault (Nat × HashObject)
  | .ziplist zl => do
      let (len, zl) ← ziplistLen zl
      pure (len / 2, .ziplist zl)
  | .ht dict => .ok (dict.length, .ht dict)

/-- `hashTypeTryConversion` for some of the arguments. -/
def hashTypeTryConversion (maxZiplistValue : Nat) (o : HashObject) (args : List Sds)
    : Except Fault HashObject :=
  match o with
  | .ziplist zl =>
      if args.any fun arg => decide (arg.length > maxZiplistValue) then do
        let dict ← hashTypeConvert zl
        pure (.ht dict)
      else .ok (.ziplist zl)
  | .ht dict => .ok (.ht dict)

/-- `hashTypeTryObjectEncoding` of one argument, to which nothing else refers. -/
def hashTypeTryObjectEncoding (subject : HashObject) (o : StringObject) : StringObject :=
  match subject with
  | .ht _ => tryObjectEncoding 1 o
  | .ziplist _ => o

/-- The end of `hashTypeSet` for a ziplist. -/
def convertLong (maxZiplistEntries : Nat) (zl : List UInt8) : Except Fault HashObject := do
  let (len, zl) ← ziplistLen zl
  if len / 2 > maxZiplistEntries then do
    let dict ← hashTypeConvert zl
    pure (.ht dict)
  else pure (.ziplist zl)

section Changes

variable (fresh : Nat → UInt8) (maxZiplistEntries : Nat)

/-- The write of `hashTypeSet` to a ziplist: whether it is an update, and the ziplist. -/
def ziplistSetField (zl : List UInt8) (field value : Sds) : Except Fault (Bool × List UInt8) := do
  match ← ziplistFindField zl field with
  | some fptr =>
      match ← ziplistNext zl fptr with
      | none => .error .assertion
      | some vptr => do
          let (zl, vptr) ← ziplistDelete fresh zl vptr
          let zl ← ziplistInsert fresh zl vptr (unsignedBytes value)
          pure (true, zl)
  | none => do
      let zl ← ziplistPush fresh zl (unsignedBytes field) false
      let zl ← ziplistPush fresh zl (unsignedBytes value) false
      pure (false, zl)

/-- `hashTypeSet`: whether it is an update, and the hash. -/
def hashTypeSet (o : HashObject) (field value : StringObject) : Except Fault (Bool × HashObject) :=
  match o with
  | .ziplist zl => do
      let field ← field.decoded
      let value ← value.decoded
      let (update, zl) ← ziplistSetField fresh zl field value
      let o ← convertLong maxZiplistEntries zl
      pure (update, o)
  | .ht dict =>
      let (insert, dict) := dictReplace dict field value
      .ok (!insert, .ht dict)

/-- `hashTypeDelete`: whether the field was there, and the hash. -/
def hashTypeDelete (o : HashObject) (field : StringObject) : Except Fault (Bool × HashObject) :=
  match o with
  | .ziplist zl => do
      let field ← field.decoded
      match ← ziplistFindField zl field with
      | none => pure (false, .ziplist zl)
      | some fptr => do
          let (zl, fptr) ← ziplistDelete fresh zl fptr
          let (zl, _) ← ziplistDelete fresh zl fptr
          pure (true, .ziplist zl)
  | .ht dict =>
      match dictDelete dict field with
      | some dict => .ok (true, .ht dict)
      | none => .ok (false, .ht dict)

end Changes

/-- The texts of the pairs that `hashTypeNext` goes through. -/
def hashTypePairs (order : DictOrder) : HashObject → Except Fault (List (Sds × Sds))
  | .ziplist zl => do
      let values ← ziplistValues zl
      let pairs ← entryPairs values
      pure (pairs.map fun (field, value) => (field.text, value.text))
  | .ht dict => .ok ((order.entries dict).map fun (field, value) => (field.text, value.text))

-- Commands

variable {W : Type} (env : Env) (moment : Moment) (db : ObjectDb (Robj W))

/-- `hashTypeLookupWriteOrCreate`; nothing after the reply `wrongtypeerr`. -/
def hashTypeLookupWriteOrCreate (key : Sds)
    : Except Fault (ObjectDb (Robj W) × Option HashObject) :=
  match db.lookupKeyWrite moment key with
  | (db, none) => do
      let db ← db.dbAdd key (.hash createHashObject)
      pure (db, some createHashObject)
  | (db, some (.hash o)) => .ok (db, some o)
  | (db, some (.other _)) => .ok (db, none)

/-- `hashTypeTryObjectEncoding` and `hashTypeSet` of a field and a value. -/
def encodeAndSet (o : HashObject) (field value : Sds) : Except Fault (Bool × HashObject) :=
  hashTypeSet env.fresh env.maxZiplistEntries o (hashTypeTryObjectEncoding o (.sds field))
    (hashTypeTryObjectEncoding o (.sds value))

def hsetCommand (key field value : Sds) : Except Fault (HashReply × ObjectDb (Robj W)) := do
  match ← hashTypeLookupWriteOrCreate moment db key with
  | (db, none) => pure (.error wrongType, db)
  | (db, some o) => do
      let o ← hashTypeTryConversion env.maxZiplistValue o [field, value]
      let (update, o) ← encodeAndSet env o field value
      pure (.integer (if update then 0 else 1), db.store key (.hash o))

def hsetnxCommand (key field value : Sds) : Except Fault (HashReply × ObjectDb (Robj W)) := do
  match ← hashTypeLookupWriteOrCreate moment db key with
  | (db, none) => pure (.error wrongType, db)
  | (db, some o) => do
      let o ← hashTypeTryConversion env.maxZiplistValue o [field, value]
      if ← hashTypeExists o (.sds field) then pure (.integer 0, db.store key (.hash o))
      else do
        let (_, o) ← encodeAndSet env o field value
        pure (.integer 1, db.store key (.hash o))

/-- The loop of `hmsetCommand` over the arguments behind the key. -/
def hmsetLoop (o : HashObject) : List Sds → Except Fault HashObject
  | field :: value :: rest => do
      let (_, o) ← encodeAndSet env o field value
      hmsetLoop o rest
  -- not reached: the number of arguments is even
  | [_] => .error .outOfBounds
  | [] => .ok o

/-- `hmsetCommand`, with the arguments behind the key. -/
def hmsetCommand (key : Sds) (args : List Sds) : Except Fault (HashReply × ObjectDb (Robj W)) :=
  if args.length % 2 = 1 then .ok (.error "ERR wrong number of arguments for HMSET", db)
  else do
    match ← hashTypeLookupWriteOrCreate moment db key with
    | (db, none) => pure (.error wrongType, db)
    | (db, some o) => do
        let o ← hashTypeTryConversion env.maxZiplistValue o args
        let o ← hmsetLoop env o args
        pure (.ok, db.store key (.hash o))

/-- The sum of `hincrbyCommand`; nothing when it would overflow. -/
def checkedSum (oldvalue incr : Int) : Option Int :=
  if (incr < 0 ∧ oldvalue < 0 ∧ incr < -2 ^ 63 - oldvalue)
      ∨ (incr > 0 ∧ oldvalue > 0 ∧ incr > 2 ^ 63 - 1 - oldvalue) then none
  else some (oldvalue + incr)

/-- The old value of `hincrbyCommand`; nothing when it is not an integer. -/
def oldValue : Option StringObject → Option Int
  | some current => getLongLongFromString current
  | none => some 0

def hincrbyCommand (key field increment : Sds) : Except Fault (HashReply × ObjectDb (Robj W)) :=
  match getLongLongFromSds increment with
  | none => .ok (.error "ERR value is not an integer or out of range", db)
  | some incr => do
      match ← hashTypeLookupWriteOrCreate moment db key with
      | (db, none) => pure (.error wrongType, db)
      | (db, some o) => do
          let current ← hashTypeGetObject o (.sds field)
          match oldValue current with
          | none => pure (.error "ERR hash value is not an integer", db)
          | some oldvalue =>
              match checkedSum oldvalue incr with
              | none => pure (.error "ERR increment or decrement would overflow", db)
              | some value => do
                  let (_, o) ← hashTypeSet env.fresh env.maxZiplistEntries o
                    (hashTypeTryObjectEncoding o (.sds field))
                    (createStringObjectFromLongLong (Int64.ofInt value))
                  pure (.integer value, db.store key (.hash o))

/-- `addHashFieldToReply`, nothing for a null bulk. -/
def addHashFieldToReply (o : Option HashObject) (field : Sds) : Except Fault (Option Sds) :=
  match o with
  | none => .ok none
  | some (.ziplist zl) => do
      let value ← hashTypeGetFromZiplist zl (.sds field)
      pure (value.map ZipValue.text)
  | some (.ht dict) => .ok ((dictFetch dict (.sds field)).map StringObject.text)

def hgetCommand (key field : Sds) : Except Fault (HashReply × ObjectDb (Robj W)) :=
  match db.lookupKeyWrite moment key with
  | (db, none) => .ok (.nullBulk, db)
  | (db, some (.other _)) => .ok (.error wrongType, db)
  | (db, some (.hash o)) => do
      match ← addHashFieldToReply (some o) field with
      | none => pure (.nullBulk, db)
      | some text => pure (.bulk text, db)

def hmgetCommand (key : Sds) (fields : List Sds) : Except Fault (HashReply × ObjectDb (Robj W)) :=
  match db.lookupKeyWrite moment key with
  | (db, some (.other _)) => .ok (.error wrongType, db)
  | (db, none) => .ok (.multiBulk fields.length (fields.map fun _ => none), db)
  | (db, some (.hash o)) => do
      let values ← fields.mapM (addHashFieldToReply (some o))
      pure (.multiBulk fields.length values, db)

/-- The loop of `hdelCommand`: how many fields were deleted, and the hash when it is not empty. -/
def hdelLoop (fresh : Nat → UInt8) (deleted : Nat) (o : HashObject)
    : List Sds → Except Fault (Nat × Option HashObject)
  | [] => .ok (deleted, some o)
  | field :: rest => do
      let (present, o) ← hashTypeDelete fresh o (.sds field)
      if present then do
        let (len, o) ← hashTypeLength o
        if len = 0 then pure (deleted + 1, none) else hdelLoop fresh (deleted + 1) o rest
      else hdelLoop fresh deleted o rest

def hdelCommand (key : Sds) (fields : List Sds) : Except Fault (HashReply × ObjectDb (Robj W)) :=
  match db.lookupKeyWrite moment key with
  | (db, none) => .ok (.integer 0, db)
  | (db, some (.other _)) => .ok (.error wrongType, db)
  | (db, some (.hash o)) => do
      match ← hdelLoop env.fresh 0 o fields with
      | (deleted, none) => pure (.integer deleted, db.dbDelete key)
      | (deleted, some o) => pure (.integer deleted, db.store key (.hash o))

def hlenCommand (key : Sds) : Except Fault (HashReply × ObjectDb (Robj W)) :=
  match db.lookupKeyWrite moment key with
  | (db, none) => .ok (.integer 0, db)
  | (db, some (.other _)) => .ok (.error wrongType, db)
  | (db, some (.hash o)) => do
      let (len, o) ← hashTypeLength o
      pure (.integer len, db.store key (.hash o))

def hexistsCommand (key field : Sds) : Except Fault (HashReply × ObjectDb (Robj W)) :=
  match db.lookupKeyWrite moment key with
  | (db, none) => .ok (.integer 0, db)
  | (db, some (.other _)) => .ok (.error wrongType, db)
  | (db, some (.hash o)) => do
      let found ← hashTypeExists o (.sds field)
      pure (.integer (if found then 1 else 0), db)

/-- `REDIS_HASH_KEY` and `REDIS_HASH_VALUE`. -/
structure HashFlags where
  key : Bool
  value : Bool

def HashFlags.multiplier (flags : HashFlags) : Nat := flags.key.toNat + flags.value.toNat

def HashFlags.reply (flags : HashFlags) (pair : Sds × Sds) : List (Option Sds) :=
  (if flags.key then [some pair.1] else []) ++ (if flags.value then [some pair.2] else [])

def genericHgetallCommand (key : Sds) (flags : HashFlags)
    : Except Fault (HashReply × ObjectDb (Robj W)) :=
  match db.lookupKeyWrite moment key with
  | (db, none) => .ok (.multiBulk 0 [], db)
  | (db, some (.other _)) => .ok (.error wrongType, db)
  | (db, some (.hash o)) => do
      let (len, o) ← hashTypeLength o
      let length := int32 (len * flags.multiplier)
      let pairs ← hashTypePairs env.order o
      let elements := pairs.flatMap flags.reply
      if int32 elements.length = length then
        pure (.multiBulk length elements, db.store key (.hash o))
      else .error .assertion

def hkeysCommand (key : Sds) := genericHgetallCommand env moment db key ⟨true, false⟩

def hvalsCommand (key : Sds) := genericHgetallCommand env moment db key ⟨false, true⟩

def hgetallCommand (key : Sds) := genericHgetallCommand env moment db key ⟨true, true⟩

inductive Command where
  | hset (key field value : Sds)
  | hsetnx (key field value : Sds)
  /-- With at least two arguments behind the key. -/
  | hmset (key first second : Sds) (rest : List Sds)
  | hincrby (key field increment : Sds)
  | hget (key field : Sds)
  | hmget (key : Sds) (fields : List Sds)
  | hdel (key : Sds) (fields : List Sds)
  | hlen (key : Sds)
  | hexists (key field : Sds)
  | hkeys (key : Sds)
  | hvals (key : Sds)
  | hgetall (key : Sds)

def runCommand : Command → Except Fault (HashReply × ObjectDb (Robj W))
  | .hset key field value => hsetCommand env moment db key field value
  | .hsetnx key field value => hsetnxCommand env moment db key field value
  | .hmset key first second rest => hmsetCommand env moment db key (first :: second :: rest)
  | .hincrby key field increment => hincrbyCommand env moment db key field increment
  | .hget key field => hgetCommand moment db key field
  | .hmget key fields => hmgetCommand moment db key fields
  | .hdel key fields => hdelCommand env moment db key fields
  | .hlen key => hlenCommand moment db key
  | .hexists key field => hexistsCommand moment db key field
  | .hkeys key => hkeysCommand env moment db key
  | .hvals key => hvalsCommand env moment db key
  | .hgetall key => hgetallCommand env moment db key

end Redis.Hashes
