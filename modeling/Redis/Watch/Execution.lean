import Redis.Watch.Server

/-! The commands that change keys, with the keys that each of them signals. -/

namespace Redis.Watch

open Redis.Keyspace

-- What the commands take from elsewhere

/-- The strings of `hyperloglog.c`. -/
structure HyperLogLog where
  /-- `createHLLObject`. -/
  create : Sds
  /-- `isHLLObjectOrReply`. -/
  isHLLObject : Sds → Bool
  /-- `hllAdd`, with whether a register was updated; nothing if it returns -1. -/
  add : Sds → Sds → Option (Bool × Sds)
  /-- `HLL_INVALIDATE_CACHE`. -/
  invalidateCache : Sds → Sds
  /-- The registers that `hllMerge` reads; nothing if it returns `REDIS_ERR`. -/
  registers : Sds → Option (List UInt8)
  /-- `hllSparseToDense`; nothing if it returns `REDIS_ERR`. -/
  toDense : Sds → Option Sds
  /-- `HLL_DENSE_SET_REGISTER` of all the registers. -/
  setRegisters : Sds → List UInt8 → Sds
  add_unchanged : ∀ hll element after, add hll element = some (false, after) → after = hll
  toDense_create : toDense create ≠ none

/-- What the commands of `t_zset.c` compute of sorted sets. -/
structure SortedSets (F : Type) where
  /-- `zsetLength`. -/
  length : (Sds → Option F) → Nat
  /-- The range that two arguments give, if they give one: the elements of a sorted set in it. -/
  range : RangeType → Sds → Sds → Option ((Sds → Option F) → List Sds)
  /-- The options of `zunionInterGenericCommand`, and the sorted set that they and the operands
  give; nothing if an option is refused.
  -/
  combine : SetOperation → List (Option (Value F)) → List Sds → Option (Sds → Option F)

/-- The functions and the configuration that the commands read. -/
structure Setting (F L : Type) where
  env : Environment L
  scores : Scores F
  sortedSets : SortedSets F
  hll : HyperLogLog
  config : Config

/-- When a command is executed: `mstime()`, and whether the server is a master. -/
structure Moment where
  now : Int
  role : Role

variable {F L : Type} (setting : Setting F L) (moment : Moment) (id : Nat) (s : Server F)

-- Keys

/-- `expireIfNeeded`, which the lookups call. It signals nothing. -/
def Server.expireIfNeeded (key : Sds) : Server F :=
  if moment.role = .master ∧ (s.dbs id).isExpired moment.now key then
    s.setDb id ((s.dbs id).dbDelete key)
  else s

def Server.expireKeys (keys : List Sds) : Server F :=
  keys.foldl (fun s key => s.expireIfNeeded moment id key) s

/-- A key is written, unless there is nothing to write, and signalled. -/
def Server.write (key : Sds) : Option (Db F) → Server F
  | none => s
  | some db => (s.setDb id db).signalModifiedKey id key

def Server.setKey (key : Sds) (value : Value F) : Server F :=
  let s := s.expireIfNeeded moment id key
  s.write id key (some ((s.dbs id).setKey key value))

/-- `if (dbDelete(db,key)) signalModifiedKey(db,key)`. -/
def Server.deleteKey (key : Sds) : Server F := s.write id key ((s.dbs id).del key)

/-- The operands of a command are looked up one behind the other, up to one that is refused. -/
def Server.lookupOperands {α : Type} (accept : Value F → Option α)
    : Server F → List Sds → Server F × Option (List (Option α))
  | s, [] => (s, some [])
  | s, key :: keys =>
      let s := s.expireIfNeeded moment id key
      match (s.dbs id).dict key with
      | none =>
          let (s, operands) := Server.lookupOperands accept s keys
          (s, operands.map (none :: ·))
      | some value =>
          match accept value with
          | none => (s, none)
          | some operand =>
              let (s, operands) := Server.lookupOperands accept s keys
              (s, operands.map (some operand :: ·))

-- Strings

def Server.setGenericCommand (flags : SetFlags) (key value : Sds) : Server F :=
  match flags.milliseconds with
  | none => s
  | some milliseconds =>
      let s := s.expireIfNeeded moment id key
      s.write id key
        ((s.dbs id).setGeneric (setting.env.at moment.now) flags key value milliseconds)

def Server.getsetCommand (key value : Sds) : Server F :=
  let s := s.expireIfNeeded moment id key
  s.write id key ((s.dbs id).getset key value)

/-- The setting of the pairs in `msetGenericCommand`. -/
def Server.setPairs (args : List Sds) : Server F :=
  (argumentPairs args).foldl (fun s (key, value) => s.setKey moment id key (.string value)) s

def Server.msetGenericCommand (nx : Bool) (args : List Sds) : Server F :=
  if args.length % 2 = 1 then s
  else if nx then
    let keys := (argumentPairs args).map Prod.fst
    let s := s.expireKeys moment id keys
    if keys.any (fun key => ((s.dbs id).dict key).isSome) then s else s.setPairs moment id args
  else s.setPairs moment id args

def checkStringLength (size : Int) : Bool := size ≤ 512 * 1024 * 1024

def sdsgrowzero (text : Sds) (length : Nat) : Sds :=
  text ++ List.replicate (length - text.length) 0

/-- The bytes of `value` are copied over those of `text` from an offset on. -/
def overwriteAt (text : Sds) (offset : Nat) (value : Sds) : Sds :=
  text.take offset ++ value ++ text.drop (offset + value.length)

/-- The string of a key, which is empty if there is no key. -/
def textOrEmpty (db : Db F) (key : Sds) : Option Sds :=
  match db.dict key with
  | none => some []
  | some (.string text) => some text
  | some _ => none

/-- `setrangeCommand` behind its checks of the offset. -/
def setrange (db : Db F) (key : Sds) (offset : Nat) (value : Sds) : Option (Db F) :=
  match textOrEmpty db key with
  | none => none
  | some text =>
      if value = [] then none
      else if checkStringLength (offset + value.length) then
        some (db.store key
          (.string (overwriteAt (sdsgrowzero text (offset + value.length)) offset value)))
      else none

def Server.setrangeCommand (key offset value : Sds) : Server F :=
  match getLongLongFromObject offset with
  | none => s
  | some offset =>
      if offset < 0 then s
      else
        let s := s.expireIfNeeded moment id key
        s.write id key (setrange (s.dbs id) key offset.toNat value)

/-- The sum of `incrDecrCommand`, unless it overflows. -/
def incremented (value incr : Int) : Option Int :=
  if (incr < 0 ∧ value < 0 ∧ incr < -2 ^ 63 - value)
      ∨ (0 < incr ∧ 0 < value ∧ 2 ^ 63 - 1 - value < incr) then none
  else some (longLong (value + incr))

/-- `incrDecrCommand` behind the lookup. -/
def incrDecr (db : Db F) (key : Sds) (incr : Int) : Option (Db F) :=
  let value :=
    match db.dict key with
    | none => some 0
    | some (.string text) => getLongLongFromObject text
    | some _ => none
  (value.bind (fun value => incremented value incr)).map (fun value =>
    db.store key (.string (decimalText value)))

def Server.incrDecrCommand (key : Sds) (incr : Int) : Server F :=
  let s := s.expireIfNeeded moment id key
  s.write id key (incrDecr (s.dbs id) key incr)

def Server.incrbyfloatCommand (key increment : Sds) : Server F :=
  let s := s.expireIfNeeded moment id key
  s.write id key
    (((s.dbs id).incremented setting.env key increment).map (fun text =>
      (s.dbs id).store key (.string text)))

/-- `appendCommand` behind the lookup. -/
def append (db : Db F) (key value : Sds) : Option (Db F) :=
  match db.dict key with
  | none => some (db.store key (.string value))
  | some (.string text) =>
      if checkStringLength (text.length + value.length) then
        some (db.store key (.string (text ++ value)))
      else none
  | some _ => none

def Server.appendCommand (key value : Sds) : Server F :=
  let s := s.expireIfNeeded moment id key
  s.write id key (append (s.dbs id) key value)

-- Bits

def getBitOffsetFromArgument (arg : Sds) : Option Nat :=
  (getLongLongFromObject arg).bind (fun offset =>
    if offset < 0 ∨ 512 * 1024 * 1024 ≤ offset.toNat / 8 then none else some offset.toNat)

def setBit (byte : UInt8) (bit : Nat) (on : Bool) : UInt8 :=
  let mask : UInt8 := UInt8.ofNat (2 ^ bit)
  if on then byte ||| mask else byte &&& ~~~mask

/-- `setbitCommand` behind its checks of the arguments. -/
def setbit (db : Db F) (key : Sds) (bitoffset : Nat) (on : Bool) : Option (Db F) :=
  (textOrEmpty db key).map (fun text =>
    let text := sdsgrowzero text (bitoffset / 8 + 1)
    let byte := text.getD (bitoffset / 8) 0
    db.store key (.string (text.set (bitoffset / 8) (setBit byte (7 - bitoffset % 8) on))))

def Server.setbitCommand (key offset bit : Sds) : Server F :=
  match getBitOffsetFromArgument offset, getLongLongFromObject bit with
  | some bitoffset, some on =>
      if on ≠ 0 ∧ on ≠ 1 then s
      else
        let s := s.expireIfNeeded moment id key
        s.write id key (setbit (s.dbs id) key bitoffset (on = 1))
  | _, _ => s

/-- `BITOP_AND`, `BITOP_OR`, `BITOP_XOR` and `BITOP_NOT`. -/
inductive BitOp where
  | and
  | or
  | xor
  | not
deriving DecidableEq, Repr

/-- The operation that `bitopCommand` parses. -/
def bitOp (name : Sds) : Option BitOp :=
  if strcaseEqual (Keyspace.cString name) [0x61, 0x6E, 0x64] then some .and
  else if strcaseEqual (Keyspace.cString name) [0x6F, 0x72] then some .or
  else if strcaseEqual (Keyspace.cString name) [0x78, 0x6F, 0x72] then some .xor
  else if strcaseEqual (Keyspace.cString name) [0x6E, 0x6F, 0x74] then some .not
  else none

/-- One byte of the result, from the bytes of the operands. -/
def bitopByte (op : BitOp) : List UInt8 → UInt8
  | [] => 0
  | first :: rest =>
      match op with
      | .and => rest.foldl (· &&& ·) first
      | .or => rest.foldl (· ||| ·) first
      | .xor => rest.foldl (· ^^^ ·) first
      | .not => ~~~first

/-- The result of `bitopCommand`; operands that are too short end in zeros. -/
def bitopResult (op : BitOp) (operands : List Sds) : Sds :=
  let maxlen := (operands.map List.length).foldl max 0
  (List.range maxlen).map (fun j => bitopByte op (operands.map (·.getD j 0)))

/-- `checkType(c,o,REDIS_STRING)` of an operand. -/
def stringOperand : Value F → Option Sds
  | .string text => some text
  | _ => none

def Server.bitopCommand (operation target : Sds) (keys : List Sds) : Server F :=
  match bitOp operation with
  | none => s
  | some op =>
      if op = .not ∧ keys.length ≠ 1 then s
      else
        match s.lookupOperands moment id stringOperand keys with
        | (s, none) => s
        | (s, some operands) =>
            let result := bitopResult op (operands.map (·.getD []))
            if result ≠ [] then s.setKey moment id target (.string result)
            else s.deleteKey id target

-- HyperLogLogs

/-- What the loop of `pfaddCommand` leaves. -/
structure Added where
  text : Sds
  updated : Bool
  /-- `hllAdd` has returned -1. -/
  failed : Bool

/-- The loop of `pfaddCommand` over the elements. -/
def addElements (hll : HyperLogLog) : (text : Sds) → (updated : Bool) → List Sds → Added
  | text, updated, [] => ⟨text, updated, false⟩
  | text, updated, element :: elements =>
      match hll.add text element with
      | none => ⟨text, updated, true⟩
      | some (changed, text) => addElements hll text (updated || changed) elements

/-- The string that `pfaddCommand` starts from, and whether it has created it. -/
def pfaddStart (hll : HyperLogLog) (db : Db F) (key : Sds) : Option (Sds × Bool) :=
  match db.dict key with
  | none => some (hll.create, true)
  | some (.string text) => if hll.isHLLObject text then some (text, false) else none
  | some _ => none

/-- `pfaddCommand`. The elements are added to the object of the key; when `hllAdd` fails the command
returns at once.
-/
def Server.pfaddCommand (key : Sds) (elements : List Sds) : Server F :=
  let s := s.expireIfNeeded moment id key
  match pfaddStart setting.hll (s.dbs id) key with
  | none => s
  | some (text, created) =>
      let added := addElements setting.hll text created elements
      if added.failed then s.setDb id ((s.dbs id).store key (.string added.text))
      else if added.updated then
        s.write id key
          (some ((s.dbs id).store key (.string (setting.hll.invalidateCache added.text))))
      else s.setDb id ((s.dbs id).store key (.string added.text))

/-- An operand of `pfmergeCommand`. -/
def hllOperand (hll : HyperLogLog) : Value F → Option (List UInt8)
  | .string text => if hll.isHLLObject text then hll.registers text else none
  | _ => none

/-- The string of the target of `pfmergeCommand`. -/
def pfmergeStart (hll : HyperLogLog) (db : Db F) (key : Sds) : Sds :=
  match db.dict key with
  | some (.string text) => text
  | _ => hll.create

/-- The largest values of the registers, which start from 0. -/
def maxRegisters (operands : List (Option (List UInt8))) : List UInt8 :=
  operands.foldl (fun largest operand =>
    match operand with
    | none => largest
    | some registers => List.zipWith max largest registers) (List.replicate 16384 0)

/-- `pfmergeCommand`. The target is one of the operands; it is created before the conversion. -/
def Server.pfmergeCommand (target : Sds) (keys : List Sds) : Server F :=
  match s.lookupOperands moment id (hllOperand setting.hll) (target :: keys) with
  | (s, none) => s
  | (s, some operands) =>
      let s := s.expireIfNeeded moment id target
      let text := pfmergeStart setting.hll (s.dbs id) target
      match setting.hll.toDense text with
      | none => s.setDb id ((s.dbs id).store target (.string text))
      | some dense =>
          let merged := setting.hll.setRegisters dense (maxRegisters operands)
          s.write id target
            (some ((s.dbs id).store target (.string (setting.hll.invalidateCache merged))))

-- Keys of any type

def Server.delCommand (keys : List Sds) : Server F :=
  keys.foldl (fun s key => (s.expireIfNeeded moment id key).deleteKey id key) s

/-- `if (expire != -1) setExpire(db,key,expire)`. -/
def copyExpire (time : Option Int) (key : Sds) (db : Db F) : Db F :=
  match time with
  | none => db
  | some time => if time = -1 then db else db.setExpire key time

def Server.renameGenericCommand (nx : Bool) (key newkey : Sds) : Server F :=
  if key = newkey then s
  else
    let s := s.expireIfNeeded moment id key
    match (s.dbs id).dict key with
    | none => s
    | some value =>
        let expire := (s.dbs id).expires key
        let s := s.expireIfNeeded moment id newkey
        if nx ∧ (s.dbs id).dict newkey ≠ none then s
        else
          let db := copyExpire expire newkey (((s.dbs id).dbDelete newkey).store newkey value)
          let s := s.setDb id (db.dbDelete key)
          (s.signalModifiedKey id key).signalModifiedKey id newkey

/-- The database that `moveCommand` moves to. -/
def moveTarget (config : Config) (index : Sds) : Option Nat :=
  match getLongLongFromObject index with
  | none => none
  | some dbid => if dbid < -2 ^ 31 ∨ 2 ^ 31 ≤ dbid then none else selectDb config dbid

/-- `moveCommand`. It signals neither of the two databases. -/
def Server.moveCommand (key index : Sds) : Server F :=
  if setting.config.clusterEnabled then s
  else
    match moveTarget setting.config index with
    | none => s
    | some target =>
        if target = id then s
        else
          let s := s.expireIfNeeded moment id key
          match (s.dbs id).dict key with
          | none => s
          | some value =>
              let expire := (s.dbs id).expires key
              let s := s.expireIfNeeded moment target key
              if (s.dbs target).dict key ≠ none then s
              else
                let s := s.setDb target (copyExpire expire key ((s.dbs target).store key value))
                s.setDb id ((s.dbs id).dbDelete key)

def Server.expireGenericCommand (basetime : Int) (unit : TimeUnit) (key param : Sds) : Server F :=
  match getLongLongFromObject param with
  | none => s
  | some v =>
      let time := longLong (unit.scale v + basetime)
      let s := s.expireIfNeeded moment id key
      match (s.dbs id).dict key with
      | none => s
      | some _ =>
          if time ≤ moment.now ∧ moment.role = .master then
            s.write id key (some ((s.dbs id).dbDelete key))
          else s.write id key (some ((s.dbs id).setExpire key time))

/-- `persistCommand`. It looks the key up without `expireIfNeeded`, and signals nothing. -/
def Server.persistCommand (key : Sds) : Server F :=
  match (s.dbs id).dict key with
  | none => s
  | some _ => s.setDb id ((s.dbs id).removeExpire key)

def Server.flushdbCommand : Server F := (s.signalFlushedDb (some id)).setDb id .empty

def Server.flushallCommand : Server F :=
  { s.signalFlushedDb none with dbs := fun _ => .empty }

-- Sorted sets

/-- An element is added, or its score is updated. -/
def zaddTouches (scores : Scores F) (flags : ZaddFlags) (zset : Sds → Option F) (score : F)
    (element : Sds) : Bool :=
  match zset element with
  | none => !flags.xx
  | some current =>
      !flags.nx
        && match (if flags.incr then scores.add score current else some score) with
          | none => false
          | some score => !scores.same score current

/-- The loop of `zaddGenericCommand`, which a NaN ends, with whether there was an addition or an
update.
-/
def zaddLoop (scores : Scores F) (flags : ZaddFlags)
    : (zset : Sds → Option F) → (touched : Bool) → List (F × Sds) → (Sds → Option F) × Bool
  | zset, touched, [] => (zset, touched)
  | zset, touched, (score, element) :: elements =>
      match zaddElement scores flags zset score element with
      | none => (zset, touched)
      | some next =>
          zaddLoop scores flags next (touched || zaddTouches scores flags zset score element)
            elements

/-- The sorted set that `zaddGenericCommand` adds to. A missing key is created, unless there is
`ZADD_XX`.
-/
def zaddStart (flags : ZaddFlags) (db : Db F) (key : Sds) : Option (Sds → Option F) :=
  match db.dict key with
  | none => if flags.xx then none else some (fun _ => none)
  | some (.zset zset) => some zset
  | some _ => none

/-- The elements of `zaddGenericCommand`, unless its arguments are refused. -/
def zaddArguments (scores : Scores F) (flags : ZaddFlags) (args : List Sds)
    : Option (ZaddFlags × List (F × Sds)) :=
  let (flags, pairs) := zaddOptions flags args
  if pairs.length % 2 = 1 then none
  else if flags.nx ∧ flags.xx then none
  else if flags.incr ∧ 1 < pairs.length / 2 then none
  else (parseScores scores (argumentPairs pairs)).map (fun elements => (flags, elements))

/-- `zaddGenericCommand`. Options may be all that follows the key: then a sorted set without
elements is created.
-/
def Server.zaddGenericCommand (flags : ZaddFlags) (key : Sds) (args : List Sds) : Server F :=
  match zaddArguments setting.scores flags args with
  | none => s
  | some (flags, elements) =>
      let s := s.expireIfNeeded moment id key
      match zaddStart flags (s.dbs id) key with
      | none => s
      | some zset =>
          let (zset, touched) := zaddLoop setting.scores flags zset false elements
          if touched then s.write id key (some ((s.dbs id).store key (.zset zset)))
          else s.setDb id ((s.dbs id).store key (.zset zset))

/-- What is left of a sorted set: its key is deleted with the last element. -/
def storeElements (zsets : SortedSets F) (db : Db F) (key : Sds) (zset : Sds → Option F) : Db F :=
  if zsets.length zset = 0 then db.dbDelete key else db.store key (.zset zset)

/-- The loop of `zremCommand`, with whether an element was deleted. -/
def zremLoop (zsets : SortedSets F)
    : (zset : Sds → Option F) → (deleted : Bool) → List Sds → (Sds → Option F) × Bool
  | zset, deleted, [] => (zset, deleted)
  | zset, deleted, member :: members =>
      match zset member with
      | none => zremLoop zsets zset deleted members
      | some _ =>
          let zset := Function.update zset member none
          if zsets.length zset = 0 then (zset, true) else zremLoop zsets zset true members

def Server.zremCommand (key : Sds) (members : List Sds) : Server F :=
  let s := s.expireIfNeeded moment id key
  match (s.dbs id).dict key with
  | some (.zset zset) =>
      let (zset, deleted) := zremLoop setting.sortedSets zset false members
      if deleted then
        s.write id key (some (storeElements setting.sortedSets (s.dbs id) key zset))
      else s
  | _ => s

/-- `zremrangeGenericCommand`. The key of an empty sorted set is deleted without an element. -/
def Server.zremrangeGenericCommand (type : RangeType) (key min max : Sds) : Server F :=
  match setting.sortedSets.range type min max with
  | none => s
  | some range =>
      let s := s.expireIfNeeded moment id key
      match (s.dbs id).dict key with
      | some (.zset zset) =>
          let elements := range zset
          if type = .rank ∧ elements = [] then s
          else
            let rest := elements.foldl (fun zset element => Function.update zset element none) zset
            let db := storeElements setting.sortedSets (s.dbs id) key rest
            if elements ≠ [] then s.write id key (some db) else s.setDb id db
      | _ => s

/-- An operand of `zunionInterGenericCommand`. -/
def setOperand : Value F → Option (Value F)
  | .zset zset => some (.zset zset)
  | .set members => some (.set members)
  | _ => none

/-- The end of `zunionInterGenericCommand`. -/
def Server.storeSortedSet (target : Sds) (zset : Sds → Option F) : Server F :=
  let touched := ((s.dbs id).dict target).isSome
  let s := s.deleteKey id target
  if setting.sortedSets.length zset = 0 then s
  else
    let s := s.setDb id ((s.dbs id).store target (.zset zset))
    if touched then s else s.signalModifiedKey id target

def Server.zunionInterGenericCommand (operation : SetOperation) (target numkeys : Sds)
    (args : List Sds) : Server F :=
  match getLongLongFromObject numkeys with
  | none => s
  | some setnum =>
      if setnum < 1 ∨ args.length < setnum then s
      else
        match s.lookupOperands moment id setOperand (args.take setnum.toNat) with
        | (s, none) => s
        | (s, some operands) =>
            match setting.sortedSets.combine operation operands (args.drop setnum.toNat) with
            | none => s
            | some zset => s.storeSortedSet setting id target zset

-- Requests

/-- The proc of a request on the database `id`. -/
def Server.execute (request : Request) : Server F :=
  match request with
  | .set key value options =>
      match setOptions .noFlags options with
      | none => s
      | some flags => s.setGenericCommand setting moment id flags key value
  | .setnx key value => s.setGenericCommand setting moment id ⟨true, false, none⟩ key value
  | .setex key seconds value =>
      s.setGenericCommand setting moment id ⟨false, false, some (seconds, .seconds)⟩ key value
  | .psetex key milliseconds value =>
      s.setGenericCommand setting moment id ⟨false, false, some (milliseconds, .milliseconds)⟩ key
        value
  | .getset key value => s.getsetCommand moment id key value
  | .setrange key offset value => s.setrangeCommand moment id key offset value
  | .mset args => s.msetGenericCommand moment id false args
  | .msetnx args => s.msetGenericCommand moment id true args
  | .incr key => s.incrDecrCommand moment id key 1
  | .decr key => s.incrDecrCommand moment id key (-1)
  | .incrby key increment =>
      match getLongLongFromObject increment with
      | none => s
      | some incr => s.incrDecrCommand moment id key incr
  | .decrby key decrement =>
      match getLongLongFromObject decrement with
      | none => s
      | some incr => s.incrDecrCommand moment id key (longLong (-incr))
  | .incrbyfloat key increment => s.incrbyfloatCommand setting moment id key increment
  | .append key value => s.appendCommand moment id key value
  | .setbit key offset bit => s.setbitCommand moment id key offset bit
  | .bitop operation target keys => s.bitopCommand moment id operation target keys
  | .pfadd key elements => s.pfaddCommand setting moment id key elements
  | .pfmerge target keys => s.pfmergeCommand setting moment id target keys
  | .del keys => s.delCommand moment id keys
  | .rename key newkey => s.renameGenericCommand moment id false key newkey
  | .renamenx key newkey => s.renameGenericCommand moment id true key newkey
  | .move key index => s.moveCommand setting moment id key index
  | .expire key seconds => s.expireGenericCommand moment id moment.now .seconds key seconds
  | .pexpire key milliseconds =>
      s.expireGenericCommand moment id moment.now .milliseconds key milliseconds
  | .expireat key seconds => s.expireGenericCommand moment id 0 .seconds key seconds
  | .pexpireat key milliseconds => s.expireGenericCommand moment id 0 .milliseconds key milliseconds
  | .persist key => s.persistCommand id key
  | .flushdb => s.flushdbCommand id
  | .flushall => s.flushallCommand
  | .zadd key args => s.zaddGenericCommand setting moment id .none key args
  | .zincrby key increment member =>
      s.zaddGenericCommand setting moment id { ZaddFlags.none with incr := true } key
        [increment, member]
  | .zrem key members => s.zremCommand setting moment id key members
  | .zremrange type key min max => s.zremrangeGenericCommand setting moment id type key min max
  | .zunionInter operation target numkeys args =>
      s.zunionInterGenericCommand setting moment id operation target numkeys args
  | .read keys => s.expireKeys moment id keys
  | .select _ | .unwatch => s

/-- `call` of a request of client `n`, on the database that it has selected. -/
def Server.call (n : Nat) (request : Request) : Server F :=
  match request with
  | .unwatch => s.unwatchCommand n
  | .select index =>
      match selectIndex setting.config [[], index] with
      | none => s
      | some id => s.setClient n { s.clients n with db := id }
  | _ => s.execute setting moment (s.clients n).db request

end Redis.Watch
