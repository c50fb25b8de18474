import Redis.Keyspace.ExpireTimes
import Redis.Library.ByteStrings
import Redis.Library.Faults
import Redis.Library.OrderedIndex

/-! The functions of `db.c` that change the keys of the databases, with `expires` and
`slots_to_keys` beside the keys. The skiplist `slots_to_keys` is the list at its level 0.
-/

namespace Redis.SideIndexes

open Redis.Library
open Redis.Keyspace (Sds getLongLongFromObject longLong TimeUnit TimeUnit.scale)

-- State

structure RedisDb (V : Type) where
  dict : Sds → Option V
  expires : Sds → Option Int

/-- The databases of the server and `server.cluster->slots_to_keys`. -/
structure Server (V : Type) where
  dbnum : Nat
  /-- `loadServerConfigFromString` refuses a smaller number. -/
  dbnum_pos : 0 < dbnum
  clusterEnabled : Bool
  dbs : Nat → RedisDb V
  slotsToKeys : List (Filed Sds)

/-- What `expireIfNeeded` asks: the time of the script or the clock, `server.loading` and whether
there is a `server.masterhost`.
-/
structure Moment where
  now : Int
  loading : Bool
  slave : Bool
deriving DecidableEq, Repr

inductive Reply where
  | ok
  | integer (n : Int)
  | error (text : String)
deriving DecidableEq, Repr

/-- `shared.sameobjecterr`, `shared.nokeyerr`, `shared.outofrangeerr` and others. -/
def sameobjecterr : Reply := .error "ERR source and destination objects are the same"
def nokeyerr : Reply := .error "ERR no such key"
def outofrangeerr : Reply := .error "ERR index out of range"
def moveDenied : Reply := .error "ERR MOVE is not allowed in cluster mode"
def notAnInteger : Reply := .error "ERR value is not an integer or out of range"

section Model

variable {V : Type}

def Server.empty (dbnum : Nat) (dbnum_pos : 0 < dbnum) (clusterEnabled : Bool) : Server V :=
  ⟨dbnum, dbnum_pos, clusterEnabled, fun _ => ⟨fun _ => none, fun _ => none⟩, []⟩

def Server.setDb (s : Server V) (id : Nat) (db : RedisDb V) : Server V :=
  { s with dbs := Function.update s.dbs id db }

section Slots

-- Any function; `Cluster.keyHashSlot` is the one of the source.
variable (keyHashSlot : Sds → Nat)

def slotToKeyAdd (s : Server V) (key : Sds) : Server V :=
  { s with slotsToKeys := indexInsert ⟨keyHashSlot key, key⟩ s.slotsToKeys }

def slotToKeyDel (s : Server V) (key : Sds) : Server V :=
  { s with slotsToKeys := indexDelete ⟨keyHashSlot key, key⟩ s.slotsToKeys }

def slotToKeyFlush (s : Server V) : Server V := { s with slotsToKeys := [] }

end Slots

/-- `zslFirstInRange` of a slot: the node and those behind it. -/
def firstInSlot (nodes : List (Filed Sds)) (slot : Nat) : List (Filed Sds) :=
  match nodes.dropWhile fun node => node.group < slot with
  | [] => []
  | node :: behind => if node.group ≤ slot then node :: behind else []

/-- `zslLastInRange` of a slot. -/
def lastInSlot (nodes : List (Filed Sds)) (slot : Nat) : Option (Filed Sds) :=
  match (nodes.takeWhile fun node => node.group ≤ slot).getLast? with
  | none => none
  | some node => if slot ≤ node.group then some node else none

/-- `zslGetRank`. -/
def slotRank (nodes : List (Filed Sds)) (node : Filed Sds) : Nat :=
  if node ∈ nodes then nodes.idxOf node + 1 else 0

/-- The loop of `getKeysInSlot`. -/
def getKeysLoop (slot : Nat) : (count : Nat) → List (Filed Sds) → List Sds
  | 0, _ => []
  | _ + 1, [] => []
  | count + 1, node :: behind =>
      if node.group = slot then node.member :: getKeysLoop slot count behind else []

/-- `getKeysInSlot`: what it writes to `keys`. -/
def getKeysInSlot (s : Server V) (slot count : Nat) : List Sds :=
  getKeysLoop slot count (firstInSlot s.slotsToKeys slot)

/-- `countKeysInSlot`. The variables are `int`, of which the bits are returned as `unsigned int`. -/
def countKeysInSlot (s : Server V) (slot : Nat) : UInt32 :=
  match firstInSlot s.slotsToKeys slot with
  | [] => 0
  | zn :: _ =>
      let length := UInt32.ofNat s.slotsToKeys.length
      let count := length - (UInt32.ofNat (slotRank s.slotsToKeys zn) - 1)
      match lastInSlot s.slotsToKeys slot with
      | none => count
      | some zn => count - (length - UInt32.ofNat (slotRank s.slotsToKeys zn))

-- Keys

def lookupKey (s : Server V) (id : Nat) (key : Sds) : Option V := (s.dbs id).dict key

def getExpire (s : Server V) (id : Nat) (key : Sds) : Except Fault Int :=
  match (s.dbs id).expires key with
  | none => .ok (-1)
  | some time => if (lookupKey s id key).isSome then .ok time else .error .assertion

def setExpire (s : Server V) (id : Nat) (key : Sds) (time : Int) : Except Fault (Server V) :=
  if (lookupKey s id key).isSome then
    .ok (s.setDb id
      { s.dbs id with expires := Function.update (s.dbs id).expires key (some time) })
  else .error .assertion

def removeExpire (s : Server V) (id : Nat) (key : Sds) : Except Fault (Server V × Bool) :=
  if (lookupKey s id key).isSome then
    .ok (s.setDb id { s.dbs id with expires := Function.update (s.dbs id).expires key none },
      ((s.dbs id).expires key).isSome)
  else .error .assertion

def dbOverwrite (s : Server V) (id : Nat) (key : Sds) (val : V) : Except Fault (Server V) :=
  if (lookupKey s id key).isSome then
    .ok (s.setDb id { s.dbs id with dict := Function.update (s.dbs id).dict key (some val) })
  else .error .assertion

def Server.emptyDict (s : Server V) (id : Nat) : Server V :=
  s.setDb id ⟨fun _ => none, fun _ => none⟩

def emptyDb (s : Server V) : Server V :=
  let s := (List.range s.dbnum).foldl Server.emptyDict s
  if s.clusterEnabled then slotToKeyFlush s else s

def flushdbCommand (s : Server V) (id : Nat) : Server V :=
  let s := s.emptyDict id
  if s.clusterEnabled then slotToKeyFlush s else s

variable (keyHashSlot : Sds → Nat)

def dbAdd (s : Server V) (id : Nat) (key : Sds) (val : V) : Except Fault (Server V) :=
  if (lookupKey s id key).isSome then .error .assertion
  else
    let s := s.setDb id { s.dbs id with dict := Function.update (s.dbs id).dict key (some val) }
    .ok (if s.clusterEnabled then slotToKeyAdd keyHashSlot s key else s)

def dbDelete (s : Server V) (id : Nat) (key : Sds) : Server V × Bool :=
  let found := (lookupKey s id key).isSome
  let s := s.setDb id
    ⟨Function.update (s.dbs id).dict key none, Function.update (s.dbs id).expires key none⟩
  if found then (if s.clusterEnabled then slotToKeyDel keyHashSlot s key else s, true)
  else (s, false)

def expireIfNeeded (s : Server V) (moment : Moment) (id : Nat) (key : Sds)
    : Except Fault (Server V × Bool) := do
  let time ← getExpire s id key
  if time < 0 then pure (s, false)
  else if moment.loading then pure (s, false)
  else if moment.slave then pure (s, moment.now > time)
  else if moment.now ≤ time then pure (s, false)
  else pure (dbDelete keyHashSlot s id key)

/-- `lookupKeyRead` and `lookupKeyWrite`. -/
def lookupKeyWrite (s : Server V) (moment : Moment) (id : Nat) (key : Sds)
    : Except Fault (Server V × Option V) := do
  let (s, _) ← expireIfNeeded keyHashSlot s moment id key
  pure (s, lookupKey s id key)

def setKey (s : Server V) (moment : Moment) (id : Nat) (key : Sds) (val : V)
    : Except Fault (Server V) := do
  let (s, old) ← lookupKeyWrite keyHashSlot s moment id key
  let s ← match old with
    | none => dbAdd keyHashSlot s id key val
    | some _ => dbOverwrite s id key val
  let (s, _) ← removeExpire s id key
  pure s

-- Commands

/-- The end of `renameGenericCommand` and of `moveCommand`: the value and its expire time go to
another place.
-/
def moveKey (s : Server V) (id : Nat) (key : Sds) (target : Nat) (newkey : Sds) (val : V)
    (expire : Int)
    : Except Fault (Server V) := do
  let s ← dbAdd keyHashSlot s target newkey val
  let s ← if expire ≠ -1 then setExpire s target newkey expire else pure s
  pure (dbDelete keyHashSlot s id key).1

/-- `renameGenericCommand`; the clock is read at each of the two lookups. -/
def renameGenericCommand (s : Server V) (first second : Moment) (id : Nat) (key newkey : Sds)
    (nx : Bool)
    : Except Fault (Server V × Reply) :=
  if key = newkey then .ok (s, sameobjecterr)
  else do
    let (s, o) ← lookupKeyWrite keyHashSlot s first id key
    match o with
    | none => pure (s, nokeyerr)
    | some o => do
        let expire ← getExpire s id key
        let (s, there) ← lookupKeyWrite keyHashSlot s second id newkey
        if there.isSome && nx then pure (s, .integer 0)
        else do
          let s := if there.isSome then (dbDelete keyHashSlot s id newkey).1 else s
          let s ← moveKey keyHashSlot s id key id newkey o expire
          pure (s, if nx then .integer 1 else .ok)

def moveCommand (s : Server V) (first second : Moment) (src : Nat) (key dbid : Sds)
    : Except Fault (Server V × Reply) :=
  if s.clusterEnabled then .ok (s, moveDenied)
  else
    match getLongLongFromObject dbid with
    | none => .ok (s, outofrangeerr)
    | some dst =>
        if dst < 0 ∨ s.dbnum ≤ dst then .ok (s, outofrangeerr)
        else if dst.toNat = src then .ok (s, sameobjecterr)
        else do
          let (s, o) ← lookupKeyWrite keyHashSlot s first src key
          match o with
          | none => pure (s, .integer 0)
          | some o => do
              let expire ← getExpire s src key
              let (s, there) ← lookupKeyWrite keyHashSlot s second dst.toNat key
              if there.isSome then pure (s, .integer 0)
              else do
                let s ← moveKey keyHashSlot s src key dst.toNat key o expire
                pure (s, .integer 1)

/-- `expireGenericCommand`; the clock is read again behind the lookup. -/
def expireGenericCommand (s : Server V) (first second : Moment) (id : Nat) (key param : Sds)
    (basetime : Int) (unit : TimeUnit)
    : Except Fault (Server V × Reply) :=
  match getLongLongFromObject param with
  | none => .ok (s, notAnInteger)
  | some time => do
      let time := longLong (unit.scale time + basetime)
      let (s, o) ← lookupKeyWrite keyHashSlot s first id key
      if o.isNone then pure (s, .integer 0)
      else if time ≤ second.now ∧ second.loading = false ∧ second.slave = false then do
        let (s, deleted) := dbDelete keyHashSlot s id key
        if deleted then pure (s, .integer 1) else .error .assertion
      else do
        let s ← setExpire s id key time
        pure (s, .integer 1)

/-- Reading `level[0].forward` of a node, which must not be free. -/
def forwardOf (nodes : List (Filed Sds)) (node : Filed Sds) : Except Fault (Option (Filed Sds)) :=
  match nodes.dropWhile (· ≠ node) with
  | [] => .error .outOfBounds
  | _ :: behind => .ok behind.head?

/-- The loop of `delKeysInSlot`, with the number of keys that it deleted. -/
def delKeysLoop (slot : Nat)
    : (rounds : Nat) → Option (Filed Sds) → (deleted : Nat) → Server V
      → Except Fault (Server V × Nat)
  | 0, _, _, _ => .error .diverged
  | _ + 1, none, deleted, s => pure (s, deleted)
  | rounds + 1, some node, deleted, s => do
      let next ← forwardOf s.slotsToKeys node
      if node.group ≠ slot then pure (s, deleted)
      else delKeysLoop slot rounds next (deleted + 1) (dbDelete keyHashSlot s 0 node.member).1

def delKeysInSlot (s : Server V) (slot : Nat) : Except Fault (Server V × Nat) :=
  delKeysLoop keyHashSlot slot (s.slotsToKeys.length + 1)
    (firstInSlot s.slotsToKeys slot).head? 0 s

-- Runs

inductive Operation (V : Type) where
  | dbAdd (id : Nat) (key : Sds) (val : V)
  | dbOverwrite (id : Nat) (key : Sds) (val : V)
  | setKey (moment : Moment) (id : Nat) (key : Sds) (val : V)
  | dbDelete (id : Nat) (key : Sds)
  | setExpire (id : Nat) (key : Sds) (time : Int)
  | removeExpire (id : Nat) (key : Sds)
  | expireIfNeeded (moment : Moment) (id : Nat) (key : Sds)
  | rename (first second : Moment) (id : Nat) (key newkey : Sds) (nx : Bool)
  | move (first second : Moment) (src : Nat) (key dbid : Sds)
  | expire (first second : Moment) (id : Nat) (key param : Sds) (basetime : Int) (unit : TimeUnit)
  | flushdb (id : Nat)
  | flushall
  | delKeysInSlot (slot : Nat)

def Server.step (s : Server V) : Operation V → Except Fault (Server V)
  | .dbAdd id key val => SideIndexes.dbAdd keyHashSlot s id key val
  | .dbOverwrite id key val => SideIndexes.dbOverwrite s id key val
  | .setKey moment id key val => SideIndexes.setKey keyHashSlot s moment id key val
  | .dbDelete id key => .ok (SideIndexes.dbDelete keyHashSlot s id key).1
  | .setExpire id key time => SideIndexes.setExpire s id key time
  | .removeExpire id key => Prod.fst <$> SideIndexes.removeExpire s id key
  | .expireIfNeeded moment id key =>
      Prod.fst <$> SideIndexes.expireIfNeeded keyHashSlot s moment id key
  | .rename first second id key newkey nx =>
      Prod.fst <$> renameGenericCommand keyHashSlot s first second id key newkey nx
  | .move first second src key dbid =>
      Prod.fst <$> moveCommand keyHashSlot s first second src key dbid
  | .expire first second id key param basetime unit =>
      Prod.fst <$> expireGenericCommand keyHashSlot s first second id key param basetime unit
  | .flushdb id => .ok (flushdbCommand s id)
  | .flushall => .ok (emptyDb s)
  | .delKeysInSlot slot => Prod.fst <$> SideIndexes.delKeysInSlot keyHashSlot s slot

/-- In cluster mode a client has database 0. -/
def Server.Selects (s : Server V) (id : Nat) : Prop := s.clusterEnabled = true → id = 0

/-- What the callers of a function have found out before they call it: `dbAdd` is for a key that is
not there, `dbOverwrite`, `setExpire` and `removeExpire` for one that is. Only a cluster node
deletes the keys of a slot.
-/
def Operation.Allowed (s : Server V) : Operation V → Prop
  | .dbAdd id key _ => s.Selects id ∧ lookupKey s id key = none
  | .dbOverwrite id key _ => lookupKey s id key ≠ none
  | .setKey _ id _ _ => s.Selects id
  | .dbDelete id _ => s.Selects id
  | .setExpire id key _ => lookupKey s id key ≠ none
  | .removeExpire id key => lookupKey s id key ≠ none
  | .expireIfNeeded _ id _ => s.Selects id
  | .rename _ _ id _ _ _ => s.Selects id
  | .move .. => True
  | .expire _ _ id _ _ _ _ => s.Selects id
  | .flushdb id => s.Selects id
  | .flushall => True
  | .delKeysInSlot _ => s.clusterEnabled = true

/-- Every call is allowed in the state that it finds. -/
def AllowedRun : Server V → List (Operation V) → Prop
  | _, [] => True
  | s, operation :: rest =>
      operation.Allowed s ∧ ∀ next, s.step keyHashSlot operation = .ok next → AllowedRun next rest

end Model

end Redis.SideIndexes
