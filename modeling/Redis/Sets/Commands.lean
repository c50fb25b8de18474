import Redis.Keyspace.ObjectDb
import Redis.Keyspace.Timeouts
import Redis.Sets.Encodings

/-! `sinterGenericCommand` and `sunionDiffGenericCommand`. -/

namespace Redis.Sets

open Redis.Library
open Redis.Keyspace (Sds ObjectDb longLong wrongType)
open Redis.Rdb (SetObject)
open Redis.SideIndexes (Moment)

-- Objects and replies

/-- `robj`: a set, or a value of another type. -/
inductive Robj (W : Type) where
  | set (o : SetObject)
  | other (value : W)

/-- A set among the sources. No two keys share an object, so the key stands for the pointer. -/
structure Source where
  key : Sds
  obj : SetObject

/-- The replies: an error, an integer, or bulks behind the length that is announced. -/
inductive SetReply where
  | error (text : String)
  | integer (n : Int)
  | multiBulk (header : Int) (elements : List Sds)
deriving DecidableEq, Repr

/-- `qsort`: the elements in an order that the comparison decides. -/
structure Qsort where
  sort : {α : Type} → (α → α → Int) → List α → List α
  perm : ∀ {α : Type} (compare : α → α → Int) (items : List α), (sort compare items).Perm items

/-- The bytes of new memory, `server.set_max_intset_entries` and the orders that the commands depend
on.
-/
structure Env where
  fresh : Nat → UInt8
  setMaxIntsetEntries : Nat
  order : IterationOrder
  qsort : Qsort

/-- The text of `addReplyBulkLongLong` or `addReplyBulk` for an element. -/
def SetElement.reply : SetElement → Sds
  | .integer llele => decimalText llele
  | .object objele => objele.text

variable {W : Type} (env : Env) (db : ObjectDb (Robj W)) (moment : Moment)

/-- The end of the commands with a destination. -/
def storeResult (dstkey : Sds) (dstset : SetObject)
    : Except Fault (SetReply × ObjectDb (Robj W)) :=
  if setTypeSize dstset > 0 then do
    let db ← (db.dbDelete dstkey).dbAdd dstkey (.set dstset)
    pure (.integer (setTypeSize dstset), db)
  else pure (.integer 0, db.dbDelete dstkey)

-- Intersections

/-- What the lookup loop of `sinterGenericCommand` ends with. -/
inductive Lookups where
  | missing
  | wrongType
  | sets (sources : List Source)

/-- The lookup loop of `sinterGenericCommand`, which returns at the first key that is not a set. -/
def sinterLookups (db : ObjectDb (Robj W)) : List Sds → ObjectDb (Robj W) × Lookups
  | [] => (db, .sets [])
  | key :: setkeys =>
      match db.lookupKeyWrite moment key with
      | (db, none) => (db, .missing)
      | (db, some (.other _)) => (db, .wrongType)
      | (db, some (.set o)) =>
          match sinterLookups db setkeys with
          | (db, .sets sources) => (db, .sets (⟨key, o⟩ :: sources))
          | (db, outcome) => (db, outcome)

def qsortCompareSetsByCardinality (s1 s2 : Source) : Int :=
  int32 (setTypeSize s1.obj - setTypeSize s2.obj)

/-- The tests of the inner loop of `sinterGenericCommand` for another set. -/
def sinterFinds (other : SetObject) : SetElement → Except Fault Bool
  | .integer intobj =>
      match other with
      | .intset is => intsetFind is intobj
      | .ht _ => setTypeIsMember other (createStringObjectFromLongLong (Int64.ofInt intobj))
  | .object eleobj =>
      match eleobj, other with
      | .int value, .intset is => do
          let found ← intsetFind is value.toInt
          if found then setTypeIsMember other eleobj else pure false
      | _, _ => setTypeIsMember other eleobj

/-- The inner loop of `sinterGenericCommand`; `first` is `sets[0]`. -/
def sinterInAll (first : Source) (element : SetElement) : List Source → Except Fault Bool
  | [] => .ok true
  | other :: rest =>
      if other.key = first.key then sinterInAll first element rest
      else do
        let found ← sinterFinds other.obj element
        if found then sinterInAll first element rest else pure false

/-- A round of the loop of `sinterGenericCommand`, over the reply and `dstset`. -/
def sinterStep (store : Bool) (first : Source) (others : List Source)
    (state : List Sds × SetObject) (element : SetElement)
    : Except Fault (List Sds × SetObject) := do
  let inAll ← sinterInAll first element others
  if !inAll then pure state
  else if !store then pure (state.1 ++ [element.reply], state.2)
  else do
    let (dstset, _) ← setTypeAdd env.fresh env.setMaxIntsetEntries state.2 element.toObject
    pure (state.1, dstset)

/-- `sinterGenericCommand`; `cardinality` is the number of the elements in the reply. -/
def sinterGenericCommand (setkeys : List Sds) (dstkey : Option Sds)
    : Except Fault (SetReply × ObjectDb (Robj W)) :=
  match sinterLookups moment db setkeys with
  | (db, .wrongType) => .ok (.error wrongType, db)
  | (db, .missing) =>
      match dstkey with
      | some dstkey => .ok (.integer 0, db.dbDelete dstkey)
      | none => .ok (.multiBulk 0 [], db)
  | (db, .sets sources) =>
      match env.qsort.sort qsortCompareSetsByCardinality sources with
      | [] => .error .outOfBounds
      | first :: others => do
          let elements ← setTypeElements env.order first.obj
          let (reply, dstset) ←
            elements.foldlM (sinterStep env dstkey.isSome first others) ([], createIntsetObject)
          match dstkey with
          | some dstkey => storeResult db dstkey dstset
          | none => pure (.multiBulk reply.length reply, db)

-- Unions and differences

/-- `REDIS_OP_UNION` and `REDIS_OP_DIFF`. -/
inductive SetOp where
  | union
  | diff
deriving DecidableEq, Repr

/-- The lookup loop of `sunionDiffGenericCommand`: nothing for a value of another type. -/
def sunionDiffLookups (db : ObjectDb (Robj W))
    : List Sds → ObjectDb (Robj W) × Option (List (Option Source))
  | [] => (db, some [])
  | key :: setkeys =>
      match db.lookupKeyWrite moment key with
      | (db, some (.other _)) => (db, none)
      | (db, none) =>
          match sunionDiffLookups db setkeys with
          | (db, sets) => (db, sets.map (none :: ·))
      | (db, some (.set o)) =>
          match sunionDiffLookups db setkeys with
          | (db, sets) => (db, sets.map (some ⟨key, o⟩ :: ·))

def sizeOrZero : Option Source → Nat
  | some source => setTypeSize source.obj
  | none => 0

def qsortCompareSetsByRevCardinality (s1 s2 : Option Source) : Int :=
  int32 (sizeOrZero s2 - sizeOrZero s1)

/-- The work of both algorithms for a difference, before that of the first one is halved. -/
def diffWork (first : Source) (sets : List (Option Source)) : Int × Int :=
  sets.foldl
    (fun (one, two) set =>
      match set with
      | none => (one, two)
      | some source =>
          (longLong (one + setTypeSize first.obj), longLong (two + setTypeSize source.obj)))
    (0, 0)

def diffAlgo (first : Source) (sets : List (Option Source)) : Nat :=
  let (one, two) := diffWork first sets
  if one.tdiv 2 ≤ two then 1 else 2

/-- `if (setTypeAdd(dstset,ele)) cardinality++`. -/
def countedAdd (state : SetObject × Int) (element : SetElement)
    : Except Fault (SetObject × Int) := do
  let (dstset, added) ← setTypeAdd env.fresh env.setMaxIntsetEntries state.1 element.toObject
  pure (dstset, if added then int32 (state.2 + 1) else state.2)

/-- `if (setTypeRemove(dstset,ele)) cardinality--`. -/
def countedRemove (state : SetObject × Int) (element : SetElement)
    : Except Fault (SetObject × Int) := do
  let (dstset, removed) ← setTypeRemove env.fresh state.1 element.toObject
  pure (dstset, if removed then int32 (state.2 - 1) else state.2)

def overElements (body : SetObject × Int → SetElement → Except Fault (SetObject × Int))
    (source : Source) (state : SetObject × Int)
    : Except Fault (SetObject × Int) := do
  let elements ← setTypeElements env.order source.obj
  elements.foldlM body state

def unionLoop (state : SetObject × Int) : List (Option Source) → Except Fault (SetObject × Int)
  | [] => .ok state
  | none :: sets => unionLoop state sets
  | some source :: sets => do
      let state ← overElements env (countedAdd env) source state
      unionLoop state sets

/-- The inner loop of the first algorithm for a difference. -/
def inNoOther (first : Source) (ele : StringObject) : List (Option Source) → Except Fault Bool
  | [] => .ok true
  | none :: rest => inNoOther first ele rest
  | some other :: rest =>
      if other.key = first.key then .ok false
      else do
        let found ← setTypeIsMember other.obj ele
        if found then pure false else inNoOther first ele rest

/-- A round of the first algorithm for a difference. -/
def diffStep (first : Source) (others : List (Option Source)) (state : SetObject × Int)
    (element : SetElement)
    : Except Fault (SetObject × Int) := do
  let absent ← inNoOther first element.toObject others
  if absent then do
    let (dstset, _) ← setTypeAdd env.fresh env.setMaxIntsetEntries state.1 element.toObject
    pure (dstset, int32 (state.2 + 1))
  else pure state

/-- The second algorithm for a difference, behind the first set. -/
def diffRemovals (state : SetObject × Int) : List (Option Source) → Except Fault (SetObject × Int)
  | [] => .ok state
  | none :: sets => diffRemovals state sets
  | some source :: sets => do
      let state ← overElements env (countedRemove env) source state
      if state.2 = 0 then pure state else diffRemovals state sets

/-- The part of `sunionDiffGenericCommand` that fills `dstset` and counts. -/
def sunionDiffResult (sets : List (Option Source)) : SetOp → Except Fault (SetObject × Int)
  | .union => unionLoop env (createIntsetObject, 0) sets
  | .diff =>
      match sets with
      | [] => .error .outOfBounds
      | none :: _ => .ok (createIntsetObject, 0)
      | some first :: others =>
          if diffAlgo first (some first :: others) = 1 then
            let others :=
              if others.length + 1 > 1 then
                env.qsort.sort qsortCompareSetsByRevCardinality others
              else others
            overElements env (diffStep env first others) first (createIntsetObject, 0)
          else do
            let state ← overElements env (countedAdd env) first (createIntsetObject, 0)
            if state.2 = 0 then pure state else diffRemovals env state others

def sunionDiffGenericCommand (setkeys : List Sds) (dstkey : Option Sds) (op : SetOp)
    : Except Fault (SetReply × ObjectDb (Robj W)) :=
  match sunionDiffLookups moment db setkeys with
  | (db, none) => .ok (.error wrongType, db)
  | (db, some sets) => do
      let (dstset, cardinality) ← sunionDiffResult env sets op
      match dstkey with
      | none => do
          let elements ← setTypeElements env.order dstset
          pure (.multiBulk cardinality (elements.map fun element => element.toObject.text), db)
      | some dstkey => storeResult db dstkey dstset

-- The commands

def sinterCommand (setkeys : List Sds) : Except Fault (SetReply × ObjectDb (Robj W)) :=
  sinterGenericCommand env db moment setkeys none

def sinterstoreCommand (dstkey : Sds) (setkeys : List Sds)
    : Except Fault (SetReply × ObjectDb (Robj W)) :=
  sinterGenericCommand env db moment setkeys (some dstkey)

def sunionCommand (setkeys : List Sds) : Except Fault (SetReply × ObjectDb (Robj W)) :=
  sunionDiffGenericCommand env db moment setkeys none .union

def sunionstoreCommand (dstkey : Sds) (setkeys : List Sds)
    : Except Fault (SetReply × ObjectDb (Robj W)) :=
  sunionDiffGenericCommand env db moment setkeys (some dstkey) .union

def sdiffCommand (setkeys : List Sds) : Except Fault (SetReply × ObjectDb (Robj W)) :=
  sunionDiffGenericCommand env db moment setkeys none .diff

def sdiffstoreCommand (dstkey : Sds) (setkeys : List Sds)
    : Except Fault (SetReply × ObjectDb (Robj W)) :=
  sunionDiffGenericCommand env db moment setkeys (some dstkey) .diff

/-- The commands with their arguments. At least one source is given. -/
inductive SetCommand where
  | sinter (key : Sds) (keys : List Sds)
  | sinterstore (dstkey key : Sds) (keys : List Sds)
  | sunion (key : Sds) (keys : List Sds)
  | sunionstore (dstkey key : Sds) (keys : List Sds)
  | sdiff (key : Sds) (keys : List Sds)
  | sdiffstore (dstkey key : Sds) (keys : List Sds)
deriving DecidableEq, Repr

namespace SetCommand

def sources : SetCommand → List Sds
  | sinter key keys | sunion key keys | sdiff key keys => key :: keys
  | sinterstore _ key keys | sunionstore _ key keys | sdiffstore _ key keys => key :: keys

def call : SetCommand → Except Fault (SetReply × ObjectDb (Robj W))
  | sinter key keys => sinterCommand env db moment (key :: keys)
  | sinterstore dstkey key keys => sinterstoreCommand env db moment dstkey (key :: keys)
  | sunion key keys => sunionCommand env db moment (key :: keys)
  | sunionstore dstkey key keys => sunionstoreCommand env db moment dstkey (key :: keys)
  | sdiff key keys => sdiffCommand env db moment (key :: keys)
  | sdiffstore dstkey key keys => sdiffstoreCommand env db moment dstkey (key :: keys)

end SetCommand

-- What the lookups find

/-- The outcome of the lookups of an intersection. -/
def interSources (find : Sds → Option (Robj W)) : List Sds → Lookups
  | [] => .sets []
  | key :: keys =>
      match find key with
      | none => .missing
      | some (.other _) => .wrongType
      | some (.set o) =>
          match interSources find keys with
          | .sets sources => .sets (⟨key, o⟩ :: sources)
          | outcome => outcome

/-- The outcome of the lookups of a union or a difference. -/
def unionSources (find : Sds → Option (Robj W)) : List Sds → Option (List (Option Source))
  | [] => some []
  | key :: keys =>
      match find key with
      | none => (unionSources find keys).map (none :: ·)
      | some (.other _) => none
      | some (.set o) => (unionSources find keys).map (some ⟨key, o⟩ :: ·)

variable {db} {moment}

theorem sinterLookups_ok (db : ObjectDb (Robj W)) (moment : Moment) (keys : List Sds)
    : ∃ next,
        sinterLookups moment db keys = (next, interSources (db.find moment) keys)
        ∧ ObjectDb.OnlyExpired moment db next := by
  induction keys generalizing db with
  | nil => exact ⟨db, rfl, .refl moment db⟩
  | cons key keys ih =>
      obtain ⟨mid, looked, first⟩ := ObjectDb.lookupKeyWrite_ok db moment key
      obtain ⟨next, rest, second⟩ := ih mid
      rw [show mid.find moment = db.find moment from funext first.find] at rest
      rw [sinterLookups, interSources, looked]
      cases found : db.find moment key with
      | none => exact ⟨mid, rfl, first⟩
      | some value =>
          cases value with
          | other value => exact ⟨mid, rfl, first⟩
          | set o =>
              refine ⟨next, ?_, first.trans second⟩
              dsimp only
              rw [rest]
              cases interSources (db.find moment) keys <;> rfl

/-- The lookups find what the keys held before them. -/
theorem sunionDiffLookups_ok (db : ObjectDb (Robj W)) (moment : Moment) (keys : List Sds)
    : ∃ next,
        sunionDiffLookups moment db keys = (next, unionSources (db.find moment) keys)
        ∧ ObjectDb.OnlyExpired moment db next := by
  induction keys generalizing db with
  | nil => exact ⟨db, rfl, .refl moment db⟩
  | cons key keys ih =>
      obtain ⟨mid, looked, first⟩ := ObjectDb.lookupKeyWrite_ok db moment key
      obtain ⟨next, rest, second⟩ := ih mid
      rw [show mid.find moment = db.find moment from funext first.find] at rest
      rw [sunionDiffLookups, unionSources, looked]
      cases found : db.find moment key with
      | none => exact ⟨next, by dsimp only; rw [rest], first.trans second⟩
      | some value =>
          cases value with
          | other value => exact ⟨mid, rfl, first⟩
          | set o => exact ⟨next, by dsimp only; rw [rest], first.trans second⟩

end Redis.Sets
