import Redis.Keyspace.SideIndexes
import Redis.Library.PointerDictionary
import Redis.Library.RefCounts
import Redis.Util.IntegerEncoding

/-! The databases with their values as objects, which keys, commands and replies share by pointers,
and what the keys stand for.
-/

namespace Redis.Strings

open Redis.Library
open Redis.Keyspace (Sds)
open Redis.SideIndexes (Moment)

-- Objects

/-- An object by its encoding. What an object of another type holds is in `V`. -/
inductive Robj (V : Type) where
  | raw (s : Sds)
  | embstr (s : Sds)
  | int (n : Int64)
  | other (v : V)
deriving DecidableEq, Repr

/-- What an object stands for. -/
inductive Contents (V : Type) where
  | string (text : Sds)
  | other (v : V)
deriving DecidableEq, Repr

/-- A key of one of the databases. -/
abbrev DbKey := Nat × Sds

/-- The objects, and the databases with the addresses of their values. -/
structure Store (V : Type) where
  heap : CountedHeap (Robj V)
  dict : PointerDictionary DbKey
  expires : DbKey → Option Int
  /-- `shared.integers`. -/
  sharedIntegers : Nat → Nat

def redisSharedIntegers : Nat := 10000

variable {V : Type}

def Robj.contents : Robj V → Contents V
  | .raw s | .embstr s => .string s
  | .int n => .string (decimalText n.toInt)
  | .other v => .other v

/-- `o->encoding == REDIS_ENCODING_INT`. -/
def Robj.isInt : Robj V → Bool
  | .int _ => true
  | _ => false

/-- `checkType` of a string. -/
def Robj.isString : Robj V → Bool
  | .other _ => false
  | _ => true

/-- The string of an object that is known to be sds-encoded. -/
def Robj.sds : Robj V → Except Fault Sds
  | .raw s | .embstr s => .ok s
  | _ => .error .outOfBounds

/-- The string of a string object, through `getDecodedObject`. -/
def Robj.decoded : Robj V → Except Fault Sds
  | .raw s | .embstr s => .ok s
  | .int n => (StringObject.int n).decoded
  | .other _ => .error .assertion

def Robj.stringObjectLen (o : Robj V) : Except Fault Nat := List.length <$> o.decoded

namespace Store

variable (s : Store V)

def object (a : Nat) : Except Fault (Robj V) :=
  match s.heap.value a with
  | some value => .ok value
  | none => .error .outOfBounds

/-- `createObject`: the object has one reference, which the caller holds. -/
def createObject (value : Robj V) : Store V × Nat :=
  ({ s with heap := s.heap.alloc value }, s.heap.next)

def incrRefCount (a : Nat) : Store V := { s with heap := s.heap.incr a }

/-- `decrRefCount`, which panics for an object without references. -/
def decrRefCount (a : Nat) : Except Fault (Store V) :=
  if s.heap.refcount a = 0 then .error .assertion else .ok { s with heap := s.heap.decr a }

/-- `createStringObjectFromLongLong` of a value in the range of `PORT_LONG`. -/
def createStringObjectFromLongLong (value : Int) : Store V × Nat :=
  if 0 ≤ value ∧ value < redisSharedIntegers then
    let o := s.sharedIntegers value.toNat
    (s.incrRefCount o, o)
  else s.createObject (.int (Int64.ofInt value))

/-- `REDIS_ENCODING_EMBSTR_SIZE_LIMIT`. -/
def embstrSizeLimit : Nat := 39

/-- `tryObjectEncoding`; `useShared` tells that the memory policy allows shared integers. Giving
free space of a raw string back changes nothing here.
-/
def tryObjectEncoding (useShared : Bool) (o : Nat) : Except Fault (Store V × Nat) := do
  match ← s.object o with
  | .other _ => .error .assertion
  | .int _ => pure (s, o)
  | .raw text => encodeString text false
  | .embstr text => encodeString text true
where
  encodeString (text : Sds) (embedded : Bool) : Except Fault (Store V × Nat) :=
    if s.heap.refcount o > 1 then pure (s, o)
    else
      match if text.length ≤ 21 then string2ll text else none with
      | some value =>
          if useShared ∧ 0 ≤ value ∧ value < redisSharedIntegers then do
            let s ← s.decrRefCount o
            let shared := s.sharedIntegers value.toNat
            pure (s.incrRefCount shared, shared)
          else pure ({ s with heap := s.heap.store o (.int (Int64.ofInt value)) }, o)
      | none =>
          if text.length ≤ embstrSizeLimit ∧ embedded = false then do
            let (s, emb) := s.createObject (.embstr text)
            let s ← s.decrRefCount o
            pure (s, emb)
          else pure (s, o)

-- Databases

def getExpire (key : DbKey) : Except Fault Int :=
  match s.expires key with
  | none => .ok (-1)
  | some time => if s.dict.lookup key = none then .error .assertion else .ok time

def dbDelete (key : DbKey) : Except Fault (Store V) :=
  let s := { s with expires := Function.update s.expires key none }
  match s.dict.lookup key with
  | none => .ok s
  | some old => { s with dict := s.dict.erase key }.decrRefCount old

def expireIfNeeded (moment : Moment) (key : DbKey) : Except Fault (Store V) := do
  let time ← s.getExpire key
  if time < 0 then pure s
  else if moment.loading then pure s
  else if moment.slave then pure s
  else if moment.now ≤ time then pure s
  else s.dbDelete key

def lookupKeyWrite (moment : Moment) (key : DbKey) : Except Fault (Store V × Option Nat) := do
  let s ← s.expireIfNeeded moment key
  pure (s, s.dict.lookup key)

/-- `dbAdd`, which takes the reference to the value over. -/
def dbAdd (key : DbKey) (val : Nat) : Except Fault (Store V) :=
  match s.dict.lookup key with
  | some _ => .error .assertion
  | none => .ok { s with dict := s.dict.insert key val }

/-- `dbOverwrite`, which takes the reference to the value over and then drops the old value. -/
def dbOverwrite (key : DbKey) (val : Nat) : Except Fault (Store V) :=
  match s.dict.lookup key with
  | none => .error .assertion
  | some old => { s with dict := s.dict.insert key val }.decrRefCount old

def dbUnshareStringValue (key : DbKey) (o : Nat) : Except Fault (Store V × Nat) := do
  let value ← s.object o
  match value with
  | .other _ => .error .assertion
  | .raw _ =>
      if s.heap.refcount o = 1 then pure (s, o)
      else copied value
  | _ => copied value
where
  copied (value : Robj V) : Except Fault (Store V × Nat) := do
    let decoded ← value.decoded
    let (s, copy) := s.createObject (.raw decoded)
    let s ← s.dbOverwrite key copy
    pure (s, copy)

end Store

end Redis.Strings
