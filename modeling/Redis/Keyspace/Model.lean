import Mathlib.Data.Finset.Basic
import Redis.Aof.Format
import Redis.Lists.Model

/-! One database: the keys with their values and their expire times, as `db.c` changes them. -/

namespace Redis.Keyspace

open Redis.Lists (Where listTypePop listTypePush)

abbrev Sds := List UInt8

/-- The logical value of an object, with scores in `F`. -/
inductive Value (F : Type) where
  | string (text : Sds)
  | list (items : List Sds)
  | set (members : Finset Sds)
  | zset (score : Sds → Option F)
  | hash (field : Sds → Option Sds)

/-- `redisDb`, with objects in `V`. -/
@[ext]
structure ObjectDb (V : Type) where
  dict : Sds → Option V
  /-- Expire times in milliseconds. -/
  expires : Sds → Option Int
  expires_in_dict : ∀ key, dict key = none → expires key = none

-- Keys

section Keys

variable {V : Type} (db : ObjectDb V)

def ObjectDb.empty : ObjectDb V := ⟨fun _ => none, fun _ => none, fun _ _ => rfl⟩

/-- `dbAdd` and `dbOverwrite`. -/
def ObjectDb.store (key : Sds) (value : V) : ObjectDb V where
  dict := Function.update db.dict key (some value)
  expires := db.expires
  expires_in_dict other absent := by
    by_cases same : other = key
    · subst same
      simp at absent
    · rw [Function.update_of_ne same] at absent
      exact db.expires_in_dict other absent

@[simp]
theorem ObjectDb.store_dict_self (key : Sds) (value : V)
    : (db.store key value).dict key = some value :=
  Function.update_self ..

@[simp]
theorem ObjectDb.store_store (key : Sds) (first second : V)
    : (db.store key first).store key second = db.store key second :=
  ObjectDb.ext (Function.update_idem ..) rfl

def ObjectDb.dbDelete (key : Sds) : ObjectDb V where
  dict := Function.update db.dict key none
  expires := Function.update db.expires key none
  expires_in_dict other absent := by
    by_cases same : other = key
    · subst same
      exact Function.update_self ..
    · rw [Function.update_of_ne same] at absent ⊢
      exact db.expires_in_dict other absent

def ObjectDb.removeExpire (key : Sds) : ObjectDb V where
  dict := db.dict
  expires := Function.update db.expires key none
  expires_in_dict other absent := by
    by_cases same : other = key
    · subst same
      exact Function.update_self ..
    · rw [Function.update_of_ne same]
      exact db.expires_in_dict other absent

/-- `setExpire` of a key that is there. -/
def ObjectDb.setExpire (key : Sds) (time : Int) : ObjectDb V where
  dict := db.dict
  expires := if db.dict key = none then db.expires else Function.update db.expires key (some time)
  expires_in_dict other absent := by
    by_cases missing : db.dict key = none
    · rw [if_pos missing]
      exact db.expires_in_dict other absent
    · have different : other ≠ key := by
        rintro rfl
        exact missing absent
      rw [if_neg missing, Function.update_of_ne different]
      exact db.expires_in_dict other absent

def ObjectDb.setKey (key : Sds) (value : V) : ObjectDb V := (db.store key value).removeExpire key

/-- `expireIfNeeded` finds that the key has expired. -/
def ObjectDb.isExpired (now : Int) (key : Sds) : Bool :=
  match db.expires key with
  | none => false
  | some time => 0 ≤ time && time < now

end Keys

/-- A database of logical values. -/
abbrev Db (F : Type) := ObjectDb (Value F)

-- Numbers

def cString (text : Sds) : Sds := text.takeWhile (fun byte => byte ≠ 0)

/-- The value of decimal digits, if there are digits and nothing else. -/
def wholeDigits (text : Sds) : Option Nat :=
  if text ≠ [] ∧ text.all (isDigitFrom 0x30) then some (horner 0 text) else none

/-- A signed number that is the whole of a C string. The empty string is the number 0. -/
def wholeNumber (text : Sds) : Option Int :=
  if text = [] then some 0
  else if text.head? = some 0x2D then (wholeDigits text.tail).map (fun n : Nat => -(n : Int))
  else if text.head? = some 0x2B then (wholeDigits text.tail).map (fun n : Nat => (n : Int))
  else (wholeDigits text).map (fun n : Nat => (n : Int))

/-- `getLongLongFromObject` of an argument. -/
def getLongLongFromObject (text : Sds) : Option Int :=
  (wholeNumber (cString text)).filter (fun v => -2 ^ 63 ≤ v && v < 2 ^ 63)

/-- `getLongLongFromObject` of a string object in either encoding. -/
def getLongLongFromString : StringObject → Option Int
  | .sds text => getLongLongFromObject text
  | .int value => some value.toInt

/-- A signed sum or product in 64 bits. -/
def longLong (v : Int) : Int := v.bmod (2 ^ 64)

theorem longLong_range (v : Int) : -2 ^ 63 ≤ longLong v ∧ longLong v < 2 ^ 63 := by
  have least := Int.le_bmod (x := v) (m := 2 ^ 64) (by decide)
  have most := Int.bmod_lt (x := v) (m := 2 ^ 64) (by decide)
  constructor
  · exact least
  · exact most

/-- A signed number of 64 bits. -/
def FitsLongLong (v : Int) : Prop := -2 ^ 63 ≤ v ∧ v < 2 ^ 63

/-- A number keeps its value if and only if 64 bits hold it. -/
theorem longLong_eq_self_iff (v : Int) : longLong v = v ↔ FitsLongLong v := by
  constructor
  · intro same
    have range := longLong_range v
    rwa [same] at range
  · rintro ⟨low, high⟩
    exact Int.bmod_eq_of_le (by omega) (by omega)

theorem getLongLongFromObject_fits {text : Sds} {d : Int}
    (read : getLongLongFromObject text = some d)
    : FitsLongLong d := by
  simpa [FitsLongLong] using (Option.filter_eq_some_iff.mp read).2

-- Values

variable {F : Type} (db : Db F)

/-- `if (listTypeLength(o) == 0) dbDelete(db,key)`. -/
def ObjectDb.deleteIfEmpty (key : Sds) : Db F :=
  match db.dict key with
  | some (.list []) => db.dbDelete key
  | _ => db

/-- Pushing to a list, which `pushGenericCommand` and `rpoplpushHandlePush` create. -/
def ObjectDb.push (place : Where) (key : Sds) (values : List Sds) : Option (Db F) :=
  match db.dict key with
  | none => some (db.store key (.list (values.foldl (listTypePush place) [])))
  | some (.list items) => some (db.store key (.list (values.foldl (listTypePush place) items)))
  | some _ => none

/-- Popping from a list, as `popGenericCommand` does. -/
def ObjectDb.pop (place : Where) (key : Sds) : Option (Sds × Db F) :=
  match db.dict key with
  | some (.list items) =>
      (listTypePop place items).map (fun (value, rest) =>
        (value, (db.store key (.list rest)).deleteIfEmpty key))
  | _ => none

theorem sds_lawfulBEq : LawfulBEq Sds := inferInstance

attribute [local instance] sds_lawfulBEq

/-- Removing members from a set, as `sremCommand` does. -/
def ObjectDb.removeMembers (key : Sds) (removed : List Sds) : Option (Db F) :=
  match db.dict key with
  | some (.set members) =>
      let rest := members.filter (fun member => member ∉ removed)
      if rest = members then none
      else if rest = ∅ then some (db.dbDelete key)
      else some (db.store key (.set rest))
  | _ => none

/-- `hashTypeLookupWriteOrCreate`: the fields of a hash. -/
def ObjectDb.fieldsOrCreate (key : Sds) : Option (Sds → Option Sds) :=
  match db.dict key with
  | none => some (fun _ => none)
  | some (.hash field) => some field
  | some _ => none

def ObjectDb.setField (key field value : Sds) : Option (Db F) :=
  (db.fieldsOrCreate key).map (fun fields =>
    db.store key (.hash (Function.update fields field (some value))))

end Redis.Keyspace
