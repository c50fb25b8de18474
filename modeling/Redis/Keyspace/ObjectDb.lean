import Redis.Keyspace.SideIndexes

/-! One database of objects, as a command sees it that looks keys up, deletes them and adds new
ones. A lookup may delete the key that it is for.
-/

namespace Redis.Keyspace

open Redis.Library
open Redis.SideIndexes (Moment)

namespace ObjectDb

variable {V : Type} (db : ObjectDb V)

/-- `dbAdd`, which asserts that the key is new. -/
def dbAdd (key : Sds) (val : V) : Except Fault (ObjectDb V) :=
  if (db.dict key).isSome then .error .assertion else .ok (db.store key val)

section Lookups

variable (moment : Moment)

/-- What makes `expireIfNeeded` delete a key. -/
def mustExpire (key : Sds) : Bool :=
  !moment.loading && !moment.slave && db.isExpired moment.now key

def expireIfNeeded (key : Sds) : ObjectDb V :=
  if db.mustExpire moment key then db.dbDelete key else db

/-- `lookupKeyRead` and `lookupKeyWrite`. -/
def lookupKeyWrite (key : Sds) : ObjectDb V × Option V :=
  (db.expireIfNeeded moment key, (db.expireIfNeeded moment key).dict key)

def find (key : Sds) : Option V := if db.mustExpire moment key then none else db.dict key

end Lookups

/-- A master that is not loading. -/
abbrev onMaster (now : Int) : Moment := ⟨now, false, false⟩

/-- What a lookup on a master leaves. -/
def lookupKey (now : Int) (key : Sds) : ObjectDb V := db.expireIfNeeded (onMaster now) key

-- Deleting and adding

@[simp] theorem dict_dbDelete_self (key : Sds) : (db.dbDelete key).dict key = none :=
  Function.update_self ..

@[simp] theorem expires_dbDelete_self (key : Sds) : (db.dbDelete key).expires key = none :=
  Function.update_self ..

theorem dict_dbDelete_of_ne {key other : Sds} (different : other ≠ key)
    : (db.dbDelete key).dict other = db.dict other :=
  Function.update_of_ne different ..

theorem expires_dbDelete_of_ne {key other : Sds} (different : other ≠ key)
    : (db.dbDelete key).expires other = db.expires other :=
  Function.update_of_ne different ..

theorem dict_store_of_ne {key other : Sds} (val : V) (different : other ≠ key)
    : (db.store key val).dict other = db.dict other :=
  Function.update_of_ne different ..

@[simp] theorem expires_store (key : Sds) (val : V) : (db.store key val).expires = db.expires := rfl

theorem dbAdd_dbDelete (key : Sds) (val : V)
    : (db.dbDelete key).dbAdd key val = .ok ((db.dbDelete key).store key val) := by
  simp [dbAdd]

-- Databases that differ in expired keys

/-- The second database is the first without some of the keys that have expired. -/
def OnlyExpired (moment : Moment) (db next : ObjectDb V) : Prop :=
  ∀ key, (next.dict key = db.dict key ∧ next.expires key = db.expires key)
    ∨ (db.mustExpire moment key = true ∧ next.dict key = none ∧ next.expires key = none)

section Expired

variable {db} {moment : Moment} {mid next : ObjectDb V}

theorem OnlyExpired.refl (moment : Moment) (db : ObjectDb V) : OnlyExpired moment db db :=
  fun _ => .inl ⟨rfl, rfl⟩

theorem mustExpire_congr {key : Sds} (same : mid.expires key = db.expires key)
    : mid.mustExpire moment key = db.mustExpire moment key := by
  rw [mustExpire, mustExpire, isExpired, isExpired, same]

/-- Lookups may follow each other. -/
theorem OnlyExpired.trans (first : OnlyExpired moment db mid) (second : OnlyExpired moment mid next)
    : OnlyExpired moment db next := by
  intro key
  rcases first key with ⟨dict, expires⟩ | ⟨expired, dict, expires⟩
  · rcases second key with ⟨dict', expires'⟩ | ⟨expired', dict', expires'⟩
    · exact .inl ⟨dict'.trans dict, expires'.trans expires⟩
    · exact .inr ⟨(mustExpire_congr expires).symm.trans expired', dict', expires'⟩
  · refine .inr ⟨expired, ?_⟩
    rcases second key with ⟨dict', expires'⟩ | ⟨expired', dict', expires'⟩
    · exact ⟨dict'.trans dict, expires'.trans expires⟩
    · exact ⟨dict', expires'⟩

theorem OnlyExpired.find (only : OnlyExpired moment db next) (key : Sds)
    : next.find moment key = db.find moment key := by
  unfold ObjectDb.find
  rcases only key with ⟨dict, expires⟩ | ⟨expired, dict, expires⟩
  · rw [mustExpire_congr expires, dict]
  · rw [if_pos expired, dict, ite_self]

theorem expireIfNeeded_only (db : ObjectDb V) (moment : Moment) (key : Sds)
    : OnlyExpired moment db (db.expireIfNeeded moment key) := by
  unfold expireIfNeeded
  split
  · rename_i expired
    intro other
    by_cases same : other = key
    · subst same
      exact .inr ⟨expired, db.dict_dbDelete_self _, db.expires_dbDelete_self _⟩
    · exact .inl ⟨db.dict_dbDelete_of_ne same, db.expires_dbDelete_of_ne same⟩
  · exact .refl moment db

theorem lookupKeyWrite_ok (db : ObjectDb V) (moment : Moment) (key : Sds)
    : ∃ next,
        db.lookupKeyWrite moment key = (next, db.find moment key) ∧ OnlyExpired moment db next := by
  refine ⟨db.expireIfNeeded moment key, ?_, expireIfNeeded_only db moment key⟩
  rw [lookupKeyWrite, expireIfNeeded, ObjectDb.find]
  split
  · rw [dict_dbDelete_self]
  · rfl

theorem dict_lookupKey (db : ObjectDb V) (now : Int) (key : Sds)
    : (db.lookupKey now key).dict key = db.find (onMaster now) key := by
  obtain ⟨_, looked, -⟩ := lookupKeyWrite_ok db (onMaster now) key
  exact congrArg Prod.snd looked

end Expired

-- One key

def SameElsewhere (key : Sds) (db next : ObjectDb V) : Prop :=
  ∀ other ≠ key, next.dict other = db.dict other ∧ next.expires other = db.expires other

section OneKey

variable {db} {moment : Moment} {key : Sds} {mid next : ObjectDb V}

theorem SameElsewhere.refl (key : Sds) (db : ObjectDb V) : SameElsewhere key db db :=
  fun _ _ => ⟨rfl, rfl⟩

theorem SameElsewhere.trans (first : SameElsewhere key db mid) (second : SameElsewhere key mid next)
    : SameElsewhere key db next := by
  intro other different
  obtain ⟨dict, expires⟩ := first other different
  obtain ⟨dict', expires'⟩ := second other different
  exact ⟨dict'.trans dict, expires'.trans expires⟩

theorem sameElsewhere_store (db : ObjectDb V) (key : Sds) (val : V)
    : SameElsewhere key db (db.store key val) :=
  fun _ different => ⟨db.dict_store_of_ne val different, rfl⟩

theorem sameElsewhere_dbDelete (db : ObjectDb V) (key : Sds)
    : SameElsewhere key db (db.dbDelete key) :=
  fun _ different => ⟨db.dict_dbDelete_of_ne different, db.expires_dbDelete_of_ne different⟩

theorem not_mustExpire_of_missing (missing : db.dict key = none)
    : db.mustExpire moment key = false := by
  simp [mustExpire, isExpired, db.expires_in_dict key missing]

theorem find_store (alive : db.mustExpire moment key = false) (val : V)
    : (db.store key val).find moment key = some val := by
  have same : (db.store key val).mustExpire moment key = false := alive
  rw [ObjectDb.find, same, if_neg Bool.false_ne_true, store_dict_self]

theorem find_missing (missing : db.dict key = none) : db.find moment key = none := by
  rw [ObjectDb.find, missing, ite_self]

theorem lookupKeyWrite_found {val : V} (found : db.find moment key = some val)
    : db.lookupKeyWrite moment key = (db, some val) ∧ db.dict key = some val
      ∧ db.mustExpire moment key = false := by
  rw [ObjectDb.find] at found
  cases expired : db.mustExpire moment key with
  | true =>
      rw [expired, if_pos rfl] at found
      cases found
  | false =>
      rw [expired, if_neg Bool.false_ne_true] at found
      refine ⟨?_, found, rfl⟩
      rw [lookupKeyWrite, expireIfNeeded, expired, if_neg Bool.false_ne_true, found]

theorem lookupKeyWrite_missing (missing : db.find moment key = none)
    : ∃ next, db.lookupKeyWrite moment key = (next, none) ∧ next.dict key = none
        ∧ SameElsewhere key db next := by
  obtain ⟨next, looked, _⟩ := lookupKeyWrite_ok db moment key
  rw [missing] at looked
  have result : db.expireIfNeeded moment key = next := congrArg Prod.fst looked
  have absent : (db.expireIfNeeded moment key).dict key = none := congrArg Prod.snd looked
  subst result
  refine ⟨_, looked, absent, ?_⟩
  rw [expireIfNeeded]
  split
  · exact sameElsewhere_dbDelete db key
  · exact .refl key db

end OneKey

end ObjectDb

end Redis.Keyspace
