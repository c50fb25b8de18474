import Redis.Hashes.Updates

/-! The hash commands as commands on a finite map of fields to values. A key that is not there is
the empty map.
-/

namespace Redis.Hashes

open Redis.Library
open Redis.Keyspace (Sds ObjectDb FitsLongLong getLongLongFromString wrongType)
open Redis.Keyspace.ObjectDb
open Redis.Rdb (HashObject)
open Redis.SideIndexes (Moment)
open Redis.Strings (getLongLongFromSds)

-- The finite map

abbrev FieldMap := Finmap fun _ : Sds => Sds

def insertAll (m : FieldMap) : List Sds → FieldMap
  | field :: value :: rest => insertAll (m.insert field value) rest
  | _ => m

def eraseAll (m : FieldMap) (fields : List Sds)
    : FieldMap := fields.foldl (fun m field => m.erase field) m

/-- The number that a field holds, 0 when it is not there. -/
def HoldsNumber (reads : Sds → Int → Prop) (m : FieldMap) (field : Sds) (d : Int) : Prop :=
  (m.lookup field).elim (d = 0) fun old => reads old d

/-- The sum of a field and an increment, in 64 bits. -/
def Sums (reads : Sds → Int → Prop) (m : FieldMap) (field increment : Sds) (sum : Int) : Prop :=
  ∃ n d, reads increment n ∧ HoldsNumber reads m field d ∧ sum = d + n ∧ FitsLongLong sum

def RepliesPairs (m : FieldMap) (flags : HashFlags) (reply : HashReply) : Prop :=
  ∃ pairs, Lists pairs m
    ∧ reply = .multiBulk (pairs.flatMap flags.reply).length (pairs.flatMap flags.reply)

/-- What a command replies and makes of a map. `reads` says which texts are integers. -/
def Outcome (reads : Sds → Int → Prop) (m : FieldMap) : Command → HashReply → FieldMap → Prop
  | .hset _ field value, reply, next =>
      reply = .integer (if field ∈ m then 0 else 1) ∧ next = m.insert field value
  | .hsetnx _ field value, reply, next =>
      if field ∈ m then reply = .integer 0 ∧ next = m
      else reply = .integer 1 ∧ next = m.insert field value
  | .hmset _ first second rest, reply, next =>
      if rest.length % 2 = 1 then (∃ text, reply = .error text) ∧ next = m
      else reply = .ok ∧ next = insertAll m (first :: second :: rest)
  | .hincrby _ field increment, reply, next =>
      (∃ sum, Sums reads m field increment sum ∧ reply = .integer sum
        ∧ next = m.insert field (decimalText sum))
      ∨ ((∀ sum, ¬ Sums reads m field increment sum) ∧ (∃ text, reply = .error text) ∧ next = m)
  | .hget _ field, reply, next =>
      reply = (m.lookup field).elim .nullBulk .bulk ∧ next = m
  | .hmget _ fields, reply, next =>
      reply = .multiBulk fields.length (fields.map fun field => m.lookup field) ∧ next = m
  | .hdel _ fields, reply, next =>
      reply = .integer ((m.keys.card : Int) - (eraseAll m fields).keys.card)
        ∧ next = eraseAll m fields
  | .hlen _, reply, next => reply = .integer m.keys.card ∧ next = m
  | .hexists _ field, reply, next => reply = .integer (if field ∈ m then 1 else 0) ∧ next = m
  | .hkeys _, reply, next => RepliesPairs m ⟨true, false⟩ reply ∧ next = m
  | .hvals _, reply, next => RepliesPairs m ⟨false, true⟩ reply ∧ next = m
  | .hgetall _, reply, next => RepliesPairs m ⟨true, true⟩ reply ∧ next = m

def Command.key : Command → Sds
  | .hset key _ _ | .hsetnx key _ _ | .hmset key _ _ _ | .hincrby key _ _ | .hget key _
  | .hmget key _ | .hdel key _ | .hlen key | .hexists key _ | .hkeys key | .hvals key
  | .hgetall key => key

/-- The texts that `getLongLongFromObject` takes for integers. -/
def accepts (text : Sds) (v : Int) : Prop := getLongLongFromSds text = some v

-- Room

/-- Fields and values by turns can be set one after the other. -/
def SetsFit (limit : Nat) : Layout → List (Sds × Sds) → List Sds → Prop
  | layout, pairs, field :: value :: rest =>
      SetFits layout pairs field value
      ∧ SetsFit limit (setLayout limit layout pairs field value) (setPair pairs field value) rest
  | _, _, _ => True

/-- Fields can be deleted one after the other, until none is left. -/
def ErasesFit : Layout → List (Sds × Sds) → List Sds → Prop
  | layout, pairs, field :: rest =>
      EraseFits layout pairs field
      ∧ (erasePair pairs field ≠ [] →
        ErasesFit (layout.map fun nodes => eraseNodes nodes pairs field)
          (erasePair pairs field) rest)
  | _, _, [] => True

/-- The layout after `hashTypeTryConversion`. -/
def shortLayout (env : Env) (args : List Sds) (layout : Layout) : Layout :=
  if tooLong env.maxZiplistValue args then none else layout

/-- A command on a hash stays within the sizes of 32 bits. -/
def CommandFits (env : Env) (layout : Layout) (pairs : List (Sds × Sds)) : Command → Prop
  | .hset _ field value => SetFits (shortLayout env [field, value] layout) pairs field value
  | .hsetnx _ field value =>
      FieldFits (shortLayout env [field, value] layout) field
      ∧ (field ∉ pairs.map Prod.fst →
        SetFits (shortLayout env [field, value] layout) pairs field value)
  | .hmset _ first second rest =>
      SetsFit env.maxZiplistEntries (shortLayout env (first :: second :: rest) layout) pairs
        (first :: second :: rest)
  | .hincrby _ field increment =>
      FieldFits layout field
      ∧ ∀ n d, accepts increment n → (∀ old, (field, old) ∈ pairs → accepts old d) →
        (field ∉ pairs.map Prod.fst → d = 0) → FitsLongLong (d + n) →
        SetFits layout pairs field (decimalText (d + n))
  | .hget _ field | .hexists _ field => FieldFits layout field
  | .hmget _ fields => ∀ field ∈ fields, FieldFits layout field
  | .hdel _ fields => ErasesFit layout pairs fields
  | .hlen _ => True
  | .hkeys _ | .hvals _ => pairs.length < 2 ^ 31
  | .hgetall _ => 2 * pairs.length < 2 ^ 31

def Command.creates : Command → Bool
  | .hset .. | .hsetnx .. | .hmset .. | .hincrby .. => true
  | _ => false

variable {W : Type}

/-- A command on a database stays within the sizes of 32 bits. -/
def Fits (env : Env) (moment : Moment) (db : ObjectDb (Robj W)) (command : Command) : Prop :=
  match db.find moment command.key with
  | none => command.creates → CommandFits env (some []) [] command
  | some (.hash o) => ∀ layout pairs, Holds o layout pairs → CommandFits env layout pairs command
  | some (.other _) => True

-- Keys

/-- What a lookup of a key finds stands for a map, a hash for one with fields. -/
inductive Contains (db : ObjectDb (Robj W)) (moment : Moment) (key : Sds) : FieldMap → Prop
  | missing (missing : db.find moment key = none) : Contains db moment key ∅
  | hash {o : HashObject} {m : FieldMap} (found : db.find moment key = some (.hash o))
    (denotes : Denotes o m) (some : m ≠ ∅)
    : Contains db moment key m

/-- A hash at the key is sound and has fields. -/
def SoundAt (db : ObjectDb (Robj W)) (key : Sds) : Prop :=
  ∀ o, db.dict key = some (.hash o) → ∃ m, Denotes o m ∧ m ≠ ∅

/-- What a command leaves of the database and replies. -/
structure Answered (reads : Sds → Int → Prop) (moment : Moment) (db : ObjectDb (Robj W))
    (command : Command) (m : FieldMap) (reply : HashReply) (next : ObjectDb (Robj W))
    : Prop where
  outcome : ∃ m', Outcome reads m command reply m' ∧ Contains next moment command.key m'
  sound : SoundAt next command.key
  elsewhere : SameElsewhere command.key db next
  errors : ∀ text, reply = .error text → next = db

section Keys

variable {reads : Sds → Int → Prop} {moment : Moment} {db base : ObjectDb (Robj W)} {key : Sds}
  {command : Command} {m m' : FieldMap} {o : HashObject} {reply : HashReply}

theorem stored (alive : base.mustExpire moment key = false) (denotes : Denotes o m) (some : m ≠ ∅)
    : Contains (base.store key (.hash o)) moment key m
      ∧ SoundAt (base.store key (.hash o)) key := by
  refine ⟨.hash (find_store alive _) denotes some, fun other there => ?_⟩
  rw [store_dict_self] at there
  cases there
  exact ⟨m, denotes, some⟩

theorem answered_stored (alive : base.mustExpire moment command.key = false)
    (elsewhere : SameElsewhere command.key db base) (outcome : Outcome reads m command reply m')
    (denotes : Denotes o m') (some : m' ≠ ∅) (noError : ∀ text, reply ≠ .error text)
    : Answered reads moment db command m reply (base.store command.key (.hash o)) := by
  obtain ⟨contains, sound⟩ := stored alive denotes some
  exact ⟨⟨m', outcome, contains⟩, sound, elsewhere.trans (sameElsewhere_store _ _ _),
    fun text error => absurd error (noError text)⟩

theorem answered_same (sound : SoundAt db command.key) (contains : Contains db moment command.key m)
    (outcome : Outcome reads m command reply m)
    : Answered reads moment db command m reply db :=
  ⟨⟨m, outcome, contains⟩, sound, .refl _ _, fun _ _ => rfl⟩

theorem answered_missing (missing : base.dict command.key = none)
    (elsewhere : SameElsewhere command.key db base) (outcome : Outcome reads m command reply ∅)
    (noError : ∀ text, reply ≠ .error text)
    : Answered reads moment db command m reply base := by
  refine ⟨⟨∅, outcome, .missing (find_missing missing)⟩, fun o there => ?_, elsewhere,
    fun text error => absurd error (noError text)⟩
  rw [missing] at there
  cases there

/-- The hash that a command with `hashTypeLookupWriteOrCreate` works on. -/
structure Opened (moment : Moment) (db : ObjectDb (Robj W)) (key : Sds) (base : ObjectDb (Robj W))
    (o : HashObject)
    : Prop where
  looked : hashTypeLookupWriteOrCreate moment db key = .ok (base, some o)
  alive : base.mustExpire moment key = false
  elsewhere : SameElsewhere key db base

theorem opened_missing (missing : db.find moment key = none)
    : ∃ base, Opened moment db key base createHashObject := by
  obtain ⟨next, looked, absent, elsewhere⟩ := lookupKeyWrite_missing missing
  have alive : next.mustExpire moment key = false := not_mustExpire_of_missing absent
  refine ⟨next.store key (.hash createHashObject), ?_, alive,
    elsewhere.trans (sameElsewhere_store _ _ _)⟩
  rw [hashTypeLookupWriteOrCreate, looked]
  simp only [dbAdd, absent, Option.isSome_none, Bool.false_eq_true, if_false]
  rfl

theorem opened_found (found : db.find moment key = some (.hash o))
    : Opened moment db key db o := by
  obtain ⟨looked, _, alive⟩ := lookupKeyWrite_found found
  exact ⟨by rw [hashTypeLookupWriteOrCreate, looked], alive, .refl _ _⟩

theorem opened_of_contains {env : Env} (contains : Contains db moment key m)
    (at_key : command.key = key) (fits : Fits env moment db command)
    (creates : command.creates = true)
    : ∃ base o layout pairs,
        Opened moment db key base o ∧ Holds o layout pairs ∧ Lists pairs m
        ∧ CommandFits env layout pairs command ∧ (m ≠ ∅ → base = db) := by
  subst at_key
  cases contains with
  | missing missing =>
      obtain ⟨base, opened⟩ := opened_missing missing
      rw [Fits, missing] at fits
      exact ⟨base, _, _, _, opened, createHashObject_holds, lists_nil, fits creates,
        fun some => absurd rfl some⟩
  | hash found denotes some =>
      obtain ⟨layout, pairs, holds, lists⟩ := denotes
      rw [Fits, found] at fits
      exact ⟨db, _, layout, pairs, opened_found found, holds, lists, fits layout pairs holds,
        fun _ => rfl⟩

theorem insert_ne_empty (m : FieldMap) (field value : Sds) : m.insert field value ≠ ∅ := by
  intro empty
  have found := Finmap.lookup_insert m (a := field) (b := value)
  rw [empty, Finmap.lookup_empty] at found
  cases found

end Keys

section Setting

variable {reads : Sds → Int → Prop} {env : Env} {moment : Moment} {db : ObjectDb (Robj W)}
  {key field value increment : Sds} {m : FieldMap} {o : HashObject} {layout : Layout}
  {pairs : List (Sds × Sds)}

theorem encodeAndSet_ok (env : Env) (holds : Holds o layout pairs) (lists : Lists pairs m)
    (fits : SetFits layout pairs field value)
    : ∃ next, encodeAndSet env o field value = .ok (decide (field ∈ m), next)
        ∧ Holds next (setLayout env.maxZiplistEntries layout pairs field value)
            (setPair pairs field value) := by
  have set := @hashTypeSet_ok _ _ _ _ env.fresh env.maxZiplistEntries holds lists
    (hashTypeTryObjectEncoding o (.sds field)) (hashTypeTryObjectEncoding o (.sds value))
    (by rw [text_hashTypeTryObjectEncoding, text_hashTypeTryObjectEncoding]; exact fits)
  rw [text_hashTypeTryObjectEncoding, text_hashTypeTryObjectEncoding] at set
  exact set

theorem hsetCommand_ok (contains : Contains db moment key m)
    (fits : Fits env moment db (.hset key field value))
    : ∃ reply next, hsetCommand env moment db key field value = .ok (reply, next)
        ∧ Answered reads moment db (.hset key field value) m reply next := by
  obtain ⟨base, o, layout, pairs, opened, holds, lists, fits, -⟩ :=
    opened_of_contains contains rfl fits rfl
  obtain ⟨short, converted, holds'⟩ :=
    hashTypeTryConversion_ok holds lists env.maxZiplistValue [field, value]
  obtain ⟨next, set, held⟩ := encodeAndSet_ok env holds' lists fits
  refine ⟨.integer (if field ∈ m then 0 else 1), base.store key (.hash next), ?_, ?_⟩
  · rw [hsetCommand, opened.looked, ok_andThen]
    dsimp only
    rw [converted, ok_andThen, set]
    simp
  · exact answered_stored opened.alive opened.elsewhere ⟨rfl, rfl⟩
      ⟨_, _, held, lists.set field value⟩ (insert_ne_empty m field value) nofun

theorem hsetnxCommand_ok (contains : Contains db moment key m)
    (fits : Fits env moment db (.hsetnx key field value))
    : ∃ reply next, hsetnxCommand env moment db key field value = .ok (reply, next)
        ∧ Answered reads moment db (.hsetnx key field value) m reply next := by
  obtain ⟨base, o, layout, pairs, opened, holds, lists, ⟨short, fits⟩, -⟩ :=
    opened_of_contains contains rfl fits rfl
  obtain ⟨conv, converted, holds'⟩ :=
    hashTypeTryConversion_ok holds lists env.maxZiplistValue [field, value]
  have present : hashTypeExists conv (.sds field) = .ok (decide (field ∈ m)) :=
    hashTypeExists_ok holds' lists short
  by_cases member : field ∈ m
  · refine ⟨.integer 0, base.store key (.hash conv), ?_, ?_⟩
    · rw [hsetnxCommand, opened.looked, ok_andThen]
      dsimp only
      rw [converted, ok_andThen, present, ok_andThen, if_pos (decide_eq_true member)]
      rfl
    · have nonempty : m ≠ ∅ := by
        rintro rfl
        exact Finmap.notMem_empty member
      refine answered_stored opened.alive opened.elsewhere ?_ ⟨_, _, holds', lists⟩ nonempty nofun
      exact (if_pos member).mpr ⟨rfl, rfl⟩
  · obtain ⟨next, set, held⟩ :=
      encodeAndSet_ok env holds' lists (fits (mt lists.mem_iff.mpr member))
    refine ⟨.integer 1, base.store key (.hash next), ?_, ?_⟩
    · rw [hsetnxCommand, opened.looked, ok_andThen]
      dsimp only
      rw [converted, ok_andThen, present, ok_andThen, if_neg (by simpa using member), set]
      rfl
    · refine answered_stored opened.alive opened.elsewhere ?_ ⟨_, _, held, lists.set field value⟩
        (insert_ne_empty m field value) nofun
      exact (if_neg member).mpr ⟨rfl, rfl⟩

theorem hmsetLoop_ok (env : Env) (args : List Sds) (even : args.length % 2 = 0)
    (holds : Holds o layout pairs) (lists : Lists pairs m)
    (fits : SetsFit env.maxZiplistEntries layout pairs args)
    : ∃ next, hmsetLoop env o args = .ok next ∧ Denotes next (insertAll m args) := by
  induction args using List.twoStepInduction generalizing o layout pairs m with
  | nil => exact ⟨o, rfl, layout, pairs, holds, lists⟩
  | singleton field => exact absurd even (by simp)
  | cons_cons field value rest ih _ =>
      obtain ⟨here, behind⟩ := fits
      obtain ⟨next, set, held⟩ := encodeAndSet_ok env holds lists here
      have even' : rest.length % 2 = 0 := by
        simp only [List.length_cons] at even
        omega
      obtain ⟨final, ran, denotes⟩ := ih even' held (lists.set field value) behind
      refine ⟨final, ?_, denotes⟩
      rw [hmsetLoop, set, ok_andThen]
      exact ran

theorem insertAll_ne_empty (m : FieldMap) (first second : Sds) (rest : List Sds)
    : insertAll m (first :: second :: rest) ≠ ∅ := by
  induction rest using List.twoStepInduction generalizing m first second with
  | nil => exact insert_ne_empty m first second
  | singleton field => exact insert_ne_empty m first second
  | cons_cons field value rest ih _ =>
      exact ih (m.insert first second) field value

theorem hmsetCommand_ok {first second : Sds} {rest : List Sds} (sound : SoundAt db key)
    (contains : Contains db moment key m)
    (fits : Fits env moment db (.hmset key first second rest))
    : ∃ reply next, hmsetCommand env moment db key (first :: second :: rest) = .ok (reply, next)
        ∧ Answered reads moment db (.hmset key first second rest) m reply next := by
  rw [hmsetCommand]
  by_cases odd : rest.length % 2 = 1
  · rw [if_pos (by simp only [List.length_cons]; omega)]
    exact ⟨_, _, rfl, answered_same sound contains ((if_pos odd).mpr ⟨⟨_, rfl⟩, rfl⟩)⟩
  · rw [if_neg (by simp only [List.length_cons]; omega)]
    obtain ⟨base, o, layout, pairs, opened, holds, lists, fits, -⟩ :=
      opened_of_contains contains rfl fits rfl
    obtain ⟨conv, converted, holds'⟩ :=
      hashTypeTryConversion_ok holds lists env.maxZiplistValue (first :: second :: rest)
    obtain ⟨next, set, denotes⟩ :=
      hmsetLoop_ok env (first :: second :: rest) (by simp only [List.length_cons]; omega) holds'
        lists fits
    refine ⟨.ok, base.store key (.hash next), ?_, ?_⟩
    · rw [opened.looked, ok_andThen]
      dsimp only
      rw [converted, ok_andThen, set]
      rfl
    · exact answered_stored opened.alive opened.elsewhere ((if_neg odd).mpr ⟨rfl, rfl⟩) denotes
        (insertAll_ne_empty m first second rest) nofun

-- HINCRBY

theorem getLongLongFromString_text (o : StringObject)
    : getLongLongFromString o = getLongLongFromSds o.text := by
  cases o with
  | sds text => exact (Strings.getLongLongFromSds_eq text).symm
  | int n =>
      rw [StringObject.text, Strings.getLongLongFromSds_eq,
        Keyspace.getLongLongFromObject_decimalText n.le_toInt n.toInt_lt]
      rfl

theorem oldValue_iff {current : Option StringObject}
    (same : current.map StringObject.text = m.lookup field)
    (d : Int)
    : oldValue current = some d ↔ HoldsNumber accepts m field d := by
  rw [HoldsNumber, ← same]
  cases current with
  | none =>
      rw [oldValue, Option.some.injEq]
      exact eq_comm
  | some o =>
      rw [oldValue, getLongLongFromString_text]
      rfl

theorem checkedSum_eq {d n : Int} (old : FitsLongLong d) (incr : FitsLongLong n)
    : (FitsLongLong (d + n) ∧ checkedSum d n = some (d + n))
      ∨ (¬ FitsLongLong (d + n) ∧ checkedSum d n = none) := by
  unfold FitsLongLong at *
  unfold checkedSum
  split
  · right
    exact ⟨by omega, rfl⟩
  · left
    exact ⟨by omega, rfl⟩

theorem accepts_fits {text : Sds} {v : Int} (read : accepts text v) : FitsLongLong v := by
  rw [accepts, Strings.getLongLongFromSds_eq] at read
  exact Keyspace.getLongLongFromObject_fits read

theorem holdsNumber_cases {reads : Sds → Int → Prop} {d : Int} (holds : HoldsNumber reads m field d)
    : (m.lookup field = none ∧ d = 0) ∨ ∃ old, m.lookup field = some old ∧ reads old d := by
  rw [HoldsNumber] at holds
  cases found : m.lookup field with
  | none =>
      rw [found] at holds
      exact .inl ⟨rfl, holds⟩
  | some old =>
      rw [found] at holds
      exact .inr ⟨old, rfl, holds⟩

theorem ne_empty_of_lookup {value : Sds} (found : m.lookup field = some value) : m ≠ ∅ := by
  rintro rfl
  rw [Finmap.lookup_empty] at found
  cases found

/-- `HINCRBY` is its command on the map. -/
theorem hincrbyCommand_ok (sound : SoundAt db key) (contains : Contains db moment key m)
    (fits : Fits env moment db (.hincrby key field increment))
    : ∃ reply next, hincrbyCommand env moment db key field increment = .ok (reply, next)
        ∧ Answered accepts moment db (.hincrby key field increment) m reply next := by
  rw [hincrbyCommand]
  cases read : getLongLongFromSds increment with
  | none =>
      refine ⟨_, _, rfl, answered_same sound contains (.inr ⟨?_, ⟨_, rfl⟩, rfl⟩)⟩
      rintro sum ⟨n, d, accepted, _⟩
      rw [accepts, read] at accepted
      cases accepted
  | some n =>
      obtain ⟨base, o, layout, pairs, opened, holds, lists, ⟨short, fits⟩, same⟩ :=
        opened_of_contains contains rfl fits rfl
      obtain ⟨current, got, texts⟩
          : ∃ current, hashTypeGetObject o (.sds field) = .ok current
              ∧ current.map StringObject.text = m.lookup field :=
        hashTypeGetObject_ok holds lists short
      -- An increment and a number of the field are these ones.
      have unique {sum : Int} (sums : Sums accepts m field increment sum)
          : ∃ d, oldValue current = some d ∧ sum = d + n ∧ FitsLongLong (d + n) := by
        obtain ⟨n', d, accepted, holdsOld, rfl, fitsSum⟩ := sums
        rw [accepts, read, Option.some.injEq] at accepted
        subst accepted
        exact ⟨d, (oldValue_iff texts d).mpr holdsOld, rfl, fitsSum⟩
      dsimp only
      rw [opened.looked, ok_andThen]
      dsimp only
      rw [got, ok_andThen]
      cases old : oldValue current with
      | none =>
          have there : m ≠ ∅ := by
            cases current with
            | none => cases old
            | some o => exact ne_empty_of_lookup texts.symm
          rw [same there]
          refine ⟨_, _, rfl, answered_same sound contains (.inr ⟨?_, ⟨_, rfl⟩, rfl⟩)⟩
          intro sum sums
          obtain ⟨d, value, _⟩ := unique sums
          rw [old] at value
          cases value
      | some d =>
          have holdsOld := (oldValue_iff texts d).mp old
          have fitsOld : FitsLongLong d := by
            rcases holdsNumber_cases holdsOld with ⟨_, rfl⟩ | ⟨text, _, accepted⟩
            · exact ⟨by omega, by omega⟩
            · exact accepts_fits accepted
          rcases checkedSum_eq fitsOld (accepts_fits read) with ⟨fitsSum, checked⟩
            | ⟨large, checked⟩
          · have room : SetFits layout pairs field (decimalText (d + n)) := by
              refine fits n d read (fun text inside => ?_) (fun absent => ?_) fitsSum
              · rcases holdsNumber_cases holdsOld with ⟨absent, _⟩ | ⟨other, found, accepted⟩
                · rw [(lists.entry _ _).mpr inside] at absent
                  cases absent
                · rwa [lists.value_eq inside ((lists.entry _ _).mp found)]
              · rcases holdsNumber_cases holdsOld with ⟨_, zero⟩ | ⟨other, found, _⟩
                · exact zero
                · exact absurd (lists.mem_iff.mp (Finmap.mem_of_lookup_eq_some found)) absent
            have text : (createStringObjectFromLongLong (Int64.ofInt (d + n))).text
                = decimalText (d + n) := by
              rw [createStringObjectFromLongLong, StringObject.text,
                int64_toInt_ofInt fitsSum.1 fitsSum.2]
            have fieldText : (hashTypeTryObjectEncoding o (.sds field)).text = field :=
              text_hashTypeTryObjectEncoding o (.sds field)
            obtain ⟨next, set, held⟩ :=
              @hashTypeSet_ok _ _ _ _ env.fresh env.maxZiplistEntries holds lists
                (hashTypeTryObjectEncoding o (.sds field))
                (createStringObjectFromLongLong (Int64.ofInt (d + n))) (by rwa [text, fieldText])
            rw [text, fieldText] at held
            refine ⟨.integer (d + n), base.store key (.hash next), ?_, ?_⟩
            · dsimp only
              rw [checked]
              dsimp only
              rw [set]
              rfl
            · exact answered_stored opened.alive opened.elsewhere
                (.inl ⟨d + n, ⟨n, d, read, holdsOld, rfl, fitsSum⟩, rfl, rfl⟩)
                ⟨_, _, held, lists.set field _⟩ (insert_ne_empty m field _)
                  (fun text error => by cases error)
          · have there : m ≠ ∅ := by
              rcases holdsNumber_cases holdsOld with ⟨_, rfl⟩ | ⟨text, found, _⟩
              · exact absurd (by rw [Int.zero_add]; exact accepts_fits read) large
              · exact ne_empty_of_lookup found
            rw [same there]
            dsimp only
            rw [checked]
            refine ⟨_, _, rfl, answered_same sound contains (.inr ⟨?_, ⟨_, rfl⟩, rfl⟩)⟩
            intro sum sums
            obtain ⟨d', value, _, fitsSum⟩ := unique sums
            rw [old, Option.some.injEq] at value
            exact large (by rwa [value])

end Setting

section Reading

variable {reads : Sds → Int → Prop} {env : Env} {moment : Moment} {db : ObjectDb (Robj W)}
  {key field : Sds} {fields : List Sds} {m : FieldMap} {o : HashObject} {layout : Layout}
  {pairs : List (Sds × Sds)} {command : Command}

theorem looked_up (contains : Contains db moment key m) (at_key : command.key = key)
    (fits : Fits env moment db command)
    : (m = ∅ ∧ ∃ next, db.lookupKeyWrite moment key = (next, none) ∧ next.dict key = none
        ∧ SameElsewhere key db next)
      ∨ (m ≠ ∅ ∧ ∃ o layout pairs,
          db.lookupKeyWrite moment key = (db, some (.hash o))
          ∧ db.mustExpire moment key = false ∧ Holds o layout pairs
          ∧ Lists pairs m ∧ CommandFits env layout pairs command) := by
  subst at_key
  cases contains with
  | missing missing => exact .inl ⟨rfl, lookupKeyWrite_missing missing⟩
  | hash found denotes some =>
      obtain ⟨layout, pairs, holds, lists⟩ := denotes
      obtain ⟨looked, _, alive⟩ := lookupKeyWrite_found found
      rw [Fits, found] at fits
      exact .inr ⟨some, _, layout, pairs, looked, alive, holds, lists, fits layout pairs holds⟩

theorem hgetCommand_ok (sound : SoundAt db key) (contains : Contains db moment key m)
    (fits : Fits env moment db (.hget key field))
    : ∃ reply next, hgetCommand moment db key field = .ok (reply, next)
        ∧ Answered reads moment db (.hget key field) m reply next := by
  rcases looked_up contains rfl fits with
    ⟨rfl, next, looked, absent, elsewhere⟩ | ⟨_, o, layout, pairs, looked, _, holds, lists, short⟩
  · refine ⟨.nullBulk, next, by rw [hgetCommand, looked], ?_⟩
    exact answered_missing absent elsewhere ⟨by rw [Finmap.lookup_empty]; rfl, rfl⟩ nofun
  · have sent := addHashFieldToReply_ok holds lists short
    refine ⟨(m.lookup field).elim .nullBulk .bulk, db, ?_, answered_same sound contains ⟨rfl, rfl⟩⟩
    rw [hgetCommand, looked]
    dsimp only
    rw [sent, ok_andThen]
    cases m.lookup field with
    | none => rfl
    | some value => rfl

theorem mapM_fields_ok (holds : Holds o layout pairs) (lists : Lists pairs m) (fields : List Sds)
    (short : ∀ field ∈ fields, FieldFits layout field)
    : fields.mapM (addHashFieldToReply (some o))
      = .ok (fields.map fun field => m.lookup field) := by
  induction fields with
  | nil => rfl
  | cons field rest ih =>
      rw [List.mapM_cons, addHashFieldToReply_ok holds lists (short field List.mem_cons_self),
        ok_andThen, ih fun other member => short other (List.mem_cons_of_mem _ member)]
      rfl

theorem hmgetCommand_ok (sound : SoundAt db key) (contains : Contains db moment key m)
    (fits : Fits env moment db (.hmget key fields))
    : ∃ reply next, hmgetCommand moment db key fields = .ok (reply, next)
        ∧ Answered reads moment db (.hmget key fields) m reply next := by
  rcases looked_up contains rfl fits with
    ⟨rfl, next, looked, absent, elsewhere⟩ | ⟨_, o, layout, pairs, looked, _, holds, lists, short⟩
  · refine ⟨_, next, by rw [hmgetCommand, looked], ?_⟩
    exact answered_missing absent elsewhere ⟨by simp [Finmap.lookup_empty], rfl⟩ nofun
  · refine ⟨_, db, ?_, answered_same sound contains ⟨rfl, rfl⟩⟩
    rw [hmgetCommand, looked]
    dsimp only
    rw [mapM_fields_ok holds lists fields short]
    rfl

theorem hexistsCommand_ok (sound : SoundAt db key) (contains : Contains db moment key m)
    (fits : Fits env moment db (.hexists key field))
    : ∃ reply next, hexistsCommand moment db key field = .ok (reply, next)
        ∧ Answered reads moment db (.hexists key field) m reply next := by
  rcases looked_up contains rfl fits with
    ⟨rfl, next, looked, absent, elsewhere⟩ | ⟨_, o, layout, pairs, looked, _, holds, lists, short⟩
  · refine ⟨_, next, by rw [hexistsCommand, looked], ?_⟩
    exact answered_missing absent elsewhere ⟨by rw [if_neg Finmap.notMem_empty], rfl⟩ nofun
  · have present : hashTypeExists o (.sds field) = .ok (decide (field ∈ m)) :=
      hashTypeExists_ok holds lists short
    refine ⟨.integer (if field ∈ m then 1 else 0), db, ?_,
      answered_same sound contains ⟨rfl, rfl⟩⟩
    rw [hexistsCommand, looked]
    dsimp only
    rw [present]
    simp

theorem hlenCommand_ok (contains : Contains db moment key m)
    (fits : Fits env moment db (.hlen key))
    : ∃ reply next, hlenCommand moment db key = .ok (reply, next)
        ∧ Answered reads moment db (.hlen key) m reply next := by
  rcases looked_up contains rfl fits with
    ⟨rfl, next, looked, absent, elsewhere⟩
      | ⟨some, o, layout, pairs, looked, alive, holds, lists, -⟩
  · refine ⟨_, next, by rw [hlenCommand, looked], ?_⟩
    exact answered_missing absent elsewhere ⟨rfl, rfl⟩ nofun
  · obtain ⟨next, counted, held⟩ := hashTypeLength_ok holds
    refine ⟨_, _, ?_, answered_stored alive (.refl _ _) ⟨rfl, rfl⟩ ⟨_, _, held, lists⟩ some nofun⟩
    rw [hlenCommand, looked]
    dsimp only
    rw [counted, ok_andThen, lists.card]
    rfl

theorem length_flatMap_reply (flags : HashFlags) (met : List (Sds × Sds))
    : (met.flatMap flags.reply).length = met.length * flags.multiplier := by
  have each : ∀ pair, (flags.reply pair).length = flags.multiplier := by
    intro pair
    obtain ⟨keys, values⟩ := flags
    cases keys <;> cases values <;> rfl
  induction met with
  | nil => exact (Nat.zero_mul _).symm
  | cons pair rest ih =>
      rw [List.flatMap_cons, List.length_append, ih, each, List.length_cons, Nat.succ_mul,
        Nat.add_comm]

theorem genericHgetall_ok (flags : HashFlags) (at_key : command.key = key)
    (contains : Contains db moment key m) (fits : Fits env moment db command)
    (few : ∀ layout pairs, CommandFits env layout pairs command
      → pairs.length * flags.multiplier < 2 ^ 31)
    (outcome : ∀ reply, RepliesPairs m flags reply → Outcome reads m command reply m)
    : ∃ reply next, genericHgetallCommand env moment db key flags = .ok (reply, next)
        ∧ Answered reads moment db command m reply next := by
  rcases looked_up contains at_key fits with
    ⟨rfl, next, looked, absent, elsewhere⟩
      | ⟨some, o, layout, pairs, looked, alive, holds, lists, roomy⟩
  · subst at_key
    refine ⟨_, next, by rw [genericHgetallCommand, looked], ?_⟩
    exact answered_missing absent elsewhere (outcome _ ⟨[], lists_nil, rfl⟩) nofun
  · subst at_key
    obtain ⟨next, counted, held⟩ := hashTypeLength_ok holds
    obtain ⟨met, walked, listsMet⟩ := hashTypePairs_ok held lists env.order
    have count : (met.flatMap flags.reply).length = pairs.length * flags.multiplier := by
      rw [length_flatMap_reply, ← listsMet.card, lists.card]
    have small := few layout pairs roomy
    refine ⟨.multiBulk (met.flatMap flags.reply).length (met.flatMap flags.reply), _, ?_,
      answered_stored alive (.refl _ _) (outcome _ ⟨met, listsMet, rfl⟩)
        ⟨_, _, held, lists⟩ some nofun⟩
    rw [genericHgetallCommand, looked]
    dsimp only
    rw [counted, ok_andThen]
    dsimp only
    rw [walked, ok_andThen, count, ← Nat.cast_mul, int32_of_lt small]
    simp

end Reading

section Deleting

variable {reads : Sds → Int → Prop} {env : Env} {moment : Moment} {db : ObjectDb (Robj W)}
  {key : Sds} {fields : List Sds} {m : FieldMap} {o : HashObject} {layout : Layout}
  {pairs : List (Sds × Sds)}

theorem erase_of_not_mem {field : Sds} (absent : field ∉ m) : m.erase field = m := by
  refine Finmap.ext_lookup fun other => ?_
  by_cases same : other = field
  · subst same
    rw [Finmap.lookup_erase, Finmap.lookup_eq_none.mpr absent]
  · rw [Finmap.lookup_erase_ne same]

theorem eraseAll_empty (fields : List Sds) : eraseAll ∅ fields = ∅ := by
  induction fields with
  | nil => rfl
  | cons field rest ih =>
      have none : (∅ : FieldMap).erase field = ∅ := erase_of_not_mem Finmap.notMem_empty
      rw [eraseAll, List.foldl_cons, none]
      exact ih

theorem card_erase (m : FieldMap) (field : Sds)
    : ((m.erase field).keys.card : Int) = m.keys.card - (if field ∈ m then 1 else 0) := by
  by_cases member : field ∈ m
  · have inside : field ∈ m.keys := Finmap.mem_keys.mpr member
    have positive : 0 < m.keys.card := Finset.card_pos.mpr ⟨field, inside⟩
    rw [Finmap.keys_erase, Finset.card_erase_of_mem inside, if_pos member]
    omega
  · rw [erase_of_not_mem member, if_neg member, Int.sub_zero]

theorem hdelLoop_ok (fresh : Nat → UInt8) (fields : List Sds) (deleted : Nat)
    (holds : Holds o layout pairs) (lists : Lists pairs m) (some : m ≠ ∅)
    (fits : ErasesFit layout pairs fields)
    : ∃ count final,
        hdelLoop fresh deleted o fields = .ok (count, final)
        ∧ (count : Int) = deleted + (m.keys.card - (eraseAll m fields).keys.card)
        ∧ ((final = none ∧ eraseAll m fields = ∅)
          ∨ ∃ o', final = Option.some o' ∧ Denotes o' (eraseAll m fields)
            ∧ eraseAll m fields ≠ ∅) := by
  induction fields generalizing o layout pairs m deleted with
  | nil =>
      refine ⟨deleted, _, rfl, ?_, .inr ⟨o, rfl, ⟨_, _, holds, lists⟩, some⟩⟩
      rw [eraseAll, List.foldl_nil]
      omega
  | cons field rest ih =>
      obtain ⟨here, behind⟩ := fits
      obtain ⟨mid, ran, held⟩ := @hashTypeDelete_ok _ _ _ _ fresh holds lists (.sds field) here
      have listsNext := lists.erase field
      have card := card_erase m field
      have all : eraseAll m (field :: rest) = eraseAll (m.erase field) rest := rfl
      have answer : hashTypeDelete fresh o (.sds field) = .ok (decide (field ∈ m), mid) := ran
      rw [hdelLoop, answer, ok_andThen, all]
      by_cases member : field ∈ m
      · rw [if_pos member] at card
        obtain ⟨next, counted, held'⟩ := hashTypeLength_ok held
        simp only [member, decide_true, if_true, counted, ok_andThen]
        by_cases empty : erasePair pairs field = []
        · have none : m.erase field = ∅ := listsNext.eq_empty_iff.mpr empty
          have zero : (m.erase field).keys.card = 0 := by rw [none]; rfl
          refine ⟨deleted + 1, Option.none, ?_, ?_, .inl ⟨rfl, ?_⟩⟩
          · rw [StringObject.text, empty]
            rfl
          · rw [none, eraseAll_empty, Finmap.keys_empty, Finset.card_empty]
            push_cast
            omega
          · rw [none, eraseAll_empty]
        · have nonempty : m.erase field ≠ ∅ := mt listsNext.eq_empty_iff.mp empty
          obtain ⟨count, final, done, counts, result⟩ :=
            ih (deleted + 1) held' listsNext nonempty (behind empty)
          refine ⟨count, final, ?_, ?_, result⟩
          · rw [if_neg (by simpa [StringObject.text] using empty), done]
          · push_cast at counts
            omega
      · have same := erase_of_not_mem member
        rw [same] at listsNext ⊢
        have nonempty : erasePair pairs field ≠ [] := mt listsNext.eq_empty_iff.mpr some
        simp only [member, decide_false, Bool.false_eq_true, if_false]
        exact ih deleted held listsNext some (behind nonempty)

theorem hdelCommand_ok (contains : Contains db moment key m)
    (fits : Fits env moment db (.hdel key fields))
    : ∃ reply next, hdelCommand env moment db key fields = .ok (reply, next)
        ∧ Answered reads moment db (.hdel key fields) m reply next := by
  rcases looked_up contains rfl fits with
    ⟨rfl, next, looked, absent, elsewhere⟩
      | ⟨some, o, layout, pairs, looked, alive, holds, lists, roomy⟩
  · refine ⟨_, next, by rw [hdelCommand, looked], ?_⟩
    refine answered_missing absent elsewhere ⟨?_, (eraseAll_empty fields).symm⟩ nofun
    rw [eraseAll_empty]
    rfl
  · obtain ⟨count, final, ran, counts, result⟩ :=
      hdelLoop_ok env.fresh fields 0 holds lists some roomy
    rw [hdelCommand, looked]
    dsimp only
    rw [ran, ok_andThen]
    have replied : HashReply.integer count
        = .integer ((m.keys.card : Int) - (eraseAll m fields).keys.card) := by
      rw [counts, Nat.cast_zero, Int.zero_add]
    rcases result with ⟨rfl, empty⟩ | ⟨o', rfl, denotes, nonempty⟩
    · refine ⟨_, _, rfl, answered_missing (dict_dbDelete_self db key)
        (sameElsewhere_dbDelete db key)
        ⟨replied, empty.symm⟩ nofun⟩
    · exact ⟨_, _, rfl, answered_stored alive (.refl _ _) ⟨replied, rfl⟩ denotes nonempty nofun⟩

end Deleting

end Redis.Hashes
