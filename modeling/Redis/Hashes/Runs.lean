import Redis.Hashes.Refinement

/-! Sequences of hash commands on a key, with anything in between that keeps the hash of the key as
it is or removes it.
-/

namespace Redis.Hashes

open Redis.Library
open Redis.Keyspace (Sds ObjectDb FitsLongLong wrongType)
open Redis.Keyspace.ObjectDb
open Redis.Rdb (HashObject)
open Redis.SideIndexes (Moment)
open Redis.Strings (getLongLongFromSds IntegerText AcceptsPrefix)

variable {W : Type} {reads : Sds → Int → Prop} {env : Env} {moment : Moment}
  {db next : ObjectDb (Robj W)} {key : Sds} {command : Command} {m : FieldMap} {reply : HashReply}

-- Which texts are integers

/-- The texts that are integers of 64 bits. -/
def integerOf (text : Sds) (v : Int) : Prop := IntegerText text v ∧ FitsLongLong v

/-- A text that is not empty and that is not read up to a NUL only. -/
def ReadsWhole (text : Sds) : Prop := text ≠ [] ∧ ¬ AcceptsPrefix text

theorem accepts_iff {text : Sds} (whole : ReadsWhole text) (v : Int)
    : accepts text v ↔ integerOf text v :=
  Strings.getLongLong_whole whole.1 whole.2 v

/-- The texts that `HINCRBY` reads are read whole: the increment and, when it is a number, the old
value of the field.
-/
def IntegersWhole (moment : Moment) (db : ObjectDb (Robj W)) : Command → Prop
  | .hincrby key field increment =>
      ReadsWhole increment
      ∧ ((∃ n, accepts increment n) → ∀ m, Contains db moment key m →
          ∀ old, m.lookup field = some old → ReadsWhole old)
  | _ => True

theorem sums_iff {field increment : Sds} (whole : ReadsWhole increment)
    (old : (∃ n, accepts increment n) → ∀ old, m.lookup field = some old → ReadsWhole old)
    (sum : Int)
    : Sums accepts m field increment sum ↔ Sums integerOf m field increment sum := by
  have held (n d : Int) (read : accepts increment n)
      : HoldsNumber accepts m field d ↔ HoldsNumber integerOf m field d := by
    unfold HoldsNumber
    cases found : m.lookup field with
    | none => rfl
    | some text => exact accepts_iff (old ⟨n, read⟩ text found) d
  constructor
  · rintro ⟨n, d, read, number, fits⟩
    exact ⟨n, d, (accepts_iff whole n).mp read, (held n d read).mp number, fits⟩
  · rintro ⟨n, d, integer, number, fits⟩
    have read := (accepts_iff whole n).mpr integer
    exact ⟨n, d, read, (held n d read).mpr number, fits⟩

theorem outcome_integers (whole : IntegersWhole moment db command)
    (contains : Contains db moment command.key m) {m' : FieldMap}
    (outcome : Outcome accepts m command reply m')
    : Outcome integerOf m command reply m' := by
  cases command with
  | hincrby key field increment =>
      have same := sums_iff whole.1 (fun read => whole.2 read m contains)
      rcases outcome with ⟨sum, sums, replied⟩ | ⟨none, replied⟩
      · exact .inl ⟨sum, (same sum).mp sums, replied⟩
      · exact .inr ⟨fun sum sums => none sum ((same sum).mpr sums), replied⟩
  | hset | hsetnx | hmset | hget | hmget | hdel | hlen | hexists | hkeys | hvals | hgetall =>
      exact outcome

-- One command

theorem runCommand_ok (sound : SoundAt db command.key) (contains : Contains db moment command.key m)
    (fits : Fits env moment db command)
    : ∃ reply next, runCommand env moment db command = .ok (reply, next)
        ∧ Answered accepts moment db command m reply next := by
  cases command with
  | hset key field value => exact hsetCommand_ok contains fits
  | hsetnx key field value => exact hsetnxCommand_ok contains fits
  | hmset key first second rest => exact hmsetCommand_ok sound contains fits
  | hincrby key field increment => exact hincrbyCommand_ok sound contains fits
  | hget key field => exact hgetCommand_ok sound contains fits
  | hmget key fields => exact hmgetCommand_ok sound contains fits
  | hdel key fields => exact hdelCommand_ok contains fits
  | hlen key => exact hlenCommand_ok contains fits
  | hexists key field => exact hexistsCommand_ok sound contains fits
  | hkeys key =>
      exact genericHgetall_ok ⟨true, false⟩ rfl contains fits
        (fun _ _ few => by
          rw [show HashFlags.multiplier ⟨true, false⟩ = 1 from rfl, Nat.mul_one]
          exact few)
        (fun _ sent => ⟨sent, rfl⟩)
  | hvals key =>
      exact genericHgetall_ok ⟨false, true⟩ rfl contains fits
        (fun _ _ few => by
          rw [show HashFlags.multiplier ⟨false, true⟩ = 1 from rfl, Nat.mul_one]
          exact few)
        (fun _ sent => ⟨sent, rfl⟩)
  | hgetall key =>
      exact genericHgetall_ok ⟨true, true⟩ rfl contains fits
        (fun _ _ few => by
          rw [show HashFlags.multiplier ⟨true, true⟩ = 2 from rfl, Nat.mul_comm]
          exact few)
        (fun _ sent => ⟨sent, rfl⟩)

theorem runCommand_refused {w : W} (found : db.find moment command.key = some (.other w))
    : ∃ text, runCommand env moment db command = .ok (.error text, db) := by
  have looked (key : Sds) (here : command.key = key)
      : db.lookupKeyWrite moment key = (db, some (.other w)) := by
    rw [← here]
    exact (lookupKeyWrite_found found).1
  cases command with
  | hset key field value =>
      refine ⟨wrongType, ?_⟩
      rw [runCommand, hsetCommand, hashTypeLookupWriteOrCreate, looked key rfl]
      rfl
  | hsetnx key field value =>
      refine ⟨wrongType, ?_⟩
      rw [runCommand, hsetnxCommand, hashTypeLookupWriteOrCreate, looked key rfl]
      rfl
  | hmset key first second rest =>
      rw [runCommand, hmsetCommand]
      split
      · exact ⟨_, rfl⟩
      · exact ⟨wrongType, by rw [hashTypeLookupWriteOrCreate, looked key rfl]; rfl⟩
  | hincrby key field increment =>
      rw [runCommand, hincrbyCommand]
      cases getLongLongFromSds increment with
      | none => exact ⟨_, rfl⟩
      | some n => exact ⟨wrongType, by rw [hashTypeLookupWriteOrCreate, looked key rfl]; rfl⟩
  | hget key field => exact ⟨wrongType, by rw [runCommand, hgetCommand, looked key rfl]⟩
  | hmget key fields => exact ⟨wrongType, by rw [runCommand, hmgetCommand, looked key rfl]⟩
  | hdel key fields => exact ⟨wrongType, by rw [runCommand, hdelCommand, looked key rfl]⟩
  | hlen key => exact ⟨wrongType, by rw [runCommand, hlenCommand, looked key rfl]⟩
  | hexists key field => exact ⟨wrongType, by rw [runCommand, hexistsCommand, looked key rfl]⟩
  | hkeys key =>
      exact ⟨wrongType, by rw [runCommand, hkeysCommand, genericHgetallCommand, looked key rfl]⟩
  | hvals key =>
      exact ⟨wrongType, by rw [runCommand, hvalsCommand, genericHgetallCommand, looked key rfl]⟩
  | hgetall key =>
      exact ⟨wrongType, by rw [runCommand, hgetallCommand, genericHgetallCommand, looked key rfl]⟩

/-- The sizes stay below the limits of 32 bits, and `HINCRBY` reads whole texts. -/
structure Meets (env : Env) (moment : Moment) (db : ObjectDb (Robj W)) (command : Command)
    : Prop where
  fits : Fits env moment db command
  integers : IntegersWhole moment db command

/-- A command replies and leaves what the commands on a map do, or is refused. -/
def AnsweredAt (env : Env) (moment : Moment) (db : ObjectDb (Robj W)) (command : Command) : Prop :=
  (∃ m, Contains db moment command.key m
    ∧ ∃ reply next, runCommand env moment db command = .ok (reply, next)
      ∧ Answered integerOf moment db command m reply next)
  ∨ ((∃ w, db.find moment command.key = some (.other w))
    ∧ ∃ text, runCommand env moment db command = .ok (.error text, db))

theorem answeredAt_of_sound (sound : SoundAt db command.key) (meets : Meets env moment db command)
    : AnsweredAt env moment db command := by
  have answered (m : FieldMap) (contains : Contains db moment command.key m)
      : AnsweredAt env moment db command := by
    obtain ⟨reply, next, ran, answered⟩ := runCommand_ok sound contains meets.fits
    obtain ⟨m', outcome, contained⟩ := answered.outcome
    have integers := outcome_integers meets.integers contains outcome
    exact .inl ⟨m, contains, reply, next, ran,
      { answered with outcome := ⟨m', integers, contained⟩ }⟩
  cases found : db.find moment command.key with
  | none => exact answered ∅ (.missing found)
  | some value =>
      cases value with
      | hash o =>
          obtain ⟨m, denotes, some⟩ := sound o (lookupKeyWrite_found found).2.1
          exact answered m (.hash found denotes some)
      | other w => exact .inr ⟨⟨w, found⟩, runCommand_refused found⟩

-- Runs

/-- The databases that hash commands on a key reach, from one without a hash there, while the limits
and the clock change, anything is done to the other keys and the expire times, and the key may get
values of other types or be deleted.
-/
inductive HashRun (key : Sds) : ObjectDb (Robj W) → Prop where
  | other {db : ObjectDb (Robj W)} (none : ∀ o, db.dict key ≠ some (.hash o)) : HashRun key db
  | command {db next : ObjectDb (Robj W)} (before : HashRun key db) {env : Env} {moment : Moment}
      {command : Command} (here : command.key = key) (meets : Meets env moment db command)
      {reply : HashReply} (ran : runCommand env moment db command = .ok (reply, next))
      : HashRun key next
  | elsewhere {db next : ObjectDb (Robj W)} (before : HashRun key db)
      (same : next.dict key = db.dict key)
      : HashRun key next

theorem HashRun.sound (run : HashRun key db) : SoundAt db key := by
  induction run with
  | other none => exact fun o there => absurd there (none o)
  | @command db next _ env moment command here meets reply ran ih =>
      subst here
      rcases answeredAt_of_sound ih meets with
        ⟨m, -, reply', next', ran', answered⟩ | ⟨-, text, ran'⟩
      · rw [ran] at ran'
        cases ran'
        exact answered.sound
      · rw [ran] at ran'
        cases ran'
        exact ih
  | elsewhere _ same ih => exact fun o there => ih o (same.symm.trans there)

def emptyDb : ObjectDb (Robj Unit) := ⟨fun _ => none, fun _ => none, fun _ _ => rfl⟩

/-- Every hash with a field or a value that is not empty is a hash table. -/
def tableEnv : Env := ⟨fun _ => 0, 0, 0, ⟨id, fun _ => .refl _⟩⟩

def firstMoment : Moment := ⟨0, false, false⟩

def oneField (field value : Sds) : Robj Unit := .hash (.ht [(.sds field, .sds value)])

theorem emptyDb_hset {key field value : Sds} (long : field ≠ [])
    (ran : runCommand tableEnv firstMoment emptyDb (.hset key field value)
      = .ok (.integer 1,
        ((emptyDb.store key (.hash createHashObject)).store key (oneField field value))))
    : HashRun key
      ((emptyDb.store key (.hash createHashObject)).store key (oneField field value)) := by
  have none : ∀ o, emptyDb.dict key ≠ some (.hash o) := fun o there => by cases there
  have fits : Fits tableEnv firstMoment emptyDb (.hset key field value) := by
    intro _ nodes table
    have tooLong : tooLong tableEnv.maxZiplistValue [field, value] = true := by
      simp [Hashes.tooLong, tableEnv, List.length_pos_iff, long]
    rw [shortLayout, tooLong] at table
    cases table
  exact (HashRun.other none).command rfl ⟨fits, trivial⟩ ran

end Redis.Hashes
