import Redis.Watch.Execution

/-! Which changes of keys the clients that watch them are told of. -/

namespace Redis.Watch

open Redis.Keyspace

variable {F L : Type} {setting : Setting F L} {moment : Moment} {id : Nat} {s t u : Server F}
  {db db' : Db F} {key : Sds} {value : Sds}

-- Changes

/-- A key is what it was, with its expire time, or it had expired and is gone. -/
def Unchanged (moment : Moment) (before after : Db F) (key : Sds) : Prop :=
  (after.dict key = before.dict key ∧ after.expires key = before.expires key)
  ∨ (moment.role = .master ∧ before.isExpired moment.now key = true ∧ after.dict key = none)

theorem Unchanged.refl (moment : Moment) (db : Db F) (key : Sds) : Unchanged moment db db key :=
  .inl ⟨rfl, rfl⟩

theorem Unchanged.trans {between : Db F} (first : Unchanged moment db between key)
    (second : Unchanged moment between db' key)
    : Unchanged moment db db' key := by
  obtain ⟨dict, expires⟩ | ⟨master, expired, gone⟩ := first
  · obtain ⟨dict', expires'⟩ | ⟨master, expired, gone⟩ := second
    · exact .inl ⟨dict'.trans dict, expires'.trans expires⟩
    · rw [ObjectDb.isExpired, expires] at expired
      exact .inr ⟨master, expired, gone⟩
  · obtain ⟨dict', _⟩ | ⟨_, _, gone'⟩ := second
    · exact .inr ⟨master, expired, dict'.trans gone⟩
    · exact .inr ⟨master, expired, gone'⟩

/-- Two databases have the same keys but for one. -/
def SameBut (key : Sds) (db db' : Db F) : Prop :=
  ∀ other, other ≠ key → db'.dict other = db.dict other ∧ db'.expires other = db.expires other

namespace SameBut

variable {between : Db F}

theorem refl (key : Sds) (db : Db F) : SameBut key db db := fun _ _ => ⟨rfl, rfl⟩

theorem trans (first : SameBut key db between) (second : SameBut key between db')
    : SameBut key db db' := by
  intro other different
  obtain ⟨dict, expires⟩ := first other different
  obtain ⟨dict', expires'⟩ := second other different
  exact ⟨dict'.trans dict, expires'.trans expires⟩

theorem store (db : Db F) (key : Sds) (value : Value F) : SameBut key db (db.store key value) :=
  fun _ different => ⟨Function.update_of_ne different .., rfl⟩

theorem dbDelete (db : Db F) (key : Sds) : SameBut key db (db.dbDelete key) :=
  fun _ different => ⟨Function.update_of_ne different .., Function.update_of_ne different ..⟩

theorem removeExpire (db : Db F) (key : Sds) : SameBut key db (db.removeExpire key) :=
  fun _ different => ⟨rfl, Function.update_of_ne different ..⟩

theorem setExpire (db : Db F) (key : Sds) (time : Int)
    : SameBut key db (db.setExpire key time) := by
  intro other different
  refine ⟨rfl, ?_⟩
  simp only [ObjectDb.setExpire]
  split
  · rfl
  · exact Function.update_of_ne different ..

theorem setKey (db : Db F) (key : Sds) (value : Value F) : SameBut key db (db.setKey key value) :=
  (store db key value).trans (removeExpire _ key)

end SameBut

theorem store_self {value : Value F} (found : db.dict key = some value)
    : db.store key value = db :=
  ObjectDb.ext (Function.update_eq_self_iff.mpr found.symm) rfl

-- Servers

/-- What a command does to the clients: it sets `REDIS_DIRTY_CAS` of some. -/
structure Touches (s t : Server F) : Prop where
  watchers : t.watchers = s.watchers
  client : ∀ n, t.clients n = s.clients n ∨ t.clients n = (s.clients n).touch

/-- `REDIS_DIRTY_CAS` is set for all the clients that watch a key that is changed. -/
structure Detects (moment : Moment) (s t : Server F) : Prop extends Touches s t where
  detected
    : ∀ id key,
        ¬ Unchanged moment (s.dbs id) (t.dbs id) key
        → ∀ n ∈ s.watchers id key, (t.clients n).dirtyCas = true

theorem Touches.refl (s : Server F) : Touches s s := ⟨rfl, fun _ => .inl rfl⟩

theorem Touches.trans (first : Touches s t) (second : Touches t u) : Touches s u where
  watchers := second.watchers.trans first.watchers
  client n := by
    obtain same | touched := first.client n <;> obtain same' | touched' := second.client n
    · exact .inl (same'.trans same)
    · exact .inr (by rw [touched', same])
    · exact .inr (by rw [same', touched])
    · exact .inr (by rw [touched', touched]; rfl)

theorem Touches.dirty (touches : Touches s t) {n : Nat} (dirty : (s.clients n).dirtyCas = true)
    : (t.clients n).dirtyCas = true := by
  obtain same | touched := touches.client n
  · rw [same]
    exact dirty
  · rw [touched]
    rfl

theorem touches_setDb (s : Server F) (id : Nat) (db : Db F) : Touches s (s.setDb id db) :=
  ⟨rfl, fun _ => .inl rfl⟩

theorem Detects.refl (moment : Moment) (s : Server F) : Detects moment s s where
  toTouches := .refl s
  detected _ _ changed := absurd (Unchanged.refl ..) changed

/-- Changes that are told one after the other are told. -/
theorem Detects.trans (first : Detects moment s t) (second : Detects moment t u)
    : Detects moment s u where
  toTouches := first.toTouches.trans second.toTouches
  detected id key changed n watches := by
    by_cases early : Unchanged moment (s.dbs id) (t.dbs id) key
    · have late : ¬ Unchanged moment (t.dbs id) (u.dbs id) key := fun late =>
        changed (early.trans late)
      refine second.detected id key late n ?_
      rw [first.watchers]
      exact watches
    · exact second.dirty (first.detected id key early n watches)

theorem detects_foldl {α : Type} {body : Server F → α → Server F}
    (detects : ∀ s item, Detects moment s (body s item)) (items : List α) (s : Server F)
    : Detects moment s (items.foldl body s) := by
  induction items generalizing s with
  | nil => exact .refl moment s
  | cons item items ih => exact (detects s item).trans (ih (body s item))

@[simp]
theorem setDb_dbs_self (s : Server F) (id : Nat) (db : Db F) : (s.setDb id db).dbs id = db :=
  Function.update_self ..

theorem setDb_dbs_other {other : Nat} (different : other ≠ id) (s : Server F) (db : Db F)
    : (s.setDb id db).dbs other = s.dbs other :=
  Function.update_of_ne different ..

theorem setDb_self (same : db = s.dbs id) : s.setDb id db = s := by
  rw [Server.setDb, same, Function.update_eq_self]

theorem setDb_setDb (s : Server F) (id : Nat) (first second : Db F)
    : (s.setDb id first).setDb id second = s.setDb id second := by
  simp only [Server.setDb, Function.update_idem]

theorem signal_client (s : Server F) (id : Nat) (key : Sds) (n : Nat)
    : (s.signalModifiedKey id key).clients n = s.clients n
      ∨ (s.signalModifiedKey id key).clients n = (s.clients n).touch := by
  by_cases watches : n ∈ s.watchers id key
  · exact .inr (if_pos watches)
  · exact .inl (if_neg watches)

theorem signal_dirty {n : Nat} (watches : n ∈ s.watchers id key)
    : ((s.signalModifiedKey id key).clients n).dirtyCas = true :=
  (congrArg Client.dirtyCas (if_pos watches)).trans rfl

theorem touches_signal (s : Server F) (id : Nat) (key : Sds)
    : Touches s (s.signalModifiedKey id key) :=
  ⟨rfl, signal_client s id key⟩

theorem detects_write {result : Option (Db F)}
    (only : ∀ db, result = some db → SameBut key (s.dbs id) db)
    : Detects moment s (s.write id key result) := by
  cases result with
  | none => exact .refl moment s
  | some db =>
      refine ⟨(touches_setDb s id db).trans (touches_signal _ id key), ?_⟩
      intro id' key' changed n watches
      by_cases sameDb : id' = id
      · subst sameDb
        by_cases sameKey : key' = key
        · subst sameKey
          exact signal_dirty (s := s.setDb id' db) watches
        · refine absurd (.inl ?_) changed
          have other := only db rfl key' sameKey
          rwa [← setDb_dbs_self s id' db] at other
      · refine absurd ?_ changed
        have other := setDb_dbs_other sameDb s db
        exact .inl ⟨congrArg (fun db => db.dict key') other,
          congrArg (fun db => db.expires key') other⟩

theorem write_setDb (s : Server F) (id : Nat) (key : Sds) (first second : Db F)
    : (s.write id key (some first)).setDb id second = s.write id key (some second) :=
  congrArg (fun t : Server F => t.signalModifiedKey id key) (setDb_setDb s id first second)

-- Lookups

theorem detects_expireIfNeeded (moment : Moment) (id : Nat) (s : Server F) (key : Sds)
    : Detects moment s (s.expireIfNeeded moment id key) := by
  rw [Server.expireIfNeeded]
  split
  case isFalse => exact .refl moment s
  case isTrue expired =>
    refine ⟨touches_setDb s id _, ?_⟩
    intro id' key' changed
    refine absurd ?_ changed
    by_cases sameDb : id' = id
    · subst sameDb
      rw [setDb_dbs_self]
      by_cases sameKey : key' = key
      · subst sameKey
        exact .inr ⟨expired.1, expired.2, Function.update_self ..⟩
      · exact .inl (SameBut.dbDelete (s.dbs id') key key' sameKey)
    · rw [setDb_dbs_other sameDb]
      exact .refl ..

theorem detects_expireKeys (moment : Moment) (id : Nat) (s : Server F) (keys : List Sds)
    : Detects moment s (s.expireKeys moment id keys) :=
  detects_foldl (fun s key => detects_expireIfNeeded moment id s key) keys s

theorem detects_lookupOperands {α : Type} (moment : Moment) (id : Nat)
    (accept : Value F → Option α) (s : Server F) (keys : List Sds)
    : Detects moment s (s.lookupOperands moment id accept keys).1 := by
  induction keys generalizing s with
  | nil => exact .refl moment s
  | cons key keys ih =>
      have expired := detects_expireIfNeeded moment id s key
      rw [Server.lookupOperands]
      dsimp only
      split
      · exact expired.trans (ih _)
      · split
        · exact expired
        · exact expired.trans (ih _)

-- Strings

theorem detects_setKey (moment : Moment) (id : Nat) (s : Server F) (key : Sds) (value : Value F)
    : Detects moment s (s.setKey moment id key value) := by
  rw [Server.setKey]
  refine (detects_expireIfNeeded moment id s key).trans (detects_write ?_)
  rintro db ⟨⟩
  exact SameBut.setKey _ _ _

theorem del_only (found : ObjectDb.del db key = some db') : SameBut key db db' := by
  unfold ObjectDb.del at found
  split at found
  · cases found
  · cases found
    exact SameBut.dbDelete db key

theorem detects_deleteKey (moment : Moment) (id : Nat) (s : Server F) (key : Sds)
    : Detects moment s (s.deleteKey id key) :=
  detects_write (fun _ => del_only)

theorem setGeneric_only {env : Environment L} {flags : SetFlags}
    {milliseconds : Option Int} (found : db.setGeneric env flags key value milliseconds = some db')
    : SameBut key db db' := by
  unfold ObjectDb.setGeneric at found
  split at found
  · cases found
  · split at found
    · cases found
      exact SameBut.setKey _ _ _
    · cases found
      exact (SameBut.setKey db key (.string value)).trans (SameBut.setExpire _ _ _)

theorem detects_setGenericCommand (flags : SetFlags) (key value : Sds)
    : Detects moment s (s.setGenericCommand setting moment id flags key value) := by
  rw [Server.setGenericCommand]
  split
  · exact .refl moment s
  · exact (detects_expireIfNeeded moment id s key).trans (detects_write fun _ => setGeneric_only)

theorem getset_only (found : db.getset key value = some db') : SameBut key db db' := by
  unfold ObjectDb.getset at found
  split at found
  · cases found
    exact SameBut.setKey _ _ _
  · cases found
    exact SameBut.setKey _ _ _
  · cases found

theorem detects_setPairs (args : List Sds) (s : Server F)
    : Detects moment s (s.setPairs moment id args) :=
  detects_foldl (fun s (pair : Sds × Sds) => detects_setKey moment id s pair.1 (.string pair.2)) _ s

theorem detects_msetGenericCommand (nx : Bool) (args : List Sds)
    : Detects moment s (s.msetGenericCommand moment id nx args) := by
  rw [Server.msetGenericCommand]
  split
  · exact .refl moment s
  · split
    · have expired := detects_expireKeys moment id s ((argumentPairs args).map Prod.fst)
      dsimp only
      split
      · exact expired
      · exact expired.trans (detects_setPairs args _)
    · exact detects_setPairs args s

theorem detects_lookup_write {result : Db F → Option (Db F)}
    (only : ∀ db db', result db = some db' → SameBut key db db')
    : Detects moment s
        ((s.expireIfNeeded moment id key).write id key
          (result ((s.expireIfNeeded moment id key).dbs id))) :=
  (detects_expireIfNeeded moment id s key).trans (detects_write (only _))

theorem setrange_only {offset : Nat} (found : setrange db key offset value = some db')
    : SameBut key db db' := by
  unfold setrange at found
  repeat' split at found
  all_goals cases found
  exact SameBut.store _ _ _

theorem incrDecr_only {incr : Int} (found : incrDecr db key incr = some db')
    : SameBut key db db' := by
  obtain ⟨value, _, rfl⟩ := Option.map_eq_some_iff.mp found
  exact SameBut.store _ _ _

theorem incrbyfloat_only {env : Environment L} {increment : Sds}
    (found : (db.incremented env key increment).map (fun text => db.store key (.string text))
      = some db')
    : SameBut key db db' := by
  obtain ⟨text, _, rfl⟩ := Option.map_eq_some_iff.mp found
  exact SameBut.store _ _ _

theorem append_only (found : append db key value = some db') : SameBut key db db' := by
  unfold append at found
  repeat' split at found
  all_goals cases found
  · exact SameBut.store _ _ _
  · exact SameBut.store _ _ _

theorem setbit_only {bitoffset : Nat} {on : Bool} (found : setbit db key bitoffset on = some db')
    : SameBut key db db' := by
  obtain ⟨text, _, rfl⟩ := Option.map_eq_some_iff.mp found
  exact SameBut.store _ _ _

theorem detects_setrangeCommand (key offset value : Sds)
    : Detects moment s (s.setrangeCommand moment id key offset value) := by
  rw [Server.setrangeCommand]
  split
  · exact .refl moment s
  · split
    · exact .refl moment s
    · exact detects_lookup_write fun _ _ => setrange_only

theorem detects_setbitCommand (key offset bit : Sds)
    : Detects moment s (s.setbitCommand moment id key offset bit) := by
  rw [Server.setbitCommand]
  split
  · split
    · exact .refl moment s
    · exact detects_lookup_write fun _ _ => setbit_only
  · exact .refl moment s

theorem detects_bitopCommand (operation target : Sds) (keys : List Sds)
    : Detects moment s (s.bitopCommand moment id operation target keys) := by
  rw [Server.bitopCommand]
  split
  · exact .refl moment s
  · split
    · exact .refl moment s
    · have looked := detects_lookupOperands moment id stringOperand s keys
      split
      · rename_i found
        rw [found] at looked
        exact looked
      · rename_i found
        rw [found] at looked
        dsimp only
        split
        · exact looked.trans (detects_setKey ..)
        · exact looked.trans (detects_deleteKey ..)

-- HyperLogLogs

theorem addElements_same (hll : HyperLogLog) (text : Sds) (elements : List Sds) {created : Bool}
    (same : (addElements hll text created elements).updated = false)
    : created = false ∧ (addElements hll text created elements).text = text := by
  induction elements generalizing text created with
  | nil => exact ⟨same, rfl⟩
  | cons element elements ih =>
      rw [addElements] at same ⊢
      split at same
      · exact ⟨same, rfl⟩
      · rename_i changed after added
        obtain ⟨before, rest⟩ := ih after same
        obtain ⟨notCreated, notChanged⟩ := Bool.or_eq_false_iff.mp before
        rw [notChanged] at added
        exact ⟨notCreated, rest.trans (hll.add_unchanged _ _ _ added)⟩

/-- `hllAdd` fails behind an element that has changed the string, or behind its creation. -/
def FailsBehindChange (hll : HyperLogLog) (db : Db F) (key : Sds) (elements : List Sds) : Prop :=
  ∃ text created,
    pfaddStart hll db key = some (text, created)
    ∧ (addElements hll text created elements).failed = true
    ∧ (created = true ∨ (addElements hll text created elements).text ≠ text)

theorem pfaddStart_found {hll : HyperLogLog} {text : Sds}
    (start : pfaddStart hll db key = some (text, false))
    : db.dict key = some (.string text) := by
  unfold pfaddStart at start
  split at start
  · cases start
  · rename_i found
    split at start
    · cases start
      exact found
    · cases start
  · cases start

theorem detects_pfaddCommand {elements : List Sds}
    (noFailure
      : ¬ FailsBehindChange setting.hll ((s.expireIfNeeded moment id key).dbs id) key elements)
    : Detects moment s (s.pfaddCommand setting moment id key elements) := by
  have expired := detects_expireIfNeeded moment id s key
  rw [Server.pfaddCommand]
  dsimp only
  generalize s.expireIfNeeded moment id key = t at expired noFailure ⊢
  split
  · exact expired
  · rename_i text created start
    -- the object is what it was
    have stays
        : created = false
          → (addElements setting.hll text created elements).text = text
          → t.setDb id
              ((t.dbs id).store key
                (.string (addElements setting.hll text created elements).text))
            = t := by
      intro notCreated same
      subst notCreated
      rw [same]
      exact setDb_self (store_self (pfaddStart_found start))
    split
    · rename_i failed
      have harmless := fun change => noFailure ⟨text, created, start, failed, change⟩
      obtain ⟨notCreated, same⟩ := not_or.mp harmless
      rw [stays (Bool.eq_false_iff.mpr notCreated) (not_not.mp same)]
      exact expired
    · split
      · refine expired.trans (detects_write ?_)
        rintro db ⟨⟩
        exact SameBut.store _ _ _
      · rename_i notUpdated
        obtain ⟨notCreated, same⟩ :=
          addElements_same setting.hll text elements (Bool.eq_false_iff.mpr notUpdated)
        rw [stays notCreated same]
        exact expired

theorem detects_pfmergeCommand (target : Sds) (keys : List Sds)
    : Detects moment s (s.pfmergeCommand setting moment id target keys) := by
  have looked := detects_lookupOperands moment id (hllOperand setting.hll) s (target :: keys)
  rw [Server.pfmergeCommand]
  split
  · rename_i found
    rw [found] at looked
    exact looked
  · rename_i t operands found
    rw [found] at looked
    have expired := looked.trans (detects_expireIfNeeded moment id t target)
    dsimp only
    generalize t.expireIfNeeded moment id target = u at expired ⊢
    split
    · rename_i notDense
      rw [pfmergeStart] at notDense ⊢
      split at notDense
      · rename_i there
        rw [setDb_self (store_self there)]
        exact expired
      · exact absurd notDense setting.hll.toDense_create
    · refine expired.trans (detects_write ?_)
      rintro db ⟨⟩
      exact SameBut.store _ _ _

-- Keys of any type

theorem detects_delCommand (keys : List Sds) : Detects moment s (s.delCommand moment id keys) :=
  detects_foldl (fun s key => (detects_expireIfNeeded moment id s key).trans
    (detects_deleteKey moment id _ key)) keys s

theorem copyExpire_only (time : Option Int) (key : Sds) (db : Db F)
    : SameBut key db (copyExpire time key db) := by
  unfold copyExpire
  split
  · exact SameBut.refl key db
  · split
    · exact SameBut.refl key db
    · exact SameBut.setExpire _ _ _

theorem detects_writeBoth {first second : Sds}
    (only
      : ∀ other,
          other ≠ first
          → other ≠ second
          → db.dict other = (s.dbs id).dict other ∧ db.expires other = (s.dbs id).expires other)
    : Detects moment s (((s.setDb id db).signalModifiedKey id first).signalModifiedKey id second)
    where
  toTouches :=
    (touches_setDb s id db).trans ((touches_signal _ id first).trans (touches_signal _ id second))
  detected id' key' changed n watches := by
    by_cases sameDb : id' = id
    · subst sameDb
      by_cases isSecond : key' = second
      · subst isSecond
        exact signal_dirty (s := (s.setDb id' db).signalModifiedKey id' first) watches
      · by_cases isFirst : key' = first
        · subst isFirst
          exact (touches_signal _ id' second).dirty
            (signal_dirty (s := s.setDb id' db) watches)
        · refine absurd (.inl ?_) changed
          have other := only key' isFirst isSecond
          rwa [← setDb_dbs_self s id' db] at other
    · refine absurd ?_ changed
      have other := setDb_dbs_other sameDb s db
      exact .inl ⟨congrArg (fun db => db.dict key') other,
        congrArg (fun db => db.expires key') other⟩

theorem detects_renameGenericCommand (nx : Bool) (key newkey : Sds)
    : Detects moment s (s.renameGenericCommand moment id nx key newkey) := by
  have expired := detects_expireIfNeeded moment id s key
  rw [Server.renameGenericCommand]
  split
  · exact .refl moment s
  · dsimp only
    generalize s.expireIfNeeded moment id key = t at expired ⊢
    split
    · exact expired
    · rename_i value found
      have expired' := expired.trans (detects_expireIfNeeded moment id t newkey)
      generalize t.expireIfNeeded moment id newkey = u at expired' ⊢
      split
      · exact expired'
      · refine expired'.trans (detects_writeBoth ?_)
        intro other notKey notNewkey
        have stored :=
          (SameBut.dbDelete (u.dbs id) newkey).trans (SameBut.store _ newkey value)
        have copied := stored.trans (copyExpire_only ((t.dbs id).expires key) newkey _)
        obtain ⟨dict, expires⟩ := copied other notNewkey
        obtain ⟨dict', expires'⟩ := SameBut.dbDelete _ key other notKey
        exact ⟨dict'.trans dict, expires'.trans expires⟩

theorem detects_expireGenericCommand (basetime : Int) (unit : TimeUnit) (key param : Sds)
    : Detects moment s (s.expireGenericCommand moment id basetime unit key param) := by
  have expired := detects_expireIfNeeded moment id s key
  rw [Server.expireGenericCommand]
  split
  · exact .refl moment s
  · dsimp only
    split
    · exact expired
    · split
      · refine expired.trans (detects_write ?_)
        rintro db ⟨⟩
        exact SameBut.dbDelete _ _
      · refine expired.trans (detects_write ?_)
        rintro db ⟨⟩
        exact SameBut.setExpire _ _ _

/-- Clients and keys name each other as watcher and as watched. -/
def Server.Consistent (s : Server F) : Prop :=
  ∀ n id key, n ∈ s.watchers id key ↔ (id, key) ∈ (s.clients n).watchedKeys

theorem detects_flush (consistent : s.Consistent) {dbid : Option Nat} {dbs : Nat → Db F}
    (flushed : ∀ id, dbs id = s.dbs id ∨ (dbs id = .empty ∧ (dbid = none ∨ dbid = some id)))
    : Detects moment s { s.signalFlushedDb dbid with dbs } where
  watchers := rfl
  client n := by
    by_cases watches : s.watchesFlushed dbid n = true
    · exact .inr (if_pos watches)
    · exact .inl (if_neg watches)
  detected id key changed n watches := by
    obtain same | ⟨empty, isFlushed⟩ := flushed id
    · refine absurd ?_ changed
      dsimp only
      rw [same]
      exact .refl ..
    · have there : ((s.dbs id).dict key).isSome = true := by
        rw [Option.isSome_iff_ne_none]
        intro absent
        refine changed (.inl ?_)
        dsimp only
        rw [empty, absent, (s.dbs id).expires_in_dict key absent]
        exact ⟨rfl, rfl⟩
      have flags : s.watchesFlushed dbid n = true := by
        refine List.any_eq_true.mpr ⟨(id, key), (consistent n id key).mp watches, ?_⟩
        rw [there, Bool.and_true]
        simpa only [Bool.or_eq_true, decide_eq_true_eq] using isFlushed
      exact (congrArg Client.dirtyCas (if_pos flags)).trans rfl

theorem detects_flushdbCommand (consistent : s.Consistent)
    : Detects moment s (s.flushdbCommand id) := by
  refine detects_flush consistent ?_
  intro other
  by_cases same : other = id
  · subst same
    exact .inr ⟨Function.update_self .., .inr rfl⟩
  · exact .inl (Function.update_of_ne same ..)

theorem detects_flushallCommand (consistent : s.Consistent)
    : Detects moment s s.flushallCommand :=
  detects_flush consistent fun _ => .inr ⟨rfl, .inl rfl⟩

-- Sorted sets

theorem zaddLoop_touched (scores : Scores F) (flags : ZaddFlags) (zset : Sds → Option F)
    (elements : List (F × Sds))
    : (zaddLoop scores flags zset true elements).2 = true := by
  induction elements generalizing zset with
  | nil => rfl
  | cons first elements ih =>
      rw [zaddLoop]
      split
      · rfl
      · rw [Bool.true_or]
        exact ih _

theorem zaddElement_same {scores : Scores F} {flags : ZaddFlags} {zset after : Sds → Option F}
    {score : F} {element : Sds} (notTouched : zaddTouches scores flags zset score element = false)
    (added : zaddElement scores flags zset score element = some after)
    : after = zset := by
  unfold zaddTouches at notTouched
  unfold zaddElement at added
  split at notTouched
  · rename_i absent
    have xx : flags.xx = true := by simpa using notTouched
    rw [absent, xx] at added
    cases added
    rfl
  · rename_i current found
    rw [found] at added
    dsimp only at added
    split at added
    · cases added
      rfl
    · rename_i notNx
      obtain ⟨sum, summed, result⟩ := Option.map_eq_some_iff.mp added
      rw [summed, Bool.eq_false_iff.mpr notNx] at notTouched
      simp only [Bool.not_false, Bool.true_and, Bool.not_eq_false'] at notTouched
      rw [if_pos notTouched] at result
      exact result.symm

theorem zaddLoop_same (scores : Scores F) (flags : ZaddFlags) (zset : Sds → Option F)
    (elements : List (F × Sds)) {touched : Bool}
    (notTouched : (zaddLoop scores flags zset touched elements).2 = false)
    : touched = false ∧ (zaddLoop scores flags zset touched elements).1 = zset := by
  induction elements generalizing zset touched with
  | nil => exact ⟨notTouched, rfl⟩
  | cons first elements ih =>
      rw [zaddLoop] at notTouched ⊢
      split at notTouched
      · rename_i failed
        exact ⟨notTouched, rfl⟩
      · rename_i next added
        obtain ⟨before, rest⟩ := ih next notTouched
        obtain ⟨notBefore, notHere⟩ := Bool.or_eq_false_iff.mp before
        exact ⟨notBefore, rest.trans (zaddElement_same notHere added)⟩

/-- The options of `ZADD` are followed by no element, and the key is created. -/
def CreatesEmpty (scores : Scores F) (db : Db F) (flags : ZaddFlags) (key : Sds) (args : List Sds)
    : Prop :=
  ∃ flags',
    zaddArguments scores flags args = some (flags', [])
    ∧ flags'.xx = false
    ∧ db.dict key = none

theorem detects_zaddGenericCommand {flags : ZaddFlags} {args : List Sds}
    (notEmpty
      : ¬ CreatesEmpty setting.scores ((s.expireIfNeeded moment id key).dbs id) flags key args)
    : Detects moment s (s.zaddGenericCommand setting moment id flags key args) := by
  have expired := detects_expireIfNeeded moment id s key
  rw [Server.zaddGenericCommand]
  split
  · exact .refl moment s
  · rename_i flags' elements accepted
    dsimp only
    generalize s.expireIfNeeded moment id key = t at expired notEmpty ⊢
    split
    · exact expired
    · rename_i zset start
      split
      · refine expired.trans (detects_write ?_)
        rintro db ⟨⟩
        exact SameBut.store _ _ _
      · rename_i notTouched
        have same :=
          zaddLoop_same setting.scores flags' zset elements (Bool.eq_false_iff.mpr notTouched)
        rw [same.2]
        unfold zaddStart at start
        split at start
        · rename_i absent
          split at start
          · cases start
          · rename_i notXx
            cases start
            have isCreated := Bool.eq_false_iff.mpr notXx
            cases elements with
            | nil => exact absurd ⟨flags', accepted, isCreated, absent⟩ notEmpty
            | cons first rest =>
                -- the first element is new
                refine absurd ?_ notTouched
                have added
                    : zaddElement setting.scores flags' (fun _ => none) first.1 first.2
                      = some (Function.update (fun _ => none) first.2 (some first.1)) := by
                  simp only [zaddElement, isCreated, Bool.false_eq_true, if_false]
                have touches
                    : zaddTouches setting.scores flags' (fun _ => none) first.1 first.2 = true := by
                  simp only [zaddTouches, isCreated, Bool.not_false]
                rw [zaddLoop, added, touches]
                exact zaddLoop_touched ..
        · rename_i found
          cases start
          rw [setDb_self (store_self found)]
          exact expired
        · cases start

theorem storeElements_only (zsets : SortedSets F) (db : Db F) (key : Sds) (zset : Sds → Option F)
    : SameBut key db (storeElements zsets db key zset) := by
  unfold storeElements
  split
  · exact SameBut.dbDelete db key
  · exact SameBut.store _ _ _

theorem detects_zremCommand (key : Sds) (members : List Sds)
    : Detects moment s (s.zremCommand setting moment id key members) := by
  have expired := detects_expireIfNeeded moment id s key
  rw [Server.zremCommand]
  dsimp only
  split
  · split
    · refine expired.trans (detects_write ?_)
      rintro db ⟨⟩
      exact storeElements_only _ _ _ _
    · exact expired
  · exact expired

/-- A range by score or by text that holds no element of a sorted set, which has none at all. -/
def DeletesEmpty (zsets : SortedSets F) (db : Db F) (type : RangeType) (key min max : Sds) : Prop :=
  ∃ range zset,
    zsets.range type min max = some range
    ∧ db.dict key = some (.zset zset)
    ∧ type ≠ .rank
    ∧ range zset = []
    ∧ zsets.length zset = 0

theorem detects_zremrangeGenericCommand {type : RangeType} {min max : Sds}
    (notEmpty
      : ¬ DeletesEmpty setting.sortedSets ((s.expireIfNeeded moment id key).dbs id) type key min
        max)
    : Detects moment s (s.zremrangeGenericCommand setting moment id type key min max) := by
  have expired := detects_expireIfNeeded moment id s key
  rw [Server.zremrangeGenericCommand]
  split
  · exact .refl moment s
  · rename_i range parsed
    dsimp only
    generalize s.expireIfNeeded moment id key = t at expired notEmpty ⊢
    split
    · rename_i zset found
      split
      · exact expired
      · rename_i notRank
        split
        · refine expired.trans (detects_write ?_)
          rintro db ⟨⟩
          exact storeElements_only _ _ _ _
        · rename_i none
          have isEmpty := not_not.mp none
          have some : setting.sortedSets.length zset ≠ 0 := fun isZero =>
            notEmpty ⟨range, zset, parsed, found, fun isRank => notRank ⟨isRank, isEmpty⟩, isEmpty,
              isZero⟩
          rw [isEmpty, List.foldl_nil, storeElements, if_neg some, setDb_self (store_self found)]
          exact expired
    · exact expired

theorem storeSortedSet_eq (s : Server F) (target : Sds) (zset : Sds → Option F)
    : s.storeSortedSet setting id target zset
      = if setting.sortedSets.length zset = 0 then s.deleteKey id target
        else s.write id target (some (((s.dbs id).dbDelete target).store target (.zset zset))) := by
  rw [Server.storeSortedSet]
  dsimp only
  split
  · rfl
  · rw [Server.deleteKey, ObjectDb.del]
    cases found : (s.dbs id).dict target with
    | none =>
        have gone : (s.dbs id).dbDelete target = s.dbs id :=
          ObjectDb.ext (Function.update_eq_self_iff.mpr found.symm)
            (Function.update_eq_self_iff.mpr ((s.dbs id).expires_in_dict target found).symm)
        rw [gone]
        rfl
    | some value =>
        have there
            : (s.write id target (some ((s.dbs id).dbDelete target))).dbs id
              = (s.dbs id).dbDelete target :=
          setDb_dbs_self s id _
        rw [there, write_setDb]
        rfl

/-- The clients that watch the destination are told. -/
theorem detects_zunionInterGenericCommand (operation : SetOperation) (target numkeys : Sds)
    (args : List Sds)
    : Detects moment s
        (s.zunionInterGenericCommand setting moment id operation target numkeys args) := by
  rw [Server.zunionInterGenericCommand]
  split
  · exact .refl moment s
  · rename_i setnum _
    split
    · exact .refl moment s
    · have looked := detects_lookupOperands moment id setOperand s (args.take setnum.toNat)
      split
      · rename_i found
        rw [found] at looked
        exact looked
      · rename_i found
        rw [found] at looked
        split
        · exact looked
        · rw [storeSortedSet_eq]
          split
          · exact looked.trans (detects_deleteKey ..)
          · refine looked.trans (detects_write ?_)
            rintro db ⟨⟩
            exact (SameBut.dbDelete _ target).trans (SameBut.store _ _ _)

end Redis.Watch
