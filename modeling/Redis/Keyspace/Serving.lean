import Redis.Keyspace.Replay

/-! What is propagated when blocked clients are served. -/

namespace Redis.Keyspace

open Redis.Lists (Where listTypePop listTypePush listTypePush_pop)
open Redis.Propagation (Stream)

inductive Receiver where
  /-- `BLPOP` and `BRPOP`. -/
  | bpop (place : Where)
  | brpoplpush (target : Sds)
deriving DecidableEq, Repr

/-- The end from which the client pops. -/
def Receiver.place : Receiver → Where
  | .bpop place => place
  | .brpoplpush _ => .tail

variable {F L : Type} (env : Environment L) {rest : List Sds} {value : Sds}

-- The code

/-- `serveClientBlockedOnList` behind the pop, and the push that undoes the pop. -/
def Run.serveClientBlockedOnList (run : Run F) (key : Sds) (receiver : Receiver) (value : Sds)
    (rest : List Sds) : Run F :=
  match receiver with
  | .bpop place => ⟨run.db, run.propagated ++ [.pop place key]⟩
  | .brpoplpush target =>
      let run := run.expireIfNeeded env .master target
      match run.db.push .head target [value] with
      | some db => ⟨db, run.propagated ++ [.pop .tail key, .lpush target [value]]⟩
      | none => ⟨run.db.store key (.list (listTypePush .tail rest value)), run.propagated⟩

/-- One round of the loop over the clients of a key. -/
def Run.serveClient (run : Run F) (key : Sds) (receiver : Receiver) : Option (Run F) :=
  match run.db.dict key with
  | some (.list items) =>
      (listTypePop receiver.place items).map (fun (value, rest) =>
        Run.serveClientBlockedOnList env ⟨run.db.store key (.list rest), run.propagated⟩ key
          receiver
          value rest)
  | _ => none

def Run.serveClients (key : Sds) : List Receiver → Run F → Run F
  | [], run => run
  | receiver :: receivers, run =>
      match run.serveClient env key receiver with
      | none => run
      | some next => Run.serveClients key receivers next

/-- One key of `handleClientsBlockedOnLists`, with the clients that are blocked on it. -/
def Run.handleReadyKey (run : Run F) (key : Sds) (receivers : List Receiver) : Run F :=
  let run := run.expireIfNeeded env .master key
  match run.db.dict key with
  | some (.list _) =>
      let run := run.serveClients env key receivers
      ⟨run.db.deleteIfEmpty key, run.propagated⟩
  | _ => run

-- Which clients take an element

def ObjectDb.wrongType (db : Db F) (now : Int) (target : Sds) : Bool :=
  !db.isExpired now target && (db.push .head target []).isNone

def Receiver.takes (db : Db F) (now : Int) (key : Sds) : Receiver → Bool
  | .bpop _ => true
  | .brpoplpush target => target ≠ key && !db.wrongType now target

/-- A client moves the last element to the key from which it comes. -/
def MovesLast (db : Db F) (now : Int) (key : Sds) (length : Nat) (receivers : List Receiver)
    : Prop :=
  ∃ before after, receivers = before ++ .brpoplpush key :: after
    ∧ before.countP (Receiver.takes db now key) + 1 = length

/-- A client moves the last element to the key from which it comes, and no later one takes it. -/
def RotatesLast (db : Db F) (now : Int) (key : Sds) (length : Nat) (receivers : List Receiver)
    : Prop :=
  MovesLast db now key length receivers ∧ receivers.countP (Receiver.takes db now key) < length

section Operations

variable {db : Db F} {key other : Sds}

/-- The database of a copy that may have lost the time of a key. -/
def ObjectDb.forget (db : Db F) (lost : Bool) (key : Sds) : Db F :=
  if lost then db.removeExpire key else db

@[simp]
theorem forget_dict (lost : Bool) : (db.forget lost key).dict = db.dict := by
  cases lost <;> rfl

theorem forget_store (lost : Bool) (value : Value F)
    : (db.forget lost key).store other value = (db.store other value).forget lost key := by
  cases lost <;> rfl

theorem removeExpire_dbDelete
    : (db.removeExpire key).dbDelete other = (db.dbDelete other).removeExpire key := by
  refine ObjectDb.ext rfl ?_
  funext third
  simp only [ObjectDb.removeExpire, ObjectDb.dbDelete, Function.update_apply]
  split
  · simp
  · rfl

theorem forget_dbDelete (lost : Bool)
    : (db.forget lost key).dbDelete other = (db.dbDelete other).forget lost key := by
  cases lost with
  | false => rfl
  | true => exact removeExpire_dbDelete

theorem forget_deleteIfEmpty (lost : Bool)
    : (db.forget lost key).deleteIfEmpty other = (db.deleteIfEmpty other).forget lost key := by
  unfold ObjectDb.deleteIfEmpty
  rw [forget_dict]
  split
  · exact forget_dbDelete lost
  · rfl

theorem forget_push (lost : Bool) (place : Where) (values : List Sds)
    : (db.forget lost key).push place other values
      = (db.push place other values).map (fun db => db.forget lost key) := by
  unfold ObjectDb.push
  rw [forget_dict]
  split
  · rw [forget_store, Option.map_some]
  · rw [forget_store, Option.map_some]
  · rfl

theorem store_eq_self {value : Value F} (found : db.dict key = some value)
    : db.store key value = db := by
  refine ObjectDb.ext ?_ rfl
  simp only [ObjectDb.store]
  rw [← found, Function.update_eq_self]

theorem store_dbDelete (different : other ≠ key) (value : Value F)
    : (db.store key value).dbDelete other = (db.dbDelete other).store key value := by
  refine ObjectDb.ext ?_ rfl
  exact Function.update_comm different.symm _ _ _

theorem deleteIfEmpty_cons (found : db.dict key = some (.list (value :: rest)))
    : db.deleteIfEmpty key = db := by
  simp [ObjectDb.deleteIfEmpty, found]

theorem push_deleteIfEmpty (different : other ≠ key) (place : Where) (values : List Sds)
    : (db.deleteIfEmpty key).push place other values
      = (db.push place other values).map (fun db => db.deleteIfEmpty key) := by
  have elsewhere : ∀ value : Value F, (db.store other value).dict key = db.dict key :=
    fun value => Function.update_of_ne different.symm _ _
  by_cases empty : db.dict key = some (.list [])
  · have deleted : db.deleteIfEmpty key = db.dbDelete key := by simp [ObjectDb.deleteIfEmpty, empty]
    have same : (db.dbDelete key).dict other = db.dict other := Function.update_of_ne different _ _
    have after : ∀ value : Value F,
        (db.store other value).deleteIfEmpty key = (db.dbDelete key).store other value := by
      intro value
      simp only [ObjectDb.deleteIfEmpty, elsewhere, empty]
      exact store_dbDelete different.symm value
    rw [deleted]
    unfold ObjectDb.push
    rw [same]
    split
    · rw [Option.map_some, after]
    · rw [Option.map_some, after]
    · rfl
  · have kept : ∀ db : Db F, db.dict key ≠ some (.list []) → db.deleteIfEmpty key = db := by
      intro db nonempty
      unfold ObjectDb.deleteIfEmpty
      split
      · rename_i found
        exact absurd found nonempty
      · rfl
    rw [kept db empty]
    unfold ObjectDb.push
    split
    · rw [Option.map_some, kept _ (by rw [elsewhere]; exact empty)]
    · rw [Option.map_some, kept _ (by rw [elsewhere]; exact empty)]
    · rfl

end Operations

section Clients

variable {env : Environment L} {stream : Stream} {start : Db F} {run : Run F} {key target : Sds}
variable {items : List Sds} {lost : Bool}

/-- The state between two clients: the copy has deleted an empty list already, and may have lost the
time of the key.
-/
structure Served (env : Environment L) (stream : Stream) (start : Db F) (key : Sds) (lost : Bool)
    (items : List Sds) (run : Run F) : Prop where
  list : run.db.dict key = some (.list items)
  live : run.db.isExpired env.now key = false
  copy : start.replay env stream run.propagated = (run.db.deleteIfEmpty key).forget lost key

/-- Two databases in which the same clients take elements of a key, and the key has the same time.
-/
structure SameTakers (now : Int) (key : Sds) (before after : Db F) : Prop where
  takes : ∀ receiver, Receiver.takes after now key receiver = Receiver.takes before now key receiver
  time : after.expires key = before.expires key

theorem SameTakers.trans {now : Int} {first second third : Db F}
    (left : SameTakers now key first second) (right : SameTakers now key second third)
    : SameTakers now key first third where
  takes receiver := (right.takes receiver).trans (left.takes receiver)
  time := right.time.trans left.time

theorem sameTakers_of_wrongType {now : Int} {before after : Db F}
    (same : ∀ target, target ≠ key → after.wrongType now target = before.wrongType now target)
    (time : after.expires key = before.expires key)
    : SameTakers now key before after := by
  refine ⟨fun receiver => ?_, time⟩
  cases receiver with
  | bpop place => rfl
  | brpoplpush target =>
      by_cases atKey : target = key
      · simp [Receiver.takes, atKey]
      · simp [Receiver.takes, same target atKey]

theorem push_isNone (db : Db F) (place : Where) (target : Sds) (values : List Sds)
    : (db.push place target values).isNone = (db.push .head target []).isNone := by
  unfold ObjectDb.push
  split <;> rfl

theorem wrongType_congr {now : Int} {before after : Db F}
    (dict : after.dict target = before.dict target)
    (expires : after.expires target = before.expires target)
    : after.wrongType now target = before.wrongType now target := by
  simp only [ObjectDb.wrongType, ObjectDb.isExpired, ObjectDb.push, dict, expires]
  cases before.dict target with
  | none => rfl
  | some value => cases value <;> rfl

theorem sameTakers_store (db : Db F) (now : Int) (key : Sds) (value : Value F)
    : SameTakers now key db (db.store key value) :=
  sameTakers_of_wrongType
    (fun _ different => wrongType_congr (Function.update_of_ne different _ _) rfl) rfl

theorem Served.expireIfNeeded (served : Served env stream start key lost items run)
    (different : target ≠ key)
    : Served env stream start key lost items (run.expireIfNeeded env .master target)
      ∧ SameTakers env.now key run.db (run.expireIfNeeded env .master target).db
      ∧ (run.expireIfNeeded env .master target).db.isExpired env.now target = false := by
  unfold Run.expireIfNeeded
  split
  · rename_i expired
    have gone : (run.db.dbDelete target).isExpired env.now target = false := by
      simp [ObjectDb.isExpired, ObjectDb.dbDelete]
    have list : (run.db.dbDelete target).dict key = some (.list items) :=
      (Function.update_of_ne different.symm _ _).trans served.list
    have time : (run.db.dbDelete target).expires key = run.db.expires key :=
      Function.update_of_ne different.symm _ _
    have deleted : (run.db.dbDelete target).deleteIfEmpty key
        = (run.db.deleteIfEmpty key).dbDelete target := by
      simp only [ObjectDb.deleteIfEmpty, list, served.list]
      cases items with
      | nil =>
          refine ObjectDb.ext ?_ ?_
          · exact Function.update_comm different _ _ _
          · exact Function.update_comm different _ _ _
      | cons value rest => rfl
    refine ⟨⟨list, ?_, ?_⟩, sameTakers_of_wrongType ?_ time, gone⟩
    · have live := served.live
      unfold ObjectDb.isExpired at live ⊢
      rw [time]
      exact live
    · have there : ((run.db.deleteIfEmpty key).forget lost key).dict target ≠ none := by
        have kept : (run.db.deleteIfEmpty key).dict target = run.db.dict target := by
          unfold ObjectDb.deleteIfEmpty
          split
          · exact Function.update_of_ne different _ _
          · rfl
        rw [forget_dict, kept]
        exact isExpired_stored expired.2
      rw [replay_append, served.copy, deleted, ← forget_dbDelete]
      cases found : ((run.db.deleteIfEmpty key).forget lost key).dict target with
      | none => exact absurd found there
      | some value =>
          cases stream
            <;> simp [ObjectDb.replay, feed, ObjectDb.execute, Run.call, ObjectDb.del, found]
    · intro other _
      by_cases same : other = target
      · subst same
        have before : run.db.wrongType env.now other = false := by
          simp [ObjectDb.wrongType, expired.2]
        rw [before]
        simp [ObjectDb.wrongType, ObjectDb.push, ObjectDb.dbDelete]
      · exact wrongType_congr (Function.update_of_ne same _ _) (Function.update_of_ne same _ _)
  · rename_i fresh
    have notExpired : run.db.isExpired env.now target = false := by simpa using fresh
    exact ⟨served, ⟨fun _ => rfl, rfl⟩, notExpired⟩

theorem expireIfNeeded_store (different : target ≠ key) (value : Value F)
    : Run.expireIfNeeded env .master ⟨run.db.store key value, run.propagated⟩ target
      = ⟨(run.expireIfNeeded env .master target).db.store key value,
          (run.expireIfNeeded env .master target).propagated⟩ := by
  have same : (run.db.store key value).isExpired env.now target = run.db.isExpired env.now target :=
    rfl
  simp only [Run.expireIfNeeded, same]
  split
  · rw [store_dbDelete different]
  · rfl

theorem execute_pop {db : Db F} {place : Where} (list : db.dict key = some (.list items))
    (popped : listTypePop place items = some (value, rest))
    : db.execute env (.pop place key) = (db.store key (.list rest)).deleteIfEmpty key := by
  simp [ObjectDb.execute, Run.call, ObjectDb.pop, list, popped]

theorem Served.pop (served : Served env stream start key lost items run) {place : Where}
    (popped : listTypePop place items = some (value, rest))
    : (start.replay env stream run.propagated).execute env (.pop place key)
      = ((run.db.store key (.list rest)).deleteIfEmpty key).forget lost key := by
  have there : run.db.deleteIfEmpty key = run.db := by
    cases items with
    | nil => cases place <;> cases popped
    | cons first more => exact deleteIfEmpty_cons served.list
  have list : (run.db.forget lost key).dict key = some (.list items) := by
    rw [forget_dict]
    exact served.list
  rw [served.copy, there, execute_pop list popped, forget_store, forget_deleteIfEmpty]

theorem replay_pop_lpush (db : Db F) (target value : Sds)
    : db.replay env stream [.pop .tail key, .lpush target [value]]
      = ((db.execute env (.pop .tail key)).push .head target [value]).getD
          (db.execute env (.pop .tail key)) := by
  cases stream <;> simp [ObjectDb.replay, feed, ObjectDb.execute, Run.call]

theorem length_popped {place : Where} (popped : listTypePop place items = some (value, rest))
    : rest.length + 1 = items.length := by
  rw [← listTypePush_pop popped]
  cases place <;> simp [listTypePush]

theorem Served.move (served : Served env stream start key lost items run)
    (popped : listTypePop .tail items = some (value, rest)) (different : target ≠ key)
    : ∃ left, Served env stream start key lost left
          (Run.serveClientBlockedOnList env ⟨run.db.store key (.list rest), run.propagated⟩ key
            (.brpoplpush target) value rest)
        ∧ left.length + (if Receiver.takes run.db env.now key (.brpoplpush target) then 1 else 0)
          = items.length
        ∧ SameTakers env.now key run.db
            (Run.serveClientBlockedOnList env ⟨run.db.store key (.list rest), run.propagated⟩ key
              (.brpoplpush target) value rest).db := by
  obtain ⟨looked, takers, live⟩ := served.expireIfNeeded different
  have takes : Receiver.takes run.db env.now key (.brpoplpush target)
      = ((run.expireIfNeeded env .master target).db.push .head target []).isSome := by
    rw [← takers.takes]
    simp [Receiver.takes, different, ObjectDb.wrongType, live]
  unfold Run.serveClientBlockedOnList
  simp only [expireIfNeeded_store different]
  generalize run.expireIfNeeded env .master target = found at looked takers live takes ⊢
  have elsewhere : (found.db.store key (.list rest)).dict target = found.db.dict target :=
    Function.update_of_ne different _ _
  have kind : ((found.db.store key (.list rest)).push .head target [value]).isNone
      = (found.db.push .head target []).isNone := by
    rw [← push_isNone found.db .head target [value]]
    simp only [ObjectDb.push, elsewhere]
    split <;> rfl
  cases pushed : (found.db.store key (.list rest)).push .head target [value] with
  | none =>
      rw [pushed] at kind
      have restored : (found.db.store key (.list rest)).store key
          (.list (listTypePush .tail rest value)) = found.db := by
        rw [ObjectDb.store_store, listTypePush_pop popped, store_eq_self looked.list]
      have none : found.db.push .head target [] = none := Option.isNone_iff_eq_none.mp kind.symm
      refine ⟨items, ?_, ?_, ?_⟩
      · simpa only [restored] using looked
      · simp [takes, none]
      · simpa only [restored] using takers
  | some db =>
      rw [pushed] at kind
      have isSome : (found.db.push .head target []).isSome = true := by
        rw [← Option.not_isNone, ← kind]
        rfl
      -- The push stores a list at the destination and changes nothing else.
      obtain ⟨stored, rfl⟩ : ∃ stored,
          db = (found.db.store key (.list rest)).store target (.list stored) := by
        unfold ObjectDb.push at pushed
        split at pushed
        · exact ⟨_, (Option.some.inj pushed).symm⟩
        · exact ⟨_, (Option.some.inj pushed).symm⟩
        · cases pushed
      have list : ((found.db.store key (.list rest)).store target (.list stored)).dict key
          = some (.list rest) :=
        (Function.update_of_ne different.symm _ _).trans (Function.update_self ..)
      refine ⟨rest, ⟨list, looked.live, ?_⟩, ?_, ?_⟩
      · dsimp only
        rw [replay_append, replay_pop_lpush, looked.pop popped, forget_push,
          push_deleteIfEmpty different, pushed]
        rfl
      · rw [takes, isSome]
        exact length_popped popped
      · refine (takers.trans (sameTakers_store found.db env.now key (.list rest))).trans ?_
        refine sameTakers_of_wrongType ?_ rfl
        intro other _
        by_cases same : other = target
        · subst same
          have before : (found.db.store key (.list rest)).wrongType env.now other = false := by
            have same := push_isNone (found.db.store key (.list rest)) .head other [value]
            rw [pushed] at same
            simp [ObjectDb.wrongType, ← same]
          rw [before]
          simp [ObjectDb.wrongType, ObjectDb.push, ObjectDb.store]
        · exact wrongType_congr (Function.update_of_ne same _ _) rfl

theorem Served.rotate (served : Served env stream start key lost items run)
    (popped : listTypePop .tail items = some (value, rest))
    : Served env stream start key (lost || decide (items.length = 1)) (value :: rest)
          (Run.serveClientBlockedOnList env ⟨run.db.store key (.list rest), run.propagated⟩ key
            (.brpoplpush key) value rest)
        ∧ SameTakers env.now key run.db
            (Run.serveClientBlockedOnList env ⟨run.db.store key (.list rest), run.propagated⟩ key
              (.brpoplpush key) value rest).db := by
  have live : (run.db.store key (.list rest)).isExpired env.now key = false := served.live
  have looked : Run.expireIfNeeded env .master ⟨run.db.store key (.list rest), run.propagated⟩ key
      = ⟨run.db.store key (.list rest), run.propagated⟩ := if_neg (by simp [live])
  have pushed : (run.db.store key (.list rest)).push .head key [value]
      = some (run.db.store key (.list (value :: rest))) := by
    have list : (run.db.store key (.list rest)).dict key = some (.list rest) :=
      Function.update_self ..
    simp only [ObjectDb.push, list, ObjectDb.store_store]
    rfl
  have list : (run.db.store key (.list (value :: rest))).dict key = some (.list (value :: rest)) :=
    Function.update_self ..
  unfold Run.serveClientBlockedOnList
  simp only [looked, pushed]
  refine ⟨⟨list, served.live, ?_⟩, sameTakers_store run.db env.now key _⟩
  dsimp only
  rw [replay_append, replay_pop_lpush, served.pop popped, forget_push, deleteIfEmpty_cons list,
    ← length_popped popped]
  cases rest with
  | nil =>
      have deleted : (run.db.store key (.list [])).deleteIfEmpty key
          = (run.db.store key (.list [])).dbDelete key := by
        simp [ObjectDb.deleteIfEmpty, ObjectDb.store]
      have created : ((run.db.store key (.list [])).dbDelete key).push .head key [value]
          = some ((run.db.store key (.list [value])).removeExpire key) := by
        simp only [ObjectDb.push, ObjectDb.dbDelete, Function.update_self]
        refine congrArg some (ObjectDb.ext ?_ rfl)
        simp [ObjectDb.store, ObjectDb.removeExpire, listTypePush]
      rw [deleted, created]
      cases lost with
      | false => rfl
      | true =>
          refine ObjectDb.ext rfl ?_
          simp [ObjectDb.forget, ObjectDb.removeExpire]
  | cons next more =>
      have kept : (run.db.store key (.list (next :: more))).deleteIfEmpty key
          = run.db.store key (.list (next :: more)) := deleteIfEmpty_cons (Function.update_self ..)
      rw [kept, pushed]
      simp

theorem Served.serveClient (served : Served env stream start key lost items run)
    (filled : items ≠ []) (receiver : Receiver)
    : ∃ next left, run.serveClient env key receiver = some next
        ∧ Served env stream start key
            (lost || (receiver = .brpoplpush key && decide (items.length = 1))) left next
        ∧ left.length + (if receiver.takes run.db env.now key then 1 else 0) = items.length
        ∧ SameTakers env.now key run.db next.db := by
  have nonempty : listTypePop receiver.place items ≠ none := by
    obtain ⟨first, more, rfl⟩ := List.exists_cons_of_ne_nil filled
    cases receiver.place <;> simp [listTypePop]
  obtain ⟨⟨value, rest⟩, popped⟩ := Option.ne_none_iff_exists'.mp nonempty
  simp only [Run.serveClient, served.list, popped, Option.map_some]
  cases receiver with
  | bpop place =>
      have list : (run.db.store key (.list rest)).dict key = some (.list rest) :=
        Function.update_self ..
      refine ⟨_, rest, rfl, ⟨list, served.live, ?_⟩, length_popped popped,
        sameTakers_store run.db env.now key _⟩
      have taken := served.pop popped
      simp only [Receiver.place] at taken
      simp only [Run.serveClientBlockedOnList, replay_append]
      cases stream <;> simpa [ObjectDb.replay, feed] using taken
  | brpoplpush target =>
      by_cases same : target = key
      · subst same
        obtain ⟨next, takers⟩ := served.rotate popped
        refine ⟨_, value :: rest, rfl, by simpa using next, ?_, takers⟩
        simpa [Receiver.takes] using length_popped popped
      · obtain ⟨left, next, length, takers⟩ := served.move popped same
        exact ⟨_, left, rfl, by simpa [same] using next, length, takers⟩

theorem movesLast_cons (db : Db F) (now : Int) (length : Nat) (receiver : Receiver)
    (receivers : List Receiver)
    : MovesLast db now key length (receiver :: receivers)
      ↔ (receiver = .brpoplpush key ∧ length = 1)
        ∨ MovesLast db now key (length - if receiver.takes db now key then 1 else 0) receivers := by
  constructor
  · rintro ⟨before, after, split, taken⟩
    cases before with
    | nil =>
        obtain ⟨rfl, rfl⟩ := List.cons.inj split
        exact .inl ⟨rfl, by simpa using taken.symm⟩
    | cons first before =>
        obtain ⟨rfl, rfl⟩ := List.cons.inj split
        rw [List.countP_cons] at taken
        exact .inr ⟨before, after, rfl, by omega⟩
  · rintro (⟨rfl, rfl⟩ | ⟨before, after, rfl, taken⟩)
    · exact ⟨[], receivers, rfl, rfl⟩
    · refine ⟨receiver :: before, after, rfl, ?_⟩
      rw [List.countP_cons]
      omega

theorem Served.serveClients (receivers : List Receiver)
    (served : Served env stream start key lost items run)
    : ∃ left forgotten,
        Served env stream start key forgotten left (run.serveClients env key receivers)
        ∧ left.length = items.length - receivers.countP (Receiver.takes run.db env.now key)
        ∧ (forgotten = true ↔ lost = true ∨ MovesLast run.db env.now key items.length receivers)
        ∧ (run.serveClients env key receivers).db.expires key = run.db.expires key := by
  induction receivers generalizing run lost items with
  | nil =>
      refine ⟨items, lost, served, by simp, ?_, rfl⟩
      simp [MovesLast]
  | cons receiver receivers ih =>
      by_cases filled : items = []
      · subst filled
        have stopped : run.serveClient env key receiver = none := by
          simp only [Run.serveClient, served.list]
          cases receiver.place <;> rfl
        refine ⟨[], lost, ?_, by simp, ?_, ?_⟩
        · simpa [Run.serveClients, stopped] using served
        · simp [MovesLast]
        · simp [Run.serveClients, stopped]
      · obtain ⟨next, left, done, nextServed, length, takers⟩ := served.serveClient filled receiver
        obtain ⟨last, forgotten, lastServed, lastLength, forgot, time⟩ := ih nextServed
        have same : Receiver.takes next.db env.now key = Receiver.takes run.db env.now key :=
          funext takers.takes
        have one : left.length
            = items.length - if receiver.takes run.db env.now key then 1 else 0 := by omega
        simp only [Run.serveClients, done]
        refine ⟨last, forgotten, lastServed, ?_, ?_, time.trans takers.time⟩
        · rw [lastLength, same, List.countP_cons]
          omega
        · have moves : MovesLast next.db env.now key left.length receivers
              ↔ MovesLast run.db env.now key left.length receivers := by
            unfold MovesLast
            rw [same]
          rw [forgot, moves, one, movesLast_cons, ← or_assoc]
          simp

-- One key

theorem handleReadyKey_copy (reproduced : Reproduced env stream start run)
    (live : run.db.isExpired env.now key = false) (list : run.db.dict key = some (.list items))
    (filled : items ≠ []) (receivers : List Receiver)
    : ∃ forgotten, start.replay env stream (run.handleReadyKey env key receivers).propagated
          = (run.handleReadyKey env key receivers).db.forget forgotten key
        ∧ (forgotten = true ↔ MovesLast run.db env.now key items.length receivers)
        ∧ (run.handleReadyKey env key receivers).db.expires key
          = if receivers.countP (Receiver.takes run.db env.now key) < items.length then
              run.db.expires key
            else none := by
  have looked : run.expireIfNeeded env .master key = run := if_neg (by simp [live])
  have first : Served env stream start key false items run := by
    refine ⟨list, live, ?_⟩
    obtain ⟨value, rest, rfl⟩ := List.exists_cons_of_ne_nil filled
    rw [deleteIfEmpty_cons list]
    exact reproduced
  obtain ⟨left, forgotten, last, length, forgot, time⟩ := first.serveClients receivers
  simp only [Run.handleReadyKey, looked, list]
  refine ⟨forgotten, last.copy, by simpa using forgot, ?_⟩
  cases left with
  | nil =>
      have none : ¬ receivers.countP (Receiver.takes run.db env.now key) < items.length := by
        simp only [List.length_nil] at length
        omega
      rw [if_neg none]
      simp [ObjectDb.deleteIfEmpty, last.list, ObjectDb.dbDelete]
  | cons value rest =>
      have some : receivers.countP (Receiver.takes run.db env.now key) < items.length := by
        simp only [List.length_cons] at length
        omega
      rw [if_pos some, deleteIfEmpty_cons last.list]
      exact time

end Clients

-- Every command

/-- What a master does: a command of a client, or a ready key with the clients blocked on it. -/
inductive Action where
  | command (request : Request)
  | ready (key : Sds) (receivers : List Receiver)

/-- The database after an action, and what was propagated. -/
def ObjectDb.perform (db : Db F) : Action → Run F
  | .command request => Run.call env .master ⟨db, []⟩ request
  | .ready key receivers => Run.handleReadyKey env ⟨db, []⟩ key receivers

/-- A key that has a time keeps it on the master, but not on the copy: its value is incremented by
`INCRBYFLOAT`, or its last element is moved to the key itself for a blocked client.
-/
def LosesExpire (db : Db F) : Action → Prop
  | .command (.incrbyfloat key increment) =>
      db.expires key ≠ none ∧ db.isExpired env.now key = false
      ∧ db.incremented env key increment ≠ none
  | .ready key receivers =>
      db.expires key ≠ none ∧ db.isExpired env.now key = false
      ∧ ∃ items, db.dict key = some (.list items)
        ∧ RotatesLast db env.now key items.length receivers
  | _ => False

/-- No list is empty: the commands and `handleClientsBlockedOnLists` delete such lists. -/
def ObjectDb.NoEmptyList (db : Db F) : Prop := ∀ key, db.dict key ≠ some (.list [])

section Actions

variable {env : Environment L} {stream : Stream} {db : Db F} {key : Sds}

theorem forget_ne {lost : Bool} (carried : db.expires key ≠ none)
    : db.forget lost key = db ↔ lost = false := by
  cases lost with
  | false => simp [ObjectDb.forget]
  | true =>
      refine iff_of_false ?_ (by simp)
      intro same
      apply carried
      rw [← same]
      simp [ObjectDb.forget, ObjectDb.removeExpire]

theorem expireIfNeeded_start (env : Environment L) (db : Db F) (key : Sds)
    : (db.isExpired env.now key = false ∧ Run.expireIfNeeded env .master ⟨db, []⟩ key = ⟨db, []⟩)
      ∨ ((Run.expireIfNeeded env .master ⟨db, []⟩ key).db.expires key = none
        ∧ (Run.expireIfNeeded env .master ⟨db, []⟩ key).db.dict key = none
        ∧ db.isExpired env.now key = true) := by
  cases expired : db.isExpired env.now key with
  | false => exact .inl ⟨rfl, if_neg (by simp [expired])⟩
  | true =>
      right
      have deleted : Run.expireIfNeeded env .master ⟨db, []⟩ key = ⟨db.dbDelete key, [.del key]⟩ :=
        if_pos ⟨rfl, expired⟩
      rw [deleted]
      exact ⟨Function.update_self .., Function.update_self .., rfl⟩

theorem reproduced_start (db : Db F) : Reproduced env stream db ⟨db, []⟩ := rfl

theorem incrbyfloat_loses {increment : Sds} (carried : db.expires key ≠ none)
    (live : db.isExpired env.now key = false) (done : db.incremented env key increment ≠ none)
    : (db.perform env (.command (.incrbyfloat key increment))).db.expires key ≠ none
      ∧ (db.replay env stream
          (db.perform env (.command (.incrbyfloat key increment))).propagated).expires key
            = none := by
  obtain ⟨text, result⟩ := Option.ne_none_iff_exists'.mp done
  have looked : Run.expireIfNeeded env .master ⟨db, []⟩ key = ⟨db, []⟩ := if_neg (by simp [live])
  simp only [ObjectDb.perform, Run.call, looked, Run.incrbyfloat, result, Run.change]
  refine ⟨carried, ?_⟩
  have fed : feed env stream (.set key text []) = [.set key text []] := by cases stream <;> rfl
  simp [ObjectDb.replay, fed, execute_set, ObjectDb.setKey, ObjectDb.removeExpire]

theorem ready_copy (filled : db.NoEmptyList) (key : Sds) (receivers : List Receiver)
    : (¬ LosesExpire env db (.ready key receivers)
        → Reproduced env stream db (db.perform env (.ready key receivers)))
      ∧ (LosesExpire env db (.ready key receivers)
        → (db.perform env (.ready key receivers)).db.expires key ≠ none
          ∧ (db.replay env stream (db.perform env (.ready key receivers)).propagated).expires key
            = none) := by
  have start : Reproduced env stream db ⟨db, []⟩ := reproduced_start db
  rcases expireIfNeeded_start env db key with ⟨live, looked⟩ | ⟨_, absent, expired⟩
  · by_cases list : ∃ items, db.dict key = some (.list items)
    · obtain ⟨items, found⟩ := list
      have some : items ≠ [] := by
        rintro rfl
        exact filled key found
      obtain ⟨forgotten, copy, forgot, time⟩ := handleReadyKey_copy start live found some receivers
      constructor
      · intro kept
        refine copy.trans ?_
        by_cases carried : (Run.handleReadyKey env ⟨db, []⟩ key receivers).db.expires key = none
        · cases forgotten with
          | false => rfl
          | true => exact removeExpire_eq_self carried
        · refine (forget_ne carried).mpr (Bool.eq_false_iff.mpr ?_)
          intro moved
          rw [time] at carried
          split at carried
          · rename_i remains
            exact kept ⟨carried, live, items, found, forgot.mp moved, remains⟩
          · exact carried rfl
      · rintro ⟨carried, _, others, same, moved, remains⟩
        obtain rfl : others = items := by
          have equal := same.symm.trans found
          simpa using equal
        rw [if_pos remains] at time
        have lost : forgotten = true := forgot.mpr moved
        refine ⟨?_, ?_⟩
        · rw [ObjectDb.perform, time]
          exact carried
        · rw [ObjectDb.perform, copy, lost]
          simp [ObjectDb.forget, ObjectDb.removeExpire]
    · have untouched : Run.handleReadyKey env ⟨db, []⟩ key receivers = ⟨db, []⟩ := by
        simp only [Run.handleReadyKey, looked]
        split
        · rename_i items found
          exact absurd ⟨items, found⟩ list
        · rfl
      constructor
      · intro _
        rw [ObjectDb.perform, untouched]
        exact start
      · rintro ⟨_, _, items, found, _⟩
        exact absurd ⟨items, found⟩ list
  · have deleted : Run.handleReadyKey env ⟨db, []⟩ key receivers
        = Run.expireIfNeeded env .master ⟨db, []⟩ key := by
      simp only [Run.handleReadyKey, absent]
    constructor
    · intro _
      rw [ObjectDb.perform, deleted]
      exact start.expireIfNeeded .master key
    · rintro ⟨_, live, _⟩
      rw [expired] at live
      cases live

theorem command_copy (request : Request) (kept : ¬ LosesExpire env db (.command request))
    : Reproduced env stream db (db.perform env (.command request)) := by
  refine (reproduced_start db).call request ?_
  rintro key increment rfl done
  rcases expireIfNeeded_start env db key with ⟨live, looked⟩ | ⟨none, _, _⟩
  · rw [looked] at done ⊢
    by_contra carried
    exact kept ⟨carried, live, done⟩
  · exact none

/-- Replaying what the master propagates for an action gives the same keys, values and times, unless
the action is an `INCRBYFLOAT` of a key with a time, or moves the last element of a list with a
time to the list itself for a blocked client; then the copy has no time for that key.
-/
theorem propagated_reproduces (env : Environment L) (stream : Stream) (db : Db F)
    (filled : db.NoEmptyList) (action : Action)
    : (db.replay env stream (db.perform env action).propagated = (db.perform env action).db
        ↔ ¬ LosesExpire env db action)
      ∧ (LosesExpire env db action → ∃ key, (db.perform env action).db.expires key ≠ none
          ∧ (db.replay env stream (db.perform env action).propagated).expires key = none) := by
  have loses : LosesExpire env db action → ∃ key, (db.perform env action).db.expires key ≠ none
      ∧ (db.replay env stream (db.perform env action).propagated).expires key = none := by
    intro lost
    cases action with
    | ready key receivers => exact ⟨key, (ready_copy filled key receivers).2 lost⟩
    | command request =>
        cases request with
        | incrbyfloat key increment =>
            obtain ⟨carried, live, done⟩ := lost
            exact ⟨key, incrbyfloat_loses carried live done⟩
        | set | setex | psetex | getset | spop | srem | hincrbyfloat | hset | pop | bpop
            | brpoplpush
        | lpush | del | pexpireat => exact lost.elim
  refine ⟨⟨?_, ?_⟩, loses⟩
  · intro same lost
    obtain ⟨key, carried, none⟩ := loses lost
    rw [same] at none
    exact carried none
  · intro kept
    cases action with
    | ready key receivers => exact (ready_copy filled key receivers).1 kept
    | command request => exact command_copy request kept

end Actions

/-- Numbers without a fraction. -/
noncomputable def wholeNumbers (now : Int) : Environment Int where
  now := now
  parse := getLongLongFromObject
  zero := 0
  add := (· + ·)
  isNanOrInf _ := false
  text := decimalText
  random members := members.toList.head?
  random_mem _ _ chosen := Finset.mem_toList.mp (List.mem_of_mem_head? chosen)

/-- The key `k` has the value 10. -/
def tenAtK : Db Unit := ObjectDb.empty.store [0x6B] (.string [0x31, 0x30])

theorem tenAtK_noEmptyList : tenAtK.NoEmptyList := by
  intro key
  by_cases same : key = [0x6B]
  · simp [tenAtK, ObjectDb.store, same]
  · simp [tenAtK, ObjectDb.store, ObjectDb.empty, same]

/-- Adding 5 to a key without a time. -/
theorem propagated_reproduces_ten
    : tenAtK.replay (wholeNumbers 1000) .slaves
        (tenAtK.perform (wholeNumbers 1000) (.command (.incrbyfloat [0x6B] [0x35]))).propagated
      = (tenAtK.perform (wholeNumbers 1000) (.command (.incrbyfloat [0x6B] [0x35]))).db :=
  (propagated_reproduces (wholeNumbers 1000) .slaves tenAtK tenAtK_noEmptyList
    (.command (.incrbyfloat [0x6B] [0x35]))).1.mpr (fun lost => lost.1 rfl)

/-- Adding 5 to a key that expires at 5000 clears the time on the copy. -/
theorem incrbyfloat_clears_expire
    : ((tenAtK.setExpire [0x6B] 5000).perform (wholeNumbers 1000)
          (.command (.incrbyfloat [0x6B] [0x35]))).db.expires [0x6B] ≠ none
      ∧ ((tenAtK.setExpire [0x6B] 5000).replay (wholeNumbers 1000) .slaves
          ((tenAtK.setExpire [0x6B] 5000).perform (wholeNumbers 1000)
            (.command (.incrbyfloat [0x6B] [0x35]))).propagated).expires [0x6B] = none := by
  refine incrbyfloat_loses ?_ ?_ ?_
  · decide
  · decide
  · decide

end Redis.Keyspace
