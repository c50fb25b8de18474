import Redis.Watch.Detection

/-! The requests that change a key and signal nothing, and what all the others do. -/

namespace Redis.Watch

open Redis.Keyspace

variable {F L : Type}

section Requests

variable {setting : Setting F L} {moment : Moment} {id : Nat} {s t u : Server F} {key : Sds}

/-- `lookupKeyWrite` finds a key. -/
def Server.finds (moment : Moment) (id : Nat) (s : Server F) (key : Sds) : Bool :=
  (((s.expireIfNeeded moment id key).dbs id).dict key).isSome

/-- A request changes a key and signals nothing: `MOVE` of a key, `PERSIST` of a key that expires,
`PFADD` that fails behind a change, `ZADD` of no element to a missing key, and the deletion of the
empty sorted set that it leaves.
-/
def Server.Silent (setting : Setting F L) (moment : Moment) (id : Nat) (s : Server F)
    : Request → Prop
  | .move key index =>
      setting.config.clusterEnabled = false
      ∧ ∃ target,
          moveTarget setting.config index = some target
          ∧ target ≠ id
          ∧ s.finds moment id key = true
          ∧ s.finds moment target key = false
  | .persist key => (s.dbs id).expires key ≠ none
  | .pfadd key elements =>
      FailsBehindChange setting.hll ((s.expireIfNeeded moment id key).dbs id) key elements
  | .zadd key args =>
      CreatesEmpty setting.scores ((s.expireIfNeeded moment id key).dbs id) .none key args
  | .zincrby key increment member =>
      CreatesEmpty setting.scores ((s.expireIfNeeded moment id key).dbs id)
        { ZaddFlags.none with incr := true } key [increment, member]
  | .zremrange type key min max =>
      DeletesEmpty setting.sortedSets ((s.expireIfNeeded moment id key).dbs id) type key min max
  | _ => False

theorem expireIfNeeded_other {other : Nat} (different : other ≠ id) (moment : Moment)
    (s : Server F) (key : Sds)
    : (s.expireIfNeeded moment id key).dbs other = s.dbs other := by
  unfold Server.expireIfNeeded
  split
  · exact setDb_dbs_other different s _
  · rfl

theorem finds_other {other : Nat} (different : other ≠ id) (moment : Moment) (s : Server F)
    (first second : Sds)
    : (s.expireIfNeeded moment id first).finds moment other second
      = s.finds moment other second := by
  have same := expireIfNeeded_other different moment s first
  unfold Server.finds Server.expireIfNeeded at *
  rw [same]
  split
  · rw [setDb_dbs_self, setDb_dbs_self]
  · rw [same]

theorem detects_moveCommand {index : Sds} (loud : ¬ s.Silent setting moment id (.move key index))
    : Detects moment s (s.moveCommand setting moment id key index) := by
  have expired := detects_expireIfNeeded moment id s key
  rw [Server.moveCommand]
  split
  · exact .refl moment s
  · rename_i notCluster
    split
    · exact .refl moment s
    · rename_i target accepted
      split
      · exact .refl moment s
      · rename_i different
        dsimp only
        split
        · exact expired
        · rename_i value found
          have expired' :=
            expired.trans
              (detects_expireIfNeeded moment target (s.expireIfNeeded moment id key) key)
          split
          · exact expired'
          · rename_i absent
            refine absurd ⟨Bool.eq_false_iff.mpr notCluster, target, accepted, different, ?_, ?_⟩
              loud
            · rw [Server.finds, found]
              rfl
            · rw [← finds_other different moment s key key, Server.finds, not_not.mp absent]
              rfl

theorem detects_persistCommand (loud : ¬ s.Silent setting moment id (.persist key))
    : Detects moment s (s.persistCommand id key) := by
  rw [Server.persistCommand]
  split
  · exact .refl moment s
  · have same : (s.dbs id).removeExpire key = s.dbs id :=
      ObjectDb.ext rfl (Function.update_eq_self_iff.mpr (not_not.mp loud).symm)
    rw [setDb_self same]
    exact .refl moment s

/-- A request that is not silent flags all the watchers of the keys that it changes. -/
theorem detects_execute (consistent : s.Consistent) {request : Request}
    (loud : ¬ s.Silent setting moment id request)
    : Detects moment s (s.execute setting moment id request) := by
  cases request with
  | set key value options =>
      rw [Server.execute]
      split
      · exact .refl moment s
      · exact detects_setGenericCommand ..
  | setnx key value => exact detects_setGenericCommand ⟨true, false, none⟩ key value
  | setex => exact detects_setGenericCommand ..
  | psetex => exact detects_setGenericCommand ..
  | getset => exact detects_lookup_write fun _ _ => getset_only
  | setrange => exact detects_setrangeCommand ..
  | mset => exact detects_msetGenericCommand ..
  | msetnx => exact detects_msetGenericCommand ..
  | incr => exact detects_lookup_write fun _ _ => incrDecr_only
  | decr => exact detects_lookup_write fun _ _ => incrDecr_only
  | incrby =>
      rw [Server.execute]
      split
      · exact .refl moment s
      · exact detects_lookup_write fun _ _ => incrDecr_only
  | decrby =>
      rw [Server.execute]
      split
      · exact .refl moment s
      · exact detects_lookup_write fun _ _ => incrDecr_only
  | incrbyfloat => exact detects_lookup_write fun _ _ => incrbyfloat_only
  | append => exact detects_lookup_write fun _ _ => append_only
  | setbit => exact detects_setbitCommand ..
  | bitop => exact detects_bitopCommand ..
  | pfadd => exact detects_pfaddCommand loud
  | pfmerge => exact detects_pfmergeCommand ..
  | del keys => exact detects_delCommand keys
  | rename => exact detects_renameGenericCommand ..
  | renamenx => exact detects_renameGenericCommand ..
  | move => exact detects_moveCommand loud
  | expire => exact detects_expireGenericCommand ..
  | pexpire => exact detects_expireGenericCommand ..
  | expireat => exact detects_expireGenericCommand ..
  | pexpireat => exact detects_expireGenericCommand ..
  | persist => exact detects_persistCommand loud
  | flushdb => exact detects_flushdbCommand consistent
  | flushall => exact detects_flushallCommand consistent
  | zadd => exact detects_zaddGenericCommand loud
  | zincrby => exact detects_zaddGenericCommand loud
  | zrem => exact detects_zremCommand ..
  | zremrange => exact detects_zremrangeGenericCommand loud
  | zunionInter => exact detects_zunionInterGenericCommand ..
  | read keys => exact detects_expireKeys moment id s keys
  | select => exact .refl moment s
  | unwatch => exact .refl moment s

theorem touches_write (s : Server F) (id : Nat) (key : Sds) (result : Option (Db F))
    : Touches s (s.write id key result) := by
  cases result with
  | none => exact .refl s
  | some db => exact (touches_setDb s id db).trans (touches_signal _ id key)

theorem touches_zaddGenericCommand (flags : ZaddFlags) (key : Sds) (args : List Sds)
    : Touches s (s.zaddGenericCommand setting moment id flags key args) := by
  have expired := (detects_expireIfNeeded moment id s key).toTouches
  rw [Server.zaddGenericCommand]
  split
  · exact .refl s
  · dsimp only
    split
    · exact expired
    · split
      · exact expired.trans (touches_write ..)
      · exact expired.trans (touches_setDb ..)

theorem touches_execute (consistent : s.Consistent) (request : Request)
    : Touches s (s.execute setting moment id request) := by
  by_cases silent : s.Silent setting moment id request
  case neg => exact (detects_execute consistent silent).toTouches
  case pos =>
    cases request with
    | move key index =>
        have expired := (detects_expireIfNeeded moment id s key).toTouches
        rw [Server.execute, Server.moveCommand]
        dsimp only
        repeat' split
        · exact .refl s
        · exact .refl s
        · exact .refl s
        · exact expired
        · exact expired.trans (detects_expireIfNeeded ..).toTouches
        · exact (expired.trans (detects_expireIfNeeded ..).toTouches).trans
            ((touches_setDb ..).trans (touches_setDb ..))
    | persist key =>
        rw [Server.execute, Server.persistCommand]
        split
        · exact .refl s
        · exact touches_setDb ..
    | pfadd key elements =>
        have expired := (detects_expireIfNeeded moment id s key).toTouches
        rw [Server.execute, Server.pfaddCommand]
        dsimp only
        repeat' split
        · exact expired
        · exact expired.trans (touches_setDb ..)
        · exact expired.trans (touches_write ..)
        · exact expired.trans (touches_setDb ..)
    | zadd key args => exact touches_zaddGenericCommand ..
    | zincrby key increment member => exact touches_zaddGenericCommand ..
    | zremrange type key min max =>
        have expired := (detects_expireIfNeeded moment id s key).toTouches
        rw [Server.execute, Server.zremrangeGenericCommand]
        dsimp only
        repeat' split
        · exact .refl s
        · exact expired
        · exact expired.trans (touches_write ..)
        · exact expired.trans (touches_setDb ..)
        · exact expired
    | _ => exact silent.elim

end Requests

section Silence

variable {setting : Setting F L} {moment : Moment} {id : Nat} {s : Server F} {key : Sds}

theorem dbDelete_dict (db : Db F) (key : Sds) : (db.dbDelete key).dict key = none :=
  Function.update_self ..

theorem removeExpire_expires (db : Db F) (key : Sds) : (db.removeExpire key).expires key = none :=
  Function.update_self ..

theorem expireIfNeeded_clients (moment : Moment) (id : Nat) (s : Server F) (key : Sds)
    : (s.expireIfNeeded moment id key).clients = s.clients := by
  unfold Server.expireIfNeeded
  split
  · rfl
  · rfl

/-- A key that a lookup finds had not expired, and the lookup has changed nothing. -/
theorem expireIfNeeded_found {value : Value F}
    (found : ((s.expireIfNeeded moment id key).dbs id).dict key = some value)
    : s.expireIfNeeded moment id key = s
      ∧ ¬ (moment.role = .master ∧ (s.dbs id).isExpired moment.now key = true) := by
  unfold Server.expireIfNeeded at found ⊢
  split at found
  · rw [setDb_dbs_self, dbDelete_dict] at found
    cases found
  · rename_i notExpired
    exact ⟨if_neg notExpired, notExpired⟩

theorem expireIfNeeded_absent
    (absent : ((s.expireIfNeeded moment id key).dbs id).dict key = none)
    : ((s.expireIfNeeded moment id key).dbs id).expires key = none
      ∧ ((s.dbs id).dict key = none ∨ (s.dbs id).expires key ≠ none) := by
  refine ⟨ObjectDb.expires_in_dict _ key absent, ?_⟩
  unfold Server.expireIfNeeded at absent
  split at absent
  · rename_i expired
    refine .inr fun never => ?_
    rw [ObjectDb.isExpired, never] at expired
    exact Bool.false_ne_true expired.2
  · exact .inl absent

theorem created_changed (absent : ((s.expireIfNeeded moment id key).dbs id).dict key = none)
    (value : Value F)
    : ¬ Unchanged moment (s.dbs id)
        (((s.expireIfNeeded moment id key).dbs id).store key value) key := by
  obtain ⟨never, before⟩ := expireIfNeeded_absent absent
  rintro (⟨dict, expires⟩ | ⟨_, _, gone⟩)
  · rw [ObjectDb.store_dict_self] at dict
    obtain missing | expiring := before
    · rw [missing] at dict
      cases dict
    · exact expiring (expires.symm.trans never)
  · rw [ObjectDb.store_dict_self] at gone
    cases gone

theorem zadd_silent {flags : ZaddFlags} {args : List Sds}
    (silent
      : CreatesEmpty setting.scores ((s.expireIfNeeded moment id key).dbs id) flags key args)
    : (s.zaddGenericCommand setting moment id flags key args).clients = s.clients
      ∧ ∃ id' key',
          ¬ Unchanged moment (s.dbs id')
            ((s.zaddGenericCommand setting moment id flags key args).dbs id') key' := by
  obtain ⟨flags', accepted, notXx, absent⟩ := silent
  have start
      : zaddStart flags' ((s.expireIfNeeded moment id key).dbs id) key = some (fun _ => none) := by
    rw [zaddStart, absent]
    dsimp only
    rw [notXx, if_neg Bool.false_ne_true]
  rw [Server.zaddGenericCommand, accepted]
  dsimp only
  rw [start]
  constructor
  · exact expireIfNeeded_clients ..
  · refine ⟨id, key, ?_⟩
    exact (setDb_dbs_self _ id _).symm ▸ created_changed absent (.zset fun _ => none)

end Silence

end Redis.Watch
