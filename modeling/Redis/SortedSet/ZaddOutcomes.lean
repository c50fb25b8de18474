import Redis.Keyspace.IndexRuns
import Redis.SortedSet.ZaddCommand

/-! When `ZADD` reads only arguments that there are, changes nothing with an error and leaves no
empty sorted set.
-/

namespace Redis.Zadd

open Redis.Library
open Redis.Keyspace (Sds Scores)
open Redis.SideIndexes

section Outcomes

variable {F : Type} {scores : Scores F} {less : F → F → Bool} {limits : Limits}
  {keyHashSlot : Sds → Nat} {argv : List Sds} {flags : Flags} {scoreidx : Nat} {zobj : Zset F}
  {parsed : List F}

-- Sorted sets with elements

theorem zzlInsert_ne_nil (ele : Sds) (score : F) (entries : List (ZsetEntry F))
    : zzlInsert scores less ele score entries ≠ [] := by
  cases entries with
  | nil => exact List.cons_ne_nil _ _
  | cons entry rest =>
      rw [zzlInsert]
      split
      · exact List.cons_ne_nil _ _
      · split <;> exact List.cons_ne_nil _ _

theorem zslInsert_ne_nil (ele : Sds) (score : F) (entries : List (ZsetEntry F))
    : zslInsert scores less ele score entries ≠ [] := by
  cases entries with
  | nil => exact List.cons_ne_nil _ _
  | cons entry rest =>
      rw [zslInsert]
      split <;> exact List.cons_ne_nil _ _

theorem zsetConvert_ne_nil (some : zobj.entries ≠ [])
    : (zsetConvert scores less zobj).entries ≠ [] := by
  cases zobj with
  | skiplist entries => exact some
  | ziplist entries =>
      obtain ⟨init, last, rfl⟩ := (List.eq_nil_or_concat entries).resolve_left some
      rw [zsetConvert, Zset.entries, List.concat_eq_append, List.foldl_append]
      exact zslInsert_ne_nil _ _ _

theorem rescore_ne_nil (ele : Sds) (score : F) (zobj : Zset F)
    : (zobj.rescore scores less ele score).entries ≠ [] := by
  cases zobj with
  | ziplist entries => exact zzlInsert_ne_nil _ _ _
  | skiplist entries => exact zslInsert_ne_nil _ _ _

theorem insert_ne_nil (ele : Sds) (score : F) (zobj : Zset F)
    : (zobj.insert scores less limits ele score).entries ≠ [] := by
  cases zobj with
  | skiplist entries => exact zslInsert_ne_nil _ _ _
  | ziplist entries =>
      have first : (Zset.ziplist (zzlInsert scores less ele score entries)).entries ≠ [] :=
        zzlInsert_ne_nil _ _ _
      unfold Zset.insert
      dsimp only
      split_ifs
      · exact zsetConvert_ne_nil (zsetConvert_ne_nil first)
      · exact zsetConvert_ne_nil first
      · exact zsetConvert_ne_nil first
      · exact first

-- The loops

theorem argvAt_ok {i : Nat} (inside : i < argv.length) : ∃ arg, argvAt argv i = .ok arg := by
  refine ⟨argv.get ⟨i, inside⟩, ?_⟩
  rw [argvAt, List.getElem?_eq_getElem inside]
  rfl

theorem zaddOptions_suffix (flags : Flags) (args : List Sds)
    : (zaddOptions flags args).2 <:+ args := by
  induction args generalizing flags with
  | nil => exact List.suffix_refl []
  | cons opt args ih =>
      have below (flags : Flags) : (zaddOptions flags args).2 <:+ opt :: args :=
        (ih flags).trans (List.suffix_cons opt args)
      rw [zaddOptions]
      split_ifs
      · exact below _
      · exact below _
      · exact below _
      · exact below _
      · exact List.suffix_refl _

theorem parseScores_ok (scores : Scores F) {j elements : Nat}
    (inside : scoreidx + (j + elements) * 2 ≤ argv.length)
    : ∃ result,
        parseScores scores argv scoreidx j elements = .ok result
        ∧ ∀ parsed, result = some parsed → parsed.length = elements := by
  induction elements generalizing j with
  | zero => exact ⟨some [], rfl, fun parsed same => by rw [← Option.some.inj same]; rfl⟩
  | succ elements ih =>
      obtain ⟨text, read⟩ := argvAt_ok (show scoreidx + j * 2 < argv.length by omega)
      rw [parseScores, read, ok_andThen]
      cases scores.parse text with
      | none => exact ⟨none, rfl, fun _ same => nomatch same⟩
      | some score =>
          obtain ⟨result, run, lengths⟩ :=
            ih (show scoreidx + (j + 1 + elements) * 2 ≤ argv.length by omega)
          dsimp only
          rw [run, ok_andThen]
          refine ⟨_, rfl, fun parsed same => ?_⟩
          obtain ⟨rest, rfl, rfl⟩ := Option.map_eq_some_iff.mp same
          rw [List.length_cons, lengths rest rfl]

/-- One element: a sorted set with elements keeps some, and gets the first one unless there is
`ZADD_XX`. Only an increment can fail, and only of an element.
-/
theorem zaddElement_cases (flags : Flags) (ele : Sds) (score : F) (p : Progress F)
    : (∃ next,
        zaddElement scores less limits flags ele score p = some next
        ∧ (p.zobj.entries ≠ [] ∨ flags.xx = false → next.zobj.entries ≠ []))
      ∨ (zaddElement scores less limits flags ele score p = none
        ∧ flags.incr = true
        ∧ p.zobj.entries ≠ []) := by
  unfold zaddElement
  cases found : zsetFind p.zobj.entries ele with
  | none =>
      dsimp only
      split
      · rename_i xx
        refine .inl ⟨_, rfl, ?_⟩
        rintro (some | off)
        · exact some
        · exact absurd (xx.symm.trans off) (by simp)
      · exact .inl ⟨_, rfl, fun _ => insert_ne_nil ele score p.zobj⟩
  | some curscore =>
      have there : p.zobj.entries ≠ [] := by
        intro none
        rw [none] at found
        cases found
      dsimp only
      split
      · exact .inl ⟨_, rfl, fun _ => there⟩
      · -- The score that the element is to have.
        have final (score : F)
            : ∃ next,
                (if scores.same score curscore then
                    some { p with score := some score, processed := p.processed + 1 }
                  else some (p.update (p.zobj.rescore scores less ele score) score)) = some next
                ∧ next.zobj.entries ≠ [] := by
          split
          · exact ⟨_, rfl, there⟩
          · exact ⟨_, rfl, rescore_ne_nil ele score p.zobj⟩
        by_cases incr : flags.incr = true
        · rw [if_pos incr]
          cases scores.add score curscore with
          | none => exact .inr ⟨rfl, incr, there⟩
          | some sum =>
              obtain ⟨next, same, some⟩ := final sum
              exact .inl ⟨next, same, fun _ => some⟩
        · rw [if_neg incr]
          obtain ⟨next, same, some⟩ := final score
          exact .inl ⟨next, same, fun _ => some⟩

theorem zaddElements_ok (scores : Scores F) (less : F → F → Bool) (limits : Limits)
    {j : Nat} {p : Progress F} (inside : scoreidx + (j + parsed.length) * 2 ≤ argv.length)
    (single : flags.incr = true → parsed.length ≤ 1)
    : ∃ next ended,
        zaddElements scores less limits flags argv scoreidx j parsed p = .ok (next, ended)
        ∧ (p.zobj.entries ≠ [] ∨ parsed ≠ [] ∧ flags.xx = false → next.zobj.entries ≠ [])
        ∧ (ended = false
          → next = p ∧ p.zobj.entries ≠ [] ∧ flags.incr = true ∧ parsed ≠ []) := by
  induction parsed generalizing j p with
  | nil =>
      refine ⟨p, true, rfl, ?_, fun early => nomatch early⟩
      rintro (some | ⟨some, _⟩)
      · exact some
      · exact absurd rfl some
  | cons score rest ih =>
      rw [List.length_cons] at inside single
      obtain ⟨ele, read⟩ := argvAt_ok (show scoreidx + 1 + j * 2 < argv.length by omega)
      rw [zaddElements, read, ok_andThen]
      rcases zaddElement_cases flags ele score p with ⟨middle, step, some⟩ | ⟨fails, incr, there⟩
      · rw [step]
        dsimp only
        have later : scoreidx + (j + 1 + rest.length) * 2 ≤ argv.length := by omega
        have one : flags.incr = true → rest.length ≤ 1 := fun incr => by
          have bound := single incr
          omega
        obtain ⟨next, ended, run, kept, early⟩ := ih later one (p := middle)
        refine ⟨next, ended, run, ?_, ?_⟩
        · rintro (there | ⟨_, off⟩)
          · exact kept (.inl (some (.inl there)))
          · exact kept (.inl (some (.inr off)))
        · -- A second element is not there with an increment.
          intro stopped
          obtain ⟨_, _, incr, some⟩ := early stopped
          have bound := single incr
          exact absurd (List.eq_nil_of_length_eq_zero (by omega)) some
      · rw [fails]
        exact ⟨p, false, rfl, fun _ => there, fun _ => ⟨rfl, there, incr, List.cons_ne_nil _ _⟩⟩

-- The key

variable {s : Server (Value F)} {moment : Moment} {id : Nat} {key : Sds}

/-- `expireIfNeeded` deletes the key. -/
def KeyExpired (s : Server (Value F)) (moment : Moment) (id : Nat) (key : Sds) : Prop :=
  ∃ time,
    (s.dbs id).expires key = some time
    ∧ 0 ≤ time
    ∧ moment.loading = false
    ∧ moment.slave = false
    ∧ time < moment.now

/-- The key is there and has not expired. -/
def KeyLive (s : Server (Value F)) (moment : Moment) (id : Nat) (key : Sds) : Prop :=
  lookupKey s id key ≠ none ∧ ¬KeyExpired s moment id key

theorem lookupKeyWrite_live (live : KeyLive s moment id key)
    : lookupKeyWrite keyHashSlot s moment id key = .ok (s, lookupKey s id key) := by
  have stays : ∃ expired, expireIfNeeded keyHashSlot s moment id key = .ok (s, expired) := by
    unfold expireIfNeeded getExpire
    cases expire : (s.dbs id).expires key with
    | none => exact ⟨false, rfl⟩
    | some time =>
        dsimp only
        rw [if_pos (isSome_of_ne_none live.1), ok_andThen]
        split
        · exact ⟨false, rfl⟩
        split
        · exact ⟨false, rfl⟩
        split
        · exact ⟨_, rfl⟩
        split
        · exact ⟨false, rfl⟩
        · rename_i positive loading slave late
          exact absurd
            ⟨time, expire, by omega, by simpa using loading, by simpa using slave, by omega⟩
            live.2
  obtain ⟨expired, run⟩ := stays
  rw [lookupKeyWrite, run]
  rfl

theorem lookupKeyWrite_gone (indexed : Indexed keyHashSlot s) (gone : ¬KeyLive s moment id key)
    : ∃ next,
        lookupKeyWrite keyHashSlot s moment id key = .ok (next, none)
        ∧ lookupKey next id key = none := by
  by_cases there : lookupKey s id key = none
  · have none : (s.dbs id).expires key = none := by
      by_contra some
      exact indexed.expires id key some there
    refine ⟨s, ?_, there⟩
    rw [lookupKeyWrite, expireIfNeeded, getExpire, none]
    simp [there, pure, Except.pure]
  · have expired : KeyExpired s moment id key := by
      by_contra live
      exact gone ⟨there, live⟩
    obtain ⟨time, expire, positive, loading, slave, late⟩ := expired
    have absent : lookupKey (dbDelete keyHashSlot s id key).1 id key = none := by
      rw [dbDelete, if_pos (isSome_of_ne_none there)]
      dsimp only
      split <;> simp [lookupKey, slotToKeyDel, Server.setDb]
    refine ⟨_, ?_, absent⟩
    rw [lookupKeyWrite, expireIfNeeded, getExpire, expire]
    dsimp only
    rw [if_pos (isSome_of_ne_none there), ok_andThen, if_neg (by omega), loading, slave,
      if_neg (by simp), if_neg (by simp), if_neg (by omega)]
    simp [absent, pure, Except.pure]

theorem dbAdd_absent (keyHashSlot : Sds → Nat) (absent : lookupKey s id key = none)
    (value : Value F)
    : ∃ next,
        dbAdd keyHashSlot s id key value = .ok next := by
  refine ⟨_, if_neg ?_⟩
  simp [absent]

theorem lookupKey_storeZset (s : Server (Value F)) (id : Nat) (key : Sds) (zobj : Zset F)
    : lookupKey (storeZset s id key zobj) id key = some (.zset zobj) := by
  rw [storeZset, lookupKey_setDb, if_pos rfl]
  simp

theorem storeZset_same (there : lookupKey s id key = some (.zset zobj))
    : storeZset s id key zobj = s := by
  have dict : Function.update (s.dbs id).dict key (some (.zset zobj)) = (s.dbs id).dict := by
    rw [← there]
    exact Function.update_eq_self key _
  rw [storeZset, dict, Server.setDb]
  have dbs : Function.update s.dbs id (s.dbs id) = s.dbs := Function.update_eq_self id _
  rw [dbs]

-- The command

def ZaddReply.isError : ZaddReply F → Bool
  | .error _ => true
  | _ => false

/-- The key does not hold an empty sorted set. -/
def HoldsElements (s : Server (Value F)) (id : Nat) (key : Sds) : Prop :=
  ∀ zobj, lookupKey s id key = some (.zset zobj) → zobj.entries ≠ []

/-- The key holds nothing but sorted sets. -/
def AbsentOrZset (s : Server (Value F)) (id : Nat) (key : Sds) : Prop :=
  ∀ value, lookupKey s id key = some value → ∃ zobj, value = .zset zobj

/-- The command reads only arguments that there are, an error leaves everything as it was, and the
key is not left with an empty sorted set.
-/
def ZaddSound (run : Except Fault (Server (Value F) × ZaddReply F)) (s : Server (Value F))
    (id : Nat)
    (key : Sds)
    : Prop :=
  ∃ next reply,
    run = .ok (next, reply)
    ∧ (reply.isError = true → next = s)
    ∧ HoldsElements next id key
    ∧ (AbsentOrZset s id key → AbsentOrZset next id key)

theorem zaddSound_unchanged {reply : ZaddReply F} (before : HoldsElements s id key)
    : ZaddSound (.ok (s, reply)) s id key :=
  ⟨s, reply, rfl, fun _ => rfl, before, fun zset => zset⟩

theorem zaddSound_stored {reply : ZaddReply F} {middle : Server (Value F)}
    (some : zobj.entries ≠ []) (error : reply.isError = true → storeZset middle id key zobj = s)
    : ZaddSound (.ok (storeZset middle id key zobj, reply)) s id key := by
  refine ⟨_, _, rfl, error, ?_, ?_⟩
  · intro other there
    rw [lookupKey_storeZset] at there
    cases there
    exact some
  · intro _ value there
    rw [lookupKey_storeZset] at there
    cases there
    exact ⟨zobj, rfl⟩

theorem zaddReply_ok (flags : Flags) (p : Progress F) : (zaddReply flags p).isError = false := by
  unfold zaddReply
  split
  · split
    · split <;> rfl
    · rfl
  · rfl

theorem zaddApply_sound {middle : Server (Value F)}
    (inside : scoreidx + parsed.length * 2 ≤ argv.length)
    (single : flags.incr = true → parsed.length ≤ 1)
    (filled : zobj.entries ≠ [] ∨ parsed ≠ [] ∧ flags.xx = false)
    (known : zobj.entries ≠ [] → middle = s ∧ lookupKey s id key = some (.zset zobj))
    : ZaddSound (zaddApply scores less limits flags argv scoreidx parsed middle id key zobj) s id
      key := by
  have room : scoreidx + (0 + parsed.length) * 2 ≤ argv.length := by
    rw [Nat.zero_add]
    exact inside
  obtain ⟨p, ended, run, kept, early⟩ := zaddElements_ok scores less limits room single
    (p := ⟨zobj, none, 0, 0, 0⟩)
  rw [zaddApply, run, ok_andThen]
  cases ended with
  | true =>
      refine zaddSound_stored (kept filled) fun error => ?_
      rw [if_pos rfl, zaddReply_ok] at error
      exact absurd error (by simp)
  | false =>
      obtain ⟨rfl, there, _⟩ := early rfl
      obtain ⟨rfl, stored⟩ := known there
      exact zaddSound_stored there fun _ => storeZset_same stored

theorem zaddParsed_sound (indexed : Indexed keyHashSlot s)
    (before : HoldsElements s id key) (inside : scoreidx + parsed.length * 2 ≤ argv.length)
    (single : flags.incr = true → parsed.length ≤ 1)
    (enough : parsed ≠ [] ∨ flags.xx = true ∨ KeyLive s moment id key)
    : ZaddSound
      (zaddParsed scores less limits keyHashSlot flags argv scoreidx parsed s moment id key) s
        id key := by
  rw [zaddParsed]
  by_cases live : KeyLive s moment id key
  · rw [lookupKeyWrite_live live, ok_andThen]
    dsimp only
    cases found : lookupKey s id key with
    | none => exact absurd found live.1
    | some value =>
        cases value with
        | zset zobj =>
            exact zaddApply_sound inside single (.inl (before zobj found)) fun _ => ⟨rfl, found⟩
        | other => exact zaddSound_unchanged before
  · obtain ⟨middle, look, absent⟩ := lookupKeyWrite_gone indexed live
    rw [look, ok_andThen]
    dsimp only
    by_cases xx : flags.xx = true
    · rw [if_pos xx]
      refine ⟨middle, _, rfl, ?_, ?_, ?_⟩
      · intro error
        rw [zaddReply_ok] at error
        cases error
      · intro zobj there
        rw [absent] at there
        cases there
      · intro _ value there
        rw [absent] at there
        cases there
    · have some : parsed ≠ [] := by
        rcases enough with some | on | there
        · exact some
        · exact absurd on xx
        · exact absurd there live
      have pair := List.length_pos_of_ne_nil some
      obtain ⟨ele, read⟩ := argvAt_ok (show scoreidx + 1 < argv.length by omega)
      obtain ⟨zobj, create, empty⟩ : ∃ zobj : Zset F,
          zaddCreate limits argv scoreidx = .ok zobj ∧ zobj.entries = [] := by
        unfold zaddCreate
        split
        · exact ⟨_, rfl, rfl⟩
        · rw [read, ok_andThen]
          split
          · exact ⟨_, rfl, rfl⟩
          · exact ⟨_, rfl, rfl⟩
      obtain ⟨added, add⟩ := dbAdd_absent keyHashSlot absent (.zset zobj)
      rw [if_neg xx, create, ok_andThen, add, ok_andThen]
      exact zaddApply_sound inside single (.inr ⟨some, by simpa using xx⟩) fun there =>
        absurd empty there

theorem argvAt_one (argc : 4 ≤ argv.length) : argvAt argv 1 = .ok (argv.getD 1 []) := by
  rw [argvAt, List.getD_eq_getElem?_getD, List.getElem?_eq_getElem (show 1 < argv.length by omega)]
  rfl

/-- Options only, of which none is `XX`, for a key that is not there: an argument behind the last is
read, or an empty sorted set is stored.
-/
theorem zaddCommand_unsound (scores : Scores F) (less : F → F → Bool) (limits : Limits)
    (argc : 4 ≤ argv.length) (indexed : Indexed keyHashSlot s)
    (none : zaddOptions .none (argv.drop 2) = (flags, [])) (xx : ¬flags.xx = true)
    (gone : ¬KeyLive s moment id (argv.getD 1 []))
    : ¬ZaddSound (zaddCommand scores less limits keyHashSlot argv s moment id) s id
        (argv.getD 1 []) := by
  intro sound
  obtain ⟨middle, look, absent⟩ := lookupKeyWrite_gone indexed gone
  rw [zaddCommand, zaddGenericCommand, argvAt_one argc, ok_andThen, none] at sound
  dsimp only at sound
  have elements : argv.length - (argv.length - ([] : List Sds).length) = 0 := by simp
  have parsed : parseScores scores argv (argv.length - 0) 0 (0 / 2) = .ok (some []) := rfl
  rw [elements, if_neg (by simp), if_neg (by simp [xx]), if_neg (by simp), List.length_nil, parsed,
    ok_andThen] at sound
  dsimp only at sound
  rw [zaddParsed, look, ok_andThen] at sound
  dsimp only at sound
  rw [if_neg xx, zaddCreate] at sound
  split at sound
  · obtain ⟨added, add⟩ := dbAdd_absent keyHashSlot absent (.zset (.skiplist []))
    rw [ok_andThen, add, ok_andThen, zaddApply, zaddElements, ok_andThen] at sound
    obtain ⟨next, reply, run, _, filled, _⟩ := sound
    cases run
    exact filled _ (lookupKey_storeZset added id _ _) rfl
  · -- The argument that would be the first element is behind the last.
    have outside : argvAt argv (argv.length - 0 + 1) = .error .outOfBounds := by
      rw [argvAt, List.getElem?_eq_none (by omega)]
    rw [outside, error_andThen, error_andThen] at sound
    obtain ⟨_, _, run, _⟩ := sound
    cases run

theorem zaddCommand_sound (scores : Scores F) (less : F → F → Bool) (limits : Limits)
    (argc : 4 ≤ argv.length) (indexed : Indexed keyHashSlot s)
    (before : HoldsElements s id (argv.getD 1 [])) {rest : List Sds}
    (options : zaddOptions .none (argv.drop 2) = (flags, rest))
    (enough : rest ≠ [] ∨ flags.xx = true ∨ KeyLive s moment id (argv.getD 1 []))
    : ZaddSound (zaddCommand scores less limits keyHashSlot argv s moment id) s id
        (argv.getD 1 []) := by
  have suffix := (zaddOptions_suffix .none (argv.drop 2)).length_le
  rw [options, List.length_drop] at suffix
  rw [zaddCommand, zaddGenericCommand, argvAt_one argc, ok_andThen, options]
  dsimp only at suffix ⊢
  have elements : argv.length - (argv.length - rest.length) = rest.length := by omega
  rw [elements]
  split
  · exact zaddSound_unchanged before
  rename_i even
  split
  · exact zaddSound_unchanged before
  split
  · exact zaddSound_unchanged before
  rename_i single
  have room : argv.length - rest.length + (0 + rest.length / 2) * 2 ≤ argv.length := by omega
  obtain ⟨result, run, lengths⟩ := parseScores_ok scores room
  rw [run, ok_andThen]
  cases result with
  | none => exact zaddSound_unchanged before
  | some parsed =>
      have length := lengths parsed rfl
      refine zaddParsed_sound indexed before (by omega) ?_ ?_
      · intro incr
        rw [length]
        simpa [incr] using single
      · refine enough.imp_left fun some none => some ?_
        rw [none, List.length_nil] at length
        exact List.eq_nil_of_length_eq_zero (by omega)

/-- `ZADD` reads only arguments that there are, is all or nothing and leaves no empty sorted set,
exactly if an argument stands behind the options, or `XX` is one of them, or the key is there.
-/
theorem zaddCommand_sound_iff (scores : Scores F) (less : F → F → Bool) (limits : Limits)
    (argv : List Sds) (argc : 4 ≤ argv.length) (moment : Moment) (id : Nat)
    (indexed : Indexed keyHashSlot s) (before : HoldsElements s id (argv.getD 1 []))
    : ZaddSound (zaddCommand scores less limits keyHashSlot argv s moment id) s id (argv.getD 1 [])
      ↔ (zaddOptions .none (argv.drop 2)).2 ≠ []
        ∨ (zaddOptions .none (argv.drop 2)).1.xx = true
        ∨ KeyLive s moment id (argv.getD 1 []) := by
  constructor
  · intro sound
    by_contra none
    simp only [not_or, not_not] at none
    obtain ⟨nothing, xx, gone⟩ := none
    exact zaddCommand_unsound scores less limits argc indexed (Prod.ext rfl nothing) xx gone sound
  · exact zaddCommand_sound scores less limits argc indexed before rfl

end Outcomes

-- Integers as scores

/-- Scores that are whole numbers. -/
def wholeScores : Scores Int where
  parse := Keyspace.getLongLongFromObject
  print _ := []
  add a b := some (a + b)
  same a b := a = b

/-- The key `k` holds a sorted set of one element. -/
def holdingOne : Server (Value Int) :=
  (Server.empty 16 (by decide) false).setDb 0
    ⟨fun key => if key = [0x6B] then some (.zset (.ziplist [⟨[0x61], 1⟩])) else none, fun _ => none⟩

/-- `ZADD k 1 m`. -/
theorem zaddCommand_sound_pair
    : ZaddSound
        (zaddCommand wholeScores (fun a b => a < b) ⟨128, 64⟩ Cluster.keyHashSlot
          [[0x5A, 0x41, 0x44, 0x44], [0x6B], [0x31], [0x6D]] holdingOne ⟨0, false, false⟩ 0)
        holdingOne 0 [0x6B] := by
  have indexed : Indexed Cluster.keyHashSlot holdingOne := by
    refine ⟨fun id key expire => ?_, fun on => absurd on Bool.false_ne_true,
      fun on => absurd on Bool.false_ne_true⟩
    by_cases first : id = 0
    · subst first
      exact absurd rfl expire
    · simp [holdingOne, Server.setDb, Server.empty, first] at expire
  have before : HoldsElements holdingOne 0 [0x6B] := by
    intro zobj there
    cases there
    exact List.cons_ne_nil _ _
  exact (zaddCommand_sound_iff wholeScores _ _ _ (by decide) _ _ indexed before).mpr
    (.inl (by decide))

/-- `ZADD k NX CH`, of a key that is not there. -/
theorem zaddCommand_optionsOnly
    : ¬ZaddSound
        (zaddCommand wholeScores (fun a b => a < b) ⟨128, 64⟩ Cluster.keyHashSlot
          [[0x5A, 0x41, 0x44, 0x44], [0x6B], [0x6E, 0x78], [0x63, 0x68]]
            (.empty 16 (by decide) false)
          ⟨0, false, false⟩ 0)
        (.empty 16 (by decide) false) 0 [0x6B] := by
  have options
      : zaddOptions .none [[0x6E, 0x78], [0x63, 0x68]] = (⟨false, true, false, true⟩, []) := by
    decide
  exact zaddCommand_unsound wholeScores _ _ (by decide) (indexed_empty 16 (by decide) false) options
    (by decide) (fun live => live.1 rfl)

end Redis.Zadd
