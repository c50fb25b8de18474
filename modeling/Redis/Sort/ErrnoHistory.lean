import Redis.Sort.Model

/-! `SORT` judges a conversion by `errno`, which the conversion does not reset. -/

namespace Redis.Sort

open Redis.Keyspace (Sds ObjectDb Element)
open Redis.Library
open Redis.SideIndexes (Moment)

-- Lookups

def patternValue (db : ObjectDb Robj) (moment : Moment) (pattern : Sds) (subst : Element)
    : Option Element :=
  if Keyspace.cString pattern = [0x23] then some subst
  else
    (splitStar pattern).bind fun (prefix', behind) =>
      patternField (splitField behind).2
        (db.find moment (prefix' ++ subst.text ++ (splitField behind).1))

section Lookups

variable {db next : ObjectDb Robj} {moment : Moment}

theorem patternValue_congr (only : ObjectDb.OnlyExpired moment db next) (pattern : Sds)
    (subst : Element)
    : patternValue next moment pattern subst = patternValue db moment pattern subst := by
  simp only [patternValue, only.find]

theorem lookupKeyByPattern_ok (only : ObjectDb.OnlyExpired moment db next) (pattern : Sds)
    (subst : Element)
    : (lookupKeyByPattern next moment pattern subst).2 = patternValue db moment pattern subst
      ∧ ObjectDb.OnlyExpired moment db (lookupKeyByPattern next moment pattern subst).1 := by
  rw [← patternValue_congr only, lookupKeyByPattern, patternValue]
  split
  · exact ⟨rfl, only⟩
  · cases splitStar pattern with
    | none => exact ⟨rfl, only⟩
    | some parts =>
        obtain ⟨after, looked, expired⟩ :=
          ObjectDb.lookupKeyWrite_ok next moment (parts.1 ++ subst.text ++ (splitField parts.2).1)
        dsimp only [Option.bind]
        rw [looked]
        exact ⟨rfl, only.trans expired⟩

end Lookups

section Weighing

variable {F : Type} [LinearOrder F] [Zero F] {env : Env F} {moment : Moment} {plan : Plan}
  {db : ObjectDb Robj} {s t : Weighing}

/-- The value that an element is sorted by. -/
def weightOf (plan : Plan) (db : ObjectDb Robj) (moment : Moment) (obj : Element)
    : Option Element :=
  match plan.sortby with
  | some pattern => patternValue db moment pattern obj
  | none => some obj

/-- The value of an element that `strtod` has to convert. -/
def convertedText (plan : Plan) (db : ObjectDb Robj) (moment : Moment) (obj : Element)
    : Option Sds :=
  match weightOf plan db moment obj with
  | some (.bytes text) => if plan.alpha then none else some text
  | _ => none

/-- The conversion of a text fails whatever `errno` was before it. -/
def failsAlone (env : Env F) (text : Sds) : Bool :=
  let result := env.strtod (Keyspace.cString text)
  !result.whole || result.range || result.value.isNone

theorem byValue_ok (plan : Plan) (only : ObjectDb.OnlyExpired moment db s.db) (obj : Element)
    : (byValue moment plan s obj).2 = weightOf plan db moment obj
      ∧ ObjectDb.OnlyExpired moment db (byValue moment plan s obj).1 := by
  rw [byValue, weightOf]
  cases plan.sortby with
  | none => exact ⟨rfl, only⟩
  | some pattern => exact lookupKeyByPattern_ok only pattern obj

/-- The error of a round: the one before, the one of the conversion, or the one that `errno` tells
of.
-/
def flagAfter (env : Env F) (s : Weighing) (text : Option Sds) : Bool :=
  s.intConvertionError || text.any (failsAlone env) || (s.errno = ERANGE && text.isSome)

omit [LinearOrder F] in
theorem weigh_ok (env : Env F) (plan : Plan) (only : ObjectDb.OnlyExpired moment db s.db)
    (obj : Element)
    : ObjectDb.OnlyExpired moment db (weigh env moment plan s obj).2.db
      ∧ (weigh env moment plan s obj).2.intConvertionError
        = flagAfter env s (convertedText plan db moment obj)
      ∧ ((weigh env moment plan s obj).2.errno = s.errno
        ∨ (weigh env moment plan s obj).2.intConvertionError = true) := by
  obtain ⟨value, expired⟩ := byValue_ok plan only obj
  simp only [weigh, convertedText, ← value, flagAfter]
  generalize byValue moment plan s obj = looked at *
  obtain ⟨after, byval⟩ := looked
  cases byval with
  | none => exact ⟨expired, by simp, .inl rfl⟩
  | some byval =>
      cases alpha : plan.alpha with
      | true =>
          refine ⟨expired, ?_, .inl rfl⟩
          cases byval <;> simp
      | false =>
          cases byval with
          | integer v => exact ⟨expired, by simp [convertScore], .inl rfl⟩
          | bytes text =>
              refine ⟨expired, ?_, ?_⟩
              · by_cases kept : s.errno = ERANGE <;>
                  cases range : (env.strtod (Keyspace.cString text)).range <;>
                  simp [convertScore, failsAlone, range, kept]
              · cases range : (env.strtod (Keyspace.cString text)).range with
                | false => exact .inl (by simp [convertScore, range])
                | true => exact .inr (by simp [convertScore, range])

omit [LinearOrder F] in
theorem weighAll_flag (env : Env F) (plan : Plan) (only : ObjectDb.OnlyExpired moment db s.db)
    (objs : List Element)
    : (weighAll env moment plan s objs).2.intConvertionError
      = (s.intConvertionError
        || objs.any (fun obj => (convertedText plan db moment obj).any (failsAlone env))
        || (s.errno = ERANGE && objs.any fun obj =>
          (convertedText plan db moment obj).isSome)) := by
  induction objs generalizing s with
  | nil => simp [weighAll]
  | cons obj rest ih =>
      obtain ⟨expired, flag, errno⟩ := weigh_ok env plan only obj
      rw [weighAll]
      dsimp only
      rw [ih expired, List.any_cons, List.any_cons]
      rcases errno with same | failed
      · rw [same, flag, flagAfter]
        cases decide (s.errno = ERANGE) <;> simp [Bool.or_assoc, Bool.or_left_comm]
      · rw [failed, Bool.true_or, Bool.true_or]
        rw [flag, flagAfter] at failed
        revert failed
        generalize (convertedText plan db moment obj).any (failsAlone env) = own
        generalize (convertedText plan db moment obj).isSome = some'
        generalize decide (s.errno = ERANGE) = left
        cases s.intConvertionError <;> cases own <;> cases some' <;> cases left <;> simp

omit [LinearOrder F] in
theorem weighAll_same (env : Env F) (moment : Moment) (plan : Plan) (same : s.db = t.db)
    (objs : List Element)
    : (weighAll env moment plan s objs).1 = (weighAll env moment plan t objs).1
      ∧ (weighAll env moment plan s objs).2.db = (weighAll env moment plan t objs).2.db := by
  induction objs generalizing s t with
  | nil => exact ⟨rfl, same⟩
  | cons obj rest ih =>
      have first : (weigh env moment plan s obj).1 = (weigh env moment plan t obj).1
          ∧ (weigh env moment plan s obj).2.db = (weigh env moment plan t obj).2.db := by
        have looked : byValue moment plan s obj = byValue moment plan t obj := by
          rw [byValue, byValue, same]
        simp only [weigh, looked]
        generalize byValue moment plan t obj = found
        obtain ⟨after, byval⟩ := found
        cases byval with
        | none => exact ⟨rfl, rfl⟩
        | some byval =>
            cases plan.alpha with
            | true => exact ⟨rfl, rfl⟩
            | false => cases byval <;> exact ⟨rfl, rfl⟩
      obtain ⟨others, after⟩ := ih first.2
      simp only [weighAll]
      exact ⟨by rw [first.1, others], after⟩

end Weighing

section Command

variable {F : Type} [LinearOrder F] [Zero F] (env : Env F) (moment : Moment) (argv : List Sds)
  (db : ObjectDb Robj)

def replyOf (run : Except Fault Outcome) : Except Fault SortReply := run.map Outcome.reply

/-- The options as `sortCommand` has them for a value that can be sorted, when it accepts them. -/
def acceptedPlan (sortval : Robj) : Except ArgumentError Plan :=
  (sortOptions env.clusterEnabled 0 2 (argv.drop 2) .initial).map fun read =>
    planOf argv read (match sortval with
      | .set _ => true
      | _ => false) env.luaClient

/-- `errno` behind the options. -/
def errnoBehind (errno : Nat)
    : Nat := sortOptionsErrno env.clusterEnabled 0 2 (argv.drop 2) .initial errno

def sortedValue : Robj := (db.find moment (argv.getD 1 [])).getD (.list [])

/-- The reply of `SORT` depends on the old `errno`: no `LIMIT` resets it, scores are sorted, there
is a text to be converted and no conversion fails by itself.
-/
def ReadsErrno : Prop :=
  ∃ items plan, sortable (sortedValue moment argv db) = some items
    ∧ acceptedPlan env argv (sortedValue moment argv db) = .ok plan
    ∧ errnoBehind env argv ERANGE = ERANGE
    ∧ plan.dontsort = false
    ∧ items.length < 2 ^ 31
    ∧ (∃ obj ∈ items, (convertedText plan db moment obj).isSome)
    ∧ ∀ obj ∈ items, (convertedText plan db moment obj).any (failsAlone env) = false

variable {env moment argv db} {plan : Plan}

theorem sortOptionsErrno_cases (clusterEnabled : Bool) (skip j : Nat) (args : List Sds)
    (read : SortArguments)
    : (∀ errno, sortOptionsErrno clusterEnabled skip j args read errno = errno)
      ∨ ∀ errno, sortOptionsErrno clusterEnabled skip j args read errno = 0 := by
  induction args generalizing skip j read with
  | nil => exact .inl fun errno => by cases skip <;> rfl
  | cons word args ih =>
      cases skip with
      | succ skip => exact ih skip (j + 1) read
      | zero =>
          simp only [sortOptionsErrno]
          cases sortOption clusterEnabled j word args read with
          | error err => exact .inl fun _ => rfl
          | ok next =>
              dsimp only
              rcases ih next.1 (j + 1) next.2 with leaves | resets
              · by_cases limit : isOption word limitText = true
                · exact .inr fun errno => by rw [if_pos limit, leaves]
                · exact .inl fun errno => by rw [if_neg limit, leaves]
              · exact .inr fun errno => resets _

theorem fillVector_iff (items vector : List Element)
    : fillVector items (int32 items.length) = .ok vector ↔ items.length < 2 ^ 31
      ∧ vector = items := by
  have most : (items.length : Int).bmod (2 ^ 32) < 2 ^ 31 :=
    lt_of_lt_of_eq (Int.bmod_lt (by decide)) (by norm_num)
  by_cases short : items.length < 2 ^ 31
  · have same : int32 items.length = items.length :=
      Int.bmod_eq_of_le (by omega) (by omega)
    rw [fillVector, same, if_neg (by omega), if_neg (by omega), if_pos rfl]
    constructor
    · intro result
      exact ⟨short, (Except.ok.inj result).symm⟩
    · rintro ⟨-, rfl⟩
      rfl
  · have small : int32 items.length < items.length := by
      unfold int32
      omega
    rw [fillVector]
    constructor
    · intro result
      split at result
      · cases result
      · cases result
    · rintro ⟨short', -⟩
      exact absurd short' short

theorem replyOf_sortOutput {s t : Weighing} (same : s.db = t.db)
    (flag : s.intConvertionError = t.intConvertionError) (w : Window) (vector : List Element)
    : replyOf (sortOutput moment plan w vector s)
      = replyOf (sortOutput moment plan w vector t) := by
  unfold sortOutput
  rw [same, flag]
  cases t.intConvertionError with
  | true => rfl
  | false =>
      dsimp only
      cases outputLoop moment plan vector (w.last - w.start + 1).toNat w.start t.db with
      | error fault => rfl
      | ok output => cases plan.storekey <;> rfl

theorem sortCommand_eq (env : Env F) (moment : Moment) (argv : List Sds) (db : ObjectDb Robj)
    : ∃ next, ObjectDb.OnlyExpired moment db next
      ∧ ∀ errno, sortCommand env moment argv db errno
        = match sortable (sortedValue moment argv db) with
          | none => .ok ⟨.wrongType, next, errno⟩
          | some items =>
              match acceptedPlan env argv (sortedValue moment argv db) with
              | .error err => .ok ⟨.error err.text, next, errnoBehind env argv errno⟩
              | .ok plan =>
                  sortValue env moment plan (sortedValue moment argv db) items next
                    (errnoBehind env argv errno) := by
  obtain ⟨next, looked, only⟩ := ObjectDb.lookupKeyWrite_ok db moment (argv.getD 1 [])
  refine ⟨next, only, fun errno => ?_⟩
  rw [sortCommand, looked]
  dsimp only
  unfold acceptedPlan sortedValue
  cases sortable ((db.find moment (argv.getD 1 [])).getD (.list [])) with
  | none => rfl
  | some items => cases sortOptions env.clusterEnabled 0 2 (argv.drop 2) .initial <;> rfl

theorem sortValue_sorted {sortval : Robj} {items : List Element} (sorts : plan.dontsort = false)
    (is : sortable sortval = some items) (errno : Nat)
    : sortValue env moment plan sortval items db errno
      = (fillVector items (int32 items.length)).bind fun vector =>
          let w := limitWindow plan.limitStart plan.limitCount (int32 items.length)
          let weighed := weighAll env moment plan ⟨db, errno, false⟩ vector
          sortOutput moment plan w ((sortVector env plan w weighed.1).map SortObject.obj)
            weighed.2 := by
  have loaded : loadVector plan sortval items
      = (fillVector items (int32 items.length)).map fun vector =>
          (vector, limitWindow plan.limitStart plan.limitCount (int32 items.length)) := by
    rw [loadVector.eq_def, sorts]
    generalize int32 items.length = vectorlen
    cases sortval with
    | string value => cases is
    | hash field => cases is
    | list items' | set items' | zset items' =>
        dsimp only
        cases fillVector items vectorlen <;> rfl
  rw [sortValue, loaded, sorts]
  generalize int32 items.length = vectorlen
  cases fillVector items vectorlen <;> rfl

theorem sortValue_native {sortval : Robj} {items : List Element} (native : plan.dontsort = true)
    (errno errno' : Nat)
    : replyOf (sortValue env moment plan sortval items db errno)
      = replyOf (sortValue env moment plan sortval items db errno') := by
  unfold sortValue
  rw [native]
  cases loadVector plan sortval items with
  | error fault => rfl
  | ok loaded =>
      obtain ⟨vector, w⟩ := loaded
      exact replyOf_sortOutput (s := ⟨db, errno, false⟩) (t := ⟨db, errno', false⟩) rfl rfl w vector

theorem replyOf_sortOutput_failed {s : Weighing} {w : Window} {vector : List Element}
    : replyOf (sortOutput moment plan w vector s)
      = .ok (.error "One or more scores can't be converted into double")
      ↔ s.intConvertionError = true := by
  unfold sortOutput
  cases s.intConvertionError with
  | true => exact ⟨fun _ => rfl, fun _ => rfl⟩
  | false =>
      refine ⟨fun failed => ?_, fun impossible => absurd impossible Bool.false_ne_true⟩
      dsimp only at failed
      cases output : outputLoop moment plan vector (w.last - w.start + 1).toNat w.start s.db with
      | error fault =>
          rw [output] at failed
          cases failed
      | ok values =>
          rw [output] at failed
          cases store : plan.storekey <;> rw [store] at failed <;> cases failed

/-- The reply of `SORT` depends on `errno` exactly when a conversion that succeeds is judged by it.
-/
theorem sort_reply_ignores_errno_iff (env : Env F) (moment : Moment) (argv : List Sds)
    (db : ObjectDb Robj)
    : (∀ errno errno', replyOf (sortCommand env moment argv db errno)
        = replyOf (sortCommand env moment argv db errno'))
      ↔ ¬ReadsErrno env moment argv db := by
  obtain ⟨next, only, eq⟩ := sortCommand_eq env moment argv db
  have anyText (plan : Plan) (items : List Element)
      : (items.any fun obj => (convertedText plan db moment obj).isSome) = true
        ↔ ∃ obj ∈ items, (convertedText plan db moment obj).isSome = true := List.any_eq_true
  constructor
  · rintro same ⟨items, plan, is, accepted, kept, sorts, short, some', succeed⟩
    have run (errno : Nat)
        : replyOf (sortCommand env moment argv db errno)
          = .ok (.error "One or more scores can't be converted into double")
          ↔ errnoBehind env argv errno = ERANGE := by
      rw [eq errno, is, accepted]
      dsimp only
      rw [sortValue_sorted sorts is, (fillVector_iff items items).mpr ⟨short, rfl⟩, Except.bind]
      rw [replyOf_sortOutput_failed, weighAll_flag env plan only, (anyText plan items).mpr some',
        Bool.and_true]
      have none' : (items.any fun obj => (convertedText plan db moment obj).any (failsAlone env))
          = false :=
        List.any_eq_false.mpr fun obj member => by rw [succeed obj member]; exact Bool.false_ne_true
      rw [none', Bool.false_or, Bool.false_or, decide_eq_true_eq]
    have leaves (errno : Nat) : errnoBehind env argv errno = errno := by
      rcases sortOptionsErrno_cases env.clusterEnabled 0 2
        (argv.drop 2) .initial with leaves | resets
      · exact leaves errno
      · rw [errnoBehind, resets] at kept
        cases kept
    have failed := (run ERANGE).mpr (leaves ERANGE)
    rw [same ERANGE 0, run, leaves] at failed
    cases failed
  · intro ignores errno errno'
    rw [eq, eq]
    cases is : sortable (sortedValue moment argv db) with
    | none => rfl
    | some items =>
        cases accepted : acceptedPlan env argv (sortedValue moment argv db) with
        | error err => rfl
        | ok plan =>
            dsimp only
            cases sorts : plan.dontsort with
            | true => exact sortValue_native sorts _ _
            | false =>
                rw [sortValue_sorted sorts is, sortValue_sorted sorts is]
                cases filled : fillVector items (int32 items.length) with
                | error fault => rfl
                | ok vector =>
                    obtain ⟨short, rfl⟩ := (fillVector_iff items vector).mp filled
                    dsimp only [Except.bind]
                    rcases sortOptionsErrno_cases env.clusterEnabled 0 2 (argv.drop 2) .initial
                      with leaves | resets
                    swap
                    · rw [errnoBehind, errnoBehind, resets, resets]
                    obtain ⟨vectors, dbs⟩ := weighAll_same env moment plan
                      (s := ⟨next, errnoBehind env argv errno, false⟩)
                      (t := ⟨next, errnoBehind env argv errno', false⟩) rfl vector
                    rw [vectors]
                    refine replyOf_sortOutput dbs ?_ _ _
                    rw [weighAll_flag env plan only, weighAll_flag env plan only]
                    -- either a conversion fails in both runs, or there is none
                    by_cases own : ∃ obj ∈ vector,
                      (convertedText plan db moment obj).any (failsAlone env) = true
                    · rw [List.any_eq_true.mpr own, Bool.or_true]
                      rfl
                    · have none' : (vector.any fun obj => (convertedText plan db moment obj).isSome)
                        = false := by
                        rw [Bool.eq_false_iff, Ne, anyText]
                        intro some'
                        refine ignores ⟨vector, plan, is, accepted, leaves ERANGE, sorts, short,
                          some', ?_⟩
                        intro obj member
                        rw [Bool.eq_false_iff]
                        exact fun failed => own ⟨obj, member, failed⟩
                      rw [none', Bool.and_false, Bool.and_false]

end Command

-- A number that is refused

/-- A `qsort` that inserts. -/
def insertingQsort : Sets.Qsort where
  sort compare items := items.insertionSort fun x y => compare x y ≤ 0
  perm _ items := List.perm_insertionSort _ items

/-- Scores that are integers: `strtod` takes `7.0` and stops in front of other texts. -/
def sevenEnv : Env Int where
  strtod text := if text = [0x37, 0x2E, 0x30] then ⟨some 7, true, false⟩
    else ⟨some 0, text = [], false⟩
  ofLong v := v
  strcoll a b := compareStringObjects a b
  qsort := insertingQsort
  clusterEnabled := false
  luaClient := false
  vectorAddress := 4096

/-- The list `k` of the number `7.0`. -/
def sevenDb : ObjectDb Robj where
  dict key := if key = [0x6B] then some (.list [.bytes [0x37, 0x2E, 0x30]]) else none
  expires _ := none
  expires_in_dict _ _ := rfl

/-- `SORT k` sends `7.0`, or an error when an earlier command left `ERANGE` in `errno`. -/
theorem sort_refuses_seven
    : replyOf (sortCommand sevenEnv ⟨0, false, false⟩ [[], [0x6B]] sevenDb 0)
        = .ok (.multiBulk 1 [some [0x37, 0x2E, 0x30]])
      ∧ replyOf (sortCommand sevenEnv ⟨0, false, false⟩ [[], [0x6B]] sevenDb ERANGE)
        = .ok (.error "One or more scores can't be converted into double") := by
  constructor <;> rfl

end Redis.Sort
