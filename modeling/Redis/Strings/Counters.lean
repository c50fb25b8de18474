import Redis.Keyspace.Timeouts
import Redis.Strings.Sharing

/-! `INCR`, `DECR`, `INCRBY` and `DECRBY`: when the number that they store is the exact one. -/

namespace Redis.Strings

open Redis.Library
open Redis.Keyspace (Sds getLongLongFromString longLong FitsLongLong notAnInteger wrongType)
open Redis.SideIndexes (Moment)

-- Commands

/-- The replies: an error with the text behind the minus sign, or the text of an integer. -/
inductive CounterReply where
  | error (text : String)
  | integer (text : Sds)
deriving DecidableEq, Repr

variable {V : Type}

/-- `getLongLongFromObject`; a null pointer stands for the number 0. -/
def getLongLongFromObject (o : Option (Robj V)) : Except Fault (Option Int) :=
  match o with
  | none => .ok (some 0)
  | some (.raw s) | some (.embstr s) => .ok (getLongLongFromString (.sds s))
  | some (.int n) => .ok (getLongLongFromString (.int n))
  | some (.other _) => .error .assertion

section Model

variable (longMin longMax : Int) (s : Store V) (moment : Moment) (key : DbKey)

/-- The end of `incrDecrCommand`: the number goes to the object of the key or to a new one. The
limits are `LONG_MIN` and `LONG_MAX`.
-/
def Store.setNumber (o : Option Nat) (value : Int) : Except Fault (Store V × Nat) :=
  match o with
  | none => do
      let (s, new) := s.createStringObjectFromLongLong value
      let s ← s.dbAdd key new
      pure (s, new)
  | some a => do
      let old ← s.object a
      if s.heap.refcount a = 1 ∧ old.isInt = true ∧ (value < 0 ∨ redisSharedIntegers ≤ value)
          ∧ longMin ≤ value ∧ value ≤ longMax then
        pure ({ s with heap := s.heap.store a (.int (Int64.ofInt value)) }, a)
      else
        let (s, new) := s.createStringObjectFromLongLong value
        let s ← s.dbOverwrite key new
        pure (s, new)

/-- The test of `incrDecrCommand` for an overflow. -/
def OverflowTest (oldvalue incr : Int) : Prop :=
  (incr < 0 ∧ oldvalue < 0 ∧ incr < longLong (-2 ^ 63 - oldvalue))
  ∨ (incr > 0 ∧ oldvalue > 0 ∧ incr > longLong (2 ^ 63 - 1 - oldvalue))

instance (oldvalue incr : Int) : Decidable (OverflowTest oldvalue incr) :=
  inferInstanceAs (Decidable (_ ∨ _))

def Store.incrDecrCommand (incr : Int) : Except Fault (CounterReply × Store V) := do
  let (s, o) ← s.lookupKeyWrite moment key
  let object ← o.mapM s.object
  if object.any (fun value => !value.isString) then pure (.error wrongType, s)
  else
    match ← getLongLongFromObject object with
    | none => pure (.error notAnInteger, s)
    | some oldvalue =>
        if OverflowTest oldvalue incr then
          pure (.error "ERR increment or decrement would overflow", s)
        else
          let (s, new) ← s.setNumber longMin longMax key o (longLong (oldvalue + incr))
          let text ← (← s.object new).decoded
          pure (.integer text, s)

def Store.incrCommand : Except Fault (CounterReply × Store V) :=
  s.incrDecrCommand longMin longMax moment key 1

def Store.decrCommand : Except Fault (CounterReply × Store V) :=
  s.incrDecrCommand longMin longMax moment key (-1)

def Store.incrbyCommand (increment : Sds) : Except Fault (CounterReply × Store V) :=
  match Keyspace.getLongLongFromObject increment with
  | none => .ok (.error notAnInteger, s)
  | some incr => s.incrDecrCommand longMin longMax moment key incr

def Store.decrbyCommand (decrement : Sds) : Except Fault (CounterReply × Store V) :=
  match Keyspace.getLongLongFromObject decrement with
  | none => .ok (.error notAnInteger, s)
  | some incr => s.incrDecrCommand longMin longMax moment key (longLong (-incr))

end Model

inductive CounterRequest where
  | incr (key : DbKey)
  | decr (key : DbKey)
  | incrby (key : DbKey) (increment : Sds)
  | decrby (key : DbKey) (decrement : Sds)
deriving DecidableEq, Repr

namespace CounterRequest

def key : CounterRequest → DbKey
  | incr key | decr key | incrby key _ | decrby key _ => key

def call (longMin longMax : Int) (s : Store V) (moment : Moment)
    : CounterRequest → Except Fault (CounterReply × Store V)
  | incr key => s.incrCommand longMin longMax moment key
  | decr key => s.decrCommand longMin longMax moment key
  | incrby key increment => s.incrbyCommand longMin longMax moment key increment
  | decrby key decrement => s.decrbyCommand longMin longMax moment key decrement

/-- The change that is asked for, as a number without bounds. -/
def change : CounterRequest → Option Int
  | incr _ => some 1
  | decr _ => some (-1)
  | incrby _ increment => Keyspace.getLongLongFromObject increment
  | decrby _ decrement => (Keyspace.getLongLongFromObject decrement).map fun d => -d

/-- The number to subtract is the least one, whose negation is no number of 64 bits. -/
def NegatesLeast : CounterRequest → Prop
  | decrby _ decrement => Keyspace.getLongLongFromObject decrement = some (-2 ^ 63)
  | _ => False

end CounterRequest

-- One command

/-- The number that a key stands for. A key that is not there stands for 0. -/
def Keys.number (keys : Keys V) (key : DbKey) : Option Int :=
  match keys.contents key with
  | none => some 0
  | some (.string text) => Keyspace.getLongLongFromObject text
  | some (.other _) => none

variable {longMin longMax v incr : Int} {s : Store V} {held : Nat → Nat} {moment : Moment}
  {key : DbKey}

theorem overflowTest_iff (value : FitsLongLong v) (increment : FitsLongLong incr)
    : OverflowTest v incr ↔ ¬ FitsLongLong (v + incr) := by
  obtain ⟨low, high⟩ := value
  obtain ⟨least, most⟩ := increment
  have down : v < 0 → longLong (-2 ^ 63 - v) = -2 ^ 63 - v := fun negative =>
    (Keyspace.longLong_eq_self_iff _).mpr ⟨by omega, by omega⟩
  have up : v > 0 → longLong (2 ^ 63 - 1 - v) = 2 ^ 63 - 1 - v := fun positive =>
    (Keyspace.longLong_eq_self_iff _).mpr ⟨by omega, by omega⟩
  unfold OverflowTest FitsLongLong
  constructor
  · rintro (⟨negative, below, less⟩ | ⟨positive, above, more⟩)
    · rw [down below] at less
      omega
    · rw [up above] at more
      omega
  · intro outside
    by_cases below : v < 0
    · rw [down below]
      omega
    · by_cases above : v > 0
      · rw [up above]
        omega
      · omega

theorem getLongLongFromObject_eq {o : Robj V} (string : o.isString = true)
    : ∃ text, o.contents = .string text
      ∧ getLongLongFromObject (some o) = .ok (Keyspace.getLongLongFromObject text) := by
  cases o with
  | raw s => exact ⟨s, rfl, rfl⟩
  | embstr s => exact ⟨s, rfl, rfl⟩
  | int n =>
      refine ⟨_, rfl, ?_⟩
      rw [Keyspace.getLongLongFromObject_decimalText (Int64.le_toInt n) (Int64.toInt_lt n)]
      rfl
  | other v => cases string

theorem Consistent.setNumber (consistent : Consistent s held) (longMin longMax : Int) (key : DbKey)
    (fits : FitsLongLong v)
    : ∃ s' new, s.setNumber longMin longMax key (s.dict.lookup key) v = .ok (s', new)
      ∧ Consistent s' held ∧ s'.keys = s.keys.set key (.string (decimalText v))
      ∧ s'.dict.lookup key = some new := by
  have text : (Robj.int (Int64.ofInt v) : Robj V).contents = .string (decimalText v) := by
    rw [Robj.contents, int64_toInt_ofInt fits.1 fits.2]
  obtain ⟨s₁, new, created, owned, same, dict, there⟩ := consistent.createStringObjectFromLongLong v
  cases found : s.dict.lookup key with
  | none =>
      obtain ⟨added, after, keys⟩ := owned.dbAdd (by rw [dict]; exact found) there
      refine ⟨_, new, ?_, after, by rw [keys, same, text], AList.lookup_insert _⟩
      simp only [Store.setNumber, created, added, ok_andThen]
      rfl
  | some a =>
      obtain ⟨old, -, object, -⟩ := consistent.found found
      simp only [Store.setNumber, object, ok_andThen]
      split
      · rename_i alone
        obtain ⟨after, keys⟩ := consistent.store found alone.1 (.int (Int64.ofInt v))
        exact ⟨_, a, rfl, after, by rw [keys, text], found⟩
      · obtain ⟨s', replaced, after, keys, placed, -⟩ :=
          owned.dbOverwrite (by rw [dict]; exact found) there
        refine ⟨s', new, ?_, after, by rw [keys, same, text], placed⟩
        simp only [created, replaced, ok_andThen]
        rfl

theorem Consistent.incrDecrCommand (consistent : Consistent s held)
    (stored : (s.keys.lookedUp moment key).number key = some v) (incr : Int)
    : ∃ s', Consistent s' held ∧ s'.keys = s.keys.lookedUp moment key
      ∧ s.incrDecrCommand longMin longMax moment key incr
        = if OverflowTest v incr then .ok (.error "ERR increment or decrement would overflow", s')
          else (do
            let (s, new) ← s'.setNumber longMin longMax key (s'.dict.lookup key)
              (longLong (v + incr))
            let text ← (← s.object new).decoded
            pure (.integer text, s)) := by
  obtain ⟨s', looked, after, keys, -⟩ := consistent.lookupKeyWrite moment key
  refine ⟨s', after, keys, ?_⟩
  rw [← keys] at stored
  rw [Store.incrDecrCommand, looked, ok_andThen]
  dsimp only
  cases found : s'.dict.lookup key with
  | none =>
      rw [Keys.number, Store.contents_of_lookup_none found] at stored
      obtain rfl : 0 = v := Option.some.inj stored
      rfl
  | some a =>
      obtain ⟨value, -, object, contents⟩ := after.found found
      have string : value.isString = true := by
        cases value with
        | other v => simp [Keys.number, contents, Robj.contents] at stored
        | _ => rfl
      obtain ⟨text, stands, read⟩ := getLongLongFromObject_eq string
      simp only [Keys.number, contents, stands] at stored
      simp only [Option.mapM_some, object, map_ok, ok_andThen, Option.any_some, string,
        Bool.not_true, Bool.false_eq_true, if_false, read, stored]
      rfl

theorem Consistent.incrDecrCommand_exact (consistent : Consistent s held)
    (stored : (s.keys.lookedUp moment key).number key = some v) (value : FitsLongLong v)
    (increment : FitsLongLong incr) (sum : FitsLongLong (v + incr))
    : ∃ s', Consistent s' held
      ∧ s.incrDecrCommand longMin longMax moment key incr
        = .ok (.integer (decimalText (v + incr)), s')
      ∧ s'.keys = (s.keys.lookedUp moment key).set key (.string (decimalText (v + incr))) := by
  obtain ⟨s₁, looked, keys, run⟩ := consistent.incrDecrCommand stored incr
  obtain ⟨s', new, set, after, changed, placed⟩ := looked.setNumber longMin longMax key sum
  obtain ⟨o, -, object, contents⟩ := after.found placed
  have text : o.decoded = .ok (decimalText (v + incr)) := by
    apply Robj.decoded_of_contents
    rw [changed] at contents
    simpa [Keys.set] using contents.symm
  refine ⟨s', after, ?_, by rw [changed, keys]⟩
  have passed : ¬ OverflowTest v incr := fun overflow =>
    (overflowTest_iff value increment).mp overflow sum
  rw [run, if_neg passed, (Keyspace.longLong_eq_self_iff _).mpr sum, set]
  simp only [ok_andThen, object, text]
  rfl

theorem Consistent.incrDecrCommand_refused (consistent : Consistent s held)
    (stored : (s.keys.lookedUp moment key).number key = some v) (value : FitsLongLong v)
    (increment : FitsLongLong incr) (sum : ¬ FitsLongLong (v + incr))
    : ∃ s', Consistent s' held
      ∧ s.incrDecrCommand longMin longMax moment key incr
        = .ok (.error "ERR increment or decrement would overflow", s')
      ∧ s'.keys = s.keys.lookedUp moment key := by
  obtain ⟨s', looked, keys, run⟩ := consistent.incrDecrCommand stored incr
  refine ⟨s', looked, ?_, keys⟩
  rw [run, if_pos ((overflowTest_iff value increment).mpr sum)]

-- Exactness

/-- The command is refused, and changes nothing, when the exact result does not fit. Otherwise it
stores and replies that result and leaves the other keys as they are.
-/
def ExactOrRefused (before : Keys V) (key : DbKey) (exact : Int)
    (outcome : Except Fault (CounterReply × Store V))
    : Prop :=
  (¬ FitsLongLong exact ∧ ∃ text s, outcome = .ok (.error text, s) ∧ s.keys = before)
  ∨ (FitsLongLong exact ∧ ∃ s, outcome = .ok (.integer (decimalText exact), s)
      ∧ s.keys = before.set key (.string (decimalText exact)))

theorem longLong_neg {d : Int} (fits : FitsLongLong d)
    : longLong (-d) = if d = -2 ^ 63 then -2 ^ 63 else -d := by
  obtain ⟨low, high⟩ := fits
  split
  · rename_i least
    rw [least]
    rfl
  · exact (Keyspace.longLong_eq_self_iff _).mpr ⟨by omega, by omega⟩

theorem Keys.number_fits {keys : Keys V} (stored : keys.number key = some v) : FitsLongLong v := by
  unfold Keys.number at stored
  split at stored
  · cases stored
    exact ⟨by decide, by decide⟩
  · exact Keyspace.getLongLongFromObject_fits stored
  · cases stored

theorem Consistent.exactOrRefused (consistent : Consistent s held)
    (stored : (s.keys.lookedUp moment key).number key = some v) (increment : FitsLongLong incr)
    : ExactOrRefused (s.keys.lookedUp moment key) key (v + incr)
        (s.incrDecrCommand longMin longMax moment key incr) := by
  have value := Keys.number_fits stored
  by_cases sum : FitsLongLong (v + incr)
  · obtain ⟨s', -, ran, keys⟩ := consistent.incrDecrCommand_exact stored value increment sum
    exact Or.inr ⟨sum, s', ran, keys⟩
  · obtain ⟨s', -, ran, keys⟩ := consistent.incrDecrCommand_refused stored value increment sum
    exact Or.inl ⟨sum, _, s', ran, keys⟩

theorem Consistent.not_exactOrRefused (consistent : Consistent s held)
    (stored : (s.keys.lookedUp moment key).number key = some v)
    : ¬ ExactOrRefused (s.keys.lookedUp moment key) key (v + 2 ^ 63)
        (s.incrDecrCommand longMin longMax moment key (-2 ^ 63)) := by
  have value := Keys.number_fits stored
  have least : FitsLongLong (-2 ^ 63) := ⟨by decide, by decide⟩
  by_cases sum : FitsLongLong (v + -2 ^ 63)
  · obtain ⟨s', -, ran, -⟩ := consistent.incrDecrCommand_exact stored value least sum
    rintro (⟨-, text, s, refused, -⟩ | ⟨fits, -⟩)
    · rw [ran] at refused
      cases refused
    · have low := sum.1
      have high := fits.2
      omega
  · obtain ⟨s', -, ran, -⟩ := consistent.incrDecrCommand_refused stored value least sum
    rintro (⟨outside, -⟩ | ⟨-, s, replied, -⟩)
    · unfold FitsLongLong at value sum outside
      omega
    · rw [ran] at replied
      cases replied

/-- The counters are exact or refused, but for a subtraction of the least number. -/
theorem counters_exact_iff (consistent : Consistent s held) (longMin longMax : Int)
    (moment : Moment)
    (request : CounterRequest) {d : Int}
    (stored : (s.keys.lookedUp moment request.key).number request.key = some v)
    (argument : request.change = some d)
    : ExactOrRefused (s.keys.lookedUp moment request.key) request.key (v + d)
        (request.call longMin longMax s moment)
      ↔ ¬ request.NegatesLeast := by
  have one : FitsLongLong 1 := ⟨by decide, by decide⟩
  have minusOne : FitsLongLong (-1) := ⟨by decide, by decide⟩
  cases request with
  | incr key =>
      cases argument
      exact iff_of_true (consistent.exactOrRefused stored one) not_false
  | decr key =>
      cases argument
      exact iff_of_true (consistent.exactOrRefused stored minusOne) not_false
  | incrby key increment =>
      have read : Keyspace.getLongLongFromObject increment = some d := argument
      simp only [CounterRequest.call, Store.incrbyCommand, read]
      exact iff_of_true
        (consistent.exactOrRefused stored (Keyspace.getLongLongFromObject_fits read)) not_false
  | decrby key decrement =>
      obtain ⟨e, read, rfl⟩ := Option.map_eq_some_iff.mp argument
      have fits := Keyspace.getLongLongFromObject_fits read
      simp only [CounterRequest.NegatesLeast, CounterRequest.call, Store.decrbyCommand, read,
        Option.some.injEq, longLong_neg fits]
      by_cases least : e = -2 ^ 63
      · subst least
        exact iff_of_false (consistent.not_exactOrRefused stored) (not_not_intro rfl)
      · rw [if_neg least]
        have negated : FitsLongLong (-e) := by
          unfold FitsLongLong at fits ⊢
          omega
        exact iff_of_true (consistent.exactOrRefused stored negated) least

/-- A key with a number that is not shared: its object takes the new number. -/
def storedNumber : Store Unit :=
  let (s, o) := Store.init.createObject (.int 20000)
  { s with dict := s.dict.insert sampleKey o }

theorem storedNumber_consistent : Consistent storedNumber fun _ => 0 := by
  obtain ⟨created, -, there⟩ := init_consistent.createObject (V := Unit) (.int 20000)
  exact (created.dbAdd rfl there).2.1

/-- `INCRBY k 5`. -/
theorem counters_exact_iff_incrby
    : ExactOrRefused (storedNumber.keys.lookedUp sampleMoment sampleKey) sampleKey (20000 + 5)
        ((CounterRequest.incrby sampleKey [0x35]).call (-2 ^ 63)
          (2 ^ 63 - 1) storedNumber sampleMoment)
      ↔ ¬ (CounterRequest.incrby sampleKey [0x35]).NegatesLeast :=
  counters_exact_iff storedNumber_consistent (-2 ^ 63) (2 ^ 63 - 1) sampleMoment
    (.incrby sampleKey [0x35]) (v := 20000) (d := 5) (by decide) (by decide)

/-- `DECRBY k -9223372036854775808`. -/
def decrbyLeast : CounterRequest := .decrby sampleKey (decimalText (-2 ^ 63))

/-- For a key that is not there it replies and stores the least number, although the result is too
large by one.
-/
theorem decrby_least_accepted
    : decrbyLeast.change = some (2 ^ 63)
      ∧ ((Store.init : Store Unit).keys.lookedUp sampleMoment sampleKey).number sampleKey = some 0
      ∧ (∃ s, decrbyLeast.call (-2 ^ 63) (2 ^ 63 - 1) (Store.init : Store Unit) sampleMoment
          = .ok (.integer (decimalText (-2 ^ 63)), s))
      ∧ ¬ ExactOrRefused ((Store.init : Store Unit).keys.lookedUp sampleMoment sampleKey) sampleKey
          (0 + 2 ^ 63) (decrbyLeast.call (-2 ^ 63) (2 ^ 63 - 1) Store.init sampleMoment) := by
  have least : Keyspace.getLongLongFromObject (decimalText (-2 ^ 63)) = some (-2 ^ 63) :=
    Keyspace.getLongLongFromObject_decimalText (by decide) (by decide)
  have argument : decrbyLeast.change = some (2 ^ 63) := by
    rw [decrbyLeast, CounterRequest.change, least]
    rfl
  have called : decrbyLeast.call (-2 ^ 63) (2 ^ 63 - 1) (Store.init : Store Unit) sampleMoment
      = Store.init.incrDecrCommand (-2 ^ 63) (2 ^ 63 - 1) sampleMoment sampleKey (-2 ^ 63) := by
    simp only [decrbyLeast, CounterRequest.call, Store.decrbyCommand, least]
    rfl
  have absent : ((Store.init : Store Unit).keys.lookedUp sampleMoment sampleKey).number sampleKey
      = some 0 := rfl
  have small : FitsLongLong (-2 ^ 63) := ⟨by decide, by decide⟩
  obtain ⟨s, -, replied, -⟩ :=
    @Consistent.incrDecrCommand_exact Unit (-2 ^ 63) (2 ^ 63 - 1) 0 (-2 ^ 63) Store.init
      (fun _ => 0)
      sampleMoment sampleKey init_consistent absent ⟨by decide, by decide⟩ small small
  rw [called]
  exact ⟨argument, rfl, ⟨s, replied⟩, init_consistent.not_exactOrRefused rfl⟩

end Redis.Strings
