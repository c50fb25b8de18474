import Redis.Sort.SortedVector

/-! What `SORT` emits with `LIMIT`: a slice of the elements in their order. -/

namespace Redis.Sort

open Redis.Keyspace (Sds ObjectDb Element longLong)
open Redis.Library
open Redis.SideIndexes (Moment)

-- The slice

/-- The elements from `limitStart` on, `limitCount` of them; with a negative count all of them. -/
def limitSlice (limitStart limitCount : Int) (items : List Element) : List Element :=
  if limitCount < 0 then items.drop limitStart.toNat
    else (items.drop limitStart.toNat).take limitCount.toNat

def limitSize (plan : Plan) (n : Nat) : Nat :=
  if plan.limitCount < 0 then n - plan.limitStart.toNat
    else min plan.limitCount.toNat (n - plan.limitStart.toNat)

/-- The values for one element. -/
def emitted (plan : Plan) (db : ObjectDb Robj) (moment : Moment) (obj : Element)
    : List (Option Element) :=
  if plan.operations = [] then [some obj]
  else plan.operations.map fun pattern => patternValue db moment pattern obj

/-- How many values there are for each element. -/
def bulksEach (plan : Plan) : Nat := if plan.operations = [] then 1 else plan.operations.length

/-- The client gets the values behind their number, or the destination has them. -/
def Emits (plan : Plan) (outcome : Outcome) (values : List (Option Element)) : Prop :=
  match plan.storekey with
  | none => outcome.reply = .multiBulk values.length (values.map (·.map Element.text))
  | some storekey =>
      outcome.db.dict storekey
        = if values = [] then none else some (.list (values.map fun val => val.getD (.bytes [])))

/-- The number of values fits the `unsigned int` of the header; of a destination it must not look
empty.
-/
def HeaderFits (plan : Plan) (n : Nat) : Prop :=
  bulksEach plan * limitSize plan n < 2 ^ 32
    ∨ (plan.storekey.isSome ∧ bulksEach plan * limitSize plan n % 2 ^ 32 ≠ 0)

/-- The end of the window is a 64-bit number in the vector; a length above `int` is taken modulo
`2 ^ 32`.
-/
def WindowFits (plan : Plan) (n : Nat) : Prop :=
  (n < 2 ^ 31 ∧ (plan.limitCount < 0 ∨ plan.limitStart.toNat + plan.limitCount ≤ 2 ^ 63))
    ∨ (2 ^ 31 ≤ n ∧ 0 ≤ plan.limitCount ∧ plan.limitStart.toNat + plan.limitCount ≤ int32 n)

section Output

variable {plan : Plan} {db next : ObjectDb Robj} {moment : Moment} {n : Nat} {w : Window}
  {s : Weighing}
  {vector items : List Element} {values values' : List (Option Element)}

theorem bulksEach_pos (plan : Plan) : 0 < bulksEach plan := by
  unfold bulksEach
  split
  · exact Nat.one_pos
  · exact List.length_pos_of_ne_nil ‹_›

theorem length_flatMap_emitted (objs : List Element)
    : (objs.flatMap (emitted plan db moment)).length = bulksEach plan * objs.length := by
  have each (obj : Element) : (emitted plan db moment obj).length = bulksEach plan := by
    unfold emitted bulksEach
    split
    · rfl
    · rw [List.length_map]
  induction objs with
  | nil => rfl
  | cons obj rest ih =>
      rw [List.flatMap_cons, List.length_append, each, ih, List.length_cons, Nat.mul_succ,
      Nat.add_comm]

theorem length_limitSlice (plan : Plan) (items : List Element)
    : (limitSlice plan.limitStart plan.limitCount items).length = limitSize plan items.length := by
  unfold limitSlice limitSize
  split
  · rw [List.length_drop]
  · rw [List.length_take, List.length_drop]

theorem limitSize_inside (some' : 0 < limitSize plan n)
    : plan.limitStart.toNat + limitSize plan n ≤ n := by
  unfold limitSize at *
  split_ifs at * <;> omega

theorem limitSlice_eq (plan : Plan) (items : List Element)
    : limitSlice plan.limitStart plan.limitCount items
      = (items.drop plan.limitStart.toNat).take (limitSize plan items.length) := by
  unfold limitSlice limitSize
  split
  · rw [List.take_of_length_le (by rw [List.length_drop])]
  · rw [Nat.min_comm, ← List.length_drop, List.take_eq_take_min, Nat.min_comm]

theorem outputElement_ok (only : ObjectDb.OnlyExpired moment db next) (obj : Element)
    (patterns : List Sds)
    : (outputElement moment next obj patterns).2
      = patterns.map (fun pattern => patternValue db moment pattern obj)
      ∧ ObjectDb.OnlyExpired moment db (outputElement moment next obj patterns).1 := by
  induction patterns generalizing next with
  | nil => exact ⟨rfl, only⟩
  | cons pattern rest ih =>
      obtain ⟨value, expired⟩ := lookupKeyByPattern_ok only pattern obj
      obtain ⟨others, expired'⟩ := ih expired
      exact ⟨by rw [List.map_cons, ← value, ← others]; rfl, expired'⟩

theorem outputLoop_ok (plan : Plan) (only : ObjectDb.OnlyExpired moment db next) (count : Nat)
    (j : Int)
    (inside : 0 < count → 0 ≤ j ∧ j.toNat + count ≤ vector.length)
    : ∃ after, outputLoop moment plan vector count j next
        = .ok (after, ((vector.drop j.toNat).take count).flatMap (emitted plan db moment)) := by
  induction count generalizing j next with
  | zero => exact ⟨next, rfl⟩
  | succ count ih =>
      obtain ⟨least, most⟩ := inside (Nat.succ_pos count)
      have less : j.toNat < vector.length := by omega
      have here : ∃ mid, (if plan.operations = [] then (next, [some vector[j.toNat]])
            else outputElement moment next vector[j.toNat] plan.operations)
          = (mid, emitted plan db moment vector[j.toNat]) ∧ ObjectDb.OnlyExpired moment db mid := by
        unfold emitted
        split
        · exact ⟨next, rfl, only⟩
        · obtain ⟨values, expired⟩ := outputElement_ok only vector[j.toNat] plan.operations
          exact ⟨_, Prod.ext rfl values, expired⟩
      obtain ⟨mid, values, expired⟩ := here
      obtain ⟨after, rest⟩ := ih expired (j + 1) fun _ => by omega
      have following : (j + 1).toNat = j.toNat + 1 := by omega
      refine ⟨after, ?_⟩
      rw [outputLoop, if_neg (by omega), List.getElem?_eq_getElem less]
      dsimp only
      rw [values]
      dsimp only
      rw [rest, List.drop_eq_getElem_cons less, List.take_succ_cons, List.flatMap_cons, following]
      rfl

theorem outputLoop_length (count : Nat) (j : Int)
    (output : outputLoop moment plan vector count j db = .ok (next, values))
    : values.length = bulksEach plan * count := by
  induction count generalizing j db values with
  | zero =>
      cases output
      rfl
  | succ count ih =>
      rw [outputLoop] at output
      cases at' : (if j < 0 then none else vector[j.toNat]?) with
      | none =>
          rw [at'] at output
          cases output
      | some obj =>
          rw [at'] at output
          dsimp only at output
          have each : (if plan.operations = [] then (db, [some obj])
              else outputElement moment db obj plan.operations).2.length = bulksEach plan := by
            unfold bulksEach
            split
            · rfl
            · rw [(outputElement_ok (.refl moment db) obj plan.operations).1, List.length_map]
          generalize (if plan.operations = [] then (db, [some obj])
            else outputElement moment db obj plan.operations) = here at output each
          obtain ⟨⟨after, others⟩, rest, same⟩ := andThen_ok_iff.mp output
          cases same
          rw [List.length_append, each, ih (j + 1) rest, Nat.mul_succ, Nat.add_comm]

/-- The output is the slice of the vector. -/
theorem sortOutput_window (only : ObjectDb.OnlyExpired moment db s.db)
    (flag : s.intConvertionError = false)
    (size : w.last - w.start + 1 = limitSize plan n)
    (inside : 0 < limitSize plan n → 0 ≤ w.start ∧ w.start.toNat + limitSize plan n ≤ vector.length)
    : ∃ outcome, sortOutput moment plan w vector s = .ok outcome
      ∧ (limitSize plan n = 0 ∨ HeaderFits plan n →
        Emits plan outcome
          (((vector.drop w.start.toNat).take (limitSize plan n)).flatMap (emitted plan db moment)))
      ∧ ∀ values', values'.length = bulksEach plan * limitSize plan n → Emits plan outcome values' →
        limitSize plan n = 0 ∨ HeaderFits plan n := by
  obtain ⟨after, output⟩ := outputLoop_ok plan only (limitSize plan n) w.start inside
  have header : outputLength plan w = bulksEach plan * limitSize plan n % 2 ^ 32 := by
    unfold outputLength bulksEach
    rw [size]
    split <;> omega
  have total
      : (((vector.drop w.start.toNat).take (limitSize plan n)).flatMap
      (emitted plan db moment)).length
      = bulksEach plan * limitSize plan n := by
    rw [length_flatMap_emitted, List.length_take, List.length_drop]
    rcases Nat.eq_zero_or_pos (limitSize plan n) with none' | some'
    · rw [none', Nat.zero_min]
    · have := inside some'
      rw [Nat.min_eq_left (by omega)]
  have empty : limitSize plan n = 0 ↔ bulksEach plan * limitSize plan n = 0 := by
    rw [Nat.mul_eq_zero]
    have := bulksEach_pos plan
    omega
  generalize ((vector.drop w.start.toNat).take (limitSize plan n)).flatMap (emitted plan db moment)
    = values at *
  unfold sortOutput
  rw [flag, size, Int.toNat_natCast]
  dsimp only
  rw [output]
  unfold Emits HeaderFits
  rw [empty]
  cases plan.storekey with
  | none =>
      refine ⟨_, rfl, fun fits => ?_, fun values' length emits => ?_⟩
      · dsimp only
        rw [header, total, Nat.mod_eq_of_lt]
        simp only [Option.isSome_none, Bool.false_eq_true, false_and, or_false] at fits
        omega
      · have announced := (SortReply.multiBulk.injEq .. ▸ emits).1
        omega
  | some storekey =>
      have none' (values : List (Option Element)) : values = [] ↔ values.length = 0 :=
        List.length_eq_zero_iff.symm
      refine ⟨_, rfl, fun fits => ?_, fun values' length emits => ?_⟩
      · dsimp only
        rw [storeOutput, header]
        by_cases shown : bulksEach plan * limitSize plan n % 2 ^ 32 = 0
        · rw [if_neg (not_not.mpr shown), ObjectDb.dict_dbDelete_self,
            if_pos ((none' values).mpr (by omega))]
        · rw [if_pos shown, ObjectDb.store_dict_self, if_neg (by rw [none']; omega)]
      · dsimp only at emits
        rw [storeOutput, header] at emits
        by_cases shown : bulksEach plan * limitSize plan n % 2 ^ 32 = 0
        · rw [if_neg (not_not.mpr shown), ObjectDb.dict_dbDelete_self] at emits
          by_cases nothing : values' = []
          · rw [none'] at nothing
            omega
          · rw [if_neg nothing] at emits
            cases emits
        · exact .inr (.inr ⟨rfl, shown⟩)

theorem sortOutput_other {outcome : Outcome} (flag : s.intConvertionError = false)
    (size : w.last - w.start + 1 ≠ limitSize plan n) (some' : 0 < limitSize plan n)
    (run : sortOutput moment plan w vector s = .ok outcome)
    (length : values'.length = bulksEach plan * limitSize plan n)
    : ¬Emits plan outcome values' := by
  have positive := bulksEach_pos plan
  have nonempty : 0 < values'.length := by
    rw [length]
    exact Nat.mul_pos positive some'
  unfold sortOutput at run
  rw [flag] at run
  dsimp only at run
  obtain ⟨⟨after, values⟩, output, ends⟩ := andThen_ok_iff.mp run
  have count := outputLoop_length _ _ output
  have different : values.length ≠ values'.length := by
    rw [count, length]
    intro same
    have := Nat.eq_of_mul_eq_mul_left positive same
    omega
  unfold Emits
  cases store : plan.storekey with
  | none =>
      rw [store] at ends
      cases ends
      rw [SortReply.multiBulk.injEq]
      rintro ⟨-, same⟩
      exact different (by simpa using congrArg List.length same)
  | some storekey =>
      rw [store] at ends
      cases ends
      dsimp only
      rw [if_neg (List.ne_nil_of_length_pos nonempty), storeOutput]
      split
      · rw [ObjectDb.store_dict_self, Option.some.injEq, Robj.list.injEq]
        intro same
        exact different (by simpa using congrArg List.length same)
      · rw [ObjectDb.dict_dbDelete_self]
        intro impossible
        cases impossible

end Output

end Redis.Sort
