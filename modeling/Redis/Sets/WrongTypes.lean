import Redis.Sets.Commands

/-! Sources that hold values of other types. A union or a difference looks at every key before it
does anything; an intersection stops at the first key that is missing.
-/

namespace Redis.Sets

open Redis.Keyspace (Sds ObjectDb wrongType)
open Redis.SideIndexes (Moment)

variable {W : Type} {find : Sds → Option (Robj W)} {keys : List Sds}

-- The lookups

def HoldsOther (find : Sds → Option (Robj W)) (key : Sds) : Prop :=
  ∃ value, find key = some (.other value)

/-- In front of every missing key there is a key that holds a value of another type. -/
def OtherBeforeMissing (find : Sds → Option (Robj W)) (keys : List Sds) : Prop :=
  ∀ before key behind, keys = before ++ key :: behind → find key = none →
    ∃ wrong ∈ before, HoldsOther find wrong

theorem unionSources_eq_none (wrong : ∃ key ∈ keys, HoldsOther find key)
    : unionSources find keys = none := by
  induction keys with
  | nil =>
      obtain ⟨key, member, _⟩ := wrong
      cases member
  | cons first keys ih =>
      obtain ⟨key, member, value, found⟩ := wrong
      rw [unionSources]
      rcases List.mem_cons.mp member with rfl | member
      · rw [found]
      · rw [ih ⟨key, member, value, found⟩]
        cases find first with
        | none => rfl
        | some value => cases value <;> rfl

theorem otherBeforeMissing_cons {key : Sds} {o : Rdb.SetObject} (found : find key = some (.set o))
    : OtherBeforeMissing find (key :: keys) ↔ OtherBeforeMissing find keys := by
  constructor
  · intro ordered before missing behind split absent
    obtain ⟨wrong, member, value, other⟩ :=
      ordered (key :: before) missing behind (by rw [split, List.cons_append]) absent
    rcases List.mem_cons.mp member with rfl | member
    · cases found.symm.trans other
    · exact ⟨wrong, member, value, other⟩
  · intro ordered before missing behind split absent
    cases before with
    | nil =>
        cases split
        cases found.symm.trans absent
    | cons first before =>
        cases split
        obtain ⟨wrong, member, other⟩ := ordered before missing behind rfl absent
        exact ⟨wrong, List.mem_cons_of_mem _ member, other⟩

theorem interSources_of_wrong (wrong : ∃ key ∈ keys, HoldsOther find key)
    : (OtherBeforeMissing find keys ∧ interSources find keys = .wrongType)
      ∨ (¬OtherBeforeMissing find keys ∧ interSources find keys = .missing) := by
  induction keys with
  | nil =>
      obtain ⟨key, member, _⟩ := wrong
      cases member
  | cons first keys ih =>
      rw [interSources]
      cases found : find first with
      | none =>
          refine .inr ⟨?_, rfl⟩
          intro ordered
          obtain ⟨_, member, _⟩ := ordered [] first keys rfl found
          cases member
      | some value =>
          cases value with
          | other value =>
              refine .inl ⟨?_, rfl⟩
              intro before missing behind split absent
              cases before with
              | nil =>
                  cases split
                  cases found.symm.trans absent
              | cons _ before =>
                  cases split
                  exact ⟨_, List.mem_cons_self, value, found⟩
          | set o =>
              have later : ∃ key ∈ keys, HoldsOther find key := by
                obtain ⟨key, member, value, other⟩ := wrong
                rcases List.mem_cons.mp member with rfl | member
                · cases found.symm.trans other
                · exact ⟨key, member, value, other⟩
              rw [otherBeforeMissing_cons found]
              rcases ih later with ⟨ordered, outcome⟩ | ⟨unordered, outcome⟩
              · exact .inl ⟨ordered, by rw [outcome]⟩
              · exact .inr ⟨unordered, by rw [outcome]⟩

-- The commands

variable {env : Env} {db : ObjectDb (Robj W)} {moment : Moment}

/-- The command replies `WRONGTYPE` and changes nothing but that expired keys may be gone. -/
def Refused (moment : Moment) (db : ObjectDb (Robj W))
    (run : Except Library.Fault (SetReply × ObjectDb (Robj W)))
    : Prop :=
  ∃ next, run = .ok (.error wrongType, next) ∧ ObjectDb.OnlyExpired moment db next

def SetCommand.IsInter : SetCommand → Prop
  | .sinter .. | .sinterstore .. => True
  | _ => False

theorem sunionDiff_refused (wrong : ∃ key ∈ keys, HoldsOther (db.find moment) key)
    (dstkey : Option Sds) (op : SetOp)
    : Refused moment db (sunionDiffGenericCommand env db moment keys dstkey op) := by
  obtain ⟨next, looked, only⟩ := sunionDiffLookups_ok db moment keys
  refine ⟨next, ?_, only⟩
  rw [sunionDiffGenericCommand, looked, unionSources_eq_none wrong]

theorem sinter_refused_iff (wrong : ∃ key ∈ keys, HoldsOther (db.find moment) key)
    (dstkey : Option Sds)
    : Refused moment db (sinterGenericCommand env db moment keys dstkey)
      ↔ OtherBeforeMissing (db.find moment) keys := by
  obtain ⟨next, looked, only⟩ := sinterLookups_ok db moment keys
  rcases interSources_of_wrong wrong with ⟨ordered, outcome⟩ | ⟨unordered, outcome⟩
  · refine iff_of_true ⟨next, ?_, only⟩ ordered
    rw [sinterGenericCommand, looked, outcome]
  · refine iff_of_false ?_ unordered
    rintro ⟨final, ran, _⟩
    rw [sinterGenericCommand, looked, outcome] at ran
    cases dstkey with
    | none => cases ran
    | some dstkey => cases ran

/-- Of the commands with a source of another type, a union and a difference are refused, and an
intersection is refused exactly when such a source comes before every missing key.
-/
theorem wrong_type_refused_iff (command : SetCommand)
    (wrong : ∃ key ∈ command.sources, HoldsOther (db.find moment) key)
    : Refused moment db (command.call env db moment)
      ↔ (command.IsInter → OtherBeforeMissing (db.find moment) command.sources) := by
  cases command with
  | sinter key keys => exact (sinter_refused_iff wrong none).trans (true_imp_iff).symm
  | sinterstore dstkey key keys =>
      exact (sinter_refused_iff wrong (some dstkey)).trans (true_imp_iff).symm
  | sunion key keys => exact iff_of_true (sunionDiff_refused wrong none .union) False.elim
  | sunionstore dstkey key keys =>
      exact iff_of_true (sunionDiff_refused wrong (some dstkey) .union) False.elim
  | sdiff key keys => exact iff_of_true (sunionDiff_refused wrong none .diff) False.elim
  | sdiffstore dstkey key keys =>
      exact iff_of_true (sunionDiff_refused wrong (some dstkey) .diff) False.elim

/-- An environment in which orders are kept. -/
def plainEnv : Env where
  fresh _ := 0
  setMaxIntsetEntries := 512
  order := ⟨id, fun _ => .rfl⟩
  qsort := ⟨fun _ items => items, fun _ _ => .rfl⟩

/-- An empty set `d` and a string `s`. -/
def setAndString : ObjectDb (Robj Sds) where
  dict key :=
    if key = [0x64] then some (.set createIntsetObject)
    else if key = [0x73] then some (.other [])
    else none
  expires _ := none
  expires_in_dict _ _ := rfl

theorem wrong_type_refused_first
    : (∃ key ∈ [[0x73], [0x6D]], HoldsOther (setAndString.find ⟨0, false, false⟩) key)
      ∧ Refused ⟨0, false, false⟩ setAndString
          (SetCommand.call plainEnv setAndString ⟨0, false, false⟩
            (.sinterstore [0x64] [0x73] [[0x6D]])) := by
  have wrong : ∃ key ∈ [[0x73], [0x6D]], HoldsOther (setAndString.find ⟨0, false, false⟩) key :=
    ⟨[0x73], List.mem_cons_self, [], rfl⟩
  refine ⟨wrong, (wrong_type_refused_iff (.sinterstore [0x64] [0x73] [[0x6D]]) wrong).mpr ?_⟩
  intro _ before key behind split absent
  cases before with
  | nil =>
      cases split
      cases absent
  | cons first before =>
      obtain ⟨same, _⟩ := List.cons.inj split
      exact ⟨[0x73], by simp [← same], [], rfl⟩

/-- `SINTERSTORE d m s` with a string `s` and no key `m` deletes `d`. -/
theorem sinterstore_deletes
    : (∃ key ∈ [[0x6D], [0x73]], HoldsOther (setAndString.find ⟨0, false, false⟩) key)
      ∧ (∃ next,
          SetCommand.call plainEnv setAndString ⟨0, false, false⟩
              (.sinterstore [0x64] [0x6D] [[0x73]])
            = .ok (.integer 0, next)
          ∧ next.dict [0x64] = none)
      ∧ ¬Refused ⟨0, false, false⟩ setAndString
          (SetCommand.call plainEnv setAndString ⟨0, false, false⟩
            (.sinterstore [0x64] [0x6D] [[0x73]])) := by
  refine ⟨⟨[0x73], by simp, [], rfl⟩, ⟨_, rfl, rfl⟩, ?_⟩
  rintro ⟨next, ran, _⟩
  cases ran

end Redis.Sets
