import Redis.Sets.Loops
import Redis.Sets.WrongTypes

/-! The set commands compute set algebra, as far as an `int` counts the members. -/

namespace Redis.Sets

open Redis.Library
open Redis.Keyspace (Sds ObjectDb)
open Redis.Rdb (SetObject)
open Redis.SideIndexes (Moment)

variable {W : Type} {env : Env} {members : Sds → Finset Sds} {state : SetObject × Int}
  {held all : Finset Sds}

-- Unions

theorem unionLoop_ok (sets : List (Option Source)) (sourced : Sourced members sets)
    (counted : Counted env.setMaxIntsetEntries state held)
    (room : FitsIntset env.setMaxIntsetEntries all) (few : held ⊆ all)
    (inside : ∀ set ∈ sets, contents members set ⊆ all)
    : ∃ final held',
        unionLoop env state sets = .ok final
        ∧ Counted env.setMaxIntsetEntries final held'
        ∧ ∀ text, text ∈ held' ↔ text ∈ held ∨ ∃ set ∈ sets, text ∈ contents members set := by
  induction sets generalizing state held with
  | nil => exact ⟨state, held, rfl, counted, by simp⟩
  | cons set sets ih =>
      have inside' := fun other member => inside other (List.mem_cons_of_mem set member)
      cases set with
      | none =>
          obtain ⟨final, held', ran, counted, same⟩ := ih sourced.tail counted few inside'
          refine ⟨final, held', ran, counted, ?_⟩
          intro text
          simp [same]
      | some source =>
          have more : held ∪ members source.key ⊆ all :=
            Finset.union_subset few (inside (some source) List.mem_cons_self)
          obtain ⟨next, added, counted⟩ :=
            overElements_add (sourced source List.mem_cons_self) counted (room.mono more)
          obtain ⟨final, held', ran, counted, same⟩ := ih sourced.tail counted more inside'
          refine ⟨final, held', by rw [unionLoop, added]; exact ran, counted, ?_⟩
          intro text
          simp [same, or_assoc]

-- Differences

/-- What is left of a set without the members of others. -/
def remaining (members : Sds → Finset Sds) (held : Finset Sds) (sets : List (Option Source))
    : Finset Sds :=
  held.filter fun text => ∀ set ∈ sets, text ∉ contents members set

theorem mem_remaining {sets : List (Option Source)} {text : Sds}
    : text ∈ remaining members held sets
      ↔ text ∈ held ∧ ∀ set ∈ sets, text ∉ contents members set := Finset.mem_filter

theorem remaining_nil : remaining members held [] = held := by
  ext text
  simp [mem_remaining]

theorem remaining_cons (set : Option Source) (sets : List (Option Source))
    : remaining members held (set :: sets)
      = remaining members (held \ contents members set) sets := by
  ext text
  simp [mem_remaining, and_assoc]

theorem remaining_subset {sets sets' : List (Option Source)} (part : sets ⊆ sets')
    : remaining members held sets' ⊆ remaining members held sets := by
  intro text member
  obtain ⟨inside, out⟩ := mem_remaining.mp member
  exact mem_remaining.mpr ⟨inside, fun set member => out set (part member)⟩

theorem inNoOther_ok {first : Source} {ele : StringObject} (others : List (Option Source))
    (sourced : Sourced members others) (own : ele.text ∈ members first.key)
    : inNoOther first ele others
      = .ok (decide (∀ set ∈ others, ele.text ∉ contents members set)) := by
  induction others with
  | nil => simp [inNoOther]
  | cons other rest ih =>
      have later := ih sourced.tail
      cases other with
      | none => simp [inNoOther, later]
      | some other =>
          rw [inNoOther]
          by_cases same : other.key = first.key
          · simp [same, own]
          · rw [if_neg same, setTypeIsMember_ok (sourced other List.mem_cons_self), ok_andThen]
            by_cases inside : ele.text ∈ members other.key
            · simp [inside]
            · simp [inside, later]

theorem diffStep_ok {first : Source} (others : List (Option Source))
    (sourced : Sourced members others) (elements : List SetElement)
    (counted : Counted env.setMaxIntsetEntries state held)
    (room : FitsIntset env.setMaxIntsetEntries all) (few : held ⊆ all)
    (inside : ∀ text ∈ elementTexts elements, text ∈ all)
    (own : ∀ text ∈ elementTexts elements, text ∈ members first.key)
    (distinct : (elementTexts elements).Nodup)
    (new : ∀ text ∈ elementTexts elements, text ∉ held)
    : ∃ final,
        elements.foldlM (diffStep env first others) state = .ok final
        ∧ Counted env.setMaxIntsetEntries final
            (held ∪ remaining members (elementTexts elements).toFinset others) := by
  induction elements generalizing state held with
  | nil => exact ⟨state, rfl, by simpa [elementTexts, remaining] using counted⟩
  | cons element elements ih =>
      obtain ⟨alone, distinct'⟩ := List.nodup_cons.mp distinct
      have inside' := fun text member => inside text (List.mem_cons_of_mem _ member)
      have own' := fun text member => own text (List.mem_cons_of_mem _ member)
      have new' := fun text member => new text (List.mem_cons_of_mem _ member)
      rw [List.foldlM_cons, diffStep,
        inNoOther_ok others sourced (own _ List.mem_cons_self), ok_andThen]
      by_cases absent : ∀ set ∈ others, element.toObject.text ∉ contents members set
      · obtain ⟨dstset, added, denotes, within⟩ :=
          setTypeAdd_ok env.fresh counted.denotes counted.within (room.mono few) element.toObject
        have fresh := new _ List.mem_cons_self
        have counted'
            : Counted env.setMaxIntsetEntries (dstset, int32 (state.2 + 1))
                (insert element.toObject.text held) :=
          ⟨denotes, within, by
            rw [counted.count, int32_add, Finset.card_insert_of_notMem fresh, Nat.cast_add,
              Nat.cast_one]⟩
        obtain ⟨final, ran, counted''⟩ :=
          ih counted' (Finset.insert_subset (inside _ List.mem_cons_self) few) inside' own'
            distinct' (by
              intro text member both
              rcases Finset.mem_insert.mp both with rfl | old
              · exact alone member
              · exact new' text member old)
        rw [decide_eq_true absent, if_pos rfl, added]
        refine ⟨final, ran, ?_⟩
        convert counted'' using 1
        ext text
        simp only [elementTexts, List.map_cons, List.toFinset_cons, Finset.mem_union,
          mem_remaining, Finset.mem_insert]
        constructor
        · rintro (old | ⟨rfl | later, out⟩)
          · exact .inl (.inr old)
          · exact .inl (.inl rfl)
          · exact .inr ⟨later, out⟩
        · rintro ((rfl | old) | ⟨later, out⟩)
          · exact .inr ⟨.inl rfl, absent⟩
          · exact .inl old
          · exact .inr ⟨.inr later, out⟩
      · obtain ⟨final, ran, counted'⟩ := ih counted few inside' own' distinct' new'
        rw [decide_eq_false absent]
        refine ⟨final, ran, ?_⟩
        convert counted' using 1
        ext text
        simp only [elementTexts, List.map_cons, List.toFinset_cons, Finset.mem_union,
          mem_remaining, Finset.mem_insert]
        constructor
        · rintro (old | ⟨rfl | later, out⟩)
          · exact .inl old
          · exact absurd out absent
          · exact .inr ⟨later, out⟩
        · rintro (old | ⟨later, out⟩)
          · exact .inl old
          · exact .inr ⟨.inr later, out⟩

theorem diffRemovals_ok (sets : List (Option Source)) (sourced : Sourced members sets)
    (counted : Counted env.setMaxIntsetEntries state held) (going : ¬2 ^ 32 ∣ held.card)
    : ∃ final count,
        diffRemovals env state sets = .ok final
        ∧ count ≤ sets.length
        ∧ Counted env.setMaxIntsetEntries final (remaining members held (sets.take count))
        ∧ (count < sets.length → 2 ^ 32 ∣ (remaining members held (sets.take count)).card)
        ∧ ∀ before < count, ¬2 ^ 32 ∣ (remaining members held (sets.take before)).card := by
  induction sets generalizing state held with
  | nil => exact ⟨state, 0, rfl, le_rfl, by simpa [remaining_nil] using counted, by simp, by simp⟩
  | cons set sets ih =>
      -- The counter was looked at before, so the first round is taken.
      have first : ∀ count,
          (∀ before < count,
            ¬2 ^ 32 ∣ (remaining members (held \ contents members set) (sets.take before)).card)
          → ∀ before < count + 1,
              ¬2 ^ 32 ∣ (remaining members held ((set :: sets).take before)).card := by
        intro count later before less
        cases before with
        | zero => rwa [List.take_zero, remaining_nil]
        | succ before =>
            rw [List.take_succ_cons, remaining_cons]
            exact later before (by omega)
      have done : ∀ {next : SetObject × Int},
          Counted env.setMaxIntsetEntries next (held \ contents members set)
          → ¬2 ^ 32 ∣ (held \ contents members set).card
          → ∃ final count,
              diffRemovals env next sets = .ok final
              ∧ count ≤ (set :: sets).length
              ∧ Counted env.setMaxIntsetEntries final
                  (remaining members held ((set :: sets).take count))
              ∧ (count < (set :: sets).length
                  → 2 ^ 32 ∣ (remaining members held ((set :: sets).take count)).card)
              ∧ ∀ before < count,
                  ¬2 ^ 32 ∣ (remaining members held ((set :: sets).take before)).card := by
        intro next counted going
        obtain ⟨final, count, ran, inside, counted, stopped, passed⟩ :=
          ih sourced.tail counted going
        refine ⟨final, count + 1, ran, Nat.succ_le_succ inside, ?_, ?_, first count passed⟩
        · rwa [List.take_succ_cons, remaining_cons]
        · intro less
          rw [List.take_succ_cons, remaining_cons]
          exact stopped (Nat.lt_of_succ_lt_succ less)
      cases set with
      | none =>
          have same : held \ contents members none = held := Finset.sdiff_empty
          rw [diffRemovals]
          exact done (by rwa [same]) (by rwa [same])
      | some source =>
          obtain ⟨next, removed, counted'⟩ :=
            overElements_remove (sourced source List.mem_cons_self) counted
          rw [diffRemovals, removed, ok_andThen]
          by_cases zero : next.2 = 0
          · refine ⟨next, 1, by rw [if_pos zero]; rfl, by simp, ?_, ?_, ?_⟩
            · rw [List.take_succ_cons, List.take_zero, remaining_cons, remaining_nil]
              exact counted'
            · intro _
              rw [List.take_succ_cons, List.take_zero, remaining_cons, remaining_nil]
              exact int32_eq_zero_iff.mp (counted'.count.symm.trans zero)
            · exact first 0 (by simp)
          · rw [if_neg zero]
            exact done counted' fun divides =>
              zero (counted'.count.trans (int32_eq_zero_iff.mpr divides))

-- Replies

/-- The database after a result was stored; expired keys may be gone. -/
structure Stored (moment : Moment) (db : ObjectDb (Robj W)) (dstkey : Sds) (result : Finset Sds)
    (next : ObjectDb (Robj W))
    : Prop where
  value : if result = ∅ then next.dict dstkey = none
    else ∃ o, next.dict dstkey = some (.set o) ∧ Denotes o result
  persistent : next.expires dstkey = none
  others : ∀ key ≠ dstkey,
    (next.dict key = db.dict key ∧ next.expires key = db.expires key)
    ∨ (db.mustExpire moment key = true ∧ next.dict key = none ∧ next.expires key = none)

/-- A run computes a set: it replies the members, each once, behind their number, or it stores the
set and replies its size.
-/
def Computes (moment : Moment) (db : ObjectDb (Robj W)) (result : Finset Sds)
    (dstkey : Option Sds) (run : Except Fault (SetReply × ObjectDb (Robj W)))
    : Prop :=
  match dstkey with
  | none =>
      ∃ elements next,
        run = .ok (.multiBulk result.card elements, next)
        ∧ elements.Nodup
        ∧ (∀ text, text ∈ elements ↔ text ∈ result)
        ∧ ObjectDb.OnlyExpired moment db next
  | some dstkey =>
      ∃ next, run = .ok (.integer result.card, next) ∧ Stored moment db dstkey result next

theorem Denotes.unique {o : SetObject} {part whole : Finset Sds} (denotes : Denotes o part)
    (denotes' : Denotes o whole)
    : part = whole := by
  ext text
  have same := (setTypeIsMember_ok denotes (.sds text)).symm.trans
    (setTypeIsMember_ok denotes' (.sds text))
  exact decide_eq_decide.mp (Except.ok.inj same)

section Replies

variable {db mid : ObjectDb (Robj W)} {moment : Moment} {result : Finset Sds}

theorem storeResult_iff (only : ObjectDb.OnlyExpired moment db mid) {dstset : SetObject}
    (denotes : Denotes dstset held) (dstkey : Sds)
    : Computes moment db result (some dstkey) (storeResult mid dstkey dstset) ↔ held = result := by
  have size := setTypeSize_ok denotes
  have others : ∀ key ≠ dstkey,
      ((mid.dbDelete dstkey).dict key = db.dict key
        ∧ (mid.dbDelete dstkey).expires key = db.expires key)
      ∨ (db.mustExpire moment key = true
          ∧ (mid.dbDelete dstkey).dict key = none
          ∧ (mid.dbDelete dstkey).expires key = none) := by
    intro key different
    rw [mid.dict_dbDelete_of_ne different, mid.expires_dbDelete_of_ne different]
    exact only key
  by_cases empty : held = ∅
  · -- The destination is deleted.
    have ran : storeResult mid dstkey dstset = .ok (.integer 0, mid.dbDelete dstkey) := by
      rw [storeResult, size, empty]
      rfl
    rw [ran, empty]
    constructor
    · rintro ⟨next, same, _⟩
      have none : (result.card : Int) = 0 := by
        injection same with same
        injection same with same
        injection same with same
        exact same.symm
      exact (Finset.card_eq_zero.mp (by omega)).symm
    · rintro rfl
      exact ⟨_, rfl, by simp, mid.expires_dbDelete_self _, others⟩
  · have some : held.card > 0 := Finset.card_pos.mpr (Finset.nonempty_iff_ne_empty.mpr empty)
    have ran
        : storeResult mid dstkey dstset
          = .ok (.integer held.card, (mid.dbDelete dstkey).store dstkey (.set dstset)) := by
      rw [storeResult, size, if_pos some, mid.dbAdd_dbDelete]
      rfl
    rw [ran]
    constructor
    · rintro ⟨next, same, stored⟩
      have parts := Prod.mk.inj (Except.ok.inj same)
      have counted := SetReply.integer.inj parts.1
      have full : result ≠ ∅ := by
        rintro rfl
        simp at counted
        exact empty counted
      have value := stored.value
      rw [if_neg full, ← parts.2] at value
      obtain ⟨o, there, denotes'⟩ := value
      rw [ObjectDb.store_dict_self] at there
      cases there
      exact denotes.unique denotes'
    · rintro rfl
      refine ⟨_, rfl, ?_, ?_, ?_⟩
      · rw [if_neg empty]
        exact ⟨dstset, ObjectDb.store_dict_self .., denotes⟩
      · rw [ObjectDb.expires_store, mid.expires_dbDelete_self]
      · intro key different
        rw [ObjectDb.dict_store_of_ne _ _ different, ObjectDb.expires_store]
        exact others key different

theorem multiBulk_iff (only : ObjectDb.OnlyExpired moment db mid) {header : Int}
    {elements : List Sds} (distinct : elements.Nodup)
    (same : ∀ text, text ∈ held ↔ text ∈ elements)
    : Computes moment db result none (.ok (.multiBulk header elements, mid))
      ↔ held = result ∧ header = held.card := by
  constructor
  · rintro ⟨elements', next, ran, _, members', _⟩
    have parts := SetReply.multiBulk.inj (Prod.mk.inj (Except.ok.inj ran)).1
    have equal : held = result := by
      ext text
      rw [same, parts.2, members']
    exact ⟨equal, by rw [parts.1, equal]⟩
  · rintro ⟨rfl, rfl⟩
    exact ⟨elements, mid, rfl, distinct, fun text => (same text).symm, only⟩

theorem sunionDiff_reply {keys : List Sds} {sets : List (Option Source)} {op : SetOp}
    (looked : sunionDiffLookups moment db keys = (mid, some sets))
    (built : sunionDiffResult env sets op = .ok state)
    (counted : Counted env.setMaxIntsetEntries state held)
    : ∃ elements,
        sunionDiffGenericCommand env db moment keys none op
          = .ok (.multiBulk (int32 held.card) elements, mid)
        ∧ elements.Nodup
        ∧ ∀ text, text ∈ held ↔ text ∈ elements := by
  obtain ⟨elements, listed, distinct, same, _⟩ := setTypeElements_ok counted.denotes env.order
  refine ⟨elementTexts elements, ?_, distinct, same⟩
  rw [sunionDiffGenericCommand, looked, ← counted.count]
  dsimp only
  rw [built, ok_andThen]
  rw [listed]
  rfl

theorem sunionDiff_iff (only : ObjectDb.OnlyExpired moment db mid) {keys : List Sds}
    {sets : List (Option Source)} {op : SetOp}
    (looked : sunionDiffLookups moment db keys = (mid, some sets))
    (built : sunionDiffResult env sets op = .ok state)
    (counted : Counted env.setMaxIntsetEntries state held) (dstkey : Option Sds)
    : Computes moment db result dstkey (sunionDiffGenericCommand env db moment keys dstkey op)
      ↔ held = result ∧ (dstkey = none → held.card < 2 ^ 31) := by
  cases dstkey with
  | none =>
      obtain ⟨elements, ran, distinct, same⟩ := sunionDiff_reply looked built counted
      rw [ran, multiBulk_iff only distinct same, int32_eq_self_iff]
      exact and_congr_right fun _ => (imp_iff_right rfl).symm
  | some dstkey =>
      rw [sunionDiffGenericCommand, looked]
      dsimp only
      rw [built, ok_andThen]
      exact (storeResult_iff only counted.denotes dstkey).trans (and_iff_left (by simp)).symm

end Replies

-- Results and conditions

/-- What is left of the first set when some of the others have been taken out. -/
def diffAfter (members : Sds → Finset Sds) (key : Sds) (keys : List Sds) (count : Nat)
    : Finset Sds :=
  members key \ (keys.take count).toFinset.biUnion members

/-- A difference is computed by the second algorithm. -/
def UsesSecondAlgorithm (find : Sds → Option (Robj W)) (key : Sds) (keys : List Sds) : Prop :=
  ∃ first others,
    unionSources find (key :: keys) = some (some first :: others)
    ∧ diffAlgo first (some first :: others) ≠ 1

/-- Where the size of what is left is a multiple of `2 ^ 32`, nothing more is taken out. -/
def StopsRight (members : Sds → Finset Sds) (key : Sds) (keys : List Sds) : Prop :=
  ∀ count ≤ keys.length, 2 ^ 32 ∣ (diffAfter members key keys count).card →
    diffAfter members key keys count = diffAfter members key keys keys.length

namespace SetCommand

/-- The set that a command is about. -/
def result (members : Sds → Finset Sds) : SetCommand → Finset Sds
  | sinter key keys | sinterstore _ key keys =>
      (members key).filter fun text => ∀ other ∈ keys, text ∈ members other
  | sunion key keys | sunionstore _ key keys => (key :: keys).toFinset.biUnion members
  | sdiff key keys | sdiffstore _ key keys => members key \ keys.toFinset.biUnion members

def dstkey : SetCommand → Option Sds
  | sinterstore dstkey _ _ | sunionstore dstkey _ _ | sdiffstore dstkey _ _ => some dstkey
  | _ => none

/-- The `int` counts far enough: the number in the reply of a union or a difference is below
`2 ^ 31`, and the second algorithm for a difference does not stop early.
-/
def Counts (find : Sds → Option (Robj W)) (members : Sds → Finset Sds) : SetCommand → Prop
  | sinter .. | sinterstore .. | sunionstore .. => True
  | sunion key keys => ((key :: keys).toFinset.biUnion members).card < 2 ^ 31
  | sdiff key keys =>
      (UsesSecondAlgorithm find key keys → StopsRight members key keys)
      ∧ (members key \ keys.toFinset.biUnion members).card < 2 ^ 31
  | sdiffstore _ key keys => UsesSecondAlgorithm find key keys → StopsRight members key keys

end SetCommand

theorem diffAfter_length (key : Sds) (keys : List Sds)
    : diffAfter members key keys keys.length = members key \ keys.toFinset.biUnion members := by
  rw [diffAfter, List.take_length]

theorem remaining_eq {sets : List (Option Source)} {keys : List Sds}
    (same : sets.map (contents members) = keys.map members)
    : remaining members held sets = held \ keys.toFinset.biUnion members := by
  ext text
  have out
      : (∀ set ∈ sets, text ∉ contents members set) ↔ ∀ part ∈ keys.map members, text ∉ part := by
    rw [← same]
    simp
  rw [mem_remaining, out]
  simp

theorem diffAfter_subset {key : Sds} {keys : List Sds} {few many : Nat} (fewer : few ≤ many)
    : diffAfter members key keys many ⊆ diffAfter members key keys few := by
  refine Finset.sdiff_subset_sdiff Finset.Subset.rfl
    (Finset.biUnion_subset_biUnion_of_subset_left _ ?_)
  intro other member
  rw [List.mem_toFinset] at *
  exact List.take_subset_take_left _ fewer member

theorem stopsRight_iff {key : Sds} {keys : List Sds} {count : Nat} (inside : count ≤ keys.length)
    (stopped : count < keys.length → 2 ^ 32 ∣ (diffAfter members key keys count).card)
    (passed : ∀ before < count, ¬2 ^ 32 ∣ (diffAfter members key keys before).card)
    : diffAfter members key keys count = diffAfter members key keys keys.length
      ↔ StopsRight members key keys := by
  constructor
  · intro right other most divides
    have later : count ≤ other := by
      by_contra early
      exact passed other (Nat.lt_of_not_le early) divides
    refine Finset.Subset.antisymm ?_ (diffAfter_subset most)
    rw [← right]
    exact diffAfter_subset later
  · intro right
    rcases Nat.lt_or_eq_of_le inside with less | same
    · exact right count inside (stopped less)
    · rw [same]

theorem diffResult_ok {find : Sds → Option (Robj W)} {key : Sds} {keys : List Sds}
    {sets : List (Option Source)} (looked : unionSources find (key :: keys) = some sets)
    (sourced : Sourced members sets)
    (same : sets.map (contents members) = (key :: keys).map members)
    (room : FitsIntset env.setMaxIntsetEntries (members key))
    : ∃ state held,
        sunionDiffResult env sets .diff = .ok state
        ∧ Counted env.setMaxIntsetEntries state held
        ∧ (held = members key \ keys.toFinset.biUnion members
            ↔ (UsesSecondAlgorithm find key keys → StopsRight members key keys)) := by
  cases sets with
  | nil => cases same
  | cons set others =>
      obtain ⟨head, tail⟩ := List.cons.inj same
      cases set with
      | none =>
          refine ⟨_, ∅, rfl, .init _, iff_of_true ?_ ?_⟩
          · rw [← head]
            exact (Finset.empty_sdiff _).symm
          · rintro ⟨first, others', looked', _⟩
            cases looked.symm.trans looked'
      | some first =>
          have own : members first.key = members key := head
          have denotes := sourced first List.mem_cons_self
          rw [own] at denotes
          rw [sunionDiffResult]
          by_cases algorithm : diffAlgo first (some first :: others) = 1
          · obtain ⟨elements, listed, distinct, texts, _⟩ := setTypeElements_ok denotes env.order
            obtain ⟨sorted, sortedEq⟩
                : ∃ sorted, sorted
                  = if others.length + 1 > 1 then
                      env.qsort.sort qsortCompareSetsByRevCardinality others
                    else others := ⟨_, rfl⟩
            have perm : sorted.Perm others := by
              rw [sortedEq]
              split
              · exact env.qsort.perm ..
              · exact .refl others
            obtain ⟨state, ran, counted⟩ :=
              diffStep_ok sorted (fun source member => sourced.tail source (perm.mem_iff.mp member))
                elements (Counted.init env.setMaxIntsetEntries) room (Finset.empty_subset _)
                (fun text member => (texts text).mpr member)
                (fun text member => own ▸ (texts text).mpr member) distinct
                (fun _ _ => Finset.notMem_empty _)
            refine ⟨state, _, ?_, counted, iff_of_true ?_ ?_⟩
            · rw [if_pos algorithm, ← sortedEq, overElements, listed]
              exact ran
            · have all : (elementTexts elements).toFinset = members key := by
                ext text
                rw [List.mem_toFinset, texts]
              rw [Finset.empty_union, all, ← remaining_eq tail]
              exact (remaining_subset perm.symm.subset).antisymm (remaining_subset perm.subset)
            · rintro ⟨first', others', looked', other⟩
              cases looked.symm.trans looked'
              exact absurd algorithm other
          · -- The counter is zero at multiples of `2 ^ 32`.
            obtain ⟨state, added, counted⟩ :=
              overElements_add denotes (Counted.init env.setMaxIntsetEntries)
                (by rwa [Finset.empty_union])
            rw [Finset.empty_union] at counted
            have length : others.length = keys.length := by
              simpa using congrArg List.length tail
            have left : ∀ count, remaining members (members key) (others.take count)
                = diffAfter members key keys count := by
              intro count
              refine remaining_eq ?_
              rw [List.map_take, tail, List.map_take]
            have uses : UsesSecondAlgorithm find key keys := ⟨first, others, looked, algorithm⟩
            rw [if_neg algorithm, added, ok_andThen, ← diffAfter_length]
            by_cases zero : state.2 = 0
            · have start : diffAfter members key keys 0 = members key := by simp [diffAfter]
              have divides := int32_eq_zero_iff.mp (counted.count.symm.trans zero)
              refine ⟨state, members key, if_pos zero, counted, ?_⟩
              rw [imp_iff_right uses, ← stopsRight_iff (Nat.zero_le _) (fun _ => by rwa [start])
                (fun _ none => absurd none (Nat.not_lt_zero _)), start]
            · obtain ⟨final, count, ran, inside, counted, stopped, passed⟩ :=
                diffRemovals_ok others sourced.tail counted fun divides =>
                  zero (counted.count.trans (int32_eq_zero_iff.mpr divides))
              simp only [left, length] at counted inside stopped passed
              refine ⟨final, _, (if_neg zero).trans ran, counted, ?_⟩
              rw [imp_iff_right uses, stopsRight_iff inside stopped passed]

section Commands

variable {db : ObjectDb (Robj W)} {moment : Moment} {key : Sds} {keys : List Sds}
  (sets : ∀ other ∈ key :: keys, Means (db.find moment other) (members other))
  (room : FitsIntset env.setMaxIntsetEntries ((key :: keys).toFinset.biUnion members))

include sets room

theorem sinter_computes (dstkey : Option Sds)
    : Computes moment db ((members key).filter fun text => ∀ other ∈ keys, text ∈ members other)
        dstkey (sinterGenericCommand env db moment (key :: keys) dstkey) := by
  obtain ⟨next, looked, only⟩ := sinterLookups_ok db moment (key :: keys)
  have result : ∀ text,
      text ∈ (members key).filter (fun text => ∀ other ∈ keys, text ∈ members other)
      ↔ ∀ other ∈ key :: keys, text ∈ members other := by
    intro text
    simp
  rw [sinterGenericCommand, looked]
  rcases interSources_ok sets with ⟨outcome, missing, member, empty⟩
    | ⟨sources, outcome, sourced, same⟩
  · -- A source is missing, and the intersection is empty.
    have none : ∅ = (members key).filter fun text => ∀ other ∈ keys, text ∈ members other := by
      refine (Finset.eq_empty_of_forall_notMem ?_).symm
      intro text inside
      have absent := (result text).mp inside missing member
      rw [empty] at absent
      exact Finset.notMem_empty _ absent
    rw [outcome]
    cases dstkey with
    | none => exact (multiBulk_iff only List.nodup_nil (by simp)).mpr ⟨none, rfl⟩
    | some dstkey => exact (storeResult_iff only createIntsetObject_denotes dstkey).mpr none
  · have perm := env.qsort.perm qsortCompareSetsByCardinality sources
    rw [outcome]
    dsimp only
    cases sorted : env.qsort.sort qsortCompareSetsByCardinality sources with
    | nil =>
        rw [sorted] at perm
        cases perm.nil_eq
        cases same
    | cons first others =>
        rw [sorted] at perm
        have inAll : ∀ text,
            (text ∈ members first.key ∧ ∀ source ∈ others, text ∈ members source.key)
            ↔ ∀ other ∈ key :: keys, text ∈ members other := by
          intro text
          have every
              : (∀ source ∈ first :: others, text ∈ members source.key)
                ↔ ∀ source ∈ sources, text ∈ members source.key :=
            forall_congr' fun source => imp_congr_left perm.mem_iff
          rw [← same, List.forall_mem_map, ← every, List.forall_mem_cons]
        obtain ⟨elements, listed, distinct, texts, fit⟩ :=
          setTypeElements_ok (sourced first (perm.mem_iff.mp List.mem_cons_self)) env.order
        have sourced' : ∀ source ∈ others, Denotes source.obj (members source.key) :=
          fun source member => sourced source (perm.mem_iff.mp (List.mem_cons_of_mem _ member))
        have own := fun text member => (texts text).mpr member
        have kept : ∀ text,
            text ∈ (members key).filter (fun text => ∀ other ∈ keys, text ∈ members other)
            ↔ text ∈ (elementTexts elements).filter (inOthers members others) := by
          intro text
          rw [result, ← inAll, List.mem_filter, texts, inOthers, decide_eq_true_iff]
        dsimp only
        rw [listed, ok_andThen]
        cases dstkey with
        | none =>
            rw [Option.isSome_none, sinterReply_ok sourced' elements _ fit own, ok_andThen]
            have counted := card_of_texts (distinct.filter _) kept
            refine (multiBulk_iff only (distinct.filter _) kept).mpr ⟨rfl, ?_⟩
            rw [counted]
            rfl
        | some dstkey =>
            have inside : ∀ text ∈ elementTexts elements,
                text ∈ (key :: keys).toFinset.biUnion members := by
              intro text member
              refine Finset.mem_biUnion.mpr ⟨first.key, ?_, own text member⟩
              rw [List.mem_toFinset, ← same]
              exact List.mem_map_of_mem (perm.mem_iff.mp List.mem_cons_self)
            obtain ⟨final, ran, denotes⟩ :=
              sinterStore_ok sourced' elements [] createIntsetObject createIntsetObject_denotes
                (Nat.zero_le _) room (Finset.empty_subset _) fit own inside
            rw [Option.isSome_some, ran, ok_andThen]
            refine (storeResult_iff only denotes dstkey).mpr ?_
            ext text
            rw [kept, Finset.empty_union, List.mem_toFinset]

theorem sunion_built
    : ∃ next sources state,
        sunionDiffLookups moment db (key :: keys) = (next, some sources)
        ∧ ObjectDb.OnlyExpired moment db next
        ∧ sunionDiffResult env sources .union = .ok state
        ∧ Counted env.setMaxIntsetEntries state ((key :: keys).toFinset.biUnion members) := by
  obtain ⟨next, looked, only⟩ := sunionDiffLookups_ok db moment (key :: keys)
  obtain ⟨sources, found, sourced, same⟩ := unionSources_ok sets
  rw [found] at looked
  have parts : ∀ text,
      (∃ set ∈ sources, text ∈ contents members set)
      ↔ text ∈ (key :: keys).toFinset.biUnion members := by
    intro text
    have moved
        : (∃ set ∈ sources, text ∈ contents members set)
          ↔ ∃ part ∈ (key :: keys).map members, text ∈ part := by
      rw [← same]
      simp
    rw [moved]
    simp
  obtain ⟨state, held, ran, counted, texts⟩ :=
    unionLoop_ok sources sourced (Counted.init env.setMaxIntsetEntries) room
      (Finset.empty_subset _) (fun set member text inside => (parts text).mp ⟨set, member, inside⟩)
  have equal : held = (key :: keys).toFinset.biUnion members := by
    ext text
    rw [texts, parts]
    simp
  rw [equal] at counted
  exact ⟨next, sources, state, looked, only, ran, counted⟩

theorem sunion_computes_iff (dstkey : Option Sds)
    : Computes moment db ((key :: keys).toFinset.biUnion members) dstkey
        (sunionDiffGenericCommand env db moment (key :: keys) dstkey .union)
      ↔ (dstkey = none → ((key :: keys).toFinset.biUnion members).card < 2 ^ 31) := by
  obtain ⟨next, sources, state, looked, only, built, counted⟩ := sunion_built sets room
  rw [sunionDiff_iff only looked built counted dstkey]
  exact and_iff_right rfl

theorem sdiff_computes_iff (dstkey : Option Sds)
    : Computes moment db (members key \ keys.toFinset.biUnion members) dstkey
        (sunionDiffGenericCommand env db moment (key :: keys) dstkey .diff)
      ↔ (UsesSecondAlgorithm (db.find moment) key keys → StopsRight members key keys)
        ∧ (dstkey = none → (members key \ keys.toFinset.biUnion members).card < 2 ^ 31) := by
  obtain ⟨next, looked, only⟩ := sunionDiffLookups_ok db moment (key :: keys)
  obtain ⟨sources, found, sourced, same⟩ := unionSources_ok sets
  have first : members key ⊆ (key :: keys).toFinset.biUnion members := by
    intro text inside
    exact Finset.mem_biUnion.mpr ⟨key, by simp, inside⟩
  obtain ⟨state, held, ran, counted, right⟩ := diffResult_ok found sourced same (room.mono first)
  rw [found] at looked
  rw [sunionDiff_iff only looked ran counted dstkey, ← right]
  refine and_congr_right ?_
  rintro rfl
  rfl

end Commands

/-- An intset `a` of 1 and 2 and a hash table `b` of 2 and the text `x`. -/
def twoSets : ObjectDb (Robj Sds) where
  dict key :=
    if key = [0x61] then some (.set (.intset ⟨.int16, 2, [1, 0, 2, 0]⟩))
    else if key = [0x62] then some (.set (.ht [.int 2, .sds [0x78]]))
    else none
  expires _ := none
  expires_in_dict _ _ := rfl

def twoSetsMembers (key : Sds) : Finset Sds :=
  if key = [0x61] then {[0x31], [0x32]} else if key = [0x62] then {[0x32], [0x78]} else ∅

theorem twoSets_sets
    : ∀ key ∈ [[0x61], [0x62], [0x63]],
        Means (twoSets.find ⟨0, false, false⟩ key) (twoSetsMembers key) := by
  have digit : ∀ n < 10, decimalText (n : Nat) = [digitByte n] := fun n small => by
    rw [decimalText, if_neg (by omega), Int.natAbs_natCast, naturalText_of_lt small]
  have one : decimalText 1 = [0x31] := digit 1 (by decide)
  have two : decimalText 2 = [0x32] := digit 2 (by decide)
  intro key member
  rcases List.mem_cons.mp member with rfl | member
  · have sound : (⟨.int16, 2, [1, 0, 2, 0]⟩ : Intset).Sound [1, 2] :=
      ⟨⟨rfl, by decide, by decide, by simp [IntsetEncoding.Holds, IntsetEncoding.size]⟩, by decide⟩
    exact .intset sound (by simp [twoSetsMembers, one, two, eq_comm])
  · rcases List.mem_cons.mp member with rfl | member
    · refine .ht ?_ ?_
      · simp [StringObject.text, two]
      · simp [twoSetsMembers, StringObject.text, two, eq_comm]
    · cases List.mem_singleton.mp member
      rfl

/-- A hash table of the numbers below a bound. -/
def numbersBelow (count : Nat) : SetObject :=
  .ht ((List.range count).map fun n => .int (Int64.ofNat n))

def oneSet (o : SetObject) : ObjectDb (Robj Sds) where
  dict key := if key = [0x6B] then some (.set o) else none
  expires _ := none
  expires_in_dict _ _ := rfl

theorem numbersBelow_denotes (count : Nat) (few : count ≤ 2 ^ 63)
    : ∃ held, Denotes (numbersBelow count) held ∧ held.card = count := by
  have texts
      : ((List.range count).map fun n => StringObject.int (Int64.ofNat n)).map StringObject.text
        = (List.range count).map fun n : Nat => decimalText n := by
    rw [List.map_map]
    refine List.map_congr_left ?_
    intro n below
    have small := List.mem_range.mp below
    rw [Function.comp_apply, StringObject.text, Int64.toInt_ofNat_of_lt (by omega)]
  have distinct : ((List.range count).map fun n : Nat => decimalText n).Nodup := by
    refine List.Nodup.map_on ?_ List.nodup_range
    intro n below m below' same
    have small := List.mem_range.mp below
    have small' := List.mem_range.mp below'
    have equal := decimalText_inj ⟨by omega, by omega⟩ ⟨by omega, by omega⟩ same
    omega
  refine ⟨((List.range count).map fun n : Nat => decimalText n).toFinset, .ht (texts ▸ distinct) ?_,
    ?_⟩
  · intro text
    rw [List.mem_toFinset, ← texts, List.mem_map]
  · rw [List.toFinset_card_of_nodup distinct, List.length_map, List.length_range]

end Redis.Sets
