import Mathlib.Data.Finset.Lattice.Fold
import Mathlib.Data.Finset.Union
import Redis.Sets.Commands

/-! The loops of the set commands, on the members of the sets that they go through. -/

namespace Redis.Sets

open Redis.Library
open Redis.Keyspace (Sds ObjectDb)
open Redis.Rdb (SetObject)

variable {W : Type} {env : Env} {members : Sds → Finset Sds} {element : SetElement}

-- The sources

/-- A key holds a set with these members, or no value when there are none. -/
def Means (found : Option (Robj W)) (members : Finset Sds) : Prop :=
  match found with
  | none => members = ∅
  | some (.set o) => Denotes o members
  | some (.other _) => False

def contents (members : Sds → Finset Sds) : Option Source → Finset Sds
  | none => ∅
  | some source => members source.key

@[simp] theorem contents_none : contents members none = ∅ := rfl

@[simp] theorem contents_some (source : Source)
    : contents members (some source) = members source.key := rfl

/-- The objects of the sources hold the members of their keys. -/
def Sourced (members : Sds → Finset Sds) (sets : List (Option Source)) : Prop :=
  ∀ source, some source ∈ sets → Denotes source.obj (members source.key)

theorem Sourced.tail {set : Option Source} {sets : List (Option Source)}
    (sourced : Sourced members (set :: sets))
    : Sourced members sets :=
  fun source member => sourced source (List.mem_cons_of_mem _ member)

/-- The sources have the members of the keys. -/
theorem unionSources_ok {find : Sds → Option (Robj W)} {keys : List Sds}
    (sets : ∀ key ∈ keys, Means (find key) (members key))
    : ∃ sources,
        unionSources find keys = some sources
        ∧ Sourced members sources
        ∧ sources.map (contents members) = keys.map members := by
  induction keys with
  | nil => exact ⟨[], rfl, by simp [Sourced], rfl⟩
  | cons key keys ih =>
      obtain ⟨sources, rest, sourced, same⟩ :=
        ih fun other member => sets other (List.mem_cons_of_mem _ member)
      have first := sets key List.mem_cons_self
      rw [unionSources]
      cases found : find key with
      | none =>
          rw [found] at first
          refine ⟨none :: sources, by rw [rest]; rfl, ?_, ?_⟩
          · intro source member
            exact sourced source (by simpa using member)
          · rw [List.map_cons, List.map_cons, same, contents_none, show members key = ∅ from first]
      | some value =>
          rw [found] at first
          cases value with
          | other value => exact first.elim
          | set o =>
              refine ⟨some ⟨key, o⟩ :: sources, by rw [rest]; rfl, ?_, ?_⟩
              · intro source member
                rcases List.mem_cons.mp member with same | member
                · cases same
                  exact first
                · exact sourced source member
              · rw [List.map_cons, List.map_cons, same, contents_some]

theorem interSources_ok {find : Sds → Option (Robj W)} {keys : List Sds}
    (sets : ∀ key ∈ keys, Means (find key) (members key))
    : (interSources find keys = .missing ∧ ∃ key ∈ keys, members key = ∅)
      ∨ ∃ sources,
          interSources find keys = .sets sources
          ∧ (∀ source ∈ sources, Denotes source.obj (members source.key))
          ∧ sources.map Source.key = keys := by
  induction keys with
  | nil => exact .inr ⟨[], rfl, by simp, rfl⟩
  | cons key keys ih =>
      have rest := ih fun other member => sets other (List.mem_cons_of_mem _ member)
      have first := sets key List.mem_cons_self
      rw [interSources]
      cases found : find key with
      | none =>
          rw [found] at first
          exact .inl ⟨rfl, key, List.mem_cons_self, first⟩
      | some value =>
          rw [found] at first
          cases value with
          | other value => exact first.elim
          | set o =>
              rcases rest with ⟨outcome, other, member, empty⟩ | ⟨sources, outcome, sourced, same⟩
              · exact .inl ⟨by rw [outcome], other, List.mem_cons_of_mem _ member, empty⟩
              · refine .inr ⟨⟨key, o⟩ :: sources, by rw [outcome], ?_, by rw [List.map_cons, same]⟩
                intro source member
                rcases List.mem_cons.mp member with rfl | member
                · exact first
                · exact sourced source member

-- Intersections

theorem SetElement.reply_eq (fits : element.Fits) : element.reply = element.toObject.text := by
  cases element with
  | integer llele => exact (text_createStringObject fits).symm
  | object objele => rfl

theorem sinterFinds_ok {other : SetObject} {held : Finset Sds} (denotes : Denotes other held)
    (fits : element.Fits)
    : sinterFinds other element = .ok (decide (element.toObject.text ∈ held)) := by
  have isMember := setTypeIsMember_ok denotes
  cases element with
  | integer llele =>
      cases denotes with
      | ht distinct same => exact isMember _
      | intset sound same =>
          have read := isObjectRepresentable_iff.mpr ⟨text_createStringObject fits, fits⟩
          have member := text_mem_iff sound same read
          simp only [sinterFinds, SetElement.toObject, member]
          exact intsetFind_ok sound.1 (holds_of_word fits)
  | object objele =>
      cases objele with
      | sds s =>
          cases denotes with
          | ht distinct same => exact isMember _
          | intset sound same => exact isMember _
      | int value =>
          cases denotes with
          | ht distinct same => exact isMember _
          | @intset is xs _ sound same =>
              have read : isObjectRepresentableAsLongLong (.int value) = some value.toInt := rfl
              have member := text_mem_iff sound same read
              rw [sinterFinds, intsetFind_ok sound.1 (int64_holds value), isMember]
              by_cases inside : value.toInt ∈ xs
              · simp [SetElement.toObject, inside, member.mpr inside]
              · have absent : (StringObject.int value).text ∉ held := mt member.mp inside
                simp [SetElement.toObject, inside, absent]

theorem sinterInAll_ok {first : Source} {others : List Source}
    (sourced : ∀ source ∈ others, Denotes source.obj (members source.key)) (fits : element.Fits)
    (own : element.toObject.text ∈ members first.key)
    : sinterInAll first element others
      = .ok (decide (∀ source ∈ others, element.toObject.text ∈ members source.key)) := by
  induction others with
  | nil => simp [sinterInAll]
  | cons other rest ih =>
      have later := ih fun source member => sourced source (List.mem_cons_of_mem _ member)
      rw [sinterInAll]
      by_cases same : other.key = first.key
      · rw [if_pos same, later]
        simp [same, own]
      · rw [if_neg same, sinterFinds_ok (sourced other List.mem_cons_self) fits, ok_andThen]
        by_cases inside : element.toObject.text ∈ members other.key
        · simp [inside, later]
        · simp [inside]

/-- A text that is in all the others. -/
def inOthers (members : Sds → Finset Sds) (others : List Source) (text : Sds) : Bool :=
  decide (∀ source ∈ others, text ∈ members source.key)

section Intersection

variable {first : Source} {others : List Source}
  (sourced : ∀ source ∈ others, Denotes source.obj (members source.key))

include sourced

theorem sinterReply_ok (elements : List SetElement) (state : List Sds × SetObject)
    (fit : ∀ element ∈ elements, element.Fits)
    (own : ∀ text ∈ elementTexts elements, text ∈ members first.key)
    : elements.foldlM (sinterStep env false first others) state
      = .ok (state.1 ++ (elementTexts elements).filter (inOthers members others), state.2) := by
  induction elements generalizing state with
  | nil => simp [elementTexts]
  | cons element elements ih =>
      have fits := fit element List.mem_cons_self
      have later := fun state => ih state
        (fun other member => fit other (List.mem_cons_of_mem _ member))
        (fun text member => own text (List.mem_cons_of_mem _ member))
      rw [List.foldlM_cons, sinterStep,
        sinterInAll_ok sourced fits (own _ List.mem_cons_self), ok_andThen]
      by_cases inAll : ∀ source ∈ others, element.toObject.text ∈ members source.key
      · have kept : inOthers members others element.toObject.text = true := decide_eq_true inAll
        simp only [decide_eq_true inAll, Bool.not_true, Bool.false_eq_true, if_false,
          Bool.not_false, if_true]
        rw [SetElement.reply_eq fits]
        refine (later _).trans ?_
        simp [elementTexts, kept]
      · have dropped : inOthers members others element.toObject.text = false :=
          decide_eq_false inAll
        simp only [decide_eq_false inAll, Bool.not_false, if_true]
        refine (later _).trans ?_
        simp [elementTexts, dropped]

theorem sinterStore_ok (elements : List SetElement) (reply : List Sds) (dstset : SetObject)
    {held all : Finset Sds} (denotes : Denotes dstset held)
    (within : WithinLimit env.setMaxIntsetEntries dstset)
    (room : FitsIntset env.setMaxIntsetEntries all) (few : held ⊆ all)
    (fit : ∀ element ∈ elements, element.Fits)
    (own : ∀ text ∈ elementTexts elements, text ∈ members first.key)
    (inside : ∀ text ∈ elementTexts elements, text ∈ all)
    : ∃ final,
        elements.foldlM (sinterStep env true first others) (reply, dstset) = .ok (reply, final)
        ∧ Denotes final
            (held ∪ ((elementTexts elements).filter (inOthers members others)).toFinset) := by
  induction elements generalizing dstset held with
  | nil => exact ⟨dstset, rfl, by simpa [elementTexts] using denotes⟩
  | cons element elements ih =>
      have fits := fit element List.mem_cons_self
      have fit' := fun other member => fit other (List.mem_cons_of_mem element member)
      have own' := fun text member => own text (List.mem_cons_of_mem element.toObject.text member)
      have inside' := fun text member =>
        inside text (List.mem_cons_of_mem element.toObject.text member)
      rw [List.foldlM_cons, sinterStep,
        sinterInAll_ok sourced fits (own _ List.mem_cons_self), ok_andThen]
      by_cases inAll : ∀ source ∈ others, element.toObject.text ∈ members source.key
      · have kept : inOthers members others element.toObject.text = true := decide_eq_true inAll
        obtain ⟨next, added, denotes', within'⟩ :=
          setTypeAdd_ok env.fresh denotes within (room.mono few) element.toObject
        have few' : insert element.toObject.text held ⊆ all :=
          Finset.insert_subset (inside _ List.mem_cons_self) few
        obtain ⟨final, ran, denotes''⟩ := ih next denotes' within' few' fit' own' inside'
        simp only [decide_eq_true inAll, Bool.not_true, Bool.false_eq_true, if_false, added]
        refine ⟨final, ran, ?_⟩
        convert denotes'' using 1
        ext text
        simp [elementTexts, kept]
      · have dropped : inOthers members others element.toObject.text = false :=
          decide_eq_false inAll
        obtain ⟨final, ran, denotes''⟩ := ih dstset denotes within few fit' own' inside'
        simp only [decide_eq_false inAll, Bool.not_false, if_true]
        refine ⟨final, ran, ?_⟩
        convert denotes'' using 1
        simp [elementTexts, dropped]

end Intersection

-- Counting

theorem int32_add (v w : Int) : int32 (int32 v + w) = int32 (v + w) := Int.bmod_add_bmod

theorem int32_eq_zero_iff {n : Nat} : int32 n = 0 ↔ 2 ^ 32 ∣ n := by
  unfold int32
  rw [← Int.natCast_dvd_natCast]
  exact Int.dvd_iff_bmod_eq_zero.symm

/-- The set that is built, and its size as an `int`. -/
structure Counted (limit : Nat) (state : SetObject × Int) (held : Finset Sds) : Prop where
  denotes : Denotes state.1 held
  within : WithinLimit limit state.1
  count : state.2 = int32 held.card

theorem Counted.init (limit : Nat) : Counted limit (createIntsetObject, 0) ∅ where
  denotes := createIntsetObject_denotes
  within := Nat.zero_le _
  count := (int32_of_lt (by decide)).symm

section Counting

variable {state : SetObject × Int} {held all : Finset Sds}

theorem countedAdd_ok (counted : Counted env.setMaxIntsetEntries state held)
    (room : FitsIntset env.setMaxIntsetEntries held) (element : SetElement)
    : ∃ next,
        countedAdd env state element = .ok next
        ∧ Counted env.setMaxIntsetEntries next (insert element.toObject.text held) := by
  obtain ⟨dstset, added, denotes, within⟩ :=
    setTypeAdd_ok env.fresh counted.denotes counted.within room element.toObject
  refine ⟨_, by rw [countedAdd, added]; rfl, denotes, within, ?_⟩
  by_cases present : element.toObject.text ∈ held
  · simp [present, counted.count]
  · simp only [present, not_false_eq_true, decide_true, if_true, counted.count, int32_add,
      Finset.card_insert_of_notMem, Nat.cast_add, Nat.cast_one]

theorem countedRemove_ok (counted : Counted env.setMaxIntsetEntries state held)
    (element : SetElement)
    : ∃ next,
        countedRemove env state element = .ok next
        ∧ Counted env.setMaxIntsetEntries next (held.erase element.toObject.text) := by
  obtain ⟨dstset, removed, denotes, within⟩ :=
    setTypeRemove_ok env.fresh counted.denotes counted.within element.toObject
  refine ⟨_, by rw [countedRemove, removed]; rfl, denotes, within, ?_⟩
  by_cases present : element.toObject.text ∈ held
  · have some := Finset.card_pos.mpr ⟨_, present⟩
    have less := Finset.card_erase_of_mem present
    simp only [present, decide_true, if_true, counted.count, sub_eq_add_neg, int32_add, less]
    congr 1
    omega
  · simp [present, counted.count]

theorem countedLoop_ok {body : SetObject × Int → SetElement → Except Fault (SetObject × Int)}
    (change : Finset Sds → Sds → Finset Sds) (allowed : Finset Sds → Prop)
    (elements : List SetElement) (counted : Counted env.setMaxIntsetEntries state held)
    (start : allowed held)
    (round : ∀ state held element, element ∈ elements →
      Counted env.setMaxIntsetEntries state held → allowed held →
        ∃ next,
          body state element = .ok next
          ∧ Counted env.setMaxIntsetEntries next (change held element.toObject.text)
          ∧ allowed (change held element.toObject.text))
    : ∃ final,
        elements.foldlM body state = .ok final
        ∧ Counted env.setMaxIntsetEntries final ((elementTexts elements).foldl change held) := by
  induction elements generalizing state held with
  | nil => exact ⟨state, rfl, counted⟩
  | cons element elements ih =>
      obtain ⟨next, ran, counted, allowed⟩ :=
        round state held element List.mem_cons_self counted start
      obtain ⟨final, rest, counted⟩ := ih counted allowed
        fun state held other member => round state held other (List.mem_cons_of_mem _ member)
      refine ⟨final, ?_, counted⟩
      rw [List.foldlM_cons, ran]
      exact rest

theorem foldl_insert (texts : List Sds) (held : Finset Sds)
    : texts.foldl (fun held text => insert text held) held = held ∪ texts.toFinset := by
  induction texts generalizing held with
  | nil => simp
  | cons text texts ih =>
      rw [List.foldl_cons, ih]
      ext other
      simp

theorem foldl_erase (texts : List Sds) (held : Finset Sds)
    : texts.foldl Finset.erase held = held \ texts.toFinset := by
  induction texts generalizing held with
  | nil => simp
  | cons text texts ih =>
      rw [List.foldl_cons, ih]
      ext other
      simp
      tauto

theorem overElements_add {source : Source} {held' : Finset Sds}
    (denotes : Denotes source.obj held') (counted : Counted env.setMaxIntsetEntries state held)
    (room : FitsIntset env.setMaxIntsetEntries (held ∪ held'))
    : ∃ final,
        overElements env (countedAdd env) source state = .ok final
        ∧ Counted env.setMaxIntsetEntries final (held ∪ held') := by
  obtain ⟨elements, ran, _, same, _⟩ := setTypeElements_ok denotes env.order
  have texts : (elementTexts elements).toFinset = held' := by
    ext text
    rw [List.mem_toFinset, same]
  obtain ⟨final, looped, counted⟩ :=
    countedLoop_ok (fun held text => insert text held) (fun part => part ⊆ held ∪ held') elements
      counted Finset.subset_union_left
      (by
        intro state part element member counted few
        obtain ⟨next, added, counted⟩ := countedAdd_ok counted (room.mono few) element
        refine ⟨next, added, counted, Finset.insert_subset ?_ few⟩
        exact Finset.mem_union_right _ ((same _).mpr (List.mem_map_of_mem member)))
  refine ⟨final, ?_, ?_⟩
  · rw [overElements, ran]
    exact looped
  · rwa [foldl_insert, texts] at counted

theorem overElements_remove {source : Source} {held' : Finset Sds}
    (denotes : Denotes source.obj held') (counted : Counted env.setMaxIntsetEntries state held)
    : ∃ final,
        overElements env (countedRemove env) source state = .ok final
        ∧ Counted env.setMaxIntsetEntries final (held \ held') := by
  obtain ⟨elements, ran, _, same, _⟩ := setTypeElements_ok denotes env.order
  have texts : (elementTexts elements).toFinset = held' := by
    ext text
    rw [List.mem_toFinset, same]
  obtain ⟨final, looped, counted⟩ :=
    countedLoop_ok Finset.erase (fun _ => True) elements counted trivial
      (by
        intro state part element _ counted _
        obtain ⟨next, removed, counted⟩ := countedRemove_ok counted element
        exact ⟨next, removed, counted, trivial⟩)
  refine ⟨final, ?_, ?_⟩
  · rw [overElements, ran]
    exact looped
  · rwa [foldl_erase, texts] at counted

end Counting

end Redis.Sets
