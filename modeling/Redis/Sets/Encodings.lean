import Mathlib.Data.Finset.Card
import Mathlib.Data.List.Nodup
import Redis.Keyspace.Model
import Redis.Rdb.Objects

/-! Sets in their two encodings: the functions of `t_set.c` that work on one set, and what each of
them does to the members.
-/

namespace Redis.Sets

open Redis.Library
open Redis.Keyspace (Sds)
open Redis.Rdb (SetObject dictAddMember assertAdded)

variable {value : StringObject} {objects : List StringObject} {is : Intset} {xs : List Int}

-- The functions on one set

/-- The order in which the iterator of a dictionary goes through its entries. -/
structure IterationOrder where
  entries : List StringObject → List StringObject
  perm : ∀ members, (entries members).Perm members

/-- What `setTypeNext` hands out, in `llele` or in `objele`. -/
inductive SetElement where
  | integer (llele : Int)
  | object (objele : StringObject)
deriving DecidableEq, Repr

/-- The object that `setTypeNextObject` returns for an element. -/
def SetElement.toObject : SetElement → StringObject
  | .integer llele => createStringObjectFromLongLong (Int64.ofInt llele)
  | .object objele => objele

/-- `dictDelete`, nothing for `DICT_ERR`. -/
def dictDelete (members : List StringObject) (key : StringObject) : Option (List StringObject) :=
  if Rdb.dictFind members key then some (members.filter fun other => other.text ≠ key.text)
    else none

def setTypeIsMember (subject : SetObject) (value : StringObject) : Except Fault Bool :=
  match subject with
  | .ht members => .ok (Rdb.dictFind members value)
  | .intset is =>
      match isObjectRepresentableAsLongLong value with
      | some llval => intsetFind is llval
      | none => .ok false

def setTypeSize : SetObject → Nat
  | .ht members => members.length
  | .intset is => is.length

/-- The elements that `setTypeNext` goes through. -/
def setTypeElements (order : IterationOrder) : SetObject → Except Fault (List SetElement)
  | .ht members => .ok ((order.entries members).map .object)
  | .intset is => do
      let elements ← is.elements
      pure (elements.map .integer)

section Changes

variable (fresh : Nat → UInt8) (setMaxIntsetEntries : Nat)

def setTypeAdd (subject : SetObject) (value : StringObject) : Except Fault (SetObject × Bool) :=
  match subject with
  | .ht members =>
      match dictAddMember members value with
      | some members => .ok (.ht members, true)
      | none => .ok (.ht members, false)
  | .intset is =>
      match isObjectRepresentableAsLongLong value with
      | some llval => do
          let (success, is) ← intsetAdd fresh is llval
          if success then
            if is.length > setMaxIntsetEntries then do
              let members ← Rdb.setTypeConvert is
              pure (.ht members, true)
            else pure (.intset is, true)
          else pure (.intset is, false)
      | none => do
          let members ← Rdb.setTypeConvert is
          let members ← assertAdded (dictAddMember members value)
          pure (.ht members, true)

def setTypeRemove (setobj : SetObject) (value : StringObject) : Except Fault (SetObject × Bool) :=
  match setobj with
  | .ht members =>
      match dictDelete members value with
      | some members => .ok (.ht members, true)
      | none => .ok (.ht members, false)
  | .intset is =>
      match isObjectRepresentableAsLongLong value with
      | some llval => do
          let (success, is) ← intsetRemove fresh is llval
          pure (.intset is, success)
      | none => .ok (.intset is, false)

end Changes

def createIntsetObject : SetObject := .intset intsetNew

def setTypeCreate (value : StringObject) : SetObject :=
  if (isObjectRepresentableAsLongLong value).isSome then createIntsetObject else .ht []

-- Texts of integers

theorem int64_of_holds {x : Int} (word : IntsetEncoding.int64.Holds x)
    : -2 ^ 63 ≤ x ∧ x < 2 ^ 63 := by
  simp only [IntsetEncoding.Holds, IntsetEncoding.size] at word
  omega

theorem decimalText_inj {v w : Int} (word : -2 ^ 63 ≤ v ∧ v < 2 ^ 63)
    (word' : -2 ^ 63 ≤ w ∧ w < 2 ^ 63) (same : decimalText v = decimalText w)
    : v = w := by
  have read := string2ll_decimalText word.1 word.2
  rw [same, string2ll_decimalText word'.1 word'.2] at read
  exact (Option.some.inj read).symm

theorem isObjectRepresentable_iff {v : Int}
    : isObjectRepresentableAsLongLong value = some v
      ↔ value.text = decimalText v ∧ -2 ^ 63 ≤ v ∧ v < 2 ^ 63 := by
  cases value with
  | int n =>
      have low := n.le_toInt
      have high := n.toInt_lt
      simp only [isObjectRepresentableAsLongLong, StringObject.text, Option.some.injEq]
      constructor
      · rintro rfl
        exact ⟨rfl, low, high⟩
      · rintro ⟨same, range⟩
        exact decimalText_inj ⟨low, high⟩ range same
  | sds s =>
      rw [isObjectRepresentableAsLongLong, string2ll_eq_some_iff, canonicalText_iff]
      rfl

theorem text_createStringObject {v : Int} (word : -2 ^ 63 ≤ v ∧ v < 2 ^ 63)
    : (createStringObjectFromLongLong (Int64.ofInt v)).text = decimalText v := by
  rw [createStringObjectFromLongLong, StringObject.text, int64_toInt_ofInt word.1 word.2]

-- The members of a set

/-- A sound set object with the members it stands for. -/
inductive Denotes : SetObject → Finset Sds → Prop
  | intset {is : Intset} {xs : List Int} {members : Finset Sds} (sound : is.Sound xs)
    (same : ∀ text, text ∈ members ↔ ∃ x ∈ xs, decimalText x = text)
    : Denotes (.intset is) members
  | ht {objects : List StringObject} {members : Finset Sds}
    (distinct : (objects.map StringObject.text).Nodup)
    (same : ∀ text, text ∈ members ↔ ∃ o ∈ objects, o.text = text)
    : Denotes (.ht objects) members

theorem sound_word (sound : is.Sound xs) {x : Int} (member : x ∈ xs)
    : IntsetEncoding.int64.Holds x := by
  refine (sound.1.wide x member).wider ?_
  cases is.encoding <;> decide

theorem createIntsetObject_denotes : Denotes createIntsetObject ∅ :=
  .intset intsetNew_sound (by simp)

theorem dictFind_iff {key : StringObject}
    : Rdb.dictFind objects key = true ↔ ∃ o ∈ objects, o.text = key.text := by
  simp [Rdb.dictFind]

theorem text_mem_iff {members : Finset Sds} (sound : is.Sound xs)
    (same : ∀ text, text ∈ members ↔ ∃ x ∈ xs, decimalText x = text) {v : Int}
    (read : isObjectRepresentableAsLongLong value = some v)
    : value.text ∈ members ↔ v ∈ xs := by
  obtain ⟨text, word⟩ := isObjectRepresentable_iff.mp read
  rw [same, text]
  constructor
  · rintro ⟨x, member, spelled⟩
    rwa [decimalText_inj word (int64_of_holds (sound_word sound member)) spelled.symm]
  · exact fun member => ⟨v, member, rfl⟩

theorem text_not_mem {members : Finset Sds} (sound : is.Sound xs)
    (same : ∀ text, text ∈ members ↔ ∃ x ∈ xs, decimalText x = text)
    (refused : isObjectRepresentableAsLongLong value = none)
    : value.text ∉ members := by
  intro member
  obtain ⟨x, inside, spelled⟩ := (same _).mp member
  have word := int64_of_holds (sound_word sound inside)
  rw [isObjectRepresentable_iff.mpr ⟨spelled.symm, word⟩] at refused
  cases refused

theorem holds_of_word {v : Int} (word : -2 ^ 63 ≤ v ∧ v < 2 ^ 63)
    : IntsetEncoding.int64.Holds v := by
  simp only [IntsetEncoding.Holds, IntsetEncoding.size]
  omega

section Members

variable {o : SetObject} {members : Finset Sds}

theorem setTypeIsMember_ok (denotes : Denotes o members) (value : StringObject)
    : setTypeIsMember o value = .ok (decide (value.text ∈ members)) := by
  cases denotes with
  | ht distinct same =>
      rw [setTypeIsMember, Except.ok.injEq, Bool.eq_iff_iff, dictFind_iff, decide_eq_true_iff, same]
  | intset sound same =>
      rw [setTypeIsMember]
      cases read : isObjectRepresentableAsLongLong value with
      | none => simp [text_not_mem sound same read]
      | some v =>
          have word := holds_of_word (isObjectRepresentable_iff.mp read).2
          simp only [intsetFind_ok sound.1 word, text_mem_iff sound same read]

theorem card_of_texts {texts : List Sds} (distinct : texts.Nodup)
    (same : ∀ text, text ∈ members ↔ text ∈ texts)
    : members.card = texts.length := by
  have equal : members = texts.toFinset := by
    ext text
    rw [same, List.mem_toFinset]
  rw [equal, List.toFinset_card_of_nodup distinct]

theorem texts_nodup (sound : is.Sound xs) : (xs.map decimalText).Nodup := by
  refine List.Nodup.map_on ?_ (sound.1.sorted.imp fun less => ne_of_lt less)
  intro x inside y inside' same
  exact decimalText_inj (int64_of_holds (sound_word sound inside))
    (int64_of_holds (sound_word sound inside')) same

theorem setTypeSize_ok (denotes : Denotes o members) : setTypeSize o = members.card := by
  cases denotes with
  | ht distinct same =>
      rw [card_of_texts distinct (by simpa using same), List.length_map]
      rfl
  | intset sound same =>
      rw [card_of_texts (texts_nodup sound) (by simpa using same), List.length_map]
      exact sound.1.length

/-- The texts of the elements that an iterator hands out. -/
def elementTexts (elements : List SetElement) : List Sds :=
  elements.map fun element => element.toObject.text

/-- An element as `setTypeNext` hands it out has 64 bits when it is an integer. -/
def SetElement.Fits : SetElement → Prop
  | .integer llele => -2 ^ 63 ≤ llele ∧ llele < 2 ^ 63
  | .object _ => True

theorem setTypeElements_ok (denotes : Denotes o members) (order : IterationOrder)
    : ∃ elements,
        setTypeElements order o = .ok elements
        ∧ (elementTexts elements).Nodup
        ∧ (∀ text, text ∈ members ↔ text ∈ elementTexts elements)
        ∧ ∀ element ∈ elements, element.Fits := by
  cases denotes with
  | @ht objects _ distinct same =>
      have perm := (order.perm objects).map StringObject.text
      have texts
          : elementTexts ((order.entries objects).map .object)
            = (order.entries objects).map StringObject.text := by
        rw [elementTexts, List.map_map]
        rfl
      refine ⟨_, rfl, ?_, ?_, ?_⟩
      · rw [texts]
        exact perm.nodup_iff.mpr distinct
      · intro text
        rw [texts, perm.mem_iff, same, List.mem_map]
      · intro element inside
        obtain ⟨o, _, rfl⟩ := List.mem_map.mp inside
        trivial
  | @intset is xs _ sound same =>
      have texts : elementTexts (xs.map .integer) = xs.map decimalText := by
        rw [elementTexts, List.map_map]
        refine List.map_congr_left ?_
        intro x inside
        exact text_createStringObject (int64_of_holds (sound_word sound inside))
      refine ⟨xs.map .integer, ?_, ?_, ?_, ?_⟩
      · rw [setTypeElements, sound.1.elements]
        rfl
      · rw [texts]
        exact texts_nodup sound
      · intro text
        rw [texts, same, List.mem_map]
      · intro element inside
        obtain ⟨x, member, rfl⟩ := List.mem_map.mp inside
        exact int64_of_holds (sound_word sound member)

end Members

-- Changes of the members

theorem dictAddMember_new (absent : value.text ∉ objects.map StringObject.text)
    : dictAddMember objects value = some (objects ++ [value]) := by
  have found : ¬Rdb.dictFind objects value = true := by
    rw [dictFind_iff]
    simpa using absent
  exact if_neg found

theorem convertLoop_ok (xs : List Int) (objects : List StringObject)
    (word : ∀ x ∈ xs, -2 ^ 63 ≤ x ∧ x < 2 ^ 63)
    (distinct : (objects.map StringObject.text ++ xs.map decimalText).Nodup)
    : ∃ final,
        xs.foldlM
            (fun members value =>
              assertAdded
                (dictAddMember members (createStringObjectFromLongLong (Int64.ofInt value))))
            objects
          = .ok final
        ∧ final.map StringObject.text = objects.map StringObject.text ++ xs.map decimalText := by
  induction xs generalizing objects with
  | nil => exact ⟨objects, rfl, by simp⟩
  | cons x rest ih =>
      have text := text_createStringObject (word x List.mem_cons_self)
      have absent
          : (createStringObjectFromLongLong (Int64.ofInt x)).text
            ∉ objects.map StringObject.text := by
        rw [text]
        intro member
        exact (List.disjoint_of_nodup_append distinct) member List.mem_cons_self
      have moved
          : (objects ++ [createStringObjectFromLongLong (Int64.ofInt x)]).map StringObject.text
              ++ rest.map decimalText
            = objects.map StringObject.text ++ (x :: rest).map decimalText := by
        simp [text]
      obtain ⟨final, ran, texts⟩ :=
        ih (objects ++ [createStringObjectFromLongLong (Int64.ofInt x)])
          (fun y member => word y (List.mem_cons_of_mem _ member)) (by rwa [moved])
      refine ⟨final, ?_, by rw [texts, moved]⟩
      rw [List.foldlM_cons, dictAddMember_new absent]
      exact ran

theorem setTypeConvert_ok (sound : is.Sound xs)
    : ∃ objects,
        Rdb.setTypeConvert is = .ok objects
        ∧ objects.map StringObject.text = xs.map decimalText := by
  obtain ⟨objects, ran, texts⟩ :=
    convertLoop_ok xs [] (fun x member => int64_of_holds (sound_word sound member))
      (texts_nodup sound)
  refine ⟨objects, ?_, texts⟩
  rw [Rdb.setTypeConvert, sound.1.elements]
  exact ran

theorem converted_denotes {members : Finset Sds} (sound : is.Sound xs)
    (same : ∀ text, text ∈ members ↔ ∃ x ∈ xs, decimalText x = text)
    (texts : objects.map StringObject.text = xs.map decimalText)
    : Denotes (.ht objects) members := by
  refine .ht (texts ▸ texts_nodup sound) ?_
  intro text
  rw [same, ← List.mem_map, ← texts, List.mem_map]

theorem extended_denotes {members : Finset Sds}
    (denotes : Denotes (.ht objects) members) (absent : value.text ∉ members)
    : dictAddMember objects value = some (objects ++ [value])
      ∧ Denotes (.ht (objects ++ [value])) (insert value.text members) := by
  cases denotes with
  | ht distinct same =>
      have fresh : value.text ∉ objects.map StringObject.text := by
        rw [List.mem_map, ← same]
        exact absent
      refine ⟨dictAddMember_new fresh, .ht ?_ ?_⟩
      · rw [List.map_append]
        exact List.nodup_append_comm.mp (List.nodup_cons.mpr ⟨fresh, distinct⟩)
      · intro text
        simp only [Finset.mem_insert, same, List.mem_append, List.mem_singleton]
        constructor
        · rintro (rfl | ⟨o, inside, spelled⟩)
          · exact ⟨value, .inr rfl, rfl⟩
          · exact ⟨o, .inl inside, spelled⟩
        · rintro ⟨o, inside | rfl, spelled⟩
          · exact .inr ⟨o, inside, spelled⟩
          · exact .inl spelled.symm

/-- A set is an intset only as long as it is small enough for the configuration. -/
def WithinLimit (limit : Nat) : SetObject → Prop
  | .intset is => is.length ≤ limit
  | .ht _ => True

/-- Sets of this size, and one more member, fit in an intset, whose size in bytes has 32 bits. -/
def FitsIntset (limit : Nat) (members : Finset Sds) : Prop := min limit members.card + 1 < 2 ^ 29

theorem FitsIntset.mono {limit : Nat} {members part : Finset Sds}
    (fits : FitsIntset limit members) (subset : part ⊆ members)
    : FitsIntset limit part := by
  have fewer := Finset.card_le_card subset
  unfold FitsIntset at *
  omega

section Changed

variable {o : SetObject} {members : Finset Sds} {limit : Nat}

theorem roomFor_of_few (value : Int) (few : is.length + 1 < 2 ^ 29) : is.RoomFor value := by
  have wide : (is.encodingWith value).size ≤ 8 := by
    cases is.encodingWith value <;> decide
  have product := Nat.mul_le_mul_left (is.length + 1) wide
  unfold Intset.RoomFor
  omega

theorem setTypeAdd_ok (fresh : Nat → UInt8) (denotes : Denotes o members)
    (within : WithinLimit limit o) (fits : FitsIntset limit members) (value : StringObject)
    : ∃ next,
        setTypeAdd fresh limit o value = .ok (next, decide (value.text ∉ members))
        ∧ Denotes next (insert value.text members)
        ∧ WithinLimit limit next := by
  by_cases present : value.text ∈ members
  · -- The value is there, and nothing changes.
    refine ⟨o, ?_, by rwa [Finset.insert_eq_self.mpr present], within⟩
    rw [decide_eq_false (by simpa using present)]
    cases denotes with
    | ht distinct same =>
        have found : Rdb.dictFind _ value = true := dictFind_iff.mpr ((same _).mp present)
        simp [setTypeAdd, dictAddMember, found]
    | intset sound same =>
        cases read : isObjectRepresentableAsLongLong value with
        | none => exact absurd present (text_not_mem sound same read)
        | some v =>
            have word := holds_of_word (isObjectRepresentable_iff.mp read).2
            have inside := (text_mem_iff sound same read).mp present
            rcases intsetAdd_cases fresh sound.1 word with ⟨_, ran⟩ | ⟨absent, _⟩ | ⟨absent, _⟩
            · simp [setTypeAdd, read, ran]
            · exact absurd inside absent
            · exact absurd inside absent
  · rw [decide_eq_true present]
    have counted := setTypeSize_ok denotes
    cases denotes with
    | ht distinct same =>
        obtain ⟨added, after⟩ := extended_denotes (.ht distinct same) present
        refine ⟨_, ?_, after, trivial⟩
        rw [setTypeAdd, added]
    | @intset is xs _ sound same =>
        have few : is.length + 1 < 2 ^ 29 := by
          have size : is.length = members.card := counted
          have small : is.length ≤ limit := within
          unfold FitsIntset at fits
          omega
        cases read : isObjectRepresentableAsLongLong value with
        | none =>
            obtain ⟨objects, converted, texts⟩ := setTypeConvert_ok sound
            obtain ⟨added, after⟩ :=
              extended_denotes (converted_denotes sound same texts) present
            refine ⟨_, ?_, after, trivial⟩
            simp [setTypeAdd, read, converted, added, assertAdded]
        | some v =>
            obtain ⟨text, range⟩ := isObjectRepresentable_iff.mp read
            have word := holds_of_word range
            obtain ⟨next, ys, ran, soundAfter, elements, _⟩ :=
              sound.add fresh word ((intsetFits_iff sound.1 word).mpr (.inr (roomFor_of_few v few)))
            have absent : v ∉ xs := by rwa [← text_mem_iff sound same read]
            have sameAfter
                : ∀ other, other ∈ insert value.text members ↔ ∃ y ∈ ys, decimalText y = other := by
              intro other
              simp only [Finset.mem_insert, same, elements]
              constructor
              · rintro (rfl | ⟨x, inside, spelled⟩)
                · exact ⟨v, .inl rfl, text.symm⟩
                · exact ⟨x, .inr inside, spelled⟩
              · rintro ⟨y, rfl | inside, spelled⟩
                · exact .inl (by rw [text, spelled])
                · exact .inr ⟨y, inside, spelled⟩
            rw [decide_eq_true absent] at ran
            by_cases large : next.length > limit
            · obtain ⟨objects, converted, texts⟩ := setTypeConvert_ok soundAfter
              refine ⟨.ht objects, ?_, converted_denotes soundAfter sameAfter texts, trivial⟩
              simp [setTypeAdd, read, ran, large, converted]
            · refine ⟨.intset next, ?_, .intset soundAfter sameAfter, Nat.le_of_not_lt large⟩
              simp [setTypeAdd, read, ran, large]

theorem setTypeRemove_ok (fresh : Nat → UInt8) (denotes : Denotes o members)
    (within : WithinLimit limit o) (value : StringObject)
    : ∃ next,
        setTypeRemove fresh o value = .ok (next, decide (value.text ∈ members))
        ∧ Denotes next (members.erase value.text)
        ∧ WithinLimit limit next := by
  cases denotes with
  | @ht objects _ distinct same =>
      by_cases present : value.text ∈ members
      · have found : Rdb.dictFind objects value = true := dictFind_iff.mpr ((same _).mp present)
        refine ⟨.ht (objects.filter fun other => other.text ≠ value.text), ?_, .ht ?_ ?_, trivial⟩
        · simp [setTypeRemove, dictDelete, found, present]
        · exact distinct.sublist (List.filter_sublist.map _)
        · intro text
          simp only [Finset.mem_erase, same, List.mem_filter, decide_eq_true_eq]
          constructor
          · rintro ⟨other, o, inside, rfl⟩
            exact ⟨o, ⟨inside, other⟩, rfl⟩
          · rintro ⟨o, ⟨inside, other⟩, rfl⟩
            exact ⟨other, o, inside, rfl⟩
      · have found : ¬Rdb.dictFind objects value = true := by
          rw [dictFind_iff, ← same]
          exact present
        refine ⟨.ht objects, ?_, ?_, trivial⟩
        · simp [setTypeRemove, dictDelete, found, present]
        · rw [Finset.erase_eq_of_notMem present]
          exact .ht distinct same
  | @intset is xs _ sound same =>
      cases read : isObjectRepresentableAsLongLong value with
      | none =>
          have absent := text_not_mem sound same read
          refine ⟨.intset is, ?_, ?_, within⟩
          · simp [setTypeRemove, read, absent]
          · rw [Finset.erase_eq_of_notMem absent]
            exact .intset sound same
      | some v =>
          obtain ⟨text, range⟩ := isObjectRepresentable_iff.mp read
          have word := holds_of_word range
          obtain ⟨next, ys, ran, holds, elements, encoding, shorter⟩ :=
            intsetRemove_ok fresh sound.1 sound.2 word
          have small : next.length * next.encoding.size < 2 ^ 32 := by
            rw [encoding]
            exact lt_of_le_of_lt (Nat.mul_le_mul_right _ shorter) sound.2
          refine ⟨.intset next, ?_, .intset ⟨holds, small⟩ ?_, shorter.trans within⟩
          · simp only [setTypeRemove, read, ran, ok_andThen, text_mem_iff sound same read]
            rfl
          · intro other
            simp only [Finset.mem_erase, same, elements, text]
            constructor
            · rintro ⟨different, x, inside, rfl⟩
              exact ⟨x, ⟨fun equal => different (by rw [equal]), inside⟩, rfl⟩
            · rintro ⟨y, ⟨different, inside⟩, rfl⟩
              refine ⟨fun equal => different ?_, y, inside, rfl⟩
              exact decimalText_inj (int64_of_holds (sound_word sound inside)) range equal

end Changed

-- Runs

/-- The calls on a set that add, remove and look for a value. -/
inductive SetCall where
  | add (value : StringObject)
  | remove (value : StringObject)
  | isMember (value : StringObject)

section Runs

variable (fresh : Nat → UInt8) (limit : Nat)

def SetCall.run (o : SetObject) : SetCall → Except Fault (SetObject × Bool)
  | .add value => setTypeAdd fresh limit o value
  | .remove value => setTypeRemove fresh o value
  | .isMember value => do
      let found ← setTypeIsMember o value
      pure (o, found)

/-- What is left of the set, and what the calls return. -/
def runSet (o : SetObject) : List SetCall → Except Fault (SetObject × List Bool)
  | [] => pure (o, [])
  | op :: ops => do
      let (o, answer) ← op.run fresh limit o
      let (o, answers) ← runSet o ops
      pure (o, answer :: answers)

/-- The same call on a finite set. -/
def SetCall.apply (members : Finset Sds) : SetCall → Finset Sds × Bool
  | .add value => (insert value.text members, decide (value.text ∉ members))
  | .remove value => (members.erase value.text, decide (value.text ∈ members))
  | .isMember value => (members, decide (value.text ∈ members))

def applySet (members : Finset Sds) : List SetCall → Finset Sds × List Bool
  | [] => (members, [])
  | op :: ops =>
      let rest := applySet (op.apply members).1 ops
      (rest.1, (op.apply members).2 :: rest.2)

variable {fresh limit} {o : SetObject} {members : Finset Sds}

theorem SetCall.run_ok (room : limit + 1 < 2 ^ 29) (denotes : Denotes o members)
    (within : WithinLimit limit o) (op : SetCall)
    : ∃ next,
        op.run fresh limit o = .ok (next, (op.apply members).2)
        ∧ Denotes next (op.apply members).1
        ∧ WithinLimit limit next := by
  cases op with
  | add value =>
      have fits : FitsIntset limit members := by
        unfold FitsIntset
        omega
      exact setTypeAdd_ok fresh denotes within fits value
  | remove value => exact setTypeRemove_ok fresh denotes within value
  | isMember value =>
      refine ⟨o, ?_, denotes, within⟩
      rw [SetCall.run, setTypeIsMember_ok denotes]
      rfl

theorem runSet_ok (room : limit + 1 < 2 ^ 29) (denotes : Denotes o members)
    (within : WithinLimit limit o) (ops : List SetCall)
    : ∃ final,
        runSet fresh limit o ops = .ok (final, (applySet members ops).2)
        ∧ Denotes final (applySet members ops).1
        ∧ WithinLimit limit final := by
  induction ops generalizing o members with
  | nil => exact ⟨o, rfl, denotes, within⟩
  | cons op ops ih =>
      obtain ⟨next, ran, denotes, within⟩ := op.run_ok room denotes within
      obtain ⟨final, rest, kept⟩ := ih denotes within
      refine ⟨final, ?_, kept⟩
      rw [runSet, ran, ok_andThen]
      dsimp only
      rw [rest]
      rfl

theorem setTypeCreate_ok (value : StringObject)
    : Denotes (setTypeCreate value) ∅ ∧ WithinLimit limit (setTypeCreate value) := by
  unfold setTypeCreate
  split
  · exact ⟨createIntsetObject_denotes, Nat.zero_le limit⟩
  · exact ⟨.ht .nil (by simp), trivial⟩

end Runs

end Redis.Sets
