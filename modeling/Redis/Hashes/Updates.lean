import Redis.Hashes.Encodings
import Redis.Ziplist.Deletion

/-! Setting and deleting a field of one hash, in both encodings, and the room in 32 bits that a
ziplist needs for it.
-/

namespace Redis.Hashes

open Redis.Library
open Redis.Keyspace (Sds)
open Redis.Rdb (HashObject)

-- Entries and their room

/-- The entries when a field is set: its value is deleted and the new one inserted in its place, or
both are pushed to the tail.
-/
def setNodes (nodes : List ZipNode) (pairs : List (Sds × Sds)) (field value : Sds) : List ZipNode :=
  match placeOf pairs field with
  | some j => insertNodes (deleteNodes nodes (2 * j + 1) 1) (2 * j + 1) value
  | none =>
      let nodes := insertNodes nodes nodes.length field
      insertNodes nodes nodes.length value

/-- The entries without a field and its value. -/
def eraseNodes (nodes : List ZipNode) (pairs : List (Sds × Sds)) (field : Sds) : List ZipNode :=
  match placeOf pairs field with
  | some j => deleteNodes (deleteNodes nodes (2 * j) 1) (2 * j) 1
  | none => nodes

/-- The size of a block with these entries has 32 bits. -/
def FitsBlock (nodes : List ZipNode) : Prop := 11 + chainSize nodes < 2 ^ 32

/-- The field and the value have lengths of 32 bits, and every ziplist on the way to the one in
which the field is set has a size of 32 bits.
-/
def SetFits (layout : Layout) (pairs : List (Sds × Sds)) (field value : Sds) : Prop :=
  ∀ nodes ∈ layout,
    field.length < 2 ^ 32 ∧ value.length < 2 ^ 32
    ∧ (∀ j ∈ placeOf pairs field, FitsBlock (deleteNodes nodes (2 * j + 1) 1))
    ∧ FitsBlock (setNodes nodes pairs field value)

/-- The same for a field that is deleted. -/
def EraseFits (layout : Layout) (pairs : List (Sds × Sds)) (field : Sds) : Prop :=
  ∀ nodes ∈ layout,
    field.length < 2 ^ 32
    ∧ (∀ j ∈ placeOf pairs field, FitsBlock (deleteNodes nodes (2 * j) 1))
    ∧ FitsBlock (eraseNodes nodes pairs field)

/-- The layout when a field is set. -/
def setLayout (limit : Nat) (layout : Layout) (pairs : List (Sds × Sds)) (field value : Sds)
    : Layout :=
  if limit < (setPair pairs field value).length then none
  else layout.map fun nodes => setNodes nodes pairs field value

section Ziplists

variable {zl : List UInt8} {nodes : List ZipNode} {pairs : List (Sds × Sds)} {field value : Sds}
  {m : Finmap fun _ : Sds => Sds}

theorem grows_after_delete {index : Nat} (inside : index < nodes.length) (s : Sds)
    : ∀ node ∈ (deleteNodes nodes index 1)[index]?,
        ¬ (node.wide = true
          ∧ (newNode (lastLength 0 ((deleteNodes nodes index 1).take index)) s).rawLength < 4) := by
  intro node atIndex
  have front : (nodes.take index).length = index := by
    rw [List.length_take]
    omega
  have kept : (deleteNodes nodes index 1).take index = nodes.take index := by
    rw [deleteNodes, List.take_append_of_le_length front.ge, List.take_of_length_le front.le]
  rw [kept]
  rintro ⟨wide, short⟩
  rw [deleteNodes, Option.mem_def, List.getElem?_append_right front.le, front,
    Nat.sub_self] at atIndex
  cases behind : nodes.drop (index + 1) with
  | nil =>
      rw [behind] at atIndex
      cases atIndex
  | cons next rest =>
      rw [behind, relink, List.getElem?_cons_zero, Option.some.injEq] at atIndex
      subst atIndex
      dsimp only at wide
      rw [ZipNode.rawLength, newNode] at short
      dsimp only at short
      rw [wide] at short
      simp only [prevSize, if_true] at short
      omega

theorem ziplistDelete_holds (fresh : Nat → UInt8) {values : List Sds}
    (holds : ZiplistHolds zl nodes values) {index : Nat} (inside : index < nodes.length)
    (fits : FitsBlock (deleteNodes nodes index 1))
    : ∃ next,
        ziplistDelete fresh zl (entryOffset nodes index)
          = .ok (next, entryOffset (deleteNodes nodes index 1) index)
        ∧ ZiplistHolds next (deleteNodes nodes index 1)
            (values.take index ++ values.drop (index + 1)) := by
  rcases ziplistDeleteAt_cases fresh holds inside le_rfl with ⟨_, next, ran, kept⟩ | ⟨large, _⟩
  · refine ⟨next, ?_, kept⟩
    rw [ziplistDelete, ran, take_deleteNodes inside]
    rfl
  · exact absurd fits (not_lt.mpr large)

theorem place_inside {j : Nat} (holds : ZiplistHolds zl nodes (pairTexts pairs))
    (place : placeOf pairs field = some j)
    : 2 * j + 1 < nodes.length := by
  obtain ⟨_, found⟩ := placeOf_some place
  obtain ⟨inside, _⟩ := List.getElem?_eq_some_iff.mp found
  rw [holds_length holds, length_pairTexts]
  omega

theorem ziplistSetField_ok (fresh : Nat → UInt8) (holds : ZiplistHolds zl nodes (pairTexts pairs))
    (lists : Lists pairs m) (fits : SetFits (some nodes) pairs field value)
    : ∃ next,
        ziplistSetField fresh zl field value = .ok (decide (field ∈ m), next)
        ∧ ZiplistHolds next (setNodes nodes pairs field value)
            (pairTexts (setPair pairs field value)) := by
  obtain ⟨shortField, shortValue, between, final⟩ := fits nodes rfl
  have present : (placeOf pairs field).isSome = decide (field ∈ m) := by
    rw [placeOf_isSome, decide_eq_decide, lists.mem_iff]
  rw [ziplistSetField, ziplistFindField_ok holds shortField, ok_andThen, ← present]
  unfold setNodes at final ⊢
  cases place : placeOf pairs field with
  | some j =>
      rw [place] at final
      obtain ⟨old, found⟩ := placeOf_some place
      have inside := place_inside holds place
      obtain ⟨mid, deleted, without⟩ :=
        ziplistDelete_holds fresh holds inside (between j place)
      obtain ⟨next, inserted, held⟩ :=
        ziplistInsertAt_holds fresh without final (grows_after_delete inside value)
      have front : ((pairTexts pairs).take (2 * j + 1)).length = 2 * j + 1 := by
        rw [List.length_take, ← holds_length holds]
        omega
      rw [List.take_append_of_le_length front.ge, List.take_of_length_le front.le,
        List.drop_append_of_le_length front.ge, List.drop_of_length_le front.le, List.nil_append,
        ← pairTexts_set found, ← setPair_eq_set lists.distinct found] at held
      refine ⟨next, ?_, held⟩
      simp only [Option.map_some, holds.entries.next (Nat.le_of_lt (Nat.lt_of_succ_lt inside)),
        if_pos inside, ok_andThen, deleted, unsignedBytes_eq shortValue, ziplistInsert, inserted]
      rfl
  | none =>
      rw [place] at final
      have absent := placeOf_none place
      have small : FitsBlock (insertNodes nodes nodes.length field) := by
        rw [FitsBlock, insertNodes_tail, chainSize_append] at final
        unfold FitsBlock
        omega
      obtain ⟨mid, pushed, withField⟩ := ziplistPush_holds fresh holds small
      obtain ⟨next, pushed', held⟩ := ziplistPush_holds fresh withField final
      rw [List.append_assoc] at held
      refine ⟨next, ?_, ?_⟩
      · simp only [Option.map_none, unsignedBytes_eq shortField, unsignedBytes_eq shortValue,
          pushed, ok_andThen, pushed']
        rfl
      · rw [setPair, if_neg absent, pairTexts_append]
        exact held

end Ziplists

section Setting

variable {o : HashObject} {layout : Layout} {pairs : List (Sds × Sds)}
  {m : Finmap fun _ : Sds => Sds} {dict : List (StringObject × StringObject)}

theorem dictReplace_ok (lists : Lists (dictTexts dict) m) (key val : StringObject)
    : (dictReplace dict key val).1 = decide (key.text ∉ m)
      ∧ dictTexts (dictReplace dict key val).2 = setPair (dictTexts dict) key.text val.text := by
  rw [dictReplace]
  by_cases member : key.text ∈ (dictTexts dict).map Prod.fst
  · have found : Rdb.dictAdd dict key val = none := by
      rw [map_fst_dictTexts, ← dictFind_iff] at member
      exact if_pos member
    rw [found]
    refine ⟨(decide_eq_false (not_not_intro (lists.mem_iff.mpr member))).symm, ?_⟩
    rw [setPair, if_pos member, dictTexts, dictTexts, List.map_map, List.map_map]
    refine List.map_congr_left fun entry _ => ?_
    by_cases same : entry.1.text = key.text
    · simp [same]
    · simp [same]
  · rw [dictAdd_new member]
    refine ⟨(decide_eq_true (mt lists.mem_iff.mp member)).symm, ?_⟩
    rw [setPair, if_neg member, dictTexts, List.map_append]
    rfl

/-- A field is set, in its place or behind the others. -/
theorem hashTypeSet_ok (fresh : Nat → UInt8) (limit : Nat) (holds : Holds o layout pairs)
    (lists : Lists pairs m) {field value : StringObject}
    (fits : SetFits layout pairs field.text value.text)
    : ∃ next,
        hashTypeSet fresh limit o field value = .ok (decide (field.text ∈ m), next)
        ∧ Holds next (setLayout limit layout pairs field.text value.text)
            (setPair pairs field.text value.text) := by
  have listsNext := lists.set field.text value.text
  cases holds with
  | @ht dict =>
      obtain ⟨new, texts⟩ := dictReplace_ok lists field value
      refine ⟨.ht (dictReplace dict field value).2, ?_, ?_⟩
      · rw [hashTypeSet]
        simp only [new, decide_not, Bool.not_not]
      · rw [← texts, setLayout, Option.map_none, ite_self]
        exact .ht
  | ziplist holds =>
      obtain ⟨mid, ran, held⟩ := ziplistSetField_ok fresh holds lists fits
      obtain ⟨next, converted, kept⟩ := convertLong_ok held listsNext limit
      refine ⟨next, ?_, kept⟩
      rw [hashTypeSet, decoded_ok, ok_andThen, decoded_ok, ok_andThen, ran, ok_andThen]
      dsimp only
      rw [converted]
      rfl

end Setting

section Deleting

variable {o : HashObject} {layout : Layout} {pairs : List (Sds × Sds)}
  {m : Finmap fun _ : Sds => Sds} {dict : List (StringObject × StringObject)}

/-- A field is deleted, and the other pairs keep their order. -/
theorem hashTypeDelete_ok (fresh : Nat → UInt8) (holds : Holds o layout pairs)
    (lists : Lists pairs m) {field : StringObject} (fits : EraseFits layout pairs field.text)
    : ∃ next,
        hashTypeDelete fresh o field = .ok (decide (field.text ∈ m), next)
        ∧ Holds next (layout.map fun nodes => eraseNodes nodes pairs field.text)
            (erasePair pairs field.text) := by
  cases holds with
  | @ht dict =>
      rw [hashTypeDelete, dictDelete]
      by_cases member : field.text ∈ (dictTexts dict).map Prod.fst
      · have found : Rdb.dictFind (dict.map Prod.fst) field = true := by
          rw [map_fst_dictTexts] at member
          exact dictFind_iff.mpr member
        rw [if_pos found, decide_eq_true (lists.mem_iff.mpr member)]
        have texts
            : erasePair (dictTexts dict) field.text
              = dictTexts (dict.filter fun entry => entry.1.text ≠ field.text) := by
          rw [erasePair, dictTexts, List.filter_map]
          rfl
        rw [texts]
        exact ⟨_, rfl, .ht⟩
      · have found : ¬ Rdb.dictFind (dict.map Prod.fst) field = true := by
          rw [map_fst_dictTexts] at member
          exact mt dictFind_iff.mp member
        rw [if_neg found, decide_eq_false (mt lists.mem_iff.mp member),
          erasePair_of_not_mem member]
        exact ⟨_, rfl, .ht⟩
  | @ziplist zl nodes _ holds =>
      obtain ⟨short, between, final⟩ := fits nodes rfl
      have present : (placeOf pairs field.text).isSome = decide (field.text ∈ m) := by
        rw [placeOf_isSome, decide_eq_decide, lists.mem_iff]
      rw [hashTypeDelete, decoded_ok, ok_andThen, ziplistFindField_ok holds short, ok_andThen,
        ← present, Option.map_some]
      unfold eraseNodes at final ⊢
      cases place : placeOf pairs field.text with
      | none =>
          refine ⟨.ziplist zl, rfl, ?_⟩
          rw [erasePair_of_not_mem (placeOf_none place)]
          exact .ziplist holds
      | some j =>
          rw [place] at final
          obtain ⟨old, found⟩ := placeOf_some place
          have inside := place_inside holds place
          have start : 2 * j < nodes.length := Nat.lt_of_succ_lt inside
          obtain ⟨mid, deleted, without⟩ := ziplistDelete_holds fresh holds start (between j place)
          have front : ((pairTexts pairs).take (2 * j)).length = 2 * j := by
            rw [List.length_take, ← holds_length holds]
            omega
          have behind : 2 * j < (deleteNodes nodes (2 * j) 1).length := by
            rw [holds_length without, List.length_append, front, List.length_drop,
              ← holds_length holds]
            omega
          obtain ⟨next, deleted', held⟩ := ziplistDelete_holds fresh without behind final
          rw [List.take_append_of_le_length front.ge, List.take_of_length_le front.le,
            List.drop_append, front, List.drop_of_length_le (by omega), List.nil_append,
            Nat.add_sub_cancel_left, List.drop_drop, ← pairTexts_eraseIdx,
            ← erasePair_eq_eraseIdx lists.distinct found] at held
          refine ⟨.ziplist next, ?_, .ziplist held⟩
          simp only [Option.map_some, deleted, ok_andThen, deleted']
          rfl

end Deleting

end Redis.Hashes
