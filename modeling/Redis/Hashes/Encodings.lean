import Redis.Hashes.Model
import Redis.Library.FiniteMaps
import Redis.Ziplist.InsertionCorrectness

/-! What the functions on one hash do to its pairs, in both encodings. -/

namespace Redis.Hashes

open Redis.Library
open Redis.Keyspace (Sds)
open Redis.Rdb (HashObject entryObject entryPairs hashTypeConvert assertAdded)
open Redis.Strings (getLongLongFromSds)

-- Pairs in a ziplist

def pairTexts (pairs : List (Sds × Sds)) : List Sds := pairs.flatMap fun pair => [pair.1, pair.2]

section Pairs

variable {pairs : List (Sds × Sds)} {field value old : Sds} {j : Nat}

@[simp] theorem pairTexts_nil : pairTexts [] = [] := rfl

@[simp] theorem pairTexts_cons (pair : Sds × Sds) (rest : List (Sds × Sds))
    : pairTexts (pair :: rest) = pair.1 :: pair.2 :: pairTexts rest := rfl

theorem pairTexts_append (front back : List (Sds × Sds))
    : pairTexts (front ++ back) = pairTexts front ++ pairTexts back := List.flatMap_append

@[simp] theorem length_pairTexts (pairs : List (Sds × Sds))
    : (pairTexts pairs).length = 2 * pairs.length := by
  induction pairs with
  | nil => rfl
  | cons pair rest ih =>
      rw [pairTexts_cons, List.length_cons, List.length_cons, ih, List.length_cons]
      omega

theorem pairTexts_field (pairs : List (Sds × Sds)) (j : Nat)
    : (pairTexts pairs)[2 * j]? = pairs[j]?.map Prod.fst := by
  induction pairs generalizing j with
  | nil => rfl
  | cons pair rest ih =>
      cases j with
      | zero => rfl
      | succ j =>
          rw [Nat.mul_succ, pairTexts_cons, List.getElem?_cons_succ, List.getElem?_cons_succ, ih]
          rfl

theorem pairTexts_value (pairs : List (Sds × Sds)) (j : Nat)
    : (pairTexts pairs)[2 * j + 1]? = pairs[j]?.map Prod.snd := by
  induction pairs generalizing j with
  | nil => rfl
  | cons pair rest ih =>
      cases j with
      | zero => rfl
      | succ j =>
          rw [Nat.mul_succ, Nat.add_right_comm, pairTexts_cons, List.getElem?_cons_succ,
            List.getElem?_cons_succ, ih]
          rfl

theorem pairTexts_set (found : pairs[j]? = some (field, old)) (value : Sds)
    : pairTexts (pairs.set j (field, value))
      = (pairTexts pairs).take (2 * j + 1) ++ value :: (pairTexts pairs).drop (2 * j + 1 + 1) := by
  induction pairs generalizing j with
  | nil => cases found
  | cons pair rest ih =>
      cases j with
      | zero =>
          obtain rfl : pair = (field, old) := by simpa using found
          rfl
      | succ j =>
          have behind : rest[j]? = some (field, old) := by simpa using found
          rw [List.set_cons_succ, pairTexts_cons, pairTexts_cons, ih behind, Nat.mul_succ]
          simp

theorem pairTexts_eraseIdx (pairs : List (Sds × Sds)) (j : Nat)
    : pairTexts (pairs.eraseIdx j)
      = (pairTexts pairs).take (2 * j) ++ (pairTexts pairs).drop (2 * j + 2) := by
  induction pairs generalizing j with
  | nil => simp
  | cons pair rest ih =>
      cases j with
      | zero => simp
      | succ j =>
          rw [List.eraseIdx_cons_succ, pairTexts_cons, ih, Nat.mul_succ]
          simp

def placeOf (pairs : List (Sds × Sds)) (field : Sds) : Option Nat :=
  pairs.findIdx? fun pair => pair.1 = field

theorem placeOf_none (absent : placeOf pairs field = none) : field ∉ pairs.map Prod.fst := by
  intro member
  obtain ⟨pair, inside, rfl⟩ := List.mem_map.mp member
  simpa using List.findIdx?_eq_none_iff.mp absent pair inside

theorem placeOf_some (found : placeOf pairs field = some j)
    : ∃ value, pairs[j]? = some (field, value) := by
  obtain ⟨inside, same, _⟩ := List.findIdx?_eq_some_iff_getElem.mp found
  refine ⟨pairs[j].2, ?_⟩
  rw [List.getElem?_eq_getElem inside, Option.some.injEq]
  exact Prod.ext (by simpa using same) rfl

theorem placeOf_isSome : (placeOf pairs field).isSome = decide (field ∈ pairs.map Prod.fst) := by
  rw [placeOf, List.findIdx?_isSome, Bool.eq_iff_iff, List.any_eq_true, decide_eq_true_iff,
    List.mem_map]
  simp

theorem placeOf_of_first {found : Option Nat} (first : FirstOf field 2 0 (pairTexts pairs) found)
    : found = (placeOf pairs field).map fun j => 2 * j := by
  have place (i : Nat) : (pairTexts pairs)[0 + i * 2]? = pairs[i]?.map Prod.fst := by
    rw [← pairTexts_field]
    congr 1
    omega
  cases first with
  | absent others =>
      cases at_j : placeOf pairs field with
      | none => rfl
      | some j =>
          obtain ⟨value, found⟩ := placeOf_some at_j
          exact absurd (by rw [place, found]; rfl) (others j)
  | found j equal others =>
      rw [place] at equal
      obtain ⟨pair, at_j, same⟩ := Option.map_eq_some_iff.mp equal
      obtain ⟨inside, here⟩ := List.getElem?_eq_some_iff.mp at_j
      have found : placeOf pairs field = some j := by
        refine List.findIdx?_eq_some_iff_getElem.mpr ⟨inside, by simpa [here] using same, ?_⟩
        intro i before
        have differs := others i before
        rw [place, List.getElem?_eq_getElem (before.trans inside)] at differs
        simpa using differs
      rw [found]
      simp [Nat.mul_comm]

end Pairs

section Lookups

variable {zl : List UInt8} {nodes : List ZipNode} {pairs : List (Sds × Sds)} {field : Sds}
  {values : List Sds}

theorem unsignedBytes_eq {s : Sds} (short : s.length < 2 ^ 32) : unsignedBytes s = s := by
  rw [unsignedBytes, Nat.mod_eq_of_lt short, List.take_length]

theorem holds_length (holds : ZiplistHolds zl nodes values) : nodes.length = values.length := by
  have lengths := congrArg List.length holds.texts
  simpa using lengths

theorem ziplistFindField_ok (holds : ZiplistHolds zl nodes (pairTexts pairs))
    (short : field.length < 2 ^ 32)
    : ziplistFindField zl field
      = .ok ((placeOf pairs field).map fun j => entryOffset nodes (2 * j)) := by
  rw [ziplistFindField, ziplistIndex_ok holds.entries, ok_andThen, unsignedBytes_eq short]
  have count := holds_length holds
  rw [length_pairTexts] at count
  by_cases some : 0 < nodes.length
  · have first : positionOf nodes.length (0 : Int32).toInt = Option.some 0 := by
      rw [Int32.toInt_zero, positionOf, if_pos le_rfl, if_pos (by omega)]
      rfl
    obtain ⟨found, at_found, ran⟩ := holds.find (Nat.zero_le _) field 1
    rw [placeOf_of_first at_found, Option.map_map] at ran
    simp only [first, Option.map_some]
    exact ran
  · have none : positionOf nodes.length (0 : Int32).toInt = Option.none := by
      rw [Int32.toInt_zero, positionOf, if_pos le_rfl, if_neg (by omega)]
    obtain rfl : pairs = [] := List.eq_nil_of_length_eq_zero (by omega)
    rw [none]
    rfl

/-- An integer that is read from a ziplist has 64 bits. -/
def EntryFits : ZipValue → Prop
  | .str _ => True
  | .int value => -2 ^ 63 ≤ value ∧ value < 2 ^ 63

theorem zipValue_fits {body : List UInt8} {value : ZipValue} (valued : zipValue body = some value)
    : EntryFits value := by
  unfold zipValue at valued
  split at valued
  · cases valued
  · split at valued
    · split at valued
      · cases valued
        trivial
      · split at valued
        · rename_i loaded
          cases valued
          exact zipLoadInteger_word loaded
        · cases valued
    · cases valued

theorem ziplistGet_entry (holds : ZiplistHolds zl nodes values) {i : Nat} {text : Sds}
    (found : values[i]? = some text)
    : ∃ value, ziplistGet zl (entryOffset nodes i) = .ok (some value) ∧ value.text = text
        ∧ EntryFits value := by
  have textAt : (nodes.map ZipNode.text)[i]? = some (some text) := by
    rw [holds.texts, List.getElem?_map, found]
    rfl
  rw [List.getElem?_map] at textAt
  obtain ⟨node, atNode, text'⟩ := Option.map_eq_some_iff.mp textAt
  obtain ⟨inside, _⟩ := List.getElem?_eq_some_iff.mp atNode
  obtain ⟨before, other, rest, rfl, rfl, _⟩ := entry_at inside
  obtain rfl : other = node := by simpa using atNode
  obtain ⟨value, valued, spelled⟩ := Option.map_eq_some_iff.mp text'
  rw [entryOffset_length_before, ziplistGet_ok holds.entries]
  exact ⟨value, by rw [valued], spelled, zipValue_fits valued⟩

theorem hashTypeGetFromZiplist_ok {m : Finmap fun _ : Sds => Sds}
    (holds : ZiplistHolds zl nodes (pairTexts pairs)) (lists : Lists pairs m) {o : StringObject}
    (short : o.text.length < 2 ^ 32)
    : ∃ value, hashTypeGetFromZiplist zl o = .ok value
        ∧ value.map ZipValue.text = m.lookup o.text ∧ ∀ found ∈ value, EntryFits found := by
  rw [hashTypeGetFromZiplist, decoded_ok, ok_andThen, ziplistFindField_ok holds short, ok_andThen]
  cases place : placeOf pairs o.text with
  | none =>
      have absent := placeOf_none place
      rw [← lists.mem_iff, ← Finmap.lookup_eq_none] at absent
      exact ⟨none, rfl, absent.symm, nofun⟩
  | some j =>
      obtain ⟨text, found⟩ := placeOf_some place
      have at_value : (pairTexts pairs)[2 * j + 1]? = some text := by
        rw [pairTexts_value, found]
        rfl
      obtain ⟨inside, _⟩ := List.getElem?_eq_some_iff.mp at_value
      rw [← holds_length holds] at inside
      obtain ⟨value, read, spelled, fits⟩ := ziplistGet_entry holds at_value
      refine ⟨some value, ?_, ?_, ?_⟩
      · simp only [Option.map_some, holds.entries.next (Nat.le_of_lt (Nat.lt_of_succ_lt inside)),
          if_pos inside, ok_andThen, read]
        rfl
      · rw [Option.map_some, spelled]
        exact ((lists.entry _ _).mpr (List.mem_of_getElem? found)).symm
      · rintro _ ⟨⟩
        exact fits

end Lookups

-- Hashes

def dictTexts (dict : List (StringObject × StringObject)) : List (Sds × Sds) :=
  dict.map fun entry => (entry.1.text, entry.2.text)

/-- The entries of a ziplist, nothing for a hash table. -/
abbrev Layout := Option (List ZipNode)

/-- A hash object with this layout, whose pairs, in their order, have these texts. -/
inductive Holds : HashObject → Layout → List (Sds × Sds) → Prop
  | ziplist {zl : List UInt8} {nodes : List ZipNode} {pairs : List (Sds × Sds)}
    (holds : ZiplistHolds zl nodes (pairTexts pairs))
    : Holds (.ziplist zl) (some nodes) pairs
  | ht {dict : List (StringObject × StringObject)} : Holds (.ht dict) none (dictTexts dict)

/-- A field has a length of 32 bits when a ziplist is searched for it. -/
def FieldFits (layout : Layout) (field : Sds) : Prop := layout.isSome → field.length < 2 ^ 32

/-- A hash object that stands for a finite map. -/
def Denotes (o : HashObject) (m : Finmap fun _ : Sds => Sds) : Prop :=
  ∃ layout pairs, Holds o layout pairs ∧ Lists pairs m

section Objects

variable {o : HashObject} {layout : Layout} {pairs : List (Sds × Sds)}
  {m : Finmap fun _ : Sds => Sds} {dict : List (StringObject × StringObject)}

theorem createHashObject_holds : Holds createHashObject (some []) [] :=
  have empty : ZiplistHolds ziplistNew (pushedNodes 0 []) (pairTexts []) := ziplistNew_pushed
  .ziplist empty

theorem map_fst_dictTexts
    : (dictTexts dict).map Prod.fst = (dict.map Prod.fst).map StringObject.text := by
  rw [dictTexts, List.map_map, List.map_map]
  rfl

theorem dictFetch_ok (lists : Lists (dictTexts dict) m) (key : StringObject)
    : (dictFetch dict key).map StringObject.text = m.lookup key.text := by
  rw [dictFetch]
  cases found : dict.find? (fun entry => entry.1.text = key.text) with
  | none =>
      have absent : key.text ∉ (dictTexts dict).map Prod.fst := by
        intro member
        rw [map_fst_dictTexts, List.map_map, List.mem_map] at member
        obtain ⟨entry, inside, same⟩ := member
        simpa using List.find?_eq_none.mp found entry inside |>.elim (by simpa using same)
      rw [← lists.mem_iff, ← Finmap.lookup_eq_none] at absent
      exact absent.symm
  | some entry =>
      have same : entry.1.text = key.text := by simpa using List.find?_some found
      have inside : (key.text, entry.2.text) ∈ dictTexts dict :=
        List.mem_map.mpr ⟨entry, List.mem_of_find?_eq_some found, by rw [same]⟩
      exact ((lists.entry _ _).mpr inside).symm

theorem text_entryObject {value : ZipValue} (fits : EntryFits value)
    : (entryObject value).text = value.text := by
  cases value with
  | str bytes => rfl
  | int n =>
      change decimalText (Int64.ofInt n).toInt = decimalText n
      rw [int64_toInt_ofInt fits.1 fits.2]

theorem hashTypeGetObject_ok (holds : Holds o layout pairs) (lists : Lists pairs m)
    {field : StringObject} (short : FieldFits layout field.text)
    : ∃ value, hashTypeGetObject o field = .ok value
        ∧ value.map StringObject.text = m.lookup field.text := by
  cases holds with
  | ht => exact ⟨_, rfl, dictFetch_ok lists field⟩
  | ziplist holds =>
      obtain ⟨value, read, spelled, fits⟩ := hashTypeGetFromZiplist_ok holds lists (short rfl)
      refine ⟨value.map entryObject, by rw [hashTypeGetObject, read]; rfl, ?_⟩
      rw [← spelled]
      cases value with
      | none => rfl
      | some value => exact congrArg some (text_entryObject (fits value rfl))

theorem hashTypeExists_ok (holds : Holds o layout pairs) (lists : Lists pairs m)
    {field : StringObject} (short : FieldFits layout field.text)
    : hashTypeExists o field = .ok (decide (field.text ∈ m)) := by
  have present {α : Type} {value : Option α} {text : α → Sds}
      (spelled : value.map text = m.lookup field.text)
      : value.isSome = decide (field.text ∈ m) := by
    rw [Bool.eq_iff_iff, decide_eq_true_iff, ← Finmap.lookup_isSome, ← spelled, Option.isSome_map]
  cases holds with
  | ht => rw [hashTypeExists, present (dictFetch_ok lists field)]
  | ziplist holds =>
      obtain ⟨value, read, spelled, _⟩ := hashTypeGetFromZiplist_ok holds lists (short rfl)
      rw [hashTypeExists, read, ok_andThen, present spelled]
      rfl

theorem hashTypeLength_ok (holds : Holds o layout pairs)
    : ∃ next, hashTypeLength o = .ok (pairs.length, next) ∧ Holds next layout pairs := by
  cases holds with
  | @ht dict => exact ⟨.ht dict, by rw [hashTypeLength, dictTexts, List.length_map], .ht⟩
  | ziplist holds =>
      obtain ⟨next, counted, kept⟩ := ziplistLen_ok holds
      refine ⟨.ziplist next, ?_, .ziplist kept⟩
      rw [hashTypeLength, counted, ok_andThen, length_pairTexts]
      simp only [Nat.mul_div_cancel_left _ (show 0 < 2 by omega)]
      rfl

theorem addHashFieldToReply_ok (holds : Holds o layout pairs) (lists : Lists pairs m) {field : Sds}
    (short : FieldFits layout field)
    : addHashFieldToReply (some o) field = .ok (m.lookup field) := by
  cases holds with
  | ht => exact congrArg Except.ok (dictFetch_ok lists (.sds field))
  | ziplist holds =>
      obtain ⟨value, read, spelled, _⟩ :=
        @hashTypeGetFromZiplist_ok _ _ _ _ holds lists (.sds field) (short rfl)
      rw [addHashFieldToReply, read, ok_andThen, spelled]
      rfl

end Objects

section Conversions

variable {pairs : List (Sds × Sds)} {m : Finmap fun _ : Sds => Sds} {zl : List UInt8}
  {nodes : List ZipNode} {layout : Layout} {dict : List (StringObject × StringObject)}

@[simp] theorem text_tryObjectEncoding (refcount : Nat) (o : StringObject)
    : (tryObjectEncoding refcount o).text = o.text := by
  have same := tryObjectEncoding_decoded refcount o
  rw [decoded_ok, decoded_ok] at same
  exact Except.ok.inj same

@[simp] theorem text_hashTypeTryObjectEncoding (subject : HashObject) (o : StringObject)
    : (hashTypeTryObjectEncoding subject o).text = o.text := by
  cases subject with
  | ziplist zl => rfl
  | ht dict => exact text_tryObjectEncoding 1 o

theorem entryPairs_ok {entries : List ZipValue}
    (texts : entries.map ZipValue.text = pairTexts pairs)
    : ∃ met, entryPairs entries = .ok met
        ∧ met.map (fun pair => (pair.1.text, pair.2.text)) = pairs
        ∧ ∀ pair ∈ met, pair.1 ∈ entries ∧ pair.2 ∈ entries := by
  induction pairs generalizing entries with
  | nil =>
      obtain rfl : entries = [] := by simpa using texts
      exact ⟨[], rfl, rfl, nofun⟩
  | cons pair rest ih =>
      obtain ⟨first, behind, rfl, text, texts⟩ := List.map_eq_cons_iff.mp texts
      obtain ⟨second, others, rfl, text', texts⟩ := List.map_eq_cons_iff.mp texts
      obtain ⟨met, ran, same, among⟩ := ih texts
      refine ⟨(first, second) :: met, by rw [entryPairs, ran]; rfl, ?_, ?_⟩
      · rw [List.map_cons, same, text, text']
      · intro entry member
        rcases List.mem_cons.mp member with rfl | inside
        · exact ⟨List.mem_cons_self, List.mem_cons_of_mem _ List.mem_cons_self⟩
        · obtain ⟨left, right⟩ := among entry inside
          exact ⟨List.mem_cons_of_mem _ (List.mem_cons_of_mem _ left),
            List.mem_cons_of_mem _ (List.mem_cons_of_mem _ right)⟩

theorem hashTypePairs_ok {o : HashObject} (holds : Holds o layout pairs) (lists : Lists pairs m)
    (order : DictOrder)
    : ∃ met, hashTypePairs order o = .ok met ∧ Lists met m := by
  cases holds with
  | @ht dict => exact ⟨_, rfl, lists.perm ((order.perm dict).map _)⟩
  | ziplist holds =>
      obtain ⟨entries, walked, texts⟩ := ziplistValues_ok holds
      obtain ⟨met, paired, same, _⟩ := entryPairs_ok texts
      refine ⟨pairs, ?_, lists⟩
      rw [hashTypePairs, walked, ok_andThen, paired, ok_andThen]
      exact congrArg Except.ok same

theorem dictFind_iff {keys : List StringObject} {key : StringObject}
    : Rdb.dictFind keys key = true ↔ key.text ∈ keys.map StringObject.text := by
  simp [Rdb.dictFind]

theorem dictAdd_new {key value : StringObject} (absent : key.text ∉ (dictTexts dict).map Prod.fst)
    : Rdb.dictAdd dict key value = some (dict ++ [(key, value)]) := by
  rw [map_fst_dictTexts, ← dictFind_iff] at absent
  exact if_neg absent

theorem convertLoop_ok (met : List (ZipValue × ZipValue))
    (dict : List (StringObject × StringObject))
    (fits : ∀ pair ∈ met, EntryFits pair.1 ∧ EntryFits pair.2)
    (distinct : ((dictTexts dict ++ met.map fun pair => (pair.1.text, pair.2.text)).map
      Prod.fst).Nodup)
    : ∃ final,
        met.foldlM
            (fun dict (field, value) =>
              assertAdded (Rdb.dictAdd dict (tryObjectEncoding 1 (entryObject field))
                (tryObjectEncoding 1 (entryObject value))))
            dict
          = .ok final
        ∧ dictTexts final = dictTexts dict ++ met.map fun pair => (pair.1.text, pair.2.text) := by
  induction met generalizing dict with
  | nil => exact ⟨dict, rfl, by simp⟩
  | cons pair rest ih =>
      obtain ⟨first, second⟩ := pair
      obtain ⟨fitsField, fitsValue⟩ := fits _ List.mem_cons_self
      have field : (tryObjectEncoding 1 (entryObject first)).text = first.text := by
        rw [text_tryObjectEncoding, text_entryObject fitsField]
      have value : (tryObjectEncoding 1 (entryObject second)).text = second.text := by
        rw [text_tryObjectEncoding, text_entryObject fitsValue]
      have absent : (tryObjectEncoding 1 (entryObject first)).text ∉
          (dictTexts dict).map Prod.fst := by
        rw [field]
        rw [List.map_append] at distinct
        intro member
        exact List.disjoint_of_nodup_append distinct member List.mem_cons_self
      have moved
          : dictTexts (dict ++ [(tryObjectEncoding 1 (entryObject first),
                tryObjectEncoding 1 (entryObject second))])
              ++ rest.map (fun pair => (pair.1.text, pair.2.text))
            = dictTexts dict
              ++ ((first, second) :: rest).map (fun pair => (pair.1.text, pair.2.text)) := by
        simp [dictTexts, field, value]
      obtain ⟨final, ran, texts⟩ :=
        ih _ (fun other member => fits other (List.mem_cons_of_mem _ member)) (by rwa [moved])
      refine ⟨final, ?_, by rw [texts, moved]⟩
      rw [List.foldlM_cons]
      dsimp only
      rw [dictAdd_new absent]
      exact ran

theorem ziplistGet_fits {p : Nat} {value : ZipValue} (read : ziplistGet zl p = .ok (some value))
    : EntryFits value := by
  rw [ziplistGet] at read
  obtain ⟨first, -, read⟩ := andThen_ok_iff.mp read
  split at read
  · cases read
  · obtain ⟨entry, -, read⟩ := andThen_ok_iff.mp read
    split at read
    · obtain ⟨bytes, -, read⟩ := andThen_ok_iff.mp read
      cases read
      trivial
    · obtain ⟨n, loaded, read⟩ := andThen_ok_iff.mp read
      cases read
      exact zipLoadInteger_word loaded

theorem ziplistIterate_fits (rounds : Nat) {p : Option Nat} {entries : List ZipValue}
    (walked : ziplistIterate zl rounds p = .ok entries)
    : ∀ entry ∈ entries, EntryFits entry := by
  induction rounds generalizing p entries with
  | zero => cases walked
  | succ rounds ih =>
      cases p with
      | none =>
          cases walked
          exact nofun
      | some p =>
          obtain ⟨value, read, walked⟩ := andThen_ok_iff.mp walked
          cases value with
          | none => cases walked
          | some value =>
              obtain ⟨next, -, walked⟩ := andThen_ok_iff.mp walked
              obtain ⟨others, behind, walked⟩ := andThen_ok_iff.mp walked
              cases walked
              intro entry member
              rcases List.mem_cons.mp member with rfl | inside
              · exact ziplistGet_fits read
              · exact ih behind entry inside

theorem hashTypeConvert_ok (holds : ZiplistHolds zl nodes (pairTexts pairs)) (lists : Lists pairs m)
    : ∃ dict, hashTypeConvert zl = .ok dict ∧ dictTexts dict = pairs := by
  obtain ⟨entries, walked, texts⟩ := ziplistValues_ok holds
  obtain ⟨first, -, iterated⟩ := andThen_ok_iff.mp walked
  have fits := ziplistIterate_fits _ iterated
  obtain ⟨met, paired, same, among⟩ := entryPairs_ok texts
  obtain ⟨dict, ran, kept⟩ :=
    convertLoop_ok met []
      (fun pair inside => ⟨fits _ (among pair inside).1, fits _ (among pair inside).2⟩)
      (by rw [same]; exact lists.distinct)
  refine ⟨dict, ?_, by rw [kept, same]; rfl⟩
  rw [hashTypeConvert, walked, ok_andThen, paired, ok_andThen, ran]

/-- One of the arguments is longer than a ziplist may hold. -/
def tooLong (limit : Nat) (args : List Sds) : Bool := args.any fun arg => limit < arg.length

/-- A value that is too long converts the hash, and its pairs stay. -/
theorem hashTypeTryConversion_ok {o : HashObject} (holds : Holds o layout pairs)
    (lists : Lists pairs m) (limit : Nat) (args : List Sds)
    : ∃ next, hashTypeTryConversion limit o args = .ok next
        ∧ Holds next (if tooLong limit args then none else layout) pairs := by
  cases holds with
  | @ht dict => exact ⟨.ht dict, rfl, by rw [ite_self]; exact .ht⟩
  | @ziplist zl _ _ holds =>
      have same : args.any (fun arg => decide (arg.length > limit)) = tooLong limit args := rfl
      rw [hashTypeTryConversion, same]
      split
      · obtain ⟨dict, converted, rfl⟩ := hashTypeConvert_ok holds lists
        exact ⟨.ht dict, by rw [converted]; rfl, .ht⟩
      · exact ⟨.ziplist zl, rfl, .ziplist holds⟩

theorem convertLong_ok (holds : ZiplistHolds zl nodes (pairTexts pairs)) (lists : Lists pairs m)
    (limit : Nat)
    : ∃ next, convertLong limit zl = .ok next
        ∧ Holds next (if limit < pairs.length then none else some nodes) pairs := by
  obtain ⟨zl', counted, kept⟩ := ziplistLen_ok holds
  rw [convertLong, counted, ok_andThen]
  simp only [length_pairTexts, Nat.mul_div_cancel_left _ (show 0 < 2 by omega)]
  by_cases many : limit < pairs.length
  · obtain ⟨dict, converted, rfl⟩ := hashTypeConvert_ok kept lists
    rw [if_pos many, if_pos many, converted]
    exact ⟨.ht dict, rfl, .ht⟩
  · rw [if_neg many, if_neg many]
    exact ⟨.ziplist zl', rfl, .ziplist kept⟩

end Conversions

end Redis.Hashes
