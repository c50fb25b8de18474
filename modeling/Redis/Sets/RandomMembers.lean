import Redis.Sets.Algebra
import Redis.Strings.Ranges

/-! `SRANDMEMBER` with a count. Random numbers are given as a list; a run that needs more of them
has not ended.
-/

namespace Redis.Sets

open Redis.Library
open Redis.Keyspace (Sds ObjectDb longLong wrongType)
open Redis.Rdb (SetObject dictAddMember assertAdded)
open Redis.SideIndexes (Moment)
open Redis.Strings (getLongFromObject)

-- The command

/-- `setTypeRandomElement`, for the number that the random generator gives. -/
def setTypeRandomElement (o : SetObject) (random : Nat) : Except Fault SetElement :=
  match o with
  | .ht members =>
      match members[random % members.length]? with
      | some de => .ok (.object de)
      | none => .error .nullPointer
  | .intset is => do
      let llele ← intsetGetAt is (random % is.length)
      pure (.integer llele)

/-- The first strategy: one element after the other. -/
def sampleLoop (o : SetObject) : (count : Nat) → List Nat → Except Fault (Option (List Sds))
  | 0, _ => .ok (some [])
  | _ + 1, [] => .ok none
  | count + 1, random :: randoms => do
      let element ← setTypeRandomElement o random
      let rest ← sampleLoop o count randoms
      pure (rest.map (element.reply :: ·))

/-- The loop of the third strategy that fills the dictionary. -/
def copyLoop (d : List StringObject) : List SetElement → Except Fault (List StringObject)
  | [] => .ok d
  | element :: elements => do
      let d ← assertAdded (dictAddMember d element.toObject)
      copyLoop d elements

/-- The loop of the third strategy that removes random entries. -/
def removeLoop : (excess : Nat) → List Nat → List StringObject
    → Except Fault (Option (List StringObject))
  | 0, _, d => .ok (some d)
  | _ + 1, [], _ => .ok none
  | excess + 1, random :: randoms, d =>
      match d[random % d.length]? with
      | none => .error .nullPointer
      | some de => removeLoop excess randoms ((dictDelete d de).getD d)

/-- The loop of the fourth strategy, until `count` elements were added. -/
def addLoop (o : SetObject) (count : Nat) : List Nat → (added : Nat) → List StringObject
    → Except Fault (Option (List StringObject))
  | [], added, d => .ok (if added < count then none else some d)
  | random :: randoms, added, d =>
      if added < count then do
        let element ← setTypeRandomElement o random
        match dictAddMember d element.toObject with
        | some d => addLoop o count randoms (added + 1) d
        | none => addLoop o count randoms added d
      else .ok (some d)

/-- `count`, a `PORT_ULONG`: the conversion of a number that is not negative goes through
`unsigned`.
-/
def sampleCount (l : Int) : Nat :=
  if 0 ≤ l then (l % 2 ^ 32).toNat else (-l % 2 ^ 64).toNat

variable {W : Type} (env : Env) (db : ObjectDb (Robj W)) (moment : Moment)

/-- The third and the fourth strategy: distinct elements, fewer than the set has. -/
def distinctSample (o : SetObject) (count : Nat) (randoms : List Nat)
    : Except Fault (Option (List StringObject)) :=
  if count * 3 % 2 ^ 64 > setTypeSize o then do
    let elements ← setTypeElements env.order o
    let d ← copyLoop [] elements
    if d.length = setTypeSize o then removeLoop (setTypeSize o - count) randoms d
    else .error .assertion
  else addLoop o count randoms 0 []

def srandmemberWithCountCommand (key countText : Sds) (randoms : List Nat)
    : Except Fault (Option (SetReply × ObjectDb (Robj W))) :=
  match getLongFromObject countText with
  | .error text => .ok (some (.error text, db))
  | .ok l =>
      match db.lookupKeyWrite moment key with
      | (db, none) => .ok (some (.multiBulk 0 [], db))
      | (db, some (.other _)) => .ok (some (.error wrongType, db))
      | (db, some (.set o)) =>
          let count := sampleCount l
          if count = 0 then .ok (some (.multiBulk 0 [], db))
          else if l < 0 then do
            let sample ← sampleLoop o count randoms
            pure (sample.map fun elements => (.multiBulk count elements, db))
          else if count ≥ setTypeSize o then do
            let result ← sunionDiffGenericCommand env db moment [key] none .union
            pure (some result)
          else do
            let sample ← distinctSample env o count randoms
            pure (sample.map fun d =>
              (.multiBulk count ((env.order.entries d).map StringObject.text), db))

-- The strategies

variable {env} {db} {moment} {o : SetObject} {members : Finset Sds}

theorem setTypeRandomElement_ok (denotes : Denotes o members) (nonempty : members.Nonempty)
    (random : Nat)
    : ∃ element,
        setTypeRandomElement o random = .ok element
        ∧ element.toObject.text ∈ members
        ∧ element.reply = element.toObject.text := by
  have size := setTypeSize_ok denotes
  have positive := Finset.card_pos.mpr nonempty
  cases denotes with
  | @ht objects _ distinct same =>
      have inside : random % objects.length < objects.length :=
        Nat.mod_lt _ (by rw [show objects.length = members.card from size]; exact positive)
      refine ⟨.object objects[random % objects.length], ?_, ?_, rfl⟩
      · rw [setTypeRandomElement, List.getElem?_eq_getElem inside]
      · exact (same _).mpr ⟨_, List.getElem_mem inside, rfl⟩
  | @intset is xs _ sound same =>
      have inside : random % is.length < xs.length := by
        rw [← sound.1.length]
        exact Nat.mod_lt _ (by rw [show is.length = members.card from size]; exact positive)
      have member := List.getElem_mem inside
      have text := text_createStringObject (int64_of_holds (sound_word sound member))
      refine ⟨.integer xs[random % is.length], ?_, ?_, text.symm⟩
      · rw [setTypeRandomElement, sound.1.get (List.getElem?_eq_getElem inside)]
        rfl
      · exact (same _).mpr ⟨_, member, text.symm⟩

theorem sampleLoop_ok (denotes : Denotes o members) (nonempty : members.Nonempty) (count : Nat)
    (randoms : List Nat)
    : ∃ sample,
        sampleLoop o count randoms = .ok sample
        ∧ ∀ elements, sample = some elements →
            elements.length = count ∧ ∀ text ∈ elements, text ∈ members := by
  induction count generalizing randoms with
  | zero => exact ⟨_, rfl, by rintro elements ⟨⟩; simp⟩
  | succ count ih =>
      cases randoms with
      | nil => exact ⟨none, rfl, by simp⟩
      | cons random randoms =>
          obtain ⟨element, chosen, member, reply⟩ := setTypeRandomElement_ok denotes nonempty random
          obtain ⟨rest, ran, right⟩ := ih randoms
          refine ⟨rest.map (element.reply :: ·), by rw [sampleLoop, chosen, ok_andThen, ran]; rfl,
            ?_⟩
          intro elements same
          obtain ⟨elements', found, rfl⟩ := Option.map_eq_some_iff.mp same
          obtain ⟨length, inside⟩ := right elements' found
          refine ⟨by rw [List.length_cons, length], ?_⟩
          intro text member'
          rcases List.mem_cons.mp member' with rfl | member'
          · rwa [reply]
          · exact inside text member'

theorem copyLoop_ok (elements : List SetElement) (d : List StringObject)
    (distinct : (d.map StringObject.text ++ elementTexts elements).Nodup)
    : copyLoop d elements = .ok (d ++ elements.map SetElement.toObject) := by
  induction elements generalizing d with
  | nil => simp [copyLoop]
  | cons element elements ih =>
      have absent : element.toObject.text ∉ d.map StringObject.text := by
        intro member
        exact (List.disjoint_of_nodup_append distinct) member List.mem_cons_self
      rw [copyLoop, dictAddMember_new absent, assertAdded, ok_andThen, ih]
      · simp
      · simpa [elementTexts] using distinct

theorem dictDelete_entry {d : List StringObject} (distinct : (d.map StringObject.text).Nodup)
    {place : Nat} (inside : place < d.length)
    : dictDelete d d[place] = some (d.eraseIdx place) := by
  have found : Rdb.dictFind d d[place] = true :=
    dictFind_iff.mpr ⟨d[place], List.getElem_mem inside, rfl⟩
  rw [dictDelete, if_pos found, Option.some.injEq]
  induction d generalizing place with
  | nil => cases inside
  | cons first rest ih =>
      obtain ⟨alone, distinct'⟩ := List.nodup_cons.mp distinct
      cases place with
      | zero =>
          have kept : ∀ other ∈ rest, other.text ≠ first.text := by
            intro other member same
            exact alone (same ▸ List.mem_map_of_mem member)
          simpa using kept
      | succ place =>
          have below : place < rest.length := Nat.lt_of_succ_lt_succ inside
          have different : first.text ≠ rest[place].text := by
            intro same
            exact alone (same ▸ List.mem_map_of_mem (List.getElem_mem below))
          have later := ih distinct' below (dictFind_iff.mpr ⟨_, List.getElem_mem below, rfl⟩)
          simpa [different] using later

theorem removeLoop_ok (excess : Nat) (randoms : List Nat) (d : List StringObject)
    (distinct : (d.map StringObject.text).Nodup) (enough : excess ≤ d.length)
    : ∃ sample,
        removeLoop excess randoms d = .ok sample
        ∧ ∀ rest, sample = some rest →
            rest.length + excess = d.length
            ∧ (rest.map StringObject.text).Nodup
            ∧ rest ⊆ d := by
  induction excess generalizing randoms d with
  | zero =>
      refine ⟨some d, rfl, ?_⟩
      rintro rest ⟨⟩
      exact ⟨rfl, distinct, List.Subset.refl _⟩
  | succ excess ih =>
      cases randoms with
      | nil => exact ⟨none, rfl, by simp⟩
      | cons random randoms =>
          have inside : random % d.length < d.length := Nat.mod_lt _ (by omega)
          have shorter := List.length_eraseIdx_of_lt inside
          have part := List.eraseIdx_sublist d (random % d.length)
          obtain ⟨sample, ran, right⟩ :=
            ih randoms (d.eraseIdx (random % d.length)) (distinct.sublist (part.map _)) (by omega)
          refine ⟨sample, ?_, ?_⟩
          · rw [removeLoop, List.getElem?_eq_getElem inside]
            dsimp only
            rw [dictDelete_entry distinct inside]
            exact ran
          · intro rest same
            obtain ⟨length, distinct', subset⟩ := right rest same
            exact ⟨by omega, distinct', fun ele member => part.subset (subset member)⟩

theorem addLoop_ok (denotes : Denotes o members) (nonempty : members.Nonempty) (count : Nat)
    (randoms : List Nat) (d : List StringObject) (distinct : (d.map StringObject.text).Nodup)
    (inside : ∀ ele ∈ d, ele.text ∈ members) (few : d.length ≤ count)
    : ∃ sample,
        addLoop o count randoms d.length d = .ok sample
        ∧ ∀ final, sample = some final →
            final.length = count
            ∧ (final.map StringObject.text).Nodup
            ∧ ∀ ele ∈ final, ele.text ∈ members := by
  have finished : ¬d.length < count →
      ∀ final, some d = some final →
        final.length = count
        ∧ (final.map StringObject.text).Nodup
        ∧ ∀ ele ∈ final, ele.text ∈ members := by
    rintro done final ⟨⟩
    exact ⟨by omega, distinct, inside⟩
  induction randoms generalizing d with
  | nil =>
      rw [addLoop]
      split
      · exact ⟨none, rfl, by simp⟩
      · rename_i done
        exact ⟨_, rfl, finished done⟩
  | cons random randoms ih =>
      rw [addLoop]
      split
      · rename_i more
        obtain ⟨element, chosen, member, _⟩ := setTypeRandomElement_ok denotes nonempty random
        rw [chosen, ok_andThen]
        by_cases present : element.toObject.text ∈ d.map StringObject.text
        · have found : Rdb.dictFind d element.toObject = true := by
            rw [dictFind_iff]
            simpa using present
          rw [dictAddMember, if_pos found]
          exact ih d distinct inside few finished
        · rw [dictAddMember_new present]
          have distinct' : ((d ++ [element.toObject]).map StringObject.text).Nodup := by
            rw [List.map_append]
            exact List.nodup_append_comm.mp (List.nodup_cons.mpr ⟨present, distinct⟩)
          have inside' : ∀ ele ∈ d ++ [element.toObject], ele.text ∈ members := by
            intro ele member'
            rcases List.mem_append.mp member' with old | new
            · exact inside ele old
            · rwa [List.mem_singleton.mp new]
          have length : (d ++ [element.toObject]).length = d.length + 1 := by simp
          have next := ih (d ++ [element.toObject]) distinct' inside' (by omega) (by
            rintro done final ⟨⟩
            exact ⟨by omega, distinct', inside'⟩)
          rwa [length] at next
      · rename_i done
        exact ⟨_, rfl, finished done⟩

-- The reply

/-- The reply to a count: as many members as are asked for, or as there are, distinct unless the
count is negative.
-/
structure RightSample (moment : Moment) (db : ObjectDb (Robj W)) (members : Finset Sds) (n : Int)
    (reply : SetReply) (next : ObjectDb (Robj W))
    : Prop where
  sampled : ∃ elements,
    reply = .multiBulk elements.length elements
    ∧ (∀ text ∈ elements, text ∈ members)
    ∧ (0 ≤ n → elements.Nodup ∧ (elements.length : Int) = min n members.card)
    ∧ (n < 0 → (elements.length : Int) = -n)
  unchanged : ObjectDb.OnlyExpired moment db next

/-- Nothing is lost from a count when it becomes an `unsigned`, and the size of a set that is
replied as a whole is counted by an `int`.
-/
def CountKept (n : Int) (size : Nat) : Prop :=
  0 ≤ n → (n < 2 ^ 32 ∨ size ≤ (n % 2 ^ 32).toNat) ∧ (size ≤ (n % 2 ^ 32).toNat → size < 2 ^ 31)

instance (n : Int) (size : Nat) : Decidable (CountKept n size) :=
  inferInstanceAs (Decidable (_ → _))

theorem rightSample_distinct {n : Int} {count : Nat} {elements : List Sds}
    {next : ObjectDb (Robj W)} (only : ObjectDb.OnlyExpired moment db next) (positive : 0 ≤ n)
    (low : sampleCount n = count) (fewer : count < members.card) (length : elements.length = count)
    (distinct : elements.Nodup) (inside : ∀ text ∈ elements, text ∈ members)
    : RightSample moment db members n (.multiBulk count elements) next
      ↔ CountKept n members.card := by
  rw [sampleCount, if_pos positive] at low
  have kept : CountKept n members.card ↔ n < 2 ^ 32 := by
    rw [CountKept, low]
    constructor
    · intro kept
      exact (kept positive).1.resolve_right (by omega)
    · intro small _
      exact ⟨.inl small, fun whole => by omega⟩
  rw [kept]
  constructor
  · rintro ⟨⟨elements', same, _, right, _⟩, _⟩
    have parts := SetReply.multiBulk.inj same
    have number := (right positive).2
    rw [← parts.2, length] at number
    omega
  · intro small
    refine ⟨⟨elements, by rw [length], inside, ?_, by omega⟩, only⟩
    intro _
    refine ⟨distinct, ?_⟩
    rw [length]
    omega

theorem rightSample_whole {n : Int} {elements : List Sds} {next : ObjectDb (Robj W)}
    (only : ObjectDb.OnlyExpired moment db next) (positive : 0 ≤ n)
    (many : members.card ≤ sampleCount n) (distinct : elements.Nodup)
    (same : ∀ text, text ∈ members ↔ text ∈ elements)
    : RightSample moment db members n (.multiBulk (int32 members.card) elements) next
      ↔ CountKept n members.card := by
  have size := card_of_texts distinct same
  rw [sampleCount, if_pos positive] at many
  have kept : CountKept n members.card ↔ members.card < 2 ^ 31 := by
    constructor
    · intro kept
      exact (kept positive).2 many
    · intro small _
      exact ⟨.inr many, fun _ => small⟩
  rw [kept, ← int32_eq_self_iff]
  constructor
  · rintro ⟨⟨elements', equal, _⟩, _⟩
    have parts := SetReply.multiBulk.inj equal
    rw [parts.1, ← parts.2, size]
  · intro counted
    refine ⟨⟨elements, by rw [counted, size], fun text member => (same text).mpr member, ?_,
      by omega⟩, only⟩
    intro _
    refine ⟨distinct, ?_⟩
    rw [← size]
    omega

theorem distinctSample_ok (denotes : Denotes o members) (nonempty : members.Nonempty) {count : Nat}
    (fewer : count < members.card) (randoms : List Nat)
    : ∃ sample,
        distinctSample env o count randoms = .ok sample
        ∧ ∀ d, sample = some d →
            d.length = count
            ∧ (d.map StringObject.text).Nodup
            ∧ ∀ ele ∈ d, ele.text ∈ members := by
  have size := setTypeSize_ok denotes
  rw [distinctSample]
  split
  · obtain ⟨elements, listed, distinct, same, _⟩ := setTypeElements_ok denotes env.order
    have length : (elementTexts elements).length = members.card :=
      (card_of_texts distinct same).symm
    have copied := copyLoop_ok elements [] (by simpa using distinct)
    have texts
        : (elements.map SetElement.toObject).map StringObject.text = elementTexts elements := by
      rw [List.map_map]
      rfl
    have length' : (elements.map SetElement.toObject).length = setTypeSize o := by
      rw [size, ← length, elementTexts, List.length_map, List.length_map]
    obtain ⟨sample, ran, right⟩ :=
      removeLoop_ok (setTypeSize o - count) randoms (elements.map SetElement.toObject)
        (by rwa [texts]) (by omega)
    refine ⟨sample, ?_, ?_⟩
    · rw [listed, ok_andThen, copied, ok_andThen, List.nil_append, if_pos length', ran]
    · intro d found
      obtain ⟨length'', distinct', subset⟩ := right d found
      refine ⟨by omega, distinct', ?_⟩
      intro ele member
      rw [same, ← texts]
      exact List.mem_map_of_mem (subset member)
  · exact addLoop_ok denotes nonempty count randoms [] List.nodup_nil (by simp) (Nat.zero_le _)

end Redis.Sets
