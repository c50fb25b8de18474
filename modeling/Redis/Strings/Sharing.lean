import Redis.Strings.Objects

/-! The reference counts of the objects are right, and the functions of the databases change what
the keys stand for as a map from keys to values would change.
-/

namespace Redis.Strings

open Redis.Library
open Redis.Keyspace (Sds)
open Redis.SideIndexes (Moment)

variable {V : Type}

-- Keys and what they stand for

/-- The keys of the databases with what they stand for and their expire times. -/
@[ext]
structure Keys (V : Type) where
  contents : DbKey → Option (Contents V)
  expires : DbKey → Option Int

namespace Keys

variable (keys : Keys V)

def set (key : DbKey) (value : Contents V) : Keys V :=
  { keys with contents := Function.update keys.contents key (some value) }

def delete (key : DbKey) : Keys V where
  contents := Function.update keys.contents key none
  expires := Function.update keys.expires key none

/-- A key whose time has passed is deleted, by a master that is not loading. -/
def isExpired (moment : Moment) (key : DbKey) : Bool :=
  match keys.expires key with
  | none => false
  | some time => 0 ≤ time && !moment.loading && !moment.slave && time < moment.now

def lookedUp (moment : Moment) (key : DbKey) : Keys V :=
  if keys.isExpired moment key then keys.delete key else keys

end Keys

theorem Keys.set_self {keys : Keys V} {key : DbKey} {value : Contents V}
    (contents : keys.contents key = some value)
    : keys.set key value = keys := by
  refine Keys.ext ?_ rfl
  rw [Keys.set, ← contents, Function.update_eq_self]

theorem Keys.set_set (keys : Keys V) (key : DbKey) (first second : Contents V)
    : (keys.set key first).set key second = keys.set key second :=
  Keys.ext (Function.update_idem ..) rfl

/-- What the keys of a store stand for. -/
def Store.keys (s : Store V) : Keys V where
  contents key := (s.dict.lookup key).bind fun a => (s.heap.value a).map Robj.contents
  expires := s.expires

-- References

def withReference (held : Nat → Nat) (a : Nat)
    : Nat → Nat := fun b => held b + if b = a then 1 else 0

/-- The references from `shared.integers`. -/
def Store.sharedRefs (s : Store V) (a : Nat) : Nat :=
  ((List.range redisSharedIntegers).map s.sharedIntegers).count a

/-- The references to an address; `held` counts those from outside the databases and
`shared.integers`.
-/
def Store.refs (s : Store V) (held : Nat → Nat) (a : Nat) : Nat :=
  s.dict.pointersTo a + s.sharedRefs a + held a

/-- The reference counts are right, `shared.integers` are there and so are the keys that expire. -/
structure Consistent (s : Store V) (held : Nat → Nat) : Prop where
  counts : s.heap.Counts (s.refs held)
  sharedValue : ∀ i < redisSharedIntegers,
    s.heap.value (s.sharedIntegers i) = some (.int (Int64.ofInt i))
  expiresInDict : ∀ key, s.dict.lookup key = none → s.expires key = none

variable {s : Store V} {held : Nat → Nat} {key : DbKey} {a o : Nat} {value : Robj V}
  {moment : Moment}
  {text : Sds}

theorem withReference_eq_update (held : Nat → Nat) (a : Nat)
    : withReference held a = Function.update held a (held a + 1) := by
  funext b
  by_cases same : b = a
  · subst same
    simp [withReference]
  · simp [withReference, same]

theorem Store.refs_withReference (s : Store V) (held : Nat → Nat) (a : Nat)
    : s.refs (withReference held a) = withReference (s.refs held) a := by
  funext b
  simp only [Store.refs, withReference]
  omega

theorem Store.refs_pos_of_lookup (held : Nat → Nat) (found : s.dict.lookup key = some a)
    : 0 < s.refs held a := by
  have positive := PointerDictionary.pointersTo_pos found
  simp only [Store.refs]
  omega

theorem Store.sharedRefs_pos {i : Nat} (small : i < redisSharedIntegers)
    : 0 < s.sharedRefs (s.sharedIntegers i) :=
  List.count_pos_iff.mpr (List.mem_map_of_mem (List.mem_range.mpr small))

theorem Store.refs_pos_of_shared (held : Nat → Nat) {i : Nat} (small : i < redisSharedIntegers)
    : 0 < s.refs held (s.sharedIntegers i) := by
  have positive := s.sharedRefs_pos small
  simp only [Store.refs]
  omega

theorem Store.keys_eq_of_lookup {heap : CountedHeap (Robj V)}
    (same : ∀ key b, s.dict.lookup key = some b → heap.value b = s.heap.value b)
    : { s with heap := heap : Store V }.keys = s.keys := by
  refine Keys.ext (funext fun other => ?_) rfl
  cases found : s.dict.lookup other with
  | none => simp [keys, found]
  | some b => simp [keys, found, same other b found]

theorem Store.keys_eq_of_value (held : Nat → Nat) {heap : CountedHeap (Robj V)}
    (same : ∀ b, 0 < s.refs held b → heap.value b = s.heap.value b)
    : { s with heap := heap : Store V }.keys = s.keys :=
  Store.keys_eq_of_lookup fun _ b found => same b (refs_pos_of_lookup held found)

theorem Consistent.value_isSome (consistent : Consistent s held) (referred : 0 < s.refs held a)
    : ∃ value, s.heap.value a = some value :=
  consistent.counts.value_isSome referred

theorem Consistent.found (consistent : Consistent s held) (found : s.dict.lookup key = some a)
    : ∃ value, s.heap.value a = some value ∧ s.object a = .ok value
      ∧ s.keys.contents key = some value.contents := by
  obtain ⟨value, there⟩ := consistent.value_isSome (Store.refs_pos_of_lookup held found)
  exact ⟨value, there, by simp [Store.object, there], by simp [Store.keys, found, there]⟩

theorem Robj.contents_of_isString {o : Robj V} (string : o.isString = true)
    : ∃ text, o.contents = .string text := by
  cases o with
  | other v => cases string
  | _ => exact ⟨_, rfl⟩

theorem Robj.decoded_of_contents {o : Robj V} (contents : o.contents = .string text)
    : o.decoded = .ok text := by
  cases o with
  | raw s => exact congrArg Except.ok (Contents.string.inj contents)
  | embstr s => exact congrArg Except.ok (Contents.string.inj contents)
  | int n =>
      exact (StringObject.decoded_int n).trans (congrArg Except.ok (Contents.string.inj contents))
  | other v => cases contents

theorem Store.contents_of_lookup_none (absent : s.dict.lookup key = none)
    : s.keys.contents key = none := by
  simp [keys, absent]

/-- A server without keys, with nothing but `shared.integers`. -/
def Store.init : Store V where
  heap :=
    ⟨fun a => if a < redisSharedIntegers then some ⟨.int (Int64.ofInt a), 1⟩ else none,
      redisSharedIntegers⟩
  dict := ∅
  expires _ := none
  sharedIntegers := id

/-- A key that the examples use, and a time at which they run. -/
def sampleKey : DbKey := (0, [0x6B])

def sampleMoment : Moment := ⟨0, false, false⟩

theorem count_range (n a : Nat) : ((List.range n).map id).count a = if a < n then 1 else 0 := by
  simp [List.nodup_range.count]

theorem init_consistent : Consistent (Store.init : Store V) fun _ => 0 := by
  have refs : ∀ a, (Store.init : Store V).refs (fun _ => 0) a
      = if a < redisSharedIntegers then 1 else 0 := by
    intro a
    have shared : (Store.init : Store V).sharedRefs a = if a < redisSharedIntegers then 1 else 0 :=
      count_range redisSharedIntegers a
    rw [Store.refs, shared]
    simp [Store.init, PointerDictionary.pointersTo]
  refine ⟨⟨fun a => ?_, fun a referred => ?_, fun a above => if_neg (Nat.not_lt.mpr above)⟩,
    fun i small => ?_, fun _ _ => rfl⟩
  · rw [refs]
    by_cases small : a < redisSharedIntegers <;> simp [Store.init, CountedHeap.refcount, small]
  · rw [refs] at referred
    have small : a < redisSharedIntegers := by
      by_contra large
      simp [large] at referred
    simp [Store.init, small]
  · simp [Store.init, CountedHeap.value, small]

-- Objects

theorem Consistent.createObject (consistent : Consistent s held) (value : Robj V)
    : Consistent (s.createObject value).1 (withReference held (s.createObject value).2)
      ∧ (s.createObject value).1.keys = s.keys
      ∧ (s.createObject value).1.heap.value (s.createObject value).2 = some value := by
  have other : ∀ b, 0 < s.refs held b → b ≠ s.heap.next := by
    rintro b referred rfl
    exact absurd consistent.counts.next_free (by omega)
  refine ⟨⟨?_, fun i small => ?_, consistent.expiresInDict⟩, ?_, CountedHeap.value_alloc_next⟩
  · refine (consistent.counts.alloc value).congr fun b => ?_
    have free := consistent.counts.next_free
    by_cases same : b = s.heap.next
    · subst same
      simp only [Store.refs, Store.sharedRefs, Store.createObject, withReference, if_pos,
        Function.update_self] at free ⊢
      omega
    · simp [Store.refs, Store.sharedRefs, Store.createObject, withReference, same]
  · exact (CountedHeap.value_alloc_other (other _ (Store.refs_pos_of_shared held small))).trans
      (consistent.sharedValue i small)
  · exact Store.keys_eq_of_value held fun b referred =>
      CountedHeap.value_alloc_other (other b referred)

theorem Consistent.incrRefCount (consistent : Consistent s held) (referred : 0 < s.refs held a)
    : Consistent (s.incrRefCount a) (withReference held a) ∧ (s.incrRefCount a).keys = s.keys := by
  refine ⟨⟨?_, fun i small => CountedHeap.value_incr.trans (consistent.sharedValue i small),
    consistent.expiresInDict⟩, Store.keys_eq_of_value held fun _ _ => CountedHeap.value_incr⟩
  refine (consistent.counts.incr referred).congr fun b => ?_
  rw [← withReference_eq_update, ← Store.refs_withReference]
  rfl

theorem Consistent.decrRefCount (consistent : Consistent s (withReference held a))
    : s.decrRefCount a = .ok { s with heap := s.heap.decr a }
      ∧ Consistent { s with heap := s.heap.decr a } held
      ∧ { s with heap := s.heap.decr a }.keys = s.keys
      ∧ ∀ b, 0 < s.refs held b → (s.heap.decr a).value b = s.heap.value b := by
  have refs := s.refs_withReference held a
  have referred : 0 < s.refs (withReference held a) a := by simp [refs, withReference]
  have count : s.heap.refcount a ≠ 0 := by
    rw [consistent.counts.count]
    omega
  have less : ∀ b,
      Function.update (s.refs (withReference held a)) a (s.refs (withReference held a) a - 1) b
        = s.refs held b := by
    intro b
    by_cases same : b = a
    · subst same
      simp [refs, withReference]
    · simp [refs, withReference, same]
  have kept : ∀ b, 0 < s.refs held b → (s.heap.decr a).value b = s.heap.value b := by
    intro b left
    rw [← less b] at left
    exact CountedHeap.value_decr consistent.counts left
  refine ⟨by simp [Store.decrRefCount, count], ⟨?_, ?_, ?_⟩, Store.keys_eq_of_value held kept, kept⟩
  · exact (consistent.counts.decr referred).congr fun b => (less b).symm
  · intro i small
    exact (kept _ (Store.refs_pos_of_shared held small)).trans (consistent.sharedValue i small)
  · exact consistent.expiresInDict

theorem Consistent.createStringObjectFromLongLong (consistent : Consistent s held) (v : Int)
    : ∃ s' o, s.createStringObjectFromLongLong v = (s', o)
      ∧ Consistent s' (withReference held o) ∧ s'.keys = s.keys ∧ s'.dict = s.dict
      ∧ s'.heap.value o = some (.int (Int64.ofInt v)) := by
  unfold Store.createStringObjectFromLongLong
  split
  · rename_i small
    have index : v.toNat < redisSharedIntegers := by omega
    obtain ⟨after, keys⟩ := consistent.incrRefCount (Store.refs_pos_of_shared held index)
    refine ⟨_, _, rfl, after, keys, rfl, ?_⟩
    rw [Store.incrRefCount, CountedHeap.value_incr, consistent.sharedValue _ index,
      Int.toNat_of_nonneg small.1]
  · obtain ⟨after, keys, there⟩ := consistent.createObject (.int (Int64.ofInt v))
    exact ⟨_, _, rfl, after, keys, rfl, there⟩

theorem Consistent.store (consistent : Consistent s held) (found : s.dict.lookup key = some a)
    (alone : s.heap.refcount a = 1) (value : Robj V)
    : Consistent { s with heap := s.heap.store a value } held
      ∧ { s with heap := s.heap.store a value }.keys = s.keys.set key value.contents := by
  obtain ⟨old, there, -, -⟩ := consistent.found found
  have pointed := PointerDictionary.pointersTo_pos found
  have total := consistent.counts.count a
  rw [alone, Store.refs] at total
  refine ⟨⟨consistent.counts.store a value, fun i small => ?_, consistent.expiresInDict⟩,
    Keys.ext (funext fun other => ?_) rfl⟩
  · have notShared : s.sharedIntegers i ≠ a := by
      rintro rfl
      have shared := s.sharedRefs_pos small
      omega
    exact (CountedHeap.value_store_other notShared).trans (consistent.sharedValue i small)
  · by_cases same : other = key
    · subst same
      simp [Store.keys, Keys.set, found, CountedHeap.value_store_self there]
    · have apart := PointerDictionary.lookup_ne_of_single (by omega) found same
      cases held : s.dict.lookup other with
      | none => simp [Store.keys, Keys.set, same, held]
      | some b =>
          have different : b ≠ a := by
            rintro rfl
            exact apart held
          simp [Store.keys, Keys.set, same, held, CountedHeap.value_store_other different]

-- Databases

theorem Store.keys_insert (key : DbKey) (there : s.heap.value a = some value)
    : { s with dict := s.dict.insert key a }.keys = s.keys.set key value.contents := by
  refine Keys.ext (funext fun other => ?_) rfl
  by_cases same : other = key
  · subst same
    simp [Store.keys, Keys.set, there]
  · simp [Store.keys, Keys.set, same, AList.lookup_insert_ne same]

/-- `dbAdd` hands over a reference and sets the key. -/
theorem Consistent.dbAdd (consistent : Consistent s (withReference held a))
    (absent : s.dict.lookup key = none) (there : s.heap.value a = some value)
    : s.dbAdd key a = .ok { s with dict := s.dict.insert key a }
      ∧ Consistent { s with dict := s.dict.insert key a } held
      ∧ { s with dict := s.dict.insert key a }.keys = s.keys.set key value.contents := by
  refine ⟨by rw [Store.dbAdd, absent], ⟨?_, consistent.sharedValue, fun other missing => ?_⟩,
    Store.keys_insert key there⟩
  · refine consistent.counts.congr fun b => ?_
    have added := PointerDictionary.pointersTo_insert_new absent a b
    simp only [Store.refs, Store.sharedRefs, withReference] at added ⊢
    omega
  · rw [AList.lookup_insert_eq_none] at missing
    exact consistent.expiresInDict other missing.2

theorem Consistent.dbOverwrite (consistent : Consistent s (withReference held a))
    (found : s.dict.lookup key = some o) (there : s.heap.value a = some value)
    : ∃ s', s.dbOverwrite key a = .ok s' ∧ Consistent s' held
      ∧ s'.keys = s.keys.set key value.contents ∧ s'.dict.lookup key = some a
      ∧ (a ≠ o → s'.heap.value a = some value ∧ s'.heap.refcount a = s.heap.refcount a) := by
  have inserted : Consistent { s with dict := s.dict.insert key a } (withReference held o) := by
    refine ⟨consistent.counts.congr fun b => ?_, consistent.sharedValue, fun other missing => ?_⟩
    · have replaced := PointerDictionary.pointersTo_insert_replaced found a b
      simp only [Store.refs, Store.sharedRefs, withReference] at replaced ⊢
      omega
    · rw [AList.lookup_insert_eq_none] at missing
      exact consistent.expiresInDict other missing.2
  obtain ⟨ran, after, keys, -⟩ := inserted.decrRefCount
  refine ⟨_, by rw [Store.dbOverwrite, found]; exact ran, after, ?_, AList.lookup_insert _,
    fun fresh => ⟨?_, CountedHeap.refcount_decr_other fresh⟩⟩
  · rw [keys, Store.keys_insert key there]
  · exact (CountedHeap.value_decr_other fresh).trans there

theorem Consistent.dbDelete (consistent : Consistent s held) (found : s.dict.lookup key = some o)
    : ∃ s', s.dbDelete key = .ok s' ∧ Consistent s' held ∧ s'.keys = s.keys.delete key
      ∧ ∀ b, 0 < held b → s'.heap.value b = s.heap.value b := by
  have erased : Consistent
      { s with dict := s.dict.erase key, expires := Function.update s.expires key none }
      (withReference held o) := by
    refine ⟨consistent.counts.congr fun b => ?_, consistent.sharedValue, fun other missing => ?_⟩
    · have less := PointerDictionary.pointersTo_erase found b
      simp only [Store.refs, Store.sharedRefs, withReference] at less ⊢
      omega
    · by_cases same : other = key
      · subst same
        exact Function.update_self ..
      · rw [AList.lookup_erase_ne same] at missing
        simpa [same] using consistent.expiresInDict other missing
  obtain ⟨ran, after, keys, kept⟩ := erased.decrRefCount
  refine ⟨_, by rw [Store.dbDelete]; simp only [found]; exact ran, after, ?_, fun b referred => ?_⟩
  swap
  · exact kept b (Nat.lt_of_lt_of_le referred (Nat.le_add_left ..))
  rw [keys]
  refine Keys.ext (funext fun other => ?_) rfl
  by_cases same : other = key
  · subst same
    simp [Store.keys, Keys.delete]
  · simp [Store.keys, Keys.delete, same, AList.lookup_erase_ne same]

theorem Consistent.expireIfNeeded (consistent : Consistent s held) (moment : Moment) (key : DbKey)
    : ∃ s', s.expireIfNeeded moment key = .ok s' ∧ Consistent s' held
      ∧ s'.keys = s.keys.lookedUp moment key
      ∧ ∀ b, 0 < held b → s'.heap.value b = s.heap.value b := by
  have expires : s.keys.expires = s.expires := rfl
  cases time : s.expires key with
  | none =>
      refine ⟨s, ?_, consistent, ?_, fun _ _ => rfl⟩
      · simp [Store.expireIfNeeded, Store.getExpire, time, pure, Except.pure]
      · simp [Keys.lookedUp, Keys.isExpired, expires, time]
  | some time' =>
      cases found : s.dict.lookup key with
      | none => simp [consistent.expiresInDict key found] at time
      | some o =>
          obtain ⟨s', deleted, after, keys, kept⟩ := consistent.dbDelete found
          have ran : s.expireIfNeeded moment key
              = if s.keys.isExpired moment key then .ok s' else .ok s := by
            simp only [Store.expireIfNeeded, Store.getExpire, time, found, reduceCtorEq, if_false,
              ok_andThen, deleted, Keys.isExpired, expires, pure, Except.pure, Bool.and_eq_true,
              decide_eq_true_eq, Bool.not_eq_true']
            split_ifs <;> first | rfl | omega | simp_all
          rw [ran]
          unfold Keys.lookedUp
          split
          · exact ⟨s', rfl, after, keys, kept⟩
          · exact ⟨s, rfl, consistent, rfl, fun _ _ => rfl⟩

theorem Consistent.lookupKeyWrite (consistent : Consistent s held) (moment : Moment) (key : DbKey)
    : ∃ s', s.lookupKeyWrite moment key = .ok (s', s'.dict.lookup key) ∧ Consistent s' held
      ∧ s'.keys = s.keys.lookedUp moment key
      ∧ ∀ b, 0 < held b → s'.heap.value b = s.heap.value b := by
  obtain ⟨s', ran, after⟩ := consistent.expireIfNeeded moment key
  exact ⟨s', by rw [Store.lookupKeyWrite, ran]; rfl, after⟩

theorem Consistent.unshareCopy (consistent : Consistent s held) (found : s.dict.lookup key = some o)
    (decoded : value.decoded = .ok text) (contents : s.keys.contents key = some (.string text))
    : ∃ s' o', Store.dbUnshareStringValue.copied s key value = .ok (s', o') ∧ Consistent s' held
      ∧ s'.keys = s.keys ∧ s'.dict.lookup key = some o' ∧ s'.heap.value o' = some (.raw text)
      ∧ s'.heap.refcount o' = 1 := by
  obtain ⟨owned, keys, copy⟩ := consistent.createObject (.raw text)
  obtain ⟨s', ran, after, changed, placed, fresh⟩ := owned.dbOverwrite found copy
  have different : (s.createObject (.raw text)).2 ≠ o := by
    rintro rfl
    have referred := Store.refs_pos_of_lookup held found
    exact absurd consistent.counts.next_free (Nat.ne_of_gt referred)
  obtain ⟨kept, count⟩ := fresh different
  refine ⟨s', (s.createObject (.raw text)).2, ?_, after, ?_, placed, kept, ?_⟩
  · simp only [Store.dbUnshareStringValue.copied, decoded, ok_andThen, ran]
    rfl
  · rw [changed, keys]
    exact Keys.set_self contents
  · rw [count]
    simp [Store.createObject, CountedHeap.refcount, CountedHeap.alloc]

theorem Consistent.dbUnshareStringValue (consistent : Consistent s held)
    (found : s.dict.lookup key = some o) (contents : s.keys.contents key = some (.string text))
    : ∃ s' o', s.dbUnshareStringValue key o = .ok (s', o') ∧ Consistent s' held ∧ s'.keys = s.keys
      ∧ s'.dict.lookup key = some o' ∧ s'.heap.value o' = some (.raw text)
      ∧ s'.heap.refcount o' = 1 := by
  obtain ⟨value, there, object, stands⟩ := consistent.found found
  have same : value.contents = .string text := Option.some.inj (stands.symm.trans contents)
  have copied := consistent.unshareCopy found (Robj.decoded_of_contents same) contents
  rw [Store.dbUnshareStringValue, object, ok_andThen]
  cases value with
  | other v => cases same
  | raw t =>
      dsimp only
      split
      · rename_i alone
        obtain rfl : t = text := Contents.string.inj same
        exact ⟨s, o, rfl, consistent, rfl, found, there, alone⟩
      · exact copied
  | embstr t => exact copied
  | int n => exact copied

-- Encoding

theorem Consistent.storeHeld (consistent : Consistent s (withReference held o))
    (alone : s.heap.refcount o = 1) (value : Robj V)
    : Consistent { s with heap := s.heap.store o value } (withReference held o)
      ∧ { s with heap := s.heap.store o value }.keys = s.keys := by
  have total := consistent.counts.count o
  simp only [alone, Store.refs, withReference, if_pos] at total
  refine ⟨⟨consistent.counts.store o value, fun i small => ?_, consistent.expiresInDict⟩,
    Store.keys_eq_of_lookup fun other b found => ?_⟩
  · have notShared : s.sharedIntegers i ≠ o := by
      rintro rfl
      have shared := s.sharedRefs_pos small
      omega
    exact (CountedHeap.value_store_other notShared).trans (consistent.sharedValue i small)
  · have apart : b ≠ o := by
      rintro rfl
      have pointed := PointerDictionary.pointersTo_pos found
      omega
    exact CountedHeap.value_store_other apart

theorem withReference_comm (held : Nat → Nat) (a b : Nat)
    : withReference (withReference held a) b = withReference (withReference held b) a := by
  funext c
  simp only [withReference]
  omega

theorem Consistent.encodeString (consistent : Consistent s (withReference held o))
    (there : s.heap.value o = some value) (contents : value.contents = .string text)
    (useShared embedded : Bool)
    : ∃ s' o' value', Store.tryObjectEncoding.encodeString s useShared o text embedded
      = .ok (s', o')
      ∧ Consistent s' (withReference held o') ∧ s'.keys = s.keys ∧ s'.dict = s.dict
      ∧ s'.heap.value o' = some value' ∧ value'.contents = .string text := by
  have unchanged : ∃ s' o' value', (.ok (s, o) : Except Fault (Store V × Nat)) = .ok (s', o')
      ∧ Consistent s' (withReference held o') ∧ s'.keys = s.keys ∧ s'.dict = s.dict
      ∧ s'.heap.value o' = some value' ∧ value'.contents = .string text :=
    ⟨s, o, value, rfl, consistent, rfl, rfl, there, contents⟩
  have referred : 0 < s.refs (withReference held o) o := by simp [Store.refs, withReference]
  unfold Store.tryObjectEncoding.encodeString
  split
  · exact unchanged
  rename_i few
  have alone : s.heap.refcount o = 1 := by
    rw [← consistent.counts.count] at referred
    omega
  split
  · rename_i number read
    have canonical : text = decimalText number ∧ -2 ^ 63 ≤ number ∧ number < 2 ^ 63 := by
      split at read
      · exact string2ll_eq_some read
      · cases read
    obtain ⟨decimal, low, high⟩ := canonical
    have encoded : (Robj.int (Int64.ofInt number) : Robj V).contents = .string text := by
      rw [Robj.contents, int64_toInt_ofInt low high, ← decimal]
    split
    · rename_i shared
      have index : number.toNat < redisSharedIntegers := by omega
      obtain ⟨dropped, after, keys, -⟩ := consistent.decrRefCount
      obtain ⟨taken, same⟩ := after.incrRefCount (Store.refs_pos_of_shared held index)
      refine ⟨_, _, .int (Int64.ofInt number), ?_, taken, same.trans keys, rfl, ?_, encoded⟩
      · rw [dropped]
        rfl
      · rw [Store.incrRefCount, CountedHeap.value_incr, after.sharedValue _ index,
          Int.toNat_of_nonneg shared.2.1]
    · obtain ⟨after, keys⟩ := consistent.storeHeld alone (.int (Int64.ofInt number))
      exact ⟨_, o, _, rfl, after, keys, rfl, CountedHeap.value_store_self there, encoded⟩
  · split
    · obtain ⟨owned, keys, copy⟩ := consistent.createObject (.embstr text)
      rw [withReference_comm] at owned
      obtain ⟨dropped, after, same, kept⟩ := owned.decrRefCount
      refine ⟨_, _, .embstr text, ?_, after, same.trans keys, rfl, ?_, rfl⟩
      · exact congrArg (· >>= fun s' => pure (s', (s.createObject (.embstr text)).2)) dropped
      · refine (kept _ ?_).trans copy
        simp [Store.refs, withReference]
    · exact unchanged

/-- Encoding an object keeps its text. -/
theorem Consistent.tryObjectEncoding (consistent : Consistent s (withReference held o))
    (there : s.heap.value o = some value) (contents : value.contents = .string text)
    (useShared : Bool)
    : ∃ s' o' value', s.tryObjectEncoding useShared o = .ok (s', o')
      ∧ Consistent s' (withReference held o') ∧ s'.keys = s.keys ∧ s'.dict = s.dict
      ∧ s'.heap.value o' = some value' ∧ value'.contents = .string text := by
  have object : s.object o = .ok value := by simp [Store.object, there]
  rw [Store.tryObjectEncoding, object, ok_andThen]
  cases value with
  | other v => cases contents
  | int n => exact ⟨s, o, .int n, rfl, consistent, rfl, rfl, there, contents⟩
  | raw t =>
      obtain rfl : t = text := Contents.string.inj contents
      exact consistent.encodeString there rfl useShared false
  | embstr t =>
      obtain rfl : t = text := Contents.string.inj contents
      exact consistent.encodeString there rfl useShared true

end Redis.Strings
