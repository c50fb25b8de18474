import Redis.Keyspace.Timeouts
import Redis.Strings.Sharing

/-! `SETRANGE` and `APPEND`: what they write, and which lengths their test lets pass. -/

namespace Redis.Strings

open Redis.Library
open Redis.Keyspace (Sds longLong notAnInteger wrongType)
open Redis.SideIndexes (Moment)

-- Strings

def sdsMaxPrealloc : Nat := 1024 * 1024

/-- `sdsMakeRoomFor` of a string without free space, whose header has 8 bytes. No allocator has half
of the address space.
-/
def sdsMakeRoomFor (len addlen : Nat) : Except Fault Unit :=
  let newlen := len + addlen
  let newlen := if newlen < sdsMaxPrealloc then newlen * 2 else newlen + sdsMaxPrealloc
  if 8 + newlen + 1 < 2 ^ 63 then .ok () else .error .outOfMemory

def sdsgrowzero (s : Sds) (len : Nat) : Except Fault Sds :=
  if len ≤ s.length then .ok s
  else do
    sdsMakeRoomFor s.length (len - s.length)
    pure (s ++ List.replicate (len - s.length) 0)

def sdscatlen (s t : Sds) : Except Fault Sds := do
  sdsMakeRoomFor s.length t.length
  pure (s ++ t)

-- Commands

/-- The replies: an error with the text behind the minus sign, or a length. -/
inductive RangeReply where
  | error (text : String)
  | length (n : Nat)
deriving DecidableEq, Repr

/-- `getLongFromObjectOrReply`, with the text of the error. A `PORT_LONG` has 64 bits. -/
def getLongFromObject (text : Sds) : Except String Int :=
  match Keyspace.getLongLongFromObject text with
  | none => .error notAnInteger
  | some value =>
      if value < -2 ^ 63 ∨ value > 2 ^ 63 - 1 then .error "ERR value is out of range" else .ok value

/-- The largest length that `checkStringLength` lets pass. -/
def maxStringLength : Nat := 512 * 1024 * 1024

/-- `checkStringLength` lets a `size_t` pass, which it takes as a signed number. -/
def checkStringLength (size : Nat) : Bool := longLong size ≤ maxStringLength

def stringTooLong : String := "ERR string exceeds maximum allowed size (512MB)"

variable {V : Type}

namespace Store

variable (s : Store V) (moment : Moment) (key : DbKey)

/-- The end of `setrangeCommand`. -/
def writeRange (o offset : Nat) (value : Sds) : Except Fault (RangeReply × Store V) := do
  let text ← (← s.object o).sds
  if value.length = 0 then pure (.length text.length, s)
  else
    let text ← sdsgrowzero text ((offset + value.length) % 2 ^ 64)
    let text ← writeBytes text offset value
    pure (.length text.length, { s with heap := s.heap.store o (.raw text) })

/-- The branch of `setrangeCommand` for a key that is not there. -/
def setrangeNew (offset : Nat) (value : Sds) : Except Fault (RangeReply × Store V) :=
  if value.length = 0 then pure (.length 0, s)
  else if checkStringLength ((offset + value.length) % 2 ^ 64) = false then
    pure (.error stringTooLong, s)
  else do
    let (s, o) := s.createObject (.raw [])
    let s ← s.dbAdd key o
    s.writeRange o offset value

/-- The branch of `setrangeCommand` for a key with an object. -/
def setrangeOld (o offset : Nat) (value : Sds) : Except Fault (RangeReply × Store V) := do
  let object ← s.object o
  if object.isString = false then pure (.error wrongType, s)
  else
    let olen ← object.stringObjectLen
    if value.length = 0 then pure (.length olen, s)
    else if checkStringLength ((offset + value.length) % 2 ^ 64) = false then
      pure (.error stringTooLong, s)
    else
      let (s, o) ← s.dbUnshareStringValue key o
      s.writeRange o offset value

def setrangeCommand (offset value : Sds) : Except Fault (RangeReply × Store V) :=
  match getLongFromObject offset with
  | .error text => .ok (.error text, s)
  | .ok offset =>
      if offset < 0 then .ok (.error "ERR offset is out of range", s)
      else do
        let (s, o) ← s.lookupKeyWrite moment key
        match o with
        | none => s.setrangeNew key offset.toNat value
        | some o => s.setrangeOld key o offset.toNat value

/-- The branch of `appendCommand` for a key that is not there. -/
def appendNew (useShared : Bool) (argument : Nat) : Except Fault (RangeReply × Store V) := do
  let (s, value) ← s.tryObjectEncoding useShared argument
  let s ← s.dbAdd key value
  let s := s.incrRefCount value
  let totlen ← (← s.object value).stringObjectLen
  pure (.length totlen, s)

/-- The end of the branch of `appendCommand` for a key with an object. -/
def appendRange (o : Nat) (append : Sds) : Except Fault (RangeReply × Store V) := do
  let text ← sdscatlen (← (← s.object o).sds) append
  pure (.length text.length, { s with heap := s.heap.store o (.raw text) })

/-- The branch of `appendCommand` for a key with an object. -/
def appendOld (o argument : Nat) : Except Fault (RangeReply × Store V) := do
  let object ← s.object o
  if object.isString = false then pure (.error wrongType, s)
  else
    let olen ← object.stringObjectLen
    let append ← (← s.object argument).sds
    if checkStringLength ((olen + append.length) % 2 ^ 64) = false then
      pure (.error stringTooLong, s)
    else
      let (s, o) ← s.dbUnshareStringValue key o
      s.appendRange o append

/-- `appendCommand`; the value is at the address of an argument of the client. -/
def appendCommand (useShared : Bool) (argument : Nat) : Except Fault (RangeReply × Store V) := do
  let (s, o) ← s.lookupKeyWrite moment key
  match o with
  | none => s.appendNew key useShared argument
  | some o => s.appendOld key o argument

end Store

-- What the commands write

/-- The string of a key. A key that is not there stands for the empty one. -/
def Keys.text (keys : Keys V) (key : DbKey) : Option Sds :=
  match keys.contents key with
  | none => some []
  | some (.string text) => some text
  | some (.other _) => none

/-- A string with zero bytes behind it, as far as the value needs, and the value at the offset. -/
def rangeWritten (old : Sds) (offset : Nat) (value : Sds) : Sds :=
  let padded := old ++ List.replicate (offset + value.length - old.length) 0
  padded.take offset ++ value ++ padded.drop (offset + value.length)

/-- What `SETRANGE` replies and leaves. -/
inductive SetrangeOutcome (start before : Keys V) (key : DbKey) (offset : Int) (value : Sds)
    : RangeReply → Keys V → Prop
  | refused {after : Keys V} (text : String) (unchanged : after = start ∨ after = before)
    (refusal : offset < 0 ∨ before.text key = none ∨ maxStringLength < offset + value.length)
    : SetrangeOutcome start before key offset value (.error text) after
  | nothing {old : Sds} (string : before.text key = some old) (empty : value = [])
    : SetrangeOutcome start before key offset value (.length old.length) before
  | written {old new : Sds} (string : before.text key = some old) (position : 0 ≤ offset)
    (nonempty : value ≠ []) (limit : offset + value.length ≤ maxStringLength)
    (text : new = rangeWritten old offset.toNat value)
    (length : new.length = max old.length (offset.toNat + value.length))
    : SetrangeOutcome start before key offset value (.length new.length)
      (before.set key (.string new))

/-- What `APPEND` replies and leaves. -/
inductive AppendOutcome (before : Keys V) (key : DbKey) (value : Sds) : RangeReply → Keys V → Prop
  | refused (text : String)
    (refusal : before.text key = none
      ∨ ∃ old, before.contents key = some (.string old)
          ∧ maxStringLength < old.length + value.length)
    : AppendOutcome before key value (.error text) before
  | created (absent : before.contents key = none)
    : AppendOutcome before key value (.length value.length) (before.set key (.string value))
  | appended {old : Sds} (string : before.contents key = some (.string old))
    (limit : old.length + value.length ≤ maxStringLength)
    : AppendOutcome before key value (.length (old.length + value.length))
        (before.set key (.string (old ++ value)))

theorem length_rangeWritten (old : Sds) (offset : Nat) (value : Sds)
    : (rangeWritten old offset value).length = max old.length (offset + value.length) := by
  simp only [rangeWritten, List.length_append, List.length_take, List.length_drop,
    List.length_replicate]
  omega

-- One command

variable {s : Store V} {held : Nat → Nat} {key : DbKey} {o : Nat} {moment : Moment} {value : Sds}

theorem checkStringLength_iff {size : Nat} (small : size < 2 ^ 63)
    : checkStringLength (size % 2 ^ 64) = true ↔ size ≤ maxStringLength := by
  have whole : size % 2 ^ 64 = size := Nat.mod_eq_of_lt (by omega)
  have signed : longLong size = size := (Keyspace.longLong_eq_self_iff _).mpr ⟨by omega, by omega⟩
  rw [checkStringLength, whole, signed, decide_eq_true_iff]
  omega

theorem sdsMakeRoomFor_ok {len addlen : Nat} (limit : len + addlen ≤ maxStringLength)
    : sdsMakeRoomFor len addlen = .ok () := by
  unfold sdsMakeRoomFor maxStringLength sdsMaxPrealloc at *
  dsimp only
  split <;> rw [if_pos (by omega)]

theorem sdsgrowzero_ok (s : Sds) {len : Nat} (limit : len ≤ maxStringLength)
    : sdsgrowzero s len = .ok (s ++ List.replicate (len - s.length) 0) := by
  unfold sdsgrowzero
  split
  · rename_i large
    rw [Nat.sub_eq_zero_of_le large, List.replicate_zero, List.append_nil]
  · rw [sdsMakeRoomFor_ok (by omega)]
    rfl

theorem Consistent.writeRange (consistent : Consistent s held) (found : s.dict.lookup key = some o)
    {text value : Sds} {offset : Nat} (there : s.heap.value o = some (.raw text))
    (alone : s.heap.refcount o = 1) (some : value ≠ [])
    (limit : offset + value.length ≤ maxStringLength)
    : ∃ s', s.writeRange o offset value = .ok (.length (rangeWritten text offset value).length, s')
      ∧ Consistent s' held
      ∧ s'.keys = s.keys.set key (.string (rangeWritten text offset value)) := by
  have object : s.object o = .ok (.raw text) := by simp [Store.object, there]
  have whole : (offset + value.length) % 2 ^ 64 = offset + value.length := by
    unfold maxStringLength at limit
    omega
  have written
      : writeBytes (text ++ List.replicate (offset + value.length - text.length) 0) offset value
        = .ok (rangeWritten text offset value) := by
    apply if_pos
    rw [List.length_append, List.length_replicate]
    omega
  have nonempty : ¬ value.length = 0 := fun zero => some (List.length_eq_zero_iff.mp zero)
  obtain ⟨after, keys⟩ := consistent.store found alone (.raw (rangeWritten text offset value))
  refine ⟨_, ?_, after, keys⟩
  simp only [Store.writeRange, object, ok_andThen, Robj.sds, if_neg nonempty, whole,
    sdsgrowzero_ok text limit, written]
  rfl

theorem Consistent.appendRange (consistent : Consistent s held) (found : s.dict.lookup key = some o)
    {text value : Sds} (there : s.heap.value o = some (.raw text)) (alone : s.heap.refcount o = 1)
    (limit : text.length + value.length ≤ maxStringLength)
    : ∃ s', s.appendRange o value = .ok (.length (text.length + value.length), s')
      ∧ Consistent s' held ∧ s'.keys = s.keys.set key (.string (text ++ value)) := by
  have object : s.object o = .ok (.raw text) := by simp [Store.object, there]
  have appended : sdscatlen text value = .ok (text ++ value) := by
    rw [sdscatlen, sdsMakeRoomFor_ok limit]
    rfl
  obtain ⟨after, keys⟩ := consistent.store found alone (.raw (text ++ value))
  refine ⟨_, ?_, after, keys⟩
  simp only [Store.appendRange, object, ok_andThen, Robj.sds, appended, List.length_append]
  rfl

theorem getLongFromObject_eq {text : Sds} {n : Int}
    (read : Keyspace.getLongLongFromObject text = some n)
    : getLongFromObject text = .ok n := by
  obtain ⟨low, high⟩ := Keyspace.getLongLongFromObject_fits read
  rw [getLongFromObject, read]
  exact if_neg (by omega)

theorem checkStringLength_false {size : Nat} (small : size < 2 ^ 63)
    (large : maxStringLength < size)
    : checkStringLength (size % 2 ^ 64) = false := by
  rw [← Bool.not_eq_true, checkStringLength_iff small]
  omega

theorem Consistent.setrangeNew (consistent : Consistent s held) (start : Keys V)
    (absent : s.dict.lookup key = none) {offset : Nat}
    (sum : value ≠ [] → offset + value.length < 2 ^ 63)
    : ∃ reply s', s.setrangeNew key offset value = .ok (reply, s') ∧ Consistent s' held
      ∧ SetrangeOutcome start s.keys key offset value reply s'.keys := by
  have string : s.keys.text key = some [] := by
    rw [Keys.text, Store.contents_of_lookup_none absent]
  by_cases empty : value = []
  · subst empty
    exact ⟨_, s, rfl, consistent, .nothing string rfl⟩
  have length : ¬ value.length = 0 := fun zero => empty (List.length_eq_zero_iff.mp zero)
  by_cases limit : offset + value.length ≤ maxStringLength
  · obtain ⟨owned, same, there⟩ := consistent.createObject (.raw [])
    obtain ⟨added, placed, changed⟩ := owned.dbAdd absent there
    have alone : (s.createObject (.raw [])).1.heap.refcount (s.createObject (.raw [])).2 = 1 := by
      simp [Store.createObject, CountedHeap.refcount, CountedHeap.alloc]
    obtain ⟨s', written, done, result⟩ :=
      placed.writeRange (AList.lookup_insert _) there alone empty limit
    refine ⟨.length (rangeWritten [] offset value).length, s', ?_, done, ?_⟩
    · rw [Store.setrangeNew, if_neg length, (checkStringLength_iff (sum empty)).mpr limit,
        if_neg (Ne.symm Bool.false_ne_true)]
      dsimp only
      rw [added, ok_andThen, written]
    · rw [result, changed, same, Keys.set_set]
      exact .written string (by omega) empty (by omega) rfl (length_rangeWritten ..)
  · refine ⟨.error stringTooLong, s, ?_, consistent, .refused _ (.inr rfl) (.inr (.inr (by omega)))⟩
    rw [Store.setrangeNew, if_neg length, checkStringLength_false (sum empty) (by omega),
      if_pos rfl]
    rfl

theorem Consistent.stringObject (consistent : Consistent s held)
    (found : s.dict.lookup key = some o)
    : ∃ object, s.object o = .ok object
      ∧ ((object.isString = false ∧ s.keys.text key = none)
        ∨ (object.isString = true ∧ ∃ old, s.keys.contents key = some (.string old)
            ∧ s.keys.text key = some old ∧ object.stringObjectLen = .ok old.length)) := by
  obtain ⟨object, -, read, contents⟩ := consistent.found found
  refine ⟨object, read, ?_⟩
  cases isString : object.isString with
  | false =>
      refine .inl ⟨rfl, ?_⟩
      cases object with
      | other v => rw [Keys.text, contents, Robj.contents]
      | _ => cases isString
  | true =>
      obtain ⟨old, stands⟩ := Robj.contents_of_isString isString
      rw [stands] at contents
      refine .inr ⟨rfl, old, contents, by rw [Keys.text, contents], ?_⟩
      rw [Robj.stringObjectLen, Robj.decoded_of_contents stands, map_ok]

theorem Consistent.setrangeOld (consistent : Consistent s held) (start : Keys V)
    (found : s.dict.lookup key = some o) {offset : Nat}
    (sum : value ≠ [] → offset + value.length < 2 ^ 63)
    : ∃ reply s', s.setrangeOld key o offset value = .ok (reply, s') ∧ Consistent s' held
      ∧ SetrangeOutcome start s.keys key offset value reply s'.keys := by
  obtain ⟨object, read, ⟨other, noText⟩ | ⟨isString, old, contents, string, olen⟩⟩ :=
    consistent.stringObject found
  · refine ⟨.error wrongType, s, ?_, consistent, .refused _ (.inr rfl) (.inr (.inl noText))⟩
    rw [Store.setrangeOld, read, ok_andThen, if_pos other]
    rfl
  have run : s.setrangeOld key o offset value
      = if value.length = 0 then .ok (.length old.length, s)
        else if checkStringLength ((offset + value.length) % 2 ^ 64) = false then
          .ok (.error stringTooLong, s)
        else s.dbUnshareStringValue key o >>= fun (s, o) => s.writeRange o offset value := by
    rw [Store.setrangeOld, read, ok_andThen, isString, if_neg (Ne.symm Bool.false_ne_true), olen,
      ok_andThen]
    rfl
  rw [run]
  by_cases empty : value = []
  · subst empty
    exact ⟨_, s, rfl, consistent, .nothing string rfl⟩
  rw [if_neg fun zero => empty (List.length_eq_zero_iff.mp zero)]
  by_cases limit : offset + value.length ≤ maxStringLength
  · obtain ⟨s₁, o', unshared, owned, same, placed, raw, alone⟩ :=
      consistent.dbUnshareStringValue found contents
    obtain ⟨s', written, done, result⟩ := owned.writeRange placed raw alone empty limit
    refine ⟨.length (rangeWritten old offset value).length, s', ?_, done, ?_⟩
    · rw [(checkStringLength_iff (sum empty)).mpr limit, if_neg (Ne.symm Bool.false_ne_true),
        unshared]
      exact written
    · rw [result, same]
      exact .written string (by omega) empty (by omega) rfl (length_rangeWritten ..)
  · refine ⟨.error stringTooLong, s, ?_, consistent, .refused _ (.inr rfl) (.inr (.inr (by omega)))⟩
    rw [checkStringLength_false (sum empty) (by omega), if_pos rfl]

theorem Consistent.setrangeCommand (consistent : Consistent s held) (moment : Moment) (key : DbKey)
    {offset value : Sds} {n : Int} (argument : Keyspace.getLongLongFromObject offset = some n)
    (sum : value ≠ [] → n + value.length < 2 ^ 63)
    : ∃ reply s', s.setrangeCommand moment key offset value = .ok (reply, s') ∧ Consistent s' held
      ∧ SetrangeOutcome s.keys (s.keys.lookedUp moment key) key n value reply s'.keys := by
  rw [Store.setrangeCommand, getLongFromObject_eq argument]
  dsimp only
  split
  · rename_i negative
    exact ⟨_, s, rfl, consistent, .refused _ (.inl rfl) (.inl negative)⟩
  rename_i position
  obtain ⟨offset, rfl⟩ := Int.eq_ofNat_of_zero_le (Int.not_lt.mp position)
  obtain ⟨s₁, looked, after, keys, -⟩ := consistent.lookupKeyWrite moment key
  have small : value ≠ [] → offset + value.length < 2 ^ 63 := fun some => by
    have limit := sum some
    omega
  rw [looked, ok_andThen, ← keys]
  cases found : s₁.dict.lookup key with
  | none => exact after.setrangeNew s.keys found small
  | some o => exact after.setrangeOld s.keys found small

theorem Consistent.appendNew {argument : Nat}
    (consistent : Consistent s (withReference held argument))
    (absent : s.dict.lookup key = none) {object : Robj V}
    (there : s.heap.value argument = some object) (stands : object.contents = .string value)
    (useShared : Bool)
    : ∃ reply s' argument', s.appendNew key useShared argument = .ok (reply, s')
      ∧ Consistent s' (withReference held argument')
      ∧ AppendOutcome s.keys key value reply s'.keys := by
  obtain ⟨s₁, o, object', encoded, owned, same, dict, placed, text⟩ :=
    consistent.tryObjectEncoding there stands useShared
  obtain ⟨added, after, changed⟩ := owned.dbAdd (by rw [dict]; exact absent) placed
  obtain ⟨taken, kept⟩ :=
    after.incrRefCount (Store.refs_pos_of_lookup held (AList.lookup_insert (a := key) s₁.dict))
  have length : object'.stringObjectLen = .ok value.length := by
    rw [Robj.stringObjectLen, Robj.decoded_of_contents text, map_ok]
  refine ⟨.length value.length, _, o, ?_, taken, ?_⟩
  · have read : (Store.incrRefCount { s₁ with dict := s₁.dict.insert key o } o).object o
      = .ok object' := by
      simp [Store.object, Store.incrRefCount, placed]
    rw [Store.appendNew, encoded, ok_andThen]
    dsimp only
    rw [added, ok_andThen, read, ok_andThen, length, ok_andThen]
    rfl
  · rw [kept, changed, same, text]
    exact .created (Store.contents_of_lookup_none absent)

theorem Consistent.appendOld (consistent : Consistent s held) (found : s.dict.lookup key = some o)
    {argument : Nat} (append : s.object argument >>= Robj.sds = .ok value)
    (size : value.length < 2 ^ 32) (sizes : ∀ old, s.keys.text key = some old → old.length < 2 ^ 32)
    : ∃ reply s', s.appendOld key o argument = .ok (reply, s') ∧ Consistent s' held
      ∧ AppendOutcome s.keys key value reply s'.keys := by
  obtain ⟨object, read, ⟨other, noText⟩ | ⟨isString, old, contents, string, olen⟩⟩ :=
    consistent.stringObject found
  · refine ⟨.error wrongType, s, ?_, consistent, .refused _ (.inl noText)⟩
    rw [Store.appendOld, read, ok_andThen, if_pos other]
    rfl
  have oldSize := sizes old string
  have small : old.length + value.length < 2 ^ 63 := by omega
  obtain ⟨argumentObject, readArgument, sds⟩ := andThen_ok_iff.mp append
  have run : s.appendOld key o argument
      = if checkStringLength ((old.length + value.length) % 2 ^ 64) = false then
          .ok (.error stringTooLong, s)
        else s.dbUnshareStringValue key o >>= fun (s, o) => s.appendRange o value := by
    rw [Store.appendOld, read, ok_andThen, isString, if_neg (Ne.symm Bool.false_ne_true), olen,
      ok_andThen, readArgument, ok_andThen, sds, ok_andThen]
    rfl
  rw [run]
  by_cases limit : old.length + value.length ≤ maxStringLength
  · obtain ⟨s₁, o', unshared, owned, same, placed, raw, alone⟩ :=
      consistent.dbUnshareStringValue found contents
    obtain ⟨s', appended, after, changed⟩ := owned.appendRange placed raw alone limit
    refine ⟨.length (old.length + value.length), s', ?_, after, ?_⟩
    · rw [(checkStringLength_iff small).mpr limit, if_neg (Ne.symm Bool.false_ne_true), unshared]
      exact appended
    · rw [changed, same]
      exact .appended contents limit
  · refine ⟨.error stringTooLong, s, ?_, consistent, .refused _ (.inr ⟨old, contents, by omega⟩)⟩
    rw [checkStringLength_false small (by omega), if_pos rfl]

theorem Consistent.appendCommand {argument : Nat}
    (consistent : Consistent s (withReference held argument)) (moment : Moment) (key : DbKey)
    (useShared : Bool) {object : Robj V} (there : s.heap.value argument = some object)
    (sds : object.sds = .ok value) (size : value.length < 2 ^ 32)
    (sizes : ∀ old, (s.keys.lookedUp moment key).text key = some old → old.length < 2 ^ 32)
    : ∃ reply s' argument', s.appendCommand moment key useShared argument = .ok (reply, s')
      ∧ Consistent s' (withReference held argument')
      ∧ AppendOutcome (s.keys.lookedUp moment key) key value reply s'.keys := by
  obtain ⟨s₁, looked, after, keys, kept⟩ := consistent.lookupKeyWrite moment key
  have still : s₁.heap.value argument = some object :=
    (kept argument (by simp [withReference])).trans there
  rw [← keys] at sizes ⊢
  rw [Store.appendCommand, looked, ok_andThen]
  cases found : s₁.dict.lookup key with
  | none =>
      have stands : object.contents = .string value := by
        cases object with
        | raw t => exact congrArg Contents.string (Except.ok.inj sds)
        | embstr t => exact congrArg Contents.string (Except.ok.inj sds)
        | _ => cases sds
      exact after.appendNew found still stands useShared
  | some o =>
      have append : s₁.object argument >>= Robj.sds = .ok value := by
        simp [Store.object, still, sds]
      obtain ⟨reply, s', ran, done, outcome⟩ := after.appendOld found append size sizes
      exact ⟨reply, s', argument, ran, done, outcome⟩

-- The limit

/-- `SETRANGE` writes within the limit and as far as it says, when the sum of the offset and the
length is a signed number; without a value it only replies the length. `APPEND` tests the sum for a
key that is there, and takes the value as it is for one that is not.
-/
theorem ranges_within_limit {argument : Nat}
    (consistent : Consistent s (withReference held argument)) (moment : Moment) (key : DbKey)
    (useShared : Bool) {object : Robj V} {value : Sds} (there : s.heap.value argument = some object)
    (sds : object.sds = .ok value) (size : value.length < 2 ^ 32)
    (sizes : ∀ old, (s.keys.lookedUp moment key).text key = some old → old.length < 2 ^ 32)
    : (∀ offset n, Keyspace.getLongLongFromObject offset = some n →
        (value ≠ [] → n + value.length < 2 ^ 63) →
        ∃ reply s', s.setrangeCommand moment key offset value = .ok (reply, s')
          ∧ SetrangeOutcome s.keys (s.keys.lookedUp moment key) key n value reply s'.keys)
      ∧ ∃ reply s', s.appendCommand moment key useShared argument = .ok (reply, s')
          ∧ AppendOutcome (s.keys.lookedUp moment key) key value reply s'.keys := by
  refine ⟨fun offset n read sum => ?_, ?_⟩
  · obtain ⟨reply, s', ran, -, outcome⟩ := consistent.setrangeCommand moment key read sum
    exact ⟨reply, s', ran, outcome⟩
  · obtain ⟨reply, s', -, ran, -, outcome⟩ :=
      consistent.appendCommand moment key useShared there sds size sizes
    exact ⟨reply, s', ran, outcome⟩

-- What goes past it

/-- An error that changes nothing, or the value at the offset in a string within the limit. -/
def SetrangeAsked (start before : Keys V) (key : DbKey) (offset : Int) (value : Sds)
    (outcome : Except Fault (RangeReply × Store V))
    : Prop :=
  (∃ text s, outcome = .ok (.error text, s) ∧ (s.keys = start ∨ s.keys = before))
  ∨ ∃ old s, before.text key = some old
      ∧ outcome = .ok (.length (max old.length (offset.toNat + value.length)), s)
      ∧ s.keys = before.set key (.string (rangeWritten old offset.toNat value))
      ∧ max old.length (offset.toNat + value.length) ≤ maxStringLength

/-- An error that changes nothing, or the value behind a string within the limit. -/
def AppendAsked (before : Keys V) (key : DbKey) (value : Sds)
    (outcome : Except Fault (RangeReply × Store V))
    : Prop :=
  (∃ text s, outcome = .ok (.error text, s) ∧ s.keys = before)
  ∨ ∃ old s, before.text key = some old ∧ outcome = .ok (.length (old.length + value.length), s)
      ∧ s.keys = before.set key (.string (old ++ value))
      ∧ old.length + value.length ≤ maxStringLength

/-- A string that is longer than the limit by one byte. -/
def longString : Sds := List.replicate (maxStringLength + 1) 0

/-- A server with a client that holds the long string as an argument. -/
def longArgument : Store Unit := (Store.init.createObject (.raw longString)).1

/-- A server with the long string at a key. -/
def longStored : Store Unit :=
  { longArgument with dict := longArgument.dict.insert sampleKey redisSharedIntegers }

theorem length_longString : longString.length = maxStringLength + 1 := List.length_replicate

theorem longArgument_consistent
    : Consistent longArgument (withReference (fun _ => 0) redisSharedIntegers)
      ∧ longArgument.keys = (Store.init : Store Unit).keys
      ∧ longArgument.heap.value redisSharedIntegers = some (.raw longString) :=
  init_consistent.createObject (.raw longString)

theorem longStored_consistent
    : Consistent longStored (fun _ => 0)
      ∧ longStored.keys = longArgument.keys.set sampleKey (.string longString) := by
  obtain ⟨consistent, -, there⟩ := longArgument_consistent
  obtain ⟨-, after, keys⟩ := consistent.dbAdd (AList.lookup_empty sampleKey) there
  exact ⟨after, keys⟩

theorem setrangeCommand_wraps
    : (Store.init : Store Unit).setrangeCommand sampleMoment sampleKey (decimalText (2 ^ 63 - 1))
      [0x78]
      = .error .outOfMemory := by
  have read : Keyspace.getLongLongFromObject (decimalText (2 ^ 63 - 1)) = some (2 ^ 63 - 1) :=
    Keyspace.getLongLongFromObject_decimalText (by decide) (by decide)
  rw [Store.setrangeCommand, getLongFromObject_eq read]
  rfl

theorem setrange_empty
    : ¬ SetrangeAsked (Store.init : Store Unit).keys Store.init.keys sampleKey 10 []
        (Store.init.setrangeCommand sampleMoment sampleKey (decimalText 10) []) := by
  have read : Keyspace.getLongLongFromObject (decimalText 10) = some 10 :=
    Keyspace.getLongLongFromObject_decimalText (by decide) (by decide)
  have replied : (Store.init : Store Unit).setrangeCommand sampleMoment sampleKey (decimalText 10)
      []
      = .ok (.length 0, Store.init) := by
    rw [Store.setrangeCommand, getLongFromObject_eq read]
    rfl
  rw [replied]
  rintro (⟨text, s, error, -⟩ | ⟨old, s, absent, length, -⟩)
  · cases error
  · obtain rfl : [] = old := Option.some.inj absent
    cases length

theorem append_long
    : ¬ AppendAsked longArgument.keys sampleKey longString
        (longArgument.appendCommand sampleMoment sampleKey true redisSharedIntegers) := by
  obtain ⟨consistent, keys, there⟩ := longArgument_consistent
  have looked : longArgument.keys.lookedUp sampleMoment sampleKey = longArgument.keys := by
    rw [keys]
    rfl
  have absent : longArgument.keys.contents sampleKey = none := by
    rw [keys]
    rfl
  have empty : longArgument.keys.text sampleKey = some [] := by rw [Keys.text, absent]
  obtain ⟨reply, s', -, ran, -, outcome⟩ :=
    consistent.appendCommand sampleMoment sampleKey true there rfl
      (by rw [length_longString]; decide) (by simp [looked, empty])
  rw [looked] at outcome
  generalize s'.keys = after at outcome
  rw [ran]
  cases outcome with
  | refused text refusal => simp [empty, absent] at refusal
  | created _ =>
      rintro (⟨text, s, error, -⟩ | ⟨old, s, -, -, -, limit⟩)
      · cases error
      · rw [length_longString] at limit
        omega
  | appended string _ => simp [absent] at string

theorem setrange_long
    : ¬ SetrangeAsked longStored.keys longStored.keys sampleKey 0 [0x78]
        (longStored.setrangeCommand sampleMoment sampleKey (decimalText 0) [0x78]) := by
  obtain ⟨consistent, keys⟩ := longStored_consistent
  have looked : longStored.keys.lookedUp sampleMoment sampleKey = longStored.keys := by
    rw [keys, longArgument_consistent.2.1]
    rfl
  have text : longStored.keys.text sampleKey = some longString := by
    simp [keys, Keys.text, Keys.set]
  have read : Keyspace.getLongLongFromObject (decimalText 0) = some 0 :=
    Keyspace.getLongLongFromObject_decimalText (by decide) (by decide)
  have sum : ([0x78] : Sds) ≠ [] → (0 : Int) + ([0x78] : Sds).length < 2 ^ 63 := fun _ => by decide
  obtain ⟨reply, s', ran, -, outcome⟩ := consistent.setrangeCommand sampleMoment sampleKey read sum
  rw [looked] at outcome
  generalize s'.keys = after at outcome
  rw [ran]
  cases outcome with
  | refused _ _ refusal => simp [text, maxStringLength] at refusal
  | nothing _ empty => cases empty
  | written _ _ _ _ _ length =>
      rintro (⟨_, s, error, -⟩ | ⟨old, s, string, -, -, limit⟩)
      · cases error
      · obtain rfl : longString = old := Option.some.inj (text.symm.trans string)
        rw [length_longString] at limit
        omega

/-- `SETRANGE k 10 ""` pads nothing, `SETRANGE k 9223372036854775807 x` ends the process, `APPEND`
stores a value that is too long for a key that is not there, and `SETRANGE k 0 x` keeps a string too
long.
-/
theorem ranges_not_asked
    : ¬ SetrangeAsked (Store.init : Store Unit).keys Store.init.keys sampleKey 10 []
          (Store.init.setrangeCommand sampleMoment sampleKey (decimalText 10) [])
      ∧ ¬ SetrangeAsked (Store.init : Store Unit).keys Store.init.keys sampleKey (2 ^ 63 - 1) [0x78]
          (Store.init.setrangeCommand sampleMoment sampleKey (decimalText (2 ^ 63 - 1)) [0x78])
      ∧ ¬ AppendAsked longArgument.keys sampleKey longString
          (longArgument.appendCommand sampleMoment sampleKey true redisSharedIntegers)
      ∧ ¬ SetrangeAsked longStored.keys longStored.keys sampleKey 0 [0x78]
          (longStored.setrangeCommand sampleMoment sampleKey (decimalText 0) [0x78]) := by
  refine ⟨setrange_empty, ?_, append_long, setrange_long⟩
  rw [setrangeCommand_wraps]
  rintro (⟨text, s, error, -⟩ | ⟨old, s, -, length, -⟩)
  · cases error
  · cases length

/-- A server with a client that holds an argument of one byte. -/
def shortArgument : Store Unit := (Store.init.createObject (.raw [0x78])).1

theorem ranges_within_limit_short
    : (∀ offset n, Keyspace.getLongLongFromObject offset = some n →
        (([0x78] : Sds) ≠ [] → n + ([0x78] : Sds).length < 2 ^ 63) →
        ∃ reply s', shortArgument.setrangeCommand sampleMoment sampleKey offset [0x78]
          = .ok (reply, s')
          ∧ SetrangeOutcome shortArgument.keys (shortArgument.keys.lookedUp sampleMoment sampleKey)
              sampleKey n [0x78] reply s'.keys)
      ∧ ∃ reply s',
          shortArgument.appendCommand sampleMoment sampleKey true redisSharedIntegers
            = .ok (reply, s')
          ∧ AppendOutcome (shortArgument.keys.lookedUp sampleMoment sampleKey) sampleKey
            [0x78] reply
              s'.keys := by
  obtain ⟨consistent, keys, there⟩ := init_consistent.createObject (V := Unit) (.raw [0x78])
  refine ranges_within_limit consistent sampleMoment sampleKey true there rfl (by decide) ?_
  intro old string
  obtain rfl : [] = old := by
    rw [keys] at string
    exact Option.some.inj string
  decide

end Redis.Strings
