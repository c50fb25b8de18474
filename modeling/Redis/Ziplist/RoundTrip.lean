import Redis.Ziplist.InsertionCorrectness
import Redis.Util.IntegerEncoding

/-! A string that was inserted in a ziplist is read back from its entry, whatever the other bytes
of the ziplist are.
-/

namespace Redis

open Redis.Library

section Entries

variable {zl next s : List UInt8} {p prev : Nat}

theorem leValue_word {bytes : List UInt8} (four : bytes.length = 4) : leValue bytes < 2 ^ 32 := by
  have bound := leValue_lt bytes
  rwa [four] at bound

theorem ziplistPrevLength_lt (run : ziplistPrevLength zl p = .ok prev) : prev < 2 ^ 32 := by
  obtain ⟨first, _, run⟩ := andThen_ok_iff.mp run
  split at run
  · obtain ⟨⟨size, len⟩, decoded, run⟩ := andThen_ok_iff.mp run
    cases run
    obtain ⟨byte, _, decoded⟩ := andThen_ok_iff.mp decoded
    split at decoded
    · cases decoded
      have bound := byte.toNat_lt
      omega
    · obtain ⟨field, read, decoded⟩ := andThen_ok_iff.mp decoded
      cases decoded
      exact leValue_word (length_of_readBytes read)
  · obtain ⟨ptail, _, run⟩ := andThen_ok_iff.mp run
    obtain ⟨byte, _, run⟩ := andThen_ok_iff.mp run
    split at run
    · obtain ⟨prevlensize, _, run⟩ := andThen_ok_iff.mp run
      obtain ⟨decoded, _, run⟩ := andThen_ok_iff.mp run
      cases run
      exact Nat.mod_lt _ (by decide)
    · cases run
      decide

theorem zipWriteData_behind {pre mid post : List UInt8} (split : zl = pre ++ mid ++ post)
    (start : pre.length + mid.length = p) (run : zipWriteData zl p s = .ok next)
    : ∃ back, next = pre ++ (mid ++ zipData s) ++ back := by
  unfold zipWriteData at run
  unfold zipData
  cases encoded : zipTryEncoding s with
  | none =>
      rw [encoded] at run
      exact writeBytes_behind split start run
  | some result =>
      obtain ⟨value, encoding⟩ := result
      have inside : p ≤ zl.length := by
        rw [split, List.length_append, List.length_append]
        omega
      rw [encoded] at run
      exact writeBytes_behind split start ((zipSaveInteger_eq encoded inside).symm.trans run)

theorem ziplistWriteEntry_stands (run : ziplistWriteEntry zl p prev s = .ok next)
    : ∃ pre post,
        next = pre ++ (prevField (newNode prev s).wide prev ++ (newNode prev s).body) ++ post
        ∧ pre.length = p := by
  obtain ⟨first, wrote, run⟩ := andThen_ok_iff.mp run
  obtain ⟨second, wroteField, wroteData⟩ := andThen_ok_iff.mp run
  rw [zipPrevEncodeLength_eq] at wrote
  rw [zipPrevEncodeSize_eq] at wroteField wroteData
  obtain ⟨pre, post, firstEq, start, _⟩ := parts_of_writeBytes wrote
  obtain ⟨back, secondEq⟩ := writeBytes_behind firstEq (by rw [start, length_prevField]) wroteField
  obtain ⟨rest, nextEq⟩ := zipWriteData_behind secondEq
    (by rw [start, List.length_append, length_prevField, Nat.add_assoc]) wroteData
  refine ⟨pre, rest, ?_, start⟩
  rw [nextEq]
  simp [newNode, zipBody]

theorem ziplistIncrLength_in_front {incr : Int} {pre post : List UInt8} (split : zl = pre ++ post)
    (behind : ziplistHeaderSize ≤ pre.length) (run : ziplistIncrLength zl incr = .ok next)
    : ∃ front, next = front ++ post ∧ front.length = pre.length := by
  obtain ⟨field, _, run⟩ := andThen_ok_iff.mp run
  split at run
  · refine writeBytes_in_front split ?_ run
    rw [length_leBytes]
    exact behind
  · cases run
    exact ⟨pre, split, rfl⟩

theorem ziplistInsertAt_get (fresh : Nat → UInt8) (behind : ziplistHeaderSize ≤ p)
    (short : s.length < 2 ^ 32) (run : ziplistInsertAt fresh zl p s = .ok next)
    : ziplistGet next p = .ok (some (zipValueOf s)) := by
  obtain ⟨curlen, _, run⟩ := andThen_ok_iff.mp run
  obtain ⟨prev, prevlen, run⟩ := andThen_ok_iff.mp run
  obtain ⟨nextdiff, _, run⟩ := andThen_ok_iff.mp run
  obtain ⟨resized, _, run⟩ := andThen_ok_iff.mp run
  obtain ⟨opened, _, run⟩ := andThen_ok_iff.mp run
  obtain ⟨settled, _, run⟩ := andThen_ok_iff.mp run
  obtain ⟨written, wrote, run⟩ := andThen_ok_iff.mp run
  obtain ⟨pre, post, writtenEq, start⟩ := ziplistWriteEntry_stands wrote
  rw [List.append_assoc] at writtenEq
  obtain ⟨front, nextEq, kept⟩ := ziplistIncrLength_in_front writtenEq (by rwa [start]) run
  refine ziplistGet_at (nextEq.trans (List.append_assoc ..).symm) (kept.trans start) ?_
    (ziplistPrevLength_lt prevlen) (zipValue_zipBody_eq short)
  intro narrow
  simpa [newNode] using narrow

theorem length_of_zipPrevEncodeLength {len : Nat} (run : zipPrevEncodeLength zl p len = .ok next)
    : next.length = zl.length := by
  rw [zipPrevEncodeLength_eq] at run
  exact length_of_writeBytes run

theorem length_of_ziplistAdjustTail {nextdiff : Int}
    (run : ziplistAdjustTail zl p nextdiff = .ok next)
    : next.length = zl.length := by
  obtain ⟨tail, _, run⟩ := andThen_ok_iff.mp run
  obtain ⟨byte, _, run⟩ := andThen_ok_iff.mp run
  split at run
  · obtain ⟨offset, _, run⟩ := andThen_ok_iff.mp run
    exact length_of_writeBytes run
  · cases run
    rfl

theorem length_of_ziplistOpenGap {curlen req : Nat} {nextdiff : Int}
    (run : ziplistOpenGap zl curlen p req nextdiff = .ok next)
    : next.length = zl.length := by
  obtain ⟨byte, _, run⟩ := andThen_ok_iff.mp run
  split at run
  · obtain ⟨moved, move, run⟩ := andThen_ok_iff.mp run
    obtain ⟨field, encode, run⟩ := andThen_ok_iff.mp run
    obtain ⟨offset, _, run⟩ := andThen_ok_iff.mp run
    obtain ⟨tailed, set, run⟩ := andThen_ok_iff.mp run
    calc
      next.length = tailed.length := length_of_ziplistAdjustTail run
      _ = field.length := length_of_writeBytes set
      _ = moved.length := length_of_zipPrevEncodeLength encode
      _ = zl.length := length_of_moveBytes move
  · exact length_of_writeBytes run

theorem length_of_ziplistResize {fresh : Nat → UInt8} {len : Nat}
    (run : ziplistResize fresh zl len = .ok next)
    : next.length = len % 2 ^ 32 := by
  obtain ⟨sized, header, run⟩ := andThen_ok_iff.mp run
  rw [length_of_writeBytes run, length_of_writeBytes header, length_resizeBytes]

theorem length_of_zipWriteData (run : zipWriteData zl p s = .ok next)
    : next.length = zl.length := by
  unfold zipWriteData at run
  split at run
  · unfold zipSaveInteger at run
    split_ifs at run
    all_goals first
      | exact length_of_writeBytes run
      | cases run; rfl
  · exact length_of_writeBytes run

/-- Behind the last entry an insertion writes to the end of its entry, which has to be inside the
block of the wrapped size.
-/
theorem ziplistInsertAt_end_inside {fresh : Nat → UInt8} {curlen : Nat}
    (size : ziplistBytes zl = .ok curlen) (prevlen : ziplistPrevLength zl p = .ok prev)
    (atEnd : readByte zl p = .ok zipEnd) (run : ziplistInsertAt fresh zl p s = .ok next)
    : p + (newNode prev s).rawLength ≤ (curlen + (newNode prev s).rawLength) % 2 ^ 32 := by
  have kept {nextdiff : Int} (same : (do
        if (← readByte zl p) ≠ zipEnd then zipPrevLenByteDiff zl p (zipRequiredLength prev s)
        else pure 0) = Except.ok nextdiff) : nextdiff = 0 := by
    rw [atEnd, ok_andThen, if_neg (not_not.mpr rfl)] at same
    exact (Except.ok.inj same).symm
  rw [ziplistInsertAt, size, ok_andThen, prevlen, ok_andThen] at run
  obtain ⟨nextdiff, same, run⟩ := andThen_ok_iff.mp run
  obtain rfl := kept same
  rw [zipRequiredLength_eq] at run
  obtain ⟨resized, resize, run⟩ := andThen_ok_iff.mp run
  obtain ⟨opened, gap, run⟩ := andThen_ok_iff.mp run
  obtain ⟨_, unchanged, run⟩ := andThen_ok_iff.mp run
  cases unchanged
  obtain ⟨written, wrote, _⟩ := andThen_ok_iff.mp run
  obtain ⟨first, prevField, rest⟩ := andThen_ok_iff.mp wrote
  obtain ⟨second, lengthField, data⟩ := andThen_ok_iff.mp rest
  obtain ⟨pre, post, parts, start⟩ := ziplistWriteEntry_stands wrote
  have block : written.length = (curlen + (newNode prev s).rawLength) % 2 ^ 32 := by
    rw [length_of_zipWriteData data, length_of_writeBytes lengthField,
      length_of_zipPrevEncodeLength prevField, length_of_ziplistOpenGap gap,
      length_of_ziplistResize resize]
    omega
  rw [← block, parts, ← start, ZipNode.rawLength]
  simp only [List.length_append, length_prevField]
  omega

end Entries

-- Round trips

/-- What `ziplistGet` may yield for a string: the string, or an integer that `ll2string` writes as
the string into every buffer with room for it.
-/
def ReadsBack (s : List UInt8) : ZipValue → Prop
  | .str bytes => bytes = s
  | .int value =>
      ∀ dst : List UInt8, s.length < dst.length →
        ll2string dst value = .ok (s.length, s ++ 0 :: dst.drop (s.length + 1))

theorem zipValueOf_readsBack (s : List UInt8) : ReadsBack s (zipValueOf s) := by
  unfold zipValueOf
  cases encoded : zipTryEncoding s with
  | none => rfl
  | some result =>
      obtain ⟨value, encoding⟩ := result
      intro dst room
      obtain ⟨text, cases⟩ := zipTryEncoding_cases encoded
      have word : value.natAbs < 2 ^ 64 := by
        obtain ⟨n, rfl, small, _⟩ | ⟨_, bounds⟩ | ⟨_, bounds⟩ | ⟨_, bounds⟩ | ⟨_, bounds⟩
          | ⟨_, bounds⟩ :=
          cases
        all_goals omega
      rw [text] at room ⊢
      exact ll2string_ok word room

/-- The insertion returns, and the string is read back at its position. -/
def StoresText (fresh : Nat → UInt8) (zl : List UInt8) (p : Nat) (s : List UInt8) : Prop :=
  ∃ next value,
    ziplistInsertAt fresh zl p s = .ok next
    ∧ ziplistGet next p = .ok (some value)
    ∧ ReadsBack s value

/-- What is asked of a string: it is read back at the position where it was inserted, if an
insertion keeps the bytes of the ziplist and its size stays below `2 ^ 32`, and behind the last
entry exactly then. The header and the integer of its entry are decoded as they were written.
-/
structure RoundTrips (fresh : Nat → UInt8) (s : List UInt8) : Prop where
  inserted : ∀ zl nodes values index,
    ZiplistHolds zl nodes values → 11 + chainSize (insertNodes nodes index s) < 2 ^ 32
    → ¬ InsertionLoses nodes index s →
      StoresText fresh zl (entryOffset nodes index) s
  appended : ∀ zl nodes values,
    ZiplistHolds zl nodes values →
      (StoresText fresh zl (entryOffset nodes nodes.length) s
      ↔ 11 + chainSize (insertNodes nodes nodes.length s) < 2 ^ 32)
  header : ∀ zl p next encoding,
    zipIsStr encoding = true → writeBytes zl p (zipLengthField encoding s.length) = .ok next →
      zipDecodeLength next p
        = .ok (stringClass s.length, (zipLengthField encoding s.length).length, s.length)
  intHeader : ∀ zl p next value encoding,
    zipTryEncoding s = some (value, encoding)
    → writeBytes zl p (zipLengthField encoding s.length) = .ok next →
      zipDecodeLength next p
        = .ok (encoding, (zipLengthField encoding s.length).length, zipIntSize encoding)
  integer : ∀ zl p next value encoding,
    zipTryEncoding s = some (value, encoding) → zipSaveInteger zl p value encoding = .ok next →
      zipLoadInteger next p encoding = .ok value

theorem zipDecodeLength_written {zl next field : List UInt8} {p : Nat}
    {result : UInt8 × Nat × Nat} (decoded : zipDecodeLength field 0 = .ok result)
    (run : writeBytes zl p field = .ok next)
    : zipDecodeLength next p = .ok result := by
  obtain ⟨front, back, rfl, rfl, _⟩ := parts_of_writeBytes run
  exact zipDecodeLength_within decoded front back

section Holds

variable {fresh : Nat → UInt8} {zl s : List UInt8} {nodes : List ZipNode}
  {values : List (List UInt8)} {index : Nat}

theorem storesText_of_fits (holds : ZiplistHolds zl nodes values)
    (fits : 11 + chainSize (insertNodes nodes index s) < 2 ^ 32)
    (keeps : ¬ InsertionLoses nodes index s)
    : StoresText fresh zl (entryOffset nodes index) s := by
  obtain ⟨next, _, run, _⟩ := (ziplistInsertAt_inserts fresh holds fits).mpr keeps
  have behind : ziplistHeaderSize ≤ entryOffset nodes index := Nat.le_add_right 10 _
  exact ⟨next, _, run, ziplistInsertAt_get fresh behind (length_lt_of_fits fits) run,
    zipValueOf_readsBack s⟩

theorem storesText_end_iff (holds : ZiplistHolds zl nodes values)
    : StoresText fresh zl (entryOffset nodes nodes.length) s
      ↔ 11 + chainSize (insertNodes nodes nodes.length s) < 2 ^ 32 := by
  constructor
  · rintro ⟨next, _, run, _⟩
    obtain ⟨len, rfl, _⟩ := holds.entries.block
    have word := holds.entries.word
    have reads : ∀ node ∈ nodes, node.Reads :=
      fun node member => reads_of_value (holds.entries.valued node member)
    rw [entryOffset, List.take_length] at run
    have inside := ziplistInsertAt_end_inside (ziplistBytes_block word)
      (ziplistPrevLength_end holds.entries.linked reads word) (readByte_end len nodes) run
    rw [insertNodes, List.take_length, List.drop_length, relink, chainSize_append, chainSize,
      chainSize]
    omega
  · intro fits
    refine storesText_of_fits holds fits fun loses => ?_
    rw [InsertionLoses, List.getElem?_eq_none le_rfl] at loses
    cases loses.1

end Holds

/-- A string shorter than 2^32 bytes is read back from a ziplist that stays below 2^32 bytes. -/
theorem ziplist_round_trips (fresh : Nat → UInt8) {s : List UInt8} (short : s.length < 2 ^ 32)
    : RoundTrips fresh s where
  inserted zl nodes values index holds fits keeps := storesText_of_fits holds fits keeps
  appended zl nodes values holds := storesText_end_iff holds
  header zl p next encoding str run := by
    have field : zipLengthField encoding s.length = zipLengthField 0 s.length := by
      have zero : zipIsStr 0 = true := by decide
      rw [zipLengthField, zipLengthField, if_pos str, if_pos zero]
    rw [field] at run ⊢
    exact zipDecodeLength_written (zipDecodeLength_field short) run
  intHeader zl p next value encoding encoded run := by
    obtain ⟨field, decoded⟩ := zipDecodeLength_integer encoded s.length
    have size : (zipLengthField encoding s.length).length = 1 := by
      rw [field, List.length_singleton]
    rw [size]
    exact zipDecodeLength_written decoded run
  integer zl p next value encoding encoded run := zipLoadInteger_zipSaveInteger encoded run

theorem ziplist_round_trips_digits : RoundTrips (fun _ => 0) [0x2D, 0x31, 0x33] :=
  ziplist_round_trips (fun _ => 0) (by decide)

/-- A string whose entry takes the size of the ziplist past `2 ^ 32`, as the end byte sees it. -/
theorem not_storesText_of_wrap {fresh : Nat → UInt8} {s : List UInt8} {n : Nat}
    (length : s.length = n) (large : 2 ^ 14 ≤ n) (wraps : (11 + (n + 6)) % 2 ^ 32 < 11 + n) :
    ¬ StoresText fresh ziplistNew 10 s := by
  rintro ⟨next, _, run, _⟩
  have plain : zipTryEncoding s = none := if_pos (Or.inl (by omega))
  have header : (zipLengthField 0 s.length).length = 5 := by
    rw [zipLengthField, if_pos (by decide), if_neg (by omega), if_neg (by omega), List.length_cons,
      List.length_reverse, length_leBytes]
  have raw : (newNode 0 s).rawLength = n + 6 := by
    rw [← zipRequiredLength_eq, zipRequiredLength, zipDataSize, zipEncodingOf, plain]
    dsimp only
    rw [header, length, zipPrevEncodeSize, if_pos (by decide)]
  have inside := ziplistInsertAt_end_inside (by decide : ziplistBytes ziplistNew = .ok 11)
    (by decide : ziplistPrevLength ziplistNew 10 = .ok 0) (by decide) run
  rw [raw] at inside
  omega

/-- With a string of `2 ^ 32 - 1` bytes the size of an empty ziplist wraps to 16 bytes. -/
theorem long_string_not_stored
    : ¬ StoresText (fun _ => 0) ziplistNew 10 (List.replicate (2 ^ 32 - 1) 0) :=
  not_storesText_of_wrap List.length_replicate (by decide) (by decide)

/-- A number comes back as an integer, a text with a leading zero as itself. -/
example
    : (do
        let zl ← ziplistPush (fun _ => 0) ziplistNew [0x2D, 0x31, 0x33] true
        let zl ← ziplistPush (fun _ => 0) zl [0x30, 0x37] true
        pure (← ziplistGet zl 10, ← ziplistGet zl 14))
      = .ok (some (.str [0x30, 0x37]), some (.int (-13))) := by
  decide +kernel

end Redis
