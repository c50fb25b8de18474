import Redis.Ziplist.Contents

/-! The bytes that `__ziplistInsert` writes for a string, and the value read back from them. -/

namespace Redis

open Redis.Library

def zipIntBytes (value : Int) (encoding : UInt8) : List UInt8 :=
  signedBytes (zipIntSize encoding) value

def zipData (s : List UInt8) : List UInt8 :=
  match zipTryEncoding s with
  | some (value, encoding) => zipIntBytes value encoding
  | none => s

/-- The bytes of a new entry after the field for the length of the entry before. -/
def zipBody (s : List UInt8) : List UInt8 :=
  zipLengthField (zipEncodingOf s) s.length ++ zipData s

section Integers

variable {s : List UInt8} {value : Int} {encoding : UInt8}

/-- An encoded string is the canonical text of a number in its range. -/
theorem zipTryEncoding_cases (encoded : zipTryEncoding s = some (value, encoding))
    : s = decimalText value
      ∧ ((∃ n : Nat, value = n ∧ n ≤ 12 ∧ encoding = UInt8.ofNat (0xF1 + n))
        ∨ (encoding = 0xFE ∧ -2 ^ 7 ≤ value ∧ value < 2 ^ 7)
        ∨ (encoding = 0xC0 ∧ -2 ^ 15 ≤ value ∧ value < 2 ^ 15)
        ∨ (encoding = 0xF0 ∧ -2 ^ 23 ≤ value ∧ value < 2 ^ 23)
        ∨ (encoding = 0xD0 ∧ -2 ^ 31 ≤ value ∧ value < 2 ^ 31)
        ∨ (encoding = 0xE0 ∧ -2 ^ 63 ≤ value ∧ value < 2 ^ 63)) := by
  unfold zipTryEncoding at encoded
  split at encoded
  · cases encoded
  split at encoded
  · cases encoded
  · rename_i number parsed
    obtain ⟨text, low, high⟩ := string2ll_eq_some parsed
    split at encoded
    · cases encoded
      refine ⟨text, Or.inl ⟨value.toNat, ?_, ?_, rfl⟩⟩ <;> omega
    split at encoded
    · cases encoded
      exact ⟨text, Or.inr (Or.inl ⟨rfl, by assumption⟩)⟩
    split at encoded
    · cases encoded
      exact ⟨text, Or.inr (Or.inr (Or.inl ⟨rfl, by assumption⟩))⟩
    split at encoded
    · cases encoded
      exact ⟨text, Or.inr (Or.inr (Or.inr (Or.inl ⟨rfl, by assumption⟩)))⟩
    split at encoded
    · cases encoded
      exact ⟨text, Or.inr (Or.inr (Or.inr (Or.inr (Or.inl ⟨rfl, by assumption⟩))))⟩
    cases encoded
    exact ⟨text, Or.inr (Or.inr (Or.inr (Or.inr (Or.inr ⟨rfl, low, high⟩))))⟩

theorem immediate_facts {n : Nat} (small : n ≤ 12)
    : ¬ zipIsStr (UInt8.ofNat (0xF1 + n)) = true
      ∧ zipIntSize (UInt8.ofNat (0xF1 + n)) = 0
      ∧ zipEntryEncoding (UInt8.ofNat (0xF1 + n)) = UInt8.ofNat (0xF1 + n)
      ∧ ¬ UInt8.ofNat (0xF1 + n) < 0xC0
      ∧ (0xF1 ≤ UInt8.ofNat (0xF1 + n) ∧ UInt8.ofNat (0xF1 + n) ≤ 0xFD)
      ∧ ((UInt8.ofNat (0xF1 + n) &&& 0x0F).toNat : Int) - 1 = n := by
  interval_cases n <;> decide

theorem signedBytes_shift (value : Int)
    : (signedBytes 4 (value * 256)).drop 1 = signedBytes 3 value := by
  have shifted : (value * 256 % (256 ^ 4 : Nat)).toNat = 256 * (value % (256 ^ 3 : Nat)).toNat := by
    omega
  rw [signedBytes, shifted, leBytes, List.drop_one, List.tail_cons,
    Nat.mul_div_cancel_left _ (by decide)]
  rfl

theorem signedValue_shift (bytes : List UInt8) (three : bytes.length = 3)
    : signedValue (0 :: bytes) / 256 = signedValue bytes := by
  have bound := leValue_lt bytes
  rw [three] at bound
  have zero : (0 : UInt8).toNat = 0 := rfl
  simp only [signedValue, leValue, List.length_cons, three, zero]
  simp only [Int.bmod]
  split <;> split <;> omega

theorem zipSaveInteger_eq (encoded : zipTryEncoding s = some (value, encoding))
    {zl : List UInt8} {p : Nat} (inside : p ≤ zl.length)
    : zipSaveInteger zl p value encoding = writeBytes zl p (zipIntBytes value encoding) := by
  obtain ⟨_, ⟨n, rfl, small, rfl⟩ | ⟨rfl, _⟩ | ⟨rfl, _⟩ | ⟨rfl, _⟩ | ⟨rfl, _⟩ | ⟨rfl, _⟩⟩ :=
    zipTryEncoding_cases encoded
  · have none : writeBytes zl p [] = .ok zl := by simp [writeBytes, inside]
    obtain ⟨_, size, _, _, bounds, _⟩ := immediate_facts small
    rw [zipIntBytes, size, signedBytes, leBytes, none]
    unfold zipSaveInteger
    interval_cases n <;> rfl
  · rfl
  · rfl
  · rw [show zipIntBytes value 0xF0 = signedBytes 3 value from rfl, ← signedBytes_shift]
    rfl
  · rfl
  · rfl

theorem zipLoadInteger_of_bytes (encoded : zipTryEncoding s = some (value, encoding))
    {zl : List UInt8} {p : Nat}
    (read : readBytes zl p (zipIntSize encoding) = .ok (zipIntBytes value encoding))
    : zipLoadInteger zl p encoding = .ok value := by
  obtain ⟨_, ⟨n, rfl, small, rfl⟩ | ⟨rfl, low, high⟩ | ⟨rfl, low, high⟩ | ⟨rfl, low, high⟩
    | ⟨rfl, low, high⟩ | ⟨rfl, low, high⟩⟩ := zipTryEncoding_cases encoded
  · interval_cases n <;> rfl
  · have back : signedValue (signedBytes 1 value) = value :=
      signedValue_signedBytes (by omega) (by omega)
    change readBytes zl p 1 = .ok (signedBytes 1 value) at read
    change (do let bytes ← readBytes zl p 1; pure (signedValue bytes)) = _
    rw [read, ok_andThen, back]
    rfl
  · have back : signedValue (signedBytes 2 value) = value :=
      signedValue_signedBytes (by omega) (by omega)
    change readBytes zl p 2 = .ok (signedBytes 2 value) at read
    change (do let bytes ← readBytes zl p 2; pure (signedValue bytes)) = _
    rw [read, ok_andThen, back]
    rfl
  · have back : signedValue (signedBytes 3 value) = value :=
      signedValue_signedBytes (by omega) (by omega)
    change readBytes zl p 3 = .ok (signedBytes 3 value) at read
    change (do let bytes ← readBytes zl p 3; pure (signedValue (0 :: bytes) / 256)) = _
    rw [read, ok_andThen, signedValue_shift _ (by simp), back]
    rfl
  · have back : signedValue (signedBytes 4 value) = value :=
      signedValue_signedBytes (by omega) (by omega)
    change readBytes zl p 4 = .ok (signedBytes 4 value) at read
    change (do let bytes ← readBytes zl p 4; pure (signedValue bytes)) = _
    rw [read, ok_andThen, back]
    rfl
  · have back : signedValue (signedBytes 8 value) = value :=
      signedValue_signedBytes (by omega) (by omega)
    change readBytes zl p 8 = .ok (signedBytes 8 value) at read
    change (do let bytes ← readBytes zl p 8; pure (signedValue bytes)) = _
    rw [read, ok_andThen, back]
    rfl

theorem zipLoadInteger_zipIntBytes (encoded : zipTryEncoding s = some (value, encoding))
    : zipLoadInteger (encoding :: zipIntBytes value encoding) 1 encoding = .ok value := by
  have length : (zipIntBytes value encoding).length = zipIntSize encoding := by simp [zipIntBytes]
  exact zipLoadInteger_of_bytes encoded
    (readBytes_split (show _ = [encoding] ++ zipIntBytes value encoding ++ [] by simp) rfl length)

theorem intEncoding_facts (encoded : zipTryEncoding s = some (value, encoding))
    : ¬ zipIsStr encoding = true
      ∧ zipEntryEncoding encoding = encoding
      ∧ ¬ encoding < 0xC0 := by
  obtain ⟨_, ⟨n, rfl, small, rfl⟩ | ⟨rfl, _⟩ | ⟨rfl, _⟩ | ⟨rfl, _⟩ | ⟨rfl, _⟩ | ⟨rfl, _⟩⟩ :=
    zipTryEncoding_cases encoded
  · obtain ⟨notStr, _, same, large, _⟩ := immediate_facts small
    exact ⟨notStr, same, large⟩
  all_goals decide

end Integers

-- Strings

theorem short_field {n : Nat} (small : n ≤ 0x3F)
    : zipEntryEncoding (UInt8.ofNat n) = 0 ∧ (UInt8.ofNat n &&& 0x3F).toNat = n := by
  revert n
  decide

theorem middle_field {n : Nat} (small : n ≤ 0x3F)
    : zipEntryEncoding (0x40 ||| UInt8.ofNat n) = 0x40
      ∧ ((0x40 ||| UInt8.ofNat n) &&& 0x3F).toNat = n := by
  revert n
  decide

/-- The class of the length field of a string. -/
def stringClass (rawlen : Nat) : UInt8 :=
  if rawlen ≤ 0x3F then 0x00 else if rawlen ≤ 0x3FFF then 0x40 else 0x80

theorem zipIsStr_stringClass (rawlen : Nat) : zipIsStr (stringClass rawlen) = true := by
  unfold stringClass
  split
  · decide
  · split <;> decide

theorem zipDecodeLength_field {rawlen : Nat} (word : rawlen < 2 ^ 32)
    : zipDecodeLength (zipLengthField 0 rawlen) 0
      = .ok (stringClass rawlen, (zipLengthField 0 rawlen).length, rawlen) := by
  have str : zipIsStr 0 = true := by decide
  unfold zipLengthField stringClass
  rw [if_pos str]
  split
  · rename_i small
    obtain ⟨encoding, length⟩ := short_field small
    have first : readByte [UInt8.ofNat rawlen] 0 = .ok (UInt8.ofNat rawlen) := rfl
    rw [zipDecodeLength, first, ok_andThen]
    dsimp only
    rw [encoding, if_pos (by decide), if_pos rfl, length]
    rfl
  · split
    · rename_i _ small
      obtain ⟨encoding, upper⟩ := middle_field (show rawlen / 256 ≤ 0x3F by omega)
      obtain ⟨high, highEq⟩ : ∃ high, high = 0x40 ||| UInt8.ofNat (rawlen / 256) := ⟨_, rfl⟩
      have lower : rawlen / 256 * 256 + (UInt8.ofNat rawlen).toNat = rawlen := by
        rw [UInt8.toNat_ofNat']
        omega
      rw [← highEq] at encoding upper ⊢
      have first : readByte [high, UInt8.ofNat rawlen] 0 = .ok high := rfl
      have second : readByte [high, UInt8.ofNat rawlen] (0 + 1) = .ok (UInt8.ofNat rawlen) := rfl
      rw [zipDecodeLength, first, ok_andThen]
      dsimp only
      rw [encoding, if_pos (by decide), if_neg (by decide), if_pos rfl, second, ok_andThen, upper,
        lower]
      rfl
    · have bytes
          : readBytes (0x80 :: (leBytes 4 rawlen).reverse) (0 + 1) 4
            = .ok (leBytes 4 rawlen).reverse :=
        readBytes_split (show _ = [0x80] ++ (leBytes 4 rawlen).reverse ++ [] by simp) rfl (by simp)
      have first : readByte (0x80 :: (leBytes 4 rawlen).reverse) 0 = .ok 0x80 := rfl
      have encoding : zipEntryEncoding 0x80 = 0x80 := by decide
      rw [zipDecodeLength, first, ok_andThen]
      dsimp only
      rw [encoding, if_pos (by decide), if_neg (by decide), if_neg (by decide), if_pos rfl, bytes,
        ok_andThen, List.reverse_reverse, leValue_leBytes, Nat.mod_eq_of_lt (by simpa using word)]
      simp [pure, Except.pure]

theorem zipDecodeLength_integer {s : List UInt8} {value : Int} {encoding : UInt8}
    (encoded : zipTryEncoding s = some (value, encoding)) (rawlen : Nat)
    : zipLengthField encoding rawlen = [encoding]
      ∧ zipDecodeLength (zipLengthField encoding rawlen) 0
        = .ok (encoding, 1, zipIntSize encoding) := by
  obtain ⟨notStr, same, large⟩ := intEncoding_facts encoded
  have field : zipLengthField encoding rawlen = [encoding] := by
    simp only [zipLengthField, notStr]
    rfl
  refine ⟨field, ?_⟩
  rw [field]
  simp [zipDecodeLength, readByte, same, large]

/-- The value that a ziplist has for a string. -/
def zipValueOf (s : List UInt8) : ZipValue :=
  match zipTryEncoding s with
  | some (value, _) => .int value
  | none => .str s

theorem text_zipValueOf (s : List UInt8) : (zipValueOf s).text = s := by
  unfold zipValueOf
  cases encoded : zipTryEncoding s with
  | none => rfl
  | some result => exact (zipTryEncoding_cases encoded).1.symm

theorem zipValue_zipBody_eq {s : List UInt8} (word : s.length < 2 ^ 32)
    : zipValue (zipBody s) = some (zipValueOf s) := by
  unfold zipBody zipEncodingOf zipData zipValueOf
  cases encoded : zipTryEncoding s with
  | none =>
      have decoded := zipDecodeLength_within (zipDecodeLength_field word) [] s
      simp only [List.nil_append, List.length_nil, Nat.add_zero] at decoded
      simp [zipValue, decoded, zipIsStr_stringClass]
  | some result =>
      obtain ⟨value, encoding⟩ := result
      obtain ⟨notStr, _, _⟩ := intEncoding_facts encoded
      obtain ⟨field, decodedField⟩ := zipDecodeLength_integer encoded s.length
      rw [field] at decodedField
      have decoded := zipDecodeLength_within decodedField [] (zipIntBytes value encoding)
      simp only [List.nil_append, List.singleton_append, List.length_nil, Nat.add_zero] at decoded
      have loaded := zipLoadInteger_zipIntBytes encoded
      have length : 1 + zipIntSize encoding = (encoding :: zipIntBytes value encoding).length := by
        simp [zipIntBytes, Nat.add_comm]
      dsimp only
      rw [field, List.singleton_append, zipValue, decoded]
      dsimp only
      rw [if_pos length, if_neg notStr, loaded]

/-- A written value is read back. -/
theorem zipValue_zipBody {s : List UInt8} (word : s.length < 2 ^ 32)
    : (zipValue (zipBody s)).map ZipValue.text = some s := by
  rw [zipValue_zipBody_eq word, Option.map_some, text_zipValueOf]

theorem texts_of_bodies {nodes : List ZipNode} {values : List (List UInt8)}
    (bodies : nodes.map ZipNode.body = values.map zipBody)
    (short : ∀ s ∈ values, s.length < 2 ^ 32)
    : nodes.map ZipNode.text = values.map some := by
  have texts : nodes.map ZipNode.text
      = (values.map zipBody).map fun body => (zipValue body).map ZipValue.text := by
    rw [← bodies, List.map_map]
    rfl
  rw [texts, List.map_map]
  exact List.map_congr_left fun s member => zipValue_zipBody (short s member)

theorem length_zipBody {s : List UInt8} (least : 64 ≤ s.length) (most : s.length ≤ 0x3FFF)
    : (zipBody s).length = s.length + 2 := by
  have plain : zipTryEncoding s = none := by
    rw [zipTryEncoding, if_pos (Or.inl (by omega))]
  have str : zipIsStr 0 = true := by decide
  simp only [zipBody, zipEncodingOf, zipData, plain, zipLengthField, str, if_true]
  rw [if_neg (by omega), if_pos most, List.length_append, List.length_cons, List.length_singleton]
  omega

end Redis
