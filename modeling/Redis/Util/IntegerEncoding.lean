import Redis.Replication.Encoding
import Redis.Intset.Runs
import Redis.Ziplist.Encoding

/-! `string2ll` and `ll2string` are inverse on canonical decimal text, so a string that an object,
an intset or a ziplist entry keeps as an integer is given back byte for byte.
-/

namespace Redis

open Redis.Library

variable {v : Int}

-- Canonical text

def digitsValue (digits : List UInt8) : Nat :=
  digits.foldl (fun v c => v * 10 + (c.toNat - 48)) 0

/-- The canonical decimal text of an integer: no leading zeros, a minus sign before negative
integers only, and no negative zero.
-/
inductive CanonicalText : List UInt8 → Int → Prop
  | zero : CanonicalText [0x30] 0
  | positive {first : UInt8} {rest : List UInt8} (lead : 0x31 ≤ first ∧ first ≤ 0x39)
    (digits : ∀ c ∈ rest, 0x30 ≤ c ∧ c ≤ 0x39)
    : CanonicalText (first :: rest) (digitsValue (first :: rest))
  | negative {first : UInt8} {rest : List UInt8} (lead : 0x31 ≤ first ∧ first ≤ 0x39)
    (digits : ∀ c ∈ rest, 0x30 ≤ c ∧ c ≤ 0x39)
    : CanonicalText (0x2D :: first :: rest) (-digitsValue (first :: rest))

theorem digitsValue_cons (first : UInt8) (rest : List UInt8)
    : digitsValue (first :: rest) = horner (first.toNat - 48) rest := by
  simp [digitsValue, horner]

theorem digitsValue_text {first : UInt8} {rest : List UInt8}
    (lead : 0x31 ≤ first ∧ first ≤ 0x39) (digits : ∀ c ∈ rest, 0x30 ≤ c ∧ c ≤ 0x39)
    : digitsValue (first :: rest) ≠ 0
      ∧ naturalText (digitsValue (first :: rest)) = first :: rest := by
  have all : ∀ c ∈ rest, isDigitFrom 0x30 c = true := by
    intro c member
    simpa [isDigitFrom] using digits c member
  have positive : first.toNat - 48 ≠ 0 := by
    have low := UInt8.le_iff_toNat_le.mp lead.1
    simp only [UInt8.reduceToNat] at low
    omega
  have digit : isDigitFrom 0x30 first = true := by
    have low : 0x30 ≤ first := UInt8.le_trans (by decide) lead.1
    simpa [isDigitFrom] using And.intro low lead.2
  obtain ⟨small, byte⟩ := digitByte_toNat digit
  have least := le_horner (first.toNat - 48) rest
  rw [digitsValue_cons]
  refine ⟨by omega, ?_⟩
  rw [naturalText_horner positive all, naturalText_of_lt small, byte]
  rfl

theorem naturalText_leading {n : Nat} (positive : n ≠ 0)
    : ∃ first rest,
        naturalText n = first :: rest
        ∧ (0x31 ≤ first ∧ first ≤ 0x39)
        ∧ (∀ c ∈ rest, 0x30 ≤ c ∧ c ≤ 0x39)
        ∧ digitsValue (first :: rest) = n := by
  obtain ⟨first, rest, text, lead, digits, value⟩ := naturalText_cases positive
  refine ⟨first, rest, text, by simpa [isDigitFrom] using lead, ?_, ?_⟩
  · intro c member
    simpa [isDigitFrom] using digits c member
  · rw [digitsValue_cons, value]

theorem canonicalText_iff {s : List UInt8} : CanonicalText s v ↔ s = decimalText v := by
  constructor
  · intro canonical
    cases canonical with
    | zero => rfl
    | positive lead digits =>
        obtain ⟨_, text⟩ := digitsValue_text lead digits
        rw [decimalText, if_neg (by omega), Int.natAbs_natCast, text]
    | negative lead digits =>
        obtain ⟨positive, text⟩ := digitsValue_text lead digits
        rw [decimalText, if_pos (by omega), Int.natAbs_neg, Int.natAbs_natCast, text]
  · rintro rfl
    rcases lt_trichotomy v 0 with negative | rfl | positive
    · obtain ⟨first, rest, text, lead, digits, value⟩ :=
        naturalText_leading (show v.natAbs ≠ 0 by omega)
      have canonical := CanonicalText.negative lead digits
      rw [value, show -((v.natAbs : Nat) : Int) = v by omega] at canonical
      rwa [decimalText, if_pos negative, text]
    · exact .zero
    · obtain ⟨first, rest, text, lead, digits, value⟩ :=
        naturalText_leading (show v.natAbs ≠ 0 by omega)
      have canonical := CanonicalText.positive lead digits
      rw [value, show ((v.natAbs : Nat) : Int) = v by omega] at canonical
      rwa [decimalText, if_neg (by omega), text]

theorem string2ll_eq_some_iff {s : List UInt8}
    : string2ll s = some v ↔ CanonicalText s v ∧ -2 ^ 63 ≤ v ∧ v < 2 ^ 63 := by
  constructor
  · intro read
    obtain ⟨text, range⟩ := string2ll_eq_some read
    exact ⟨canonicalText_iff.mpr text, range⟩
  · rintro ⟨canonical, low, high⟩
    rw [canonicalText_iff.mp canonical]
    exact string2ll_decimalText low high

-- String objects

/-- `isObjectRepresentableAsLongLong` with the value it stores. -/
def isObjectRepresentableAsLongLong : StringObject → Option Int
  | .int value => some value.toInt
  | .sds bytes => string2ll bytes

/-- `createStringObjectFromLongLong`; the objects of `shared.integers` keep their number in the
pointer too, and a `PORT_LONG` holds every value.
-/
def createStringObjectFromLongLong (value : Int64) : StringObject := .int value

/-- `tryObjectEncoding`; the embedded and the raw encoding hold the same bytes. -/
def tryObjectEncoding (refcount : Nat) (o : StringObject) : StringObject :=
  match o with
  | .int value => .int value
  | .sds s =>
      if refcount > 1 then .sds s
      else if s.length ≤ 21 then
        match string2ll s with
        | some value => .int (Int64.ofInt value)
        | none => .sds s
      else .sds s

theorem int64_toInt_ofInt (low : -2 ^ 63 ≤ v) (high : v < 2 ^ 63) : (Int64.ofInt v).toInt = v :=
  Int64.toInt_ofInt_of_le (by simpa using low) (by simpa using high)

theorem StringObject.decoded_int (value : Int64)
    : (StringObject.int value).decoded = .ok (decimalText value.toInt) :=
  ll2text_int64 value (by decide)

theorem createStringObject_decoded {s : List UInt8} (read : string2ll s = some v)
    : (createStringObjectFromLongLong (Int64.ofInt v)).decoded = .ok s := by
  obtain ⟨text, low, high⟩ := string2ll_eq_some read
  rw [createStringObjectFromLongLong, StringObject.decoded_int, int64_toInt_ofInt low high, ← text]

theorem tryObjectEncoding_decoded (refcount : Nat) (o : StringObject)
    : (tryObjectEncoding refcount o).decoded = o.decoded := by
  cases o with
  | int value => rfl
  | sds s =>
      simp only [tryObjectEncoding]
      split
      · rfl
      split
      · cases read : string2ll s with
        | none => rfl
        | some v => exact createStringObject_decoded read
      · rfl

-- Intsets and ziplists

theorem intsetGetEncoded_intsetSet {contents next : List UInt8} {enc : IntsetEncoding}
    {pos : Nat} (held : enc.Holds v) (run : intsetSet contents enc pos v = .ok next)
    : intsetGetEncoded next pos enc = .ok v := by
  unfold intsetSet writeBytes at run
  split at run
  · rename_i inside
    cases run
    rw [length_signedBytes] at inside
    have read
        : readBytes (contents.take (pos * enc.size) ++ signedBytes enc.size v
              ++ contents.drop (pos * enc.size + (signedBytes enc.size v).length))
            (pos * enc.size) enc.size
          = .ok (signedBytes enc.size v) :=
      readBytes_split rfl (by rw [List.length_take]; omega) (length_signedBytes _ _)
    rw [intsetGetEncoded, read, ok_andThen, signedValue_signedBytes held.1 held.2]
    rfl
  · cases run

theorem zipLoadInteger_zipSaveInteger {s zl next : List UInt8} {p : Nat} {value : Int}
    {encoding : UInt8} (encoded : zipTryEncoding s = some (value, encoding))
    (run : zipSaveInteger zl p value encoding = .ok next)
    : zipLoadInteger next p encoding = .ok value := by
  rcases Nat.lt_or_ge zl.length p with outside | inside
  · -- Only the encodings that hold the integer themselves write nothing.
    have fails (bytes : List UInt8) : writeBytes zl p bytes = .error .outOfBounds :=
      if_neg (by omega)
    obtain ⟨_, ⟨n, rfl, small, rfl⟩ | ⟨rfl, _⟩ | ⟨rfl, _⟩ | ⟨rfl, _⟩ | ⟨rfl, _⟩ | ⟨rfl, _⟩⟩ :=
      zipTryEncoding_cases encoded
    · interval_cases n <;> rfl
    all_goals
      simp only [zipSaveInteger, fails] at run
      cases run
  · rw [zipSaveInteger_eq encoded inside] at run
    unfold writeBytes at run
    split at run
    · cases run
      have length : (zipIntBytes value encoding).length = zipIntSize encoding := by
        simp [zipIntBytes]
      exact zipLoadInteger_of_bytes encoded
        (readBytes_split rfl (by rw [List.length_take]; omega) length)
    · cases run

theorem isObjectRepresentable_decoded {o : StringObject}
    (read : isObjectRepresentableAsLongLong o = some v)
    : (createStringObjectFromLongLong (Int64.ofInt v)).decoded = o.decoded
      ∧ IntsetEncoding.int64.Holds v := by
  cases o with
  | int value =>
      cases read
      rw [Int64.ofInt_toInt]
      exact ⟨rfl, int64_holds value⟩
  | sds s =>
      obtain ⟨_, low, high⟩ := string2ll_eq_some read
      refine ⟨createStringObject_decoded read, ?_⟩
      constructor <;> simp [IntsetEncoding.size] <;> omega

-- The inverses

/-- `ll2string` writes the one canonical text of every 64-bit integer into every buffer that has
room for it and a terminating zero, and `string2ll` reads it back; `string2ll` accepts exactly
the canonical texts of 64-bit integers, and `ll2string` writes an accepted string again. So
string objects, intset elements and ziplist entries give back the bytes that they keep as an
integer.
-/
theorem string2ll_ll2string_inverse
    : (∀ v : Int64, ∃ text,
        CanonicalText text v.toInt
        ∧ (∀ other, CanonicalText other v.toInt → other = text)
        ∧ string2ll text = some v.toInt
        ∧ ∀ dst : List UInt8, text.length < dst.length →
            ll2string dst v.toInt
              = .ok (text.length, text ++ 0 :: dst.drop (text.length + 1)))
      ∧ (∀ s, (string2ll s).isSome ↔ ∃ v : Int64, CanonicalText s v.toInt)
      ∧ (∀ s v, string2ll s = some v →
          CanonicalText s v
          ∧ ∀ dst : List UInt8, s.length < dst.length →
              ll2string dst v = .ok (s.length, s ++ 0 :: dst.drop (s.length + 1)))
      ∧ (∀ refcount o, (tryObjectEncoding refcount o).decoded = o.decoded)
      ∧ (∀ o v enc contents next pos,
          isObjectRepresentableAsLongLong o = some v
          → (intsetValueEncoding v).size ≤ enc.size
          → intsetSet contents enc pos v = .ok next
          → intsetGetEncoded next pos enc = .ok v
            ∧ (createStringObjectFromLongLong (Int64.ofInt v)).decoded = o.decoded)
      ∧ (∀ s v encoding zl next p,
          zipTryEncoding s = some (v, encoding)
          → zipSaveInteger zl p v encoding = .ok next
          → zipLoadInteger next p encoding = .ok v
            ∧ (createStringObjectFromLongLong (Int64.ofInt v)).decoded = .ok s) := by
  refine ⟨fun v => ?_, fun s => ⟨fun accepted => ?_, ?_⟩, fun s v read => ?_,
    tryObjectEncoding_decoded, fun o v enc contents next pos read wide run => ?_,
    fun s v encoding zl next p encoded run => ?_⟩
  · have low := v.le_toInt
    have high := v.toInt_lt
    refine ⟨decimalText v.toInt, canonicalText_iff.mpr rfl, fun _ => canonicalText_iff.mp,
      string2ll_decimalText low high, fun dst room => ?_⟩
    exact ll2string_ok (by omega) room
  · obtain ⟨v, read⟩ := Option.isSome_iff_exists.mp accepted
    obtain ⟨canonical, low, high⟩ := string2ll_eq_some_iff.mp read
    exact ⟨Int64.ofInt v, by rwa [int64_toInt_ofInt low high]⟩
  · rintro ⟨v, canonical⟩
    have read := string2ll_eq_some_iff.mpr ⟨canonical, v.le_toInt, v.toInt_lt⟩
    rw [read]
    rfl
  · obtain ⟨text, low, high⟩ := string2ll_eq_some read
    refine ⟨canonicalText_iff.mpr text, fun dst room => ?_⟩
    rw [text] at room ⊢
    exact ll2string_ok (by omega) room
  · obtain ⟨decoded, word⟩ := isObjectRepresentable_decoded read
    exact ⟨intsetGetEncoded_intsetSet ((holds_iff word).mpr wide) run, decoded⟩
  · refine ⟨zipLoadInteger_zipSaveInteger encoded run, ?_⟩
    have read : string2ll s = some v := by
      obtain ⟨text, forms⟩ := zipTryEncoding_cases encoded
      rw [text]
      exact string2ll_decimalText (by omega) (by omega)
    exact createStringObject_decoded read

end Redis
