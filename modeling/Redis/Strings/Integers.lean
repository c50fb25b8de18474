import Redis.Keyspace.Replay
import Redis.Util.IntegerEncoding

/-! `getLongLongFromObject` over `strtoll`: which byte strings it takes for an integer. -/

namespace Redis.Strings

open Redis.Keyspace (Sds FitsLongLong wholeDigits wholeNumber)

variable {text : Sds}

-- strtoll

/-- What `strtoll` finds: the value, the offset of the end pointer, and whether `errno` is `ERANGE`.
-/
structure Strtoll where
  value : Int
  eptr : Nat
  erange : Bool
deriving DecidableEq, Repr

def signedNumber (negative : Bool) (n : Nat) : Int := if negative then -(n : Int) else n

/-- The digits that start at an offset. Without any, nothing of the string is converted. -/
def strtollDigits (negative : Bool) (start : Nat) (s : Sds) : Strtoll :=
  let digits := s.takeWhile (isDigitFrom 0x30)
  if digits = [] then ⟨0, 0, false⟩
  else
    let value := signedNumber negative (horner 0 digits)
    let eptr := start + digits.length
    if value < -2 ^ 63 then ⟨-2 ^ 63, eptr, true⟩
    else if value > 2 ^ 63 - 1 then ⟨2 ^ 63 - 1, eptr, true⟩
    else ⟨value, eptr, false⟩

/-- The sign, and the digits behind it. -/
def strtollSign (start : Nat) (s : Sds) : Strtoll :=
  if s.head? = some 0x2D then strtollDigits true (start + 1) s.tail
  else if s.head? = some 0x2B then strtollDigits false (start + 1) s.tail
  else strtollDigits false start s

/-- `strtoll` in base ten. -/
def strtoll (buffer : Sds) : Strtoll :=
  let spaces := (buffer.takeWhile isSpace).length
  strtollSign spaces (buffer.drop spaces)

/-- The test of `getLongLongFromObject` on the buffer of an sds-encoded object. -/
def longLongOfBuffer (buffer : Sds) : Option Int :=
  let parsed := strtoll buffer
  if buffer.head?.any isSpace = true ∨ buffer[parsed.eptr]? ≠ some 0
    ∨ parsed.erange = true then none
  else some parsed.value

/-- `getLongLongFromObject` of an sds-encoded object, whose buffer ends with a NUL. -/
def getLongLongFromSds (text : Sds) : Option Int := longLongOfBuffer (text ++ [0])

-- C strings

theorem buffer_cString (text : Sds) : ∃ rest, text ++ [0] = Keyspace.cString text ++ 0 :: rest := by
  induction text with
  | nil => exact ⟨[], rfl⟩
  | cons c more ih =>
      by_cases ends : c = 0
      · subst ends
        exact ⟨more ++ [0], rfl⟩
      · obtain ⟨rest, split⟩ := ih
        refine ⟨rest, ?_⟩
        have front : Keyspace.cString (c :: more) = c :: Keyspace.cString more := by
          simp [Keyspace.cString, ends]
        rw [front, List.cons_append, List.cons_append, split]

theorem cString_ne_zero (text : Sds) : ∀ c ∈ Keyspace.cString text, c ≠ 0 := fun _ inside => by
  simpa using List.mem_takeWhile_imp inside

theorem cString_eq_self (clean : 0 ∉ text) : Keyspace.cString text = text := by
  refine List.takeWhile_eq_self_iff.mpr fun c inside => ?_
  simpa using fun zero : c = 0 => clean (zero ▸ inside)

-- What strtoll converts

theorem takeWhile_digits {front back : Sds} (digits : ∀ c ∈ front, isDigitFrom 0x30 c = true)
    (next : ∀ c ∈ back.head?, isDigitFrom 0x30 c = false)
    : (front ++ back).takeWhile (isDigitFrom 0x30) = front := by
  rw [List.takeWhile_append_of_pos digits]
  cases back with
  | nil => simp
  | cons c more => rw [List.takeWhile_cons_of_neg (by simp [next c rfl]), List.append_nil]

theorem strtollDigits_eq (negative : Bool) (start : Nat) {front back : Sds} (nonempty : front ≠ [])
    (digits : ∀ c ∈ front, isDigitFrom 0x30 c = true)
    (next : ∀ c ∈ back.head?, isDigitFrom 0x30 c = false)
    : (strtollDigits negative start (front ++ back)).eptr = start + front.length
      ∧ ((strtollDigits negative start (front ++ back)).erange = true
          ↔ ¬ FitsLongLong (signedNumber negative (horner 0 front)))
      ∧ (FitsLongLong (signedNumber negative (horner 0 front)) →
          (strtollDigits negative start (front ++ back)).value = signedNumber negative
            (horner 0 front)) := by
  unfold strtollDigits FitsLongLong
  rw [takeWhile_digits digits next, if_neg nonempty]
  dsimp only
  generalize signedNumber negative (horner 0 front) = v
  by_cases below : v < -2 ^ 63
  · rw [if_pos below]
    exact ⟨rfl, iff_of_true rfl (by omega), fun fits => absurd fits.1 (by omega)⟩
  by_cases above : v > 2 ^ 63 - 1
  · rw [if_neg below, if_pos above]
    exact ⟨rfl, iff_of_true rfl (by omega), fun fits => absurd fits.2 (by omega)⟩
  · rw [if_neg below, if_neg above]
    exact ⟨rfl, iff_of_false (fun set => Bool.false_ne_true set) (by omega), fun _ => rfl⟩

theorem exists_digits (part : Sds)
    : ∃ front back, part = front ++ back ∧ (∀ c ∈ front, isDigitFrom 0x30 c = true)
      ∧ ∀ c ∈ back.head?, isDigitFrom 0x30 c = false := by
  refine ⟨part.takeWhile (isDigitFrom 0x30), part.dropWhile (isDigitFrom 0x30),
    List.takeWhile_append_dropWhile.symm, fun c inside => List.mem_takeWhile_imp inside,
    fun c first => ?_⟩
  have stops := List.head?_dropWhile_not (isDigitFrom 0x30) part
  rwa [Option.mem_def.mp first] at stops

theorem wholeDigits_none (front : Sds) {back : Sds} {c : UInt8} (other : isDigitFrom 0x30 c = false)
    : wholeDigits (front ++ c :: back) = none := by
  refine if_neg fun whole => ?_
  simp [other] at whole

theorem strtollDigits_accepts (negative : Bool) (pre : Sds) {part rest : Sds}
    (nonempty : pre ++ part ≠ []) (clean : ∀ c ∈ pre ++ part, c ≠ 0)
    : (if
          (pre ++ part ++ 0 :: rest)[(strtollDigits negative pre.length (part ++ 0 :: rest)).eptr]?
            ≠ some 0
          ∨ (strtollDigits negative pre.length (part ++ 0 :: rest)).erange = true then none
        else some (strtollDigits negative pre.length (part ++ 0 :: rest)).value)
      = ((wholeDigits part).map (signedNumber negative)).filter fun v =>
        -2 ^ 63 ≤ v && v < 2 ^ 63 := by
  obtain ⟨front, back, rfl, digits, next⟩ := exists_digits part
  have ends : ∀ c ∈ (back ++ 0 :: rest).head?, isDigitFrom 0x30 c = false := by
    cases back with
    | nil =>
        rintro c ⟨⟩
        rfl
    | cons c more => exact next
  rw [List.append_assoc front]
  by_cases empty : front = []
  · subst empty
    have nothing : strtollDigits negative pre.length ([] ++ (back ++ 0 :: rest))
        = ⟨0, 0, false⟩ := by
      rw [strtollDigits, takeWhile_digits digits ends, if_pos rfl]
    obtain ⟨a, more, split⟩ := List.exists_cons_of_ne_nil nonempty
    have first : a ≠ 0 := clean a (by rw [split]; exact List.mem_cons_self)
    rw [nothing, split]
    have none : wholeDigits ([] ++ back) = none := by
      cases back with
      | nil => rfl
      | cons c more => exact wholeDigits_none [] (next c rfl)
    rw [none]
    simp [first]
  · obtain ⟨eptr, erange, value⟩ := strtollDigits_eq negative pre.length empty digits ends
    have byte : (pre ++ (front ++ back) ++ 0 :: rest)[pre.length + front.length]?
        = (back ++ 0 :: rest).head? := by
      rw [List.append_assoc, List.append_assoc, ← List.append_assoc, ← List.length_append,
        List.getElem?_append_right (Nat.le_refl _), Nat.sub_self, List.head?_eq_getElem?]
    rw [eptr, byte]
    cases back with
    | nil =>
        have whole : wholeDigits (front ++ []) = some (horner 0 front) := by
          rw [List.append_nil]
          exact if_pos ⟨empty, by simpa using digits⟩
        rw [whole, Option.map_some]
        by_cases fits : FitsLongLong (signedNumber negative (horner 0 front))
        · have terminator : ([] ++ 0 :: rest).head? = some 0 := rfl
          rw [if_neg (not_or.mpr ⟨not_not_intro terminator, fun set => erange.mp set fits⟩),
            value fits]
          exact (Option.filter_eq_some_iff.mpr ⟨rfl, by simpa [FitsLongLong] using fits⟩).symm
        · rw [if_pos (Or.inr (erange.mpr fits))]
          refine (Option.filter_eq_none_iff.mpr ?_).symm
          rintro v ⟨⟩
          simpa [FitsLongLong] using fits
    | cons c more =>
        have stops : c ≠ 0 := clean c (by simp)
        rw [wholeDigits_none front (next c rfl)]
        simp [stops]

theorem wholeNumber_unsigned {a : UInt8} (minus : a ≠ 0x2D) (plus : a ≠ 0x2B) (more : Sds)
    : wholeNumber (a :: more) = (wholeDigits (a :: more)).map (signedNumber false) := by
  rw [wholeNumber, if_neg (List.cons_ne_nil a more), if_neg (by simpa using minus),
    if_neg (by simpa using plus)]
  rfl

theorem wholeNumber_space {a : UInt8} (space : isSpace a = true) (more : Sds)
    : wholeNumber (a :: more) = none := by
  have digit : isDigitFrom 0x30 a = false := by
    rw [← Bool.not_eq_true]
    intro digit
    simp [(digit_facts digit).1] at space
  have minus : a ≠ 0x2D := by
    rintro rfl
    cases space
  have plus : a ≠ 0x2B := by
    rintro rfl
    cases space
  have none : wholeDigits (a :: more) = none := wholeDigits_none [] digit
  rw [wholeNumber_unsigned minus plus, none, Option.map_none]

theorem getLongLongFromSds_eq (text : Sds)
    : getLongLongFromSds text = Keyspace.getLongLongFromObject text := by
  obtain ⟨rest, buffer⟩ := buffer_cString text
  have clean := cString_ne_zero text
  rw [getLongLongFromSds, buffer, Keyspace.getLongLongFromObject]
  generalize Keyspace.cString text = c at clean
  cases c with
  | nil => rfl
  | cons a more =>
      cases space : isSpace a with
      | true =>
          rw [wholeNumber_space space]
          exact if_pos (Or.inl (by simpa using space))
      | false =>
          have atOnce : strtoll (a :: more ++ 0 :: rest)
              = strtollSign 0 (a :: more ++ 0 :: rest) := by
            rw [strtoll, List.cons_append, List.takeWhile_cons_of_neg (by simp [space])]
            rfl
          have notSpace : ¬ (a :: more ++ 0 :: rest).head?.any isSpace = true := by simp [space]
          rw [longLongOfBuffer, atOnce]
          simp only [or_iff_right notSpace]
          by_cases minus : a = 0x2D
          · subst minus
            exact strtollDigits_accepts true [0x2D] (List.cons_ne_nil _ more) clean
          by_cases plus : a = 0x2B
          · subst plus
            exact strtollDigits_accepts false [0x2B] (List.cons_ne_nil _ more) clean
          have sign : strtollSign 0 (a :: more ++ 0 :: rest)
              = strtollDigits false 0 (a :: more ++ 0 :: rest) := by
            rw [strtollSign, if_neg (by simpa using minus), if_neg (by simpa using plus)]
          rw [sign, wholeNumber_unsigned minus plus]
          exact strtollDigits_accepts false [] (List.cons_ne_nil a more) clean

-- Whole integers

/-- An optional sign, at least one decimal digit and nothing else, with the number that it spells.
-/
inductive IntegerText : Sds → Int → Prop
  | unsigned {digits : Sds} (nonempty : digits ≠ []) (all : ∀ c ∈ digits, 0x30 ≤ c ∧ c ≤ 0x39)
    : IntegerText digits (digitsValue digits)
  | plus {digits : Sds} (nonempty : digits ≠ []) (all : ∀ c ∈ digits, 0x30 ≤ c ∧ c ≤ 0x39)
    : IntegerText (0x2B :: digits) (digitsValue digits)
  | minus {digits : Sds} (nonempty : digits ≠ []) (all : ∀ c ∈ digits, 0x30 ≤ c ∧ c ≤ 0x39)
    : IntegerText (0x2D :: digits) (-digitsValue digits)

theorem wholeDigits_eq_some_iff {n : Nat}
    : wholeDigits text = some n
      ↔ text ≠ [] ∧ (∀ c ∈ text, 0x30 ≤ c ∧ c ≤ 0x39) ∧ digitsValue text = n := by
  unfold wholeDigits
  simp only [isDigitFrom, List.all_eq_true, Bool.and_eq_true, decide_eq_true_eq,
    Option.ite_none_right_eq_some, Option.some.injEq, and_assoc]
  exact Iff.rfl

theorem IntegerText.nonempty {v : Int} (integer : IntegerText text v) : text ≠ [] := by
  cases integer with
  | unsigned nonempty _ => exact nonempty
  | plus _ _ => exact List.cons_ne_nil _ _
  | minus _ _ => exact List.cons_ne_nil _ _

theorem IntegerText.clean {v : Int} (integer : IntegerText text v) : 0 ∉ text := by
  have digit : ∀ {digits : Sds}, (∀ c ∈ digits, 0x30 ≤ c ∧ c ≤ 0x39) → 0 ∉ digits :=
    fun all inside =>
    absurd (all 0 inside).1 (by decide)
  cases integer with
  | unsigned _ all => exact digit all
  | plus _ all => simpa using digit all
  | minus _ all => simpa using digit all

theorem wholeNumber_eq_some_iff {v : Int}
    : wholeNumber text = some v ↔ (text = [] ∧ v = 0) ∨ IntegerText text v := by
  constructor
  · intro read
    cases text with
    | nil => exact Or.inl ⟨rfl, (Option.some.inj read).symm⟩
    | cons a more =>
        right
        by_cases minus : a = 0x2D
        · subst minus
          obtain ⟨n, whole, rfl⟩ :=
            Option.map_eq_some_iff.mp (show (wholeDigits more).map _ = _ from read)
          obtain ⟨nonempty, all, rfl⟩ := wholeDigits_eq_some_iff.mp whole
          exact .minus nonempty all
        by_cases plus : a = 0x2B
        · subst plus
          obtain ⟨n, whole, rfl⟩ :=
            Option.map_eq_some_iff.mp (show (wholeDigits more).map _ = _ from read)
          obtain ⟨nonempty, all, rfl⟩ := wholeDigits_eq_some_iff.mp whole
          exact .plus nonempty all
        rw [wholeNumber_unsigned minus plus] at read
        obtain ⟨n, whole, rfl⟩ := Option.map_eq_some_iff.mp read
        obtain ⟨nonempty, all, rfl⟩ := wholeDigits_eq_some_iff.mp whole
        exact .unsigned nonempty all
  · rintro (⟨rfl, rfl⟩ | integer)
    · rfl
    · cases integer with
      | unsigned nonempty all =>
          obtain ⟨a, more, rfl⟩ := List.exists_cons_of_ne_nil nonempty
          have low := (all a List.mem_cons_self).1
          have minus : a ≠ 0x2D := by
            rintro rfl
            exact absurd low (by decide)
          have plus : a ≠ 0x2B := by
            rintro rfl
            exact absurd low (by decide)
          rw [wholeNumber_unsigned minus plus, wholeDigits_eq_some_iff.mpr ⟨nonempty, all, rfl⟩]
          rfl
      | plus nonempty all =>
          exact congrArg (Option.map (signedNumber false))
            (wholeDigits_eq_some_iff.mpr ⟨nonempty, all, rfl⟩)
      | minus nonempty all =>
          exact congrArg (Option.map (signedNumber true))
            (wholeDigits_eq_some_iff.mpr ⟨nonempty, all, rfl⟩)

theorem getLongLongFromSds_eq_some_iff {v : Int}
    : getLongLongFromSds text = some v
      ↔ (Keyspace.cString text = [] ∧ v = 0)
        ∨ (IntegerText (Keyspace.cString text) v ∧ FitsLongLong v) := by
  rw [getLongLongFromSds_eq, Keyspace.getLongLongFromObject, Option.filter_eq_some_iff,
    wholeNumber_eq_some_iff]
  constructor
  · rintro ⟨empty | integer, fits⟩
    · exact Or.inl empty
    · exact Or.inr ⟨integer, by simpa [FitsLongLong] using fits⟩
  · rintro (⟨empty, rfl⟩ | ⟨integer, fits⟩)
    · exact ⟨Or.inl ⟨empty, rfl⟩, rfl⟩
    · exact ⟨Or.inr integer, by simpa [FitsLongLong] using fits⟩

/-- The bytes in front of a NUL are none, or an integer that fits. -/
def AcceptsPrefix (text : Sds) : Prop :=
  0 ∈ text
    ∧ (Keyspace.cString text = [] ∨ ∃ v, IntegerText (Keyspace.cString text) v ∧ FitsLongLong v)

theorem getLongLong_whole (nonempty : text ≠ []) (rejected : ¬ AcceptsPrefix text) (v : Int)
    : getLongLongFromSds text = some v ↔ IntegerText text v ∧ FitsLongLong v := by
  rw [getLongLongFromSds_eq_some_iff]
  by_cases nul : 0 ∈ text
  · refine iff_of_false ?_ fun integer => integer.1.clean nul
    rintro (⟨empty, -⟩ | integer)
    · exact rejected ⟨nul, Or.inl empty⟩
    · exact rejected ⟨nul, Or.inr ⟨v, integer⟩⟩
  · rw [cString_eq_self nul]
    exact or_iff_right fun empty => nonempty empty.1

/-- The integers are parsed whole, but for the empty string and for what a NUL cuts off. -/
theorem integers_whole_iff (text : Sds)
    : (∀ v, getLongLongFromSds text = some v ↔ IntegerText text v ∧ FitsLongLong v)
      ↔ text ≠ [] ∧ ¬ AcceptsPrefix text := by
  constructor
  · intro whole
    constructor
    · rintro rfl
      have zero : getLongLongFromSds [] = some 0 :=
        getLongLongFromSds_eq_some_iff.mpr (Or.inl ⟨rfl, rfl⟩)
      exact ((whole 0).mp zero).1.nonempty rfl
    · rintro ⟨nul, empty | ⟨v, integer, fits⟩⟩
      · exact ((whole 0).mp (getLongLongFromSds_eq_some_iff.mpr (Or.inl ⟨empty, rfl⟩))).1.clean nul
      · have accepted := getLongLongFromSds_eq_some_iff.mpr (Or.inr ⟨integer, fits⟩)
        exact ((whole v).mp accepted).1.clean nul
  · rintro ⟨nonempty, rejected⟩ v
    exact getLongLong_whole nonempty rejected v

/-- The empty string is the number 0, and `12` followed by a NUL and more bytes is the number 12. -/
theorem integers_not_whole
    : getLongLongFromSds [] = some 0 ∧ ¬ IntegerText [] 0
      ∧ getLongLongFromSds [0x31, 0x32, 0x00, 0x61, 0x62, 0x63] = some 12
      ∧ ¬ IntegerText [0x31, 0x32, 0x00, 0x61, 0x62, 0x63] 12 := by
  refine ⟨by decide, fun integer => integer.nonempty rfl, by decide, fun integer => ?_⟩
  exact integer.clean (by decide)

end Redis.Strings
