import Redis.Intset.Refinement

/-! Whole runs of `intsetAdd` and `intsetRemove`, and the set they stand for. -/

namespace Redis

open Redis.Library

theorem int64_holds (v : Int64) : IntsetEncoding.int64.Holds v.toInt := by
  have low := v.le_toInt
  have high := v.toInt_lt
  simp only [IntsetEncoding.Holds, IntsetEncoding.size, Nat.reducePow, Nat.cast_ofNat]
  omega

/-- The value is present, or the block that holds it too has a size below `2 ^ 32`. -/
def IntsetFits (is : Intset) (value : Int) : Prop :=
  intsetFind is value = .ok true ∨ is.RoomFor value

/-- A run from `intsetNew`. Each allocation finds its own bytes in the memory it is given. -/
inductive IntsetReachable : Intset → Prop
  | new : IntsetReachable intsetNew
  | add {is next : Intset} {value : Int64} {fresh : Nat → UInt8} {success : Bool}
    (before : IntsetReachable is) (fits : IntsetFits is value.toInt)
    (run : intsetAdd fresh is value.toInt = .ok (success, next))
    : IntsetReachable next
  | remove {is next : Intset} {value : Int64} {fresh : Nat → UInt8} {success : Bool}
    (before : IntsetReachable is)
    (run : intsetRemove fresh is value.toInt = .ok (success, next))
    : IntsetReachable next

/-- The invariant of a run: the block holds a sorted list and its size fits in 32 bits. -/
def Intset.Sound (is : Intset) (xs : List Int) : Prop :=
  is.Represents xs ∧ is.length * is.encoding.size < 2 ^ 32

theorem intsetNew_sound : intsetNew.Sound [] :=
  ⟨⟨rfl, rfl, .nil, by simp⟩, by decide⟩

theorem intsetFits_iff {is : Intset} {xs : List Int} (holds : is.Represents xs) {value : Int}
    (word : IntsetEncoding.int64.Holds value)
    : IntsetFits is value ↔ value ∈ xs ∨ is.RoomFor value := by
  rw [IntsetFits, intsetFind_ok holds word]
  simp

section Steps

variable {is : Intset} {xs : List Int} {value : Int}

theorem Intset.Sound.add (sound : is.Sound xs) (fresh : Nat → UInt8)
    (word : IntsetEncoding.int64.Holds value) (fits : IntsetFits is value)
    : ∃ next ys,
        intsetAdd fresh is value = .ok (decide (value ∉ xs), next)
        ∧ next.Sound ys
        ∧ (∀ x, x ∈ ys ↔ x = value ∨ x ∈ xs)
        ∧ is.encoding.size ≤ next.encoding.size := by
  obtain ⟨holds, small⟩ := sound
  rcases intsetAdd_cases fresh holds word with
    ⟨present, run⟩ | ⟨absent, room, next, ys, run, represents, members, length, encoding⟩
      | ⟨absent, full, _⟩
  · refine ⟨is, xs, by simp [run, present], ⟨holds, small⟩, fun x => ?_, le_rfl⟩
    constructor
    · exact Or.inr
    · rintro (rfl | member)
      · exact present
      · exact member
  · refine ⟨next, ys, by simp [run, absent], ⟨represents, ?_⟩, members, ?_⟩
    · rw [length, encoding]
      exact room
    · rw [encoding, Intset.encodingWith]
      split <;> omega
  · exact absurd ((intsetFits_iff holds word).mp fits) (not_or.mpr ⟨absent, full⟩)

theorem Intset.Sound.remove (sound : is.Sound xs) (fresh : Nat → UInt8)
    (word : IntsetEncoding.int64.Holds value)
    : ∃ next ys,
        intsetRemove fresh is value = .ok (decide (value ∈ xs), next)
        ∧ next.Sound ys
        ∧ (∀ x, x ∈ ys ↔ x ≠ value ∧ x ∈ xs)
        ∧ next.encoding = is.encoding := by
  obtain ⟨holds, small⟩ := sound
  obtain ⟨next, ys, run, represents, members, encoding, shorter⟩ :=
    intsetRemove_ok fresh holds small word
  refine ⟨next, ys, run, ⟨represents, ?_⟩, members, encoding⟩
  rw [encoding]
  exact lt_of_le_of_lt (Nat.mul_le_mul shorter le_rfl) small

end Steps

theorem IntsetReachable.sound {is : Intset} (reached : IntsetReachable is)
    : ∃ xs, is.Sound xs := by
  induction reached with
  | new => exact ⟨[], intsetNew_sound⟩
  | @add is next value fresh success before fits run ih =>
      obtain ⟨xs, sound⟩ := ih
      obtain ⟨after, ys, ran, soundAfter, _⟩ := sound.add fresh (int64_holds value) fits
      cases run.symm.trans ran
      exact ⟨ys, soundAfter⟩
  | @remove is next value fresh success before run ih =>
      obtain ⟨xs, sound⟩ := ih
      obtain ⟨after, ys, ran, soundAfter, _⟩ := sound.remove fresh (int64_holds value)
      cases run.symm.trans ran
      exact ⟨ys, soundAfter⟩

/-- In every state of a run in which each addition had room, the contents are a strictly
increasing list in an encoding wide enough for it, the operations are those of the set of its
values, and an addition is correct exactly when its value is present or has room.
-/
theorem intset_refines_set {is : Intset} (reached : IntsetReachable is)
    : ∃ xs,
        is.elements = .ok xs
        ∧ xs.Pairwise (· < ·)
        ∧ (∀ x ∈ xs, (intsetValueEncoding x).size ≤ is.encoding.size)
        ∧ (∀ value : Int64,
            intsetFind is value.toInt = .ok (decide (value.toInt ∈ xs)))
        ∧ (∀ (fresh : Nat → UInt8) (value : Int64),
            (∃ next ys,
              intsetAdd fresh is value.toInt = .ok (decide (value.toInt ∉ xs), next)
              ∧ next.elements = .ok ys
              ∧ ys.Pairwise (· < ·)
              ∧ (∀ x, x ∈ ys ↔ x = value.toInt ∨ x ∈ xs)
              ∧ is.encoding.size ≤ next.encoding.size)
            ↔ IntsetFits is value.toInt)
        ∧ ∀ (fresh : Nat → UInt8) (value : Int64),
            ∃ next ys,
              intsetRemove fresh is value.toInt = .ok (decide (value.toInt ∈ xs), next)
              ∧ next.elements = .ok ys
              ∧ ys.Pairwise (· < ·)
              ∧ (∀ x, x ∈ ys ↔ x ≠ value.toInt ∧ x ∈ xs)
              ∧ next.encoding = is.encoding := by
  obtain ⟨xs, sound⟩ := reached.sound
  have holds := sound.1
  refine ⟨xs, holds.elements, holds.sorted, ?_, fun value =>
    intsetFind_ok holds (int64_holds value), ?_, ?_⟩
  · intro x member
    have held := holds.wide x member
    refine (holds_iff (held.wider ?_)).mp held
    cases is.encoding <;> decide
  · intro fresh value
    constructor
    · rintro ⟨next, ys, run, decoded, _⟩
      rw [intsetFits_iff holds (int64_holds value)]
      rcases intsetAdd_cases fresh holds (int64_holds value) with
        ⟨present, _⟩ | ⟨_, room, _⟩ | ⟨_, _, broken⟩
      · exact Or.inl present
      · exact Or.inr room
      · exact absurd decoded (broken _ _ _ run)
    · intro fits
      obtain ⟨next, ys, run, after, members, wider⟩ := sound.add fresh (int64_holds value) fits
      exact ⟨next, ys, run, after.1.elements, after.1.sorted, members, wider⟩
  · intro fresh value
    obtain ⟨next, ys, run, after, members, same⟩ := sound.remove fresh (int64_holds value)
    exact ⟨next, ys, run, after.1.elements, after.1.sorted, members, same⟩

/-- The theorem after 5 and 70000 were added: the second one widens the encoding. -/
theorem intset_refines_set_upgraded
    : let is : Intset :=
        { encoding := .int32
          length := 2
          contents := [5, 0, 0, 0, 0x70, 0x11, 1, 0] }
      IntsetReachable is
      ∧ ∃ xs,
          is.elements = .ok xs
          ∧ xs.Pairwise (· < ·)
          ∧ ∀ value : Int64, intsetFind is value.toInt = .ok (decide (value.toInt ∈ xs)) := by
  intro is
  have first : IntsetReachable { encoding := .int16, length := 1, contents := [5, 0] } :=
    .add .new (Or.inr (by unfold Intset.RoomFor; decide))
      (show intsetAdd (fun _ => 0) _ (5 : Int64).toInt = .ok (true, _) by rfl)
  have second : IntsetReachable is :=
    .add first (Or.inr (by unfold Intset.RoomFor; decide))
      (show intsetAdd (fun _ => 0) _ (70000 : Int64).toInt = .ok (true, _) by rfl)
  obtain ⟨xs, decoded, sorted, _, find, _⟩ := intset_refines_set second
  exact ⟨second, xs, decoded, sorted, find⟩

theorem wideValues_reachable (count : Nat) (small : count < 2 ^ 29)
    : ∃ is xs,
        IntsetReachable is
        ∧ is.Sound xs
        ∧ is.length = count
        ∧ (∀ x ∈ xs, x < 2 ^ 32 + (count : Int)) := by
  induction count with
  | zero => exact ⟨intsetNew, [], .new, intsetNew_sound, rfl, by simp⟩
  | succ count ih =>
      obtain ⟨is, xs, reached, sound, length, below⟩ := ih (by omega)
      obtain ⟨value, valueEq⟩ : ∃ value : Int64, value.toInt = 2 ^ 32 + (count : Int) := by
        refine ⟨Int64.ofInt (2 ^ 32 + count), ?_⟩
        rw [Int64.toInt_ofInt_of_le] <;> omega
      have room : is.RoomFor value.toInt := by
        have size : (is.encodingWith value.toInt).size ≤ 8 := by
          cases is.encodingWith value.toInt <;> decide
        have wide := Nat.mul_le_mul (Nat.le_refl (is.length + 1)) size
        unfold Intset.RoomFor
        omega
      have absent : value.toInt ∉ xs := by
        intro member
        have less := below _ member
        omega
      rcases intsetAdd_cases (fun _ => 0) sound.1 (int64_holds value) with
        ⟨present, _⟩ | ⟨_, _, next, ys, run, represents, members, longer, encoding⟩
          | ⟨_, full, _⟩
      · exact absurd present absent
      · refine ⟨next, ys, .add reached (Or.inr room) run, ⟨represents, ?_⟩, by omega, ?_⟩
        · rw [longer, encoding]
          exact room
        · intro x member
          rcases (members x).mp member with rfl | old
          · push_cast
            omega
          · have less := below x old
            push_cast
            omega
      · exact absurd room full

/-- At `2 ^ 29 - 1` wide elements the size of the next block wraps to zero, and the set is
lost.
-/
theorem intsetAdd_overflows
    : ∃ (is : Intset) (xs : List Int) (value : Int64),
        IntsetReachable is
        ∧ is.length = 2 ^ 29 - 1
        ∧ is.elements = .ok xs
        ∧ value.toInt ∉ xs
        ∧ ∀ fresh success next ys,
            intsetAdd fresh is value.toInt = .ok (success, next) → next.elements ≠ .ok ys := by
  obtain ⟨is, xs, reached, sound, length, below⟩ :=
    wideValues_reachable (2 ^ 29 - 1) (by decide)
  have valueEq : (4831838208 : Int64).toInt = 4831838208 := by decide
  refine ⟨is, xs, 4831838208, reached, length, sound.1.elements, ?_, ?_⟩
  · intro member
    have less := below _ member
    omega
  · intro fresh success next ys run
    have full : ¬is.RoomFor (4831838208 : Int64).toInt := by
      unfold Intset.RoomFor Intset.encodingWith
      rw [length]
      cases is.encoding <;> decide
    rcases intsetAdd_cases fresh sound.1 (int64_holds 4831838208) with
      ⟨present, _⟩ | ⟨_, room, _⟩ | ⟨_, _, broken⟩
    · have less := below _ present
      omega
    · exact absurd room full
    · exact broken _ _ _ run

end Redis
