import Mathlib.Data.List.DropRight
import Mathlib.Tactic

/-! Lists of entries with heights, and the levels of entries taller than a bound. -/

namespace Redis.Library

section Towers

variable {α : Type} (height : α → Nat)

/-- The next entry that is taller than a level and the number of steps to it; without one, the
number of entries that are left.
-/
def nextTaller (level : Nat) : List α → Option α × Nat
  | [] => (none, 0)
  | entry :: rest =>
      if level < height entry then (some entry, 1)
      else ((nextTaller level rest).1, (nextTaller level rest).2 + 1)

/-- The entries up to the last one that is taller than a level. -/
def upToTaller (level : Nat) (entries : List α) : List α :=
  entries.rdropWhile fun entry => height entry ≤ level

/-- A list is empty or its last entry is taller than a level. -/
def EndsTaller (level : Nat) (entries : List α) : Prop :=
  ∀ entry ∈ entries.getLast?, level < height entry

/-- No entry is taller than a level. -/
def AllLow (level : Nat) (entries : List α) : Prop := ∀ entry ∈ entries, height entry ≤ level

variable {height} {level : Nat} {front back entries : List α} {entry : α}

theorem nextTaller_of_low (low : AllLow height level front) (back : List α)
    : nextTaller height level (front ++ back)
      = ((nextTaller height level back).1, front.length + (nextTaller height level back).2) := by
  induction front with
  | nil => simp
  | cons entry rest ih =>
      have first : ¬ level < height entry := Nat.not_lt.mpr (low entry (by simp))
      have others := ih fun other member => low other (by simp [member])
      rw [List.cons_append, nextTaller, if_neg first, others]
      simp only [List.length_cons, Prod.mk.injEq, true_and]
      omega

theorem nextTaller_of_tall (tall : ¬ AllLow height level front) (back : List α)
    : nextTaller height level (front ++ back) = nextTaller height level front := by
  induction front with
  | nil => exact absurd (fun entry member => nomatch member) tall
  | cons entry rest ih =>
      rw [List.cons_append, nextTaller, nextTaller]
      split
      · rfl
      · rename_i first
        have others : ¬ AllLow height level rest := by
          intro low
          refine tall fun other member => ?_
          rcases List.mem_cons.mp member with rfl | old
          · exact Nat.not_lt.mp first
          · exact low other old
        rw [ih others]

/-- There is a first entry that is taller than the level, or none. -/
theorem taller_cases (height : α → Nat) (level : Nat) (entries : List α)
    : AllLow height level entries
      ∨ ∃ skipped entry rest,
          entries = skipped ++ entry :: rest
          ∧ AllLow height level skipped
          ∧ level < height entry := by
  induction entries with
  | nil => exact Or.inl fun entry member => nomatch member
  | cons entry rest ih =>
      rcases Nat.lt_or_ge level (height entry) with tall | low
      · exact Or.inr ⟨[], entry, rest, rfl, fun _ member => (nomatch member), tall⟩
      · have with_entry {others : List α} (lows : AllLow height level others)
            : AllLow height level (entry :: others) := by
          intro other member
          rcases List.mem_cons.mp member with rfl | old
          · exact low
          · exact lows other old
        rcases ih with lows | ⟨skipped, next, others, rfl, lows, tall⟩
        · exact Or.inl (with_entry lows)
        · exact Or.inr ⟨entry :: skipped, next, others, rfl, with_entry lows, tall⟩

theorem nextTaller_none (low : AllLow height level entries)
    : nextTaller height level entries = (none, entries.length) := by
  have next := nextTaller_of_low low []
  rwa [List.append_nil] at next

theorem nextTaller_some (low : AllLow height level front) (tall : level < height entry)
    (back : List α)
    : nextTaller height level (front ++ entry :: back) = (some entry, front.length + 1) := by
  rw [nextTaller_of_low low, nextTaller, if_pos tall]

theorem EndsTaller.append (ends : EndsTaller height level (front ++ back)) (some : back ≠ [])
    : EndsTaller height level back := by
  intro entry last
  exact ends entry (by rw [List.getLast?_append_of_ne_nil _ some]; exact last)

theorem EndsTaller.prepend (ends : EndsTaller height level back) (some : back ≠ [])
    (front : List α)
    : EndsTaller height level (front ++ back) := by
  intro entry last
  rw [List.getLast?_append_of_ne_nil _ some] at last
  exact ends entry last

theorem upToTaller_split (height : α → Nat) (level : Nat) (entries : List α)
    : EndsTaller height level (upToTaller height level entries)
      ∧ ∃ low,
          entries = upToTaller height level entries ++ low ∧ AllLow height level low := by
  unfold upToTaller
  induction entries using List.reverseRecOn with
  | nil => exact ⟨by simp [EndsTaller], [], by simp, fun _ member => nomatch member⟩
  | append_singleton init last ih =>
      rw [List.rdropWhile_concat]
      split
      · rename_i low
        obtain ⟨ends, lows, parts, all⟩ := ih
        refine ⟨ends, lows ++ [last], by rw [← List.append_assoc, ← parts], ?_⟩
        intro other member
        rcases List.mem_append.mp member with old | new
        · exact all other old
        · rw [List.mem_singleton.mp new]
          simpa using low
      · rename_i tall
        refine ⟨?_, [], by simp, fun _ member => nomatch member⟩
        intro other member
        rw [List.getLast?_append_of_ne_nil _ (by simp)] at member
        cases member
        simpa using tall

theorem upToTaller_eq (ends : EndsTaller height level front) (low : AllLow height level back)
    : upToTaller height level (front ++ back) = front := by
  unfold upToTaller
  induction back using List.reverseRecOn with
  | nil =>
      rw [List.append_nil]
      rcases List.eq_nil_or_concat front with rfl | ⟨init, last, rfl⟩
      · rfl
      · rw [List.concat_eq_append] at ends ⊢
        refine List.rdropWhile_concat_neg _ _ _ ?_
        have tall := ends last (by simp)
        simpa using tall
  | append_singleton init last ih =>
      rw [← List.append_assoc, List.rdropWhile_concat_pos _ _ _ (by simpa using low last (by simp))]
      exact ih fun other member => low other (by simp [member])

theorem upToTaller_isPrefix (height : α → Nat) (level : Nat) (entries : List α)
    : upToTaller height level entries <+: entries :=
  List.rdropWhile_prefix _ _

end Towers

end Redis.Library
