import Mathlib.Data.Finset.Card
import Mathlib.Tactic

/-! Majorities of the same voters. -/

namespace Redis.Library

variable {α : Type}

theorem countP_apart [DecidableEq α] {voters : List α} {one : α} (member : one ∈ voters)
    (p : α → Bool)
    : (voters.filter (fun v => v ≠ one)).countP p + (if p one = true then 1 else 0)
      ≤ voters.countP p := by
  rw [List.countP_eq_countP_filter_add voters p (fun v => v ≠ one)]
  refine Nat.add_le_add_left ?_ _
  split
  · rename_i holds
    refine List.countP_pos_iff.mpr ⟨one, ?_, holds⟩
    simp [member]
  · exact Nat.zero_le _

theorem majorities_meet (voters : List α) (p q : α → Bool)
    (first : voters.length / 2 + 1 ≤ (voters.filter p).length)
    (second : voters.length / 2 + 1 ≤ (voters.filter q).length)
    : ∃ v ∈ voters, p v = true ∧ q v = true := by
  by_contra none
  have apart : voters.countP q ≤ voters.countP (fun v => decide ¬ p v = true) := by
    refine List.countP_mono_left fun v member votes => ?_
    exact decide_eq_true fun both => none ⟨v, member, both, votes⟩
  have total := List.length_eq_countP_add_countP p (l := voters)
  rw [← List.countP_eq_length_filter] at first second
  omega

/-- Two majorities have a voter in common. -/
theorem majority_sets_meet [DecidableEq α] {voters first second : Finset α}
    (inside : first ⊆ voters) (inside' : second ⊆ voters)
    (majority : voters.card / 2 + 1 ≤ first.card) (majority' : voters.card / 2 + 1 ≤ second.card)
    : ∃ v ∈ first, v ∈ second := by
  have shared : (first ∩ second).Nonempty := by
    by_contra none
    have disjoint : Disjoint first second :=
      Finset.disjoint_iff_inter_eq_empty.mpr (Finset.not_nonempty_iff_eq_empty.mp none)
    have total := Finset.card_le_card (Finset.union_subset inside inside')
    rw [Finset.card_union_of_disjoint disjoint] at total
    omega
  obtain ⟨voter, member⟩ := shared
  exact ⟨voter, (Finset.mem_inter.mp member).1, (Finset.mem_inter.mp member).2⟩

end Redis.Library
