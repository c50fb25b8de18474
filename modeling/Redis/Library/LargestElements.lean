import Mathlib.Data.List.Perm.Basic
import Mathlib.Order.Defs.Unbundled

/-! The largest elements of a list that grows, kept in order. -/

namespace Redis.Library

variable {α : Type} {r : α → α → Prop} {n : Nat} {all low high top : List α} {a x : α}

/-- At most `n` elements in order, all or the largest of a list. -/
structure Largest (r : α → α → Prop) (n : Nat) (all top : List α) : Prop where
  sorted : top.Pairwise r
  few : top.length ≤ n
  rest : ∃ rest, (rest ++ top).Perm all ∧ (∀ c ∈ rest, ∀ b ∈ top, r c b)
    ∧ (rest ≠ [] → top.length = n)

theorem Largest.self (sorted : top.Pairwise r) (few : top.length ≤ n) : Largest r n top top where
  sorted := sorted
  few := few
  rest := ⟨[], .refl _, nofun, nofun⟩

theorem pairwise_between (sorted : (low ++ high).Pairwise r) (below : ∀ a ∈ low, r a x)
    (above : ∀ b ∈ high, r x b)
    : (low ++ x :: high).Pairwise r := by
  obtain ⟨lows, highs, between⟩ := List.pairwise_append.mp sorted
  refine List.pairwise_append.mpr ⟨lows, List.pairwise_cons.mpr ⟨above, highs⟩,
    fun a inside b among => ?_⟩
  rcases List.mem_cons.mp among with rfl | among
  · exact below a inside
  · exact between a inside b among

theorem perm_between (rest low high all : List α) (x : α) (perm : (rest ++ (low ++ high)).Perm all)
    : (rest ++ (low ++ x :: high)).Perm (all ++ [x]) := by
  have moved : (low ++ x :: high).Perm ((low ++ high) ++ [x]) :=
    List.perm_middle.trans (List.perm_append_singleton _ _).symm
  refine (moved.append_left rest).trans ?_
  rw [← List.append_assoc]
  exact perm.append_right [x]

theorem Largest.insert (largest : Largest r n all (low ++ high)) (room : (low ++ high).length < n)
    (below : ∀ a ∈ low, r a x) (above : ∀ b ∈ high, r x b)
    : Largest r n (all ++ [x]) (low ++ x :: high) := by
  obtain ⟨sorted, few, rest, perm, -, full⟩ := largest
  obtain rfl : rest = [] := by
    by_contra some
    have := full some
    omega
  refine ⟨pairwise_between sorted below above, ?_, [], perm_between [] low high all x perm, nofun,
    nofun⟩
  simp only [List.length_append, List.length_cons] at room ⊢
  omega

/-- A larger element takes the place of the least one. -/
theorem Largest.replace [IsTrans α r] (largest : Largest r n all (a :: low ++ high))
    (full : (a :: low ++ high).length = n) (below : ∀ b ∈ a :: low, r b x)
    (above : ∀ b ∈ high, r x b)
    : Largest r n (all ++ [x]) (low ++ x :: high) := by
  obtain ⟨sorted, few, rest, perm, smaller, -⟩ := largest
  have tail := List.pairwise_cons.mp sorted
  have length : (low ++ x :: high).length = n := by
    simp only [List.cons_append, List.length_append, List.length_cons] at full ⊢
    omega
  refine ⟨pairwise_between tail.2 (fun b inside => below b (List.mem_cons_of_mem _ inside)) above,
    Nat.le_of_eq length, rest ++ [a], ?_, ?_, fun _ => length⟩
  · rw [List.append_assoc]
    exact perm_between rest (a :: low) high all x perm
  · have behind : ∀ b ∈ low ++ x :: high, r a b := by
      intro b inside
      rcases List.mem_append.mp inside with inside | inside
      · exact tail.1 b (List.mem_append_left _ inside)
      rcases List.mem_cons.mp inside with rfl | inside
      · exact below a List.mem_cons_self
      · exact tail.1 b (List.mem_append_right _ inside)
    intro c among b inside
    rcases List.mem_append.mp among with among | among
    · exact trans_of r (smaller c among a List.mem_cons_self) (behind b inside)
    · rw [List.mem_singleton.mp among]
      exact behind b inside

theorem Largest.skip (largest : Largest r n all top) (full : top.length = n)
    (above : ∀ b ∈ top, r x b)
    : Largest r n (all ++ [x]) top := by
  obtain ⟨sorted, few, rest, perm, smaller, -⟩ := largest
  refine ⟨sorted, few, rest ++ [x], ?_, ?_, fun _ => full⟩
  · refine List.Perm.trans ?_ (perm.append_right [x])
    rw [List.append_assoc, List.append_assoc]
    exact (List.perm_append_comm).append_left rest
  · intro c among b inside
    rcases List.mem_append.mp among with among | among
    · exact smaller c among b inside
    · rw [List.mem_singleton.mp among]
      exact above b inside

end Redis.Library
