import Mathlib.Data.List.Basic
import Mathlib.Order.Basic
import Mathlib.Tactic

/-! Lists of pairs in strict order, as an index from groups to members: insertion, deletion and the
part that belongs to one group.
-/

namespace Redis.Library

structure Filed (κ : Type) where
  group : Nat
  member : κ
deriving DecidableEq, Repr

section Index

variable {κ : Type} [LinearOrder κ]

/-- By group, then by member. -/
def Filed.before (a b : Filed κ) : Prop :=
  a.group < b.group ∨ a.group = b.group ∧ a.member < b.member

instance (a b : Filed κ) : Decidable (a.before b) :=
  inferInstanceAs (Decidable (_ ∨ _))

variable {a b c : Filed κ} {index front back : List (Filed κ)}

theorem Filed.before.trans (first : a.before b) (second : b.before c) : a.before c := by
  rcases first with less | ⟨same, less⟩ <;> rcases second with less' | ⟨same', less'⟩
  · exact .inl (less.trans less')
  · exact .inl (same' ▸ less)
  · exact .inl (same.symm ▸ less')
  · exact .inr ⟨same.trans same', less.trans less'⟩

theorem Filed.before_irrefl (a : Filed κ) : ¬a.before a := by
  rintro (less | ⟨_, less⟩)
  · exact Nat.lt_irrefl _ less
  · exact lt_irrefl _ less

theorem Filed.before_total (a b : Filed κ) : a.before b ∨ a = b ∨ b.before a := by
  obtain ⟨group, member⟩ := a
  obtain ⟨group', member'⟩ := b
  rcases Nat.lt_trichotomy group group' with less | rfl | greater
  · exact .inl (.inl less)
  · rcases lt_trichotomy member member' with less | rfl | greater
    · exact .inl (.inr ⟨rfl, less⟩)
    · exact .inr (.inl rfl)
    · exact .inr (.inr (.inr ⟨rfl, greater⟩))
  · exact .inr (.inr (.inl greater))

/-- A pair goes in front of the first that is not before it. -/
def indexInsert (new : Filed κ) : List (Filed κ) → List (Filed κ)
  | [] => [new]
  | entry :: rest => if entry.before new then entry :: indexInsert new rest
      else new :: entry :: rest

/-- The first pair that is not before this one is removed if it is this one. -/
def indexDelete (old : Filed κ) : List (Filed κ) → List (Filed κ)
  | [] => []
  | entry :: rest =>
      if entry.before old then entry :: indexDelete old rest
      else if entry = old then rest
      else entry :: rest

def IndexSorted (index : List (Filed κ)) : Prop := index.Pairwise Filed.before

theorem mem_indexInsert (new entry : Filed κ) (index : List (Filed κ))
    : entry ∈ indexInsert new index ↔ entry = new ∨ entry ∈ index := by
  induction index with
  | nil => simp [indexInsert]
  | cons first rest ih =>
      rw [indexInsert]
      split
      · rw [List.mem_cons, ih, List.mem_cons]
        tauto
      · simp

theorem IndexSorted.insert (sorted : IndexSorted index) {new : Filed κ} (absent : new ∉ index)
    : IndexSorted (indexInsert new index) := by
  induction index with
  | nil => exact List.pairwise_singleton _ _
  | cons first rest ih =>
      obtain ⟨ahead, rest'⟩ := List.pairwise_cons.mp sorted
      rw [indexInsert]
      split
      · rename_i order
        refine List.pairwise_cons.mpr
          ⟨?_, ih rest' (fun inside => absent (List.mem_cons_of_mem _ inside))⟩
        intro entry inside
        rcases (mem_indexInsert new entry rest).mp inside with rfl | old
        · exact order
        · exact ahead entry old
      · rename_i order
        have next : new.before first := by
          rcases Filed.before_total new first with less | rfl | greater
          · exact less
          · exact absurd List.mem_cons_self absent
          · exact absurd greater order
        refine List.pairwise_cons.mpr ⟨?_, sorted⟩
        intro entry inside
        rcases List.mem_cons.mp inside with rfl | behind
        · exact next
        · exact next.trans (ahead entry behind)

theorem indexDelete_split {old : Filed κ} (sorted : IndexSorted (front ++ old :: back))
    : indexDelete old (front ++ old :: back) = front ++ back := by
  induction front with
  | nil =>
      rw [List.nil_append, indexDelete, if_neg (Filed.before_irrefl old), if_pos rfl,
      List.nil_append]
  | cons first rest ih =>
      obtain ⟨ahead, rest'⟩ := List.pairwise_cons.mp sorted
      rw [List.cons_append, indexDelete, if_pos (ahead old (by simp)), ih rest', List.cons_append]

theorem indexDelete_absent {old : Filed κ} (absent : old ∉ index)
    : indexDelete old index = index := by
  induction index with
  | nil => rfl
  | cons first rest ih =>
      rw [List.mem_cons, not_or] at absent
      rw [indexDelete, ih absent.2, if_neg (Ne.symm absent.1)]
      exact ite_self _

theorem IndexSorted.nodup (sorted : IndexSorted index) : index.Nodup := by
  refine List.Pairwise.imp (fun order => ?_) sorted
  rintro rfl
  exact Filed.before_irrefl _ order

/-- A deletion keeps the order. -/
theorem IndexSorted.delete (sorted : IndexSorted index) (old : Filed κ)
    : IndexSorted (indexDelete old index)
      ∧ ∀ entry, entry ∈ indexDelete old index ↔ entry ∈ index ∧ entry ≠ old := by
  by_cases inside : old ∈ index
  · obtain ⟨front, back, rfl⟩ := List.append_of_mem inside
    have unique := sorted.nodup
    rw [List.nodup_middle, List.nodup_cons] at unique
    rw [indexDelete_split sorted]
    refine ⟨sorted.sublist (by simp), ?_⟩
    intro entry
    simp only [List.mem_append, List.mem_cons] at unique ⊢
    constructor
    · intro there
      refine ⟨by tauto, ?_⟩
      rintro rfl
      exact unique.1 there
    · tauto
  · rw [indexDelete_absent inside]
    refine ⟨sorted, fun entry => ⟨fun there => ⟨there, ?_⟩, fun there => there.1⟩⟩
    rintro rfl
    exact inside there

theorem IndexSorted.groups (sorted : IndexSorted index) (group : Nat)
    : ∃ lower own higher,
        index = lower ++ own ++ higher
        ∧ (∀ entry ∈ lower, entry.group < group)
        ∧ (∀ entry ∈ own, entry.group = group)
        ∧ ∀ entry ∈ higher, group < entry.group := by
  induction index with
  | nil => exact ⟨[], [], [], rfl, by simp, by simp, by simp⟩
  | cons first rest ih =>
      obtain ⟨ahead, rest'⟩ := List.pairwise_cons.mp sorted
      obtain ⟨lower, own, higher, rfl, low, mid, high⟩ := ih rest'
      have least : ∀ entry ∈ lower ++ own ++ higher, first.group ≤ entry.group := by
        intro entry inside
        rcases ahead entry inside with less | ⟨same, _⟩
        · exact less.le
        · exact same.le
      rcases Nat.lt_trichotomy first.group group with less | same | greater
      · refine ⟨first :: lower, own, higher, rfl, ?_, mid, high⟩
        intro entry inside
        rcases List.mem_cons.mp inside with rfl | behind
        · exact less
        · exact low entry behind
      · have none : lower = [] := by
          refine List.eq_nil_iff_forall_not_mem.mpr fun entry inside => ?_
          have bound := least entry (by simp [inside])
          have small := low entry inside
          omega
        refine ⟨[], first :: own, higher, by rw [none]; rfl, by simp, ?_, high⟩
        intro entry inside
        rcases List.mem_cons.mp inside with rfl | behind
        · exact same
        · exact mid entry behind
      · have none : lower ++ own = [] := by
          refine List.eq_nil_iff_forall_not_mem.mpr fun entry inside => ?_
          have bound := least entry (List.mem_append_left _ inside)
          rcases List.mem_append.mp inside with inLower | inOwn
          · have small := low entry inLower
            omega
          · have equal := mid entry inOwn
            omega
        refine ⟨[], [], first :: higher, by rw [none]; rfl, by simp, by simp, ?_⟩
        intro entry inside
        rcases List.mem_cons.mp inside with rfl | behind
        · exact greater
        · exact high entry behind

end Index

end Redis.Library
