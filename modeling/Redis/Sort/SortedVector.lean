import Redis.Sort.ErrnoHistory

/-! The vector of `SORT` in its order: `sortCompare` is a total preorder, and either sort leaves the
window in order with everything else.
-/

namespace Redis.Sort

open Redis.Keyspace (Sds ObjectDb Element)
open Redis.Library
open Redis.SideIndexes (Moment)

theorem compares_compareStringObjects : Compares compareStringObjects := by
  refine ⟨fun a b => ?_, fun a b c first second => ?_⟩
  · rw [compareStringObjects, compareStringObjects, compareBytes_gt, compareBytes_lt]
  · rw [← not_lt, compareStringObjects, compareBytes_gt, not_lt] at *
    exact first.trans second

section Sorting

variable {F : Type} [LinearOrder F] [Zero F] {env : Env F}

omit [Zero F] in
theorem compares_sortCompare (collates : Compares env.strcoll) (plan : Plan)
    : Compares (sortCompare env plan) := by
  have ascending : Compares (compareAscending env plan) := by
    have cStrings := collates.on Keyspace.cString
    unfold compareAscending
    cases plan.alpha with
    | false =>
        exact (compares_compareStringObjects.on fun x : SortObject F => x.obj.text).refine
          SortObject.score
    | true =>
        cases plan.sortby.isSome with
        | true =>
            cases plan.storekey.isSome with
            | true => exact compares_compareStringObjects.option.on SortObject.cmpobj
            | false => exact cStrings.option.on SortObject.cmpobj
        | false =>
            cases plan.storekey.isSome with
            | true => exact compares_compareStringObjects.on fun x : SortObject F => x.obj.text
            | false => exact cStrings.on fun x : SortObject F => x.obj.text
  unfold sortCompare
  cases plan.desc with
  | true => exact ascending.neg
  | false => exact ascending

/-- The documented result of `qsort`. -/
def Sorts (qsort : Sets.Qsort) : Prop :=
  ∀ {α : Type} (cmp : α → α → Int) (items : List α), Compares cmp →
    (qsort.sort cmp items).Pairwise fun x y => cmp x y ≤ 0

/-- The positions from `lo` on, `n` of them, are in order with all others. -/
def InOrderAt {α : Type} (cmp : α → α → Int) (lo n : Nat) (items : List α) : Prop :=
  ∀ i j x y, i < j → items[i]? = some x → items[j]? = some y →
    (lo ≤ i ∧ i < lo + n) ∨ (lo ≤ j ∧ j < lo + n) → cmp x y ≤ 0

omit [Zero F] in
/-- Either sort permutes the vector and orders the window. -/
theorem sortVector_ok (collates : Compares env.strcoll) (sorts : Sorts env.qsort) (plan : Plan)
    (vector : List (SortObject F)) {w : Window} (lo n : Nat)
    (memory : env.vectorAddress + vector.length * sortObjectSize ≤ 2 ^ 64)
    (window : 0 < n → w = ⟨lo, lo + n - 1⟩ ∧ lo + n ≤ vector.length)
    : (sortVector env plan w vector).Perm vector
      ∧ InOrderAt (sortCompare env plan) lo n (sortVector env plan w vector) := by
  have compares := compares_sortCompare collates plan
  unfold sortVector
  split
  · cases vector with
    | nil =>
        refine ⟨List.Perm.refl _, fun i j x y less at' => ?_⟩
        cases at'
    | cons first rest =>
        have perm :=
          (pqsort_shuffled compares env.vectorAddress (first :: rest).length sortObjectSize w.start
          w.last
          fun i => (first :: rest).getD i first).perm_map
        rw [map_range_getD] at perm
        refine ⟨perm, fun i j x y less at' at'' inside => ?_⟩
        obtain ⟨rfl, within⟩ := window (by omega)
        have sorted :=
          pqsort_windowSorted (l := lo) (r := lo + n - 1) compares (by decide : 0 < sortObjectSize)
          ⟨by omega, by omega⟩ memory fun i => (first :: rest).getD i first
        have last : ((lo : Int) + n - 1) = ((lo + n - 1 : Nat) : Int) := by omega
        rw [pqsortVector, last] at at' at''
        obtain ⟨inI, rfl⟩ := List.getElem?_eq_some_iff.mp at'
        obtain ⟨inJ, rfl⟩ := List.getElem?_eq_some_iff.mp at''
        rw [List.length_map, List.length_range] at inI inJ
        rw [List.getElem_map, List.getElem_map, List.getElem_range, List.getElem_range]
        exact sorted i j (Nat.zero_le _) less inJ (by omega)
  · refine ⟨env.qsort.perm _ _, fun i j x y less at' at'' _ => ?_⟩
    obtain ⟨inI, rfl⟩ := List.getElem?_eq_some_iff.mp at'
    obtain ⟨inJ, rfl⟩ := List.getElem?_eq_some_iff.mp at''
    exact List.pairwise_iff_getElem.mp (sorts _ vector compares) i j inI inJ less

end Sorting

end Redis.Sort
