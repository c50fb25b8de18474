import Mathlib.Data.List.AList
import Mathlib.Tactic

/-! Dictionaries whose values are pointers, with the number of entries that hold a pointer. -/

namespace Redis.Library

variable {K : Type} [DecidableEq K]

abbrev PointerDictionary (K : Type) := AList fun _ : K => Nat

namespace PointerDictionary

variable {dict : PointerDictionary K} {key other : K} {old new a : Nat}

/-- The number of keys whose value is at the address. -/
def pointersTo (dict : PointerDictionary K) (a : Nat) : Nat :=
  dict.entries.countP fun entry => entry.2 = a

theorem countP_kerase {entries : List (Sigma fun _ : K => Nat)} (found : old ∈ entries.dlookup key)
    (a : Nat)
    : (entries.kerase key).countP (fun entry => entry.2 = a) + (if a = old then 1 else 0)
      = entries.countP (fun entry => entry.2 = a) := by
  induction entries with
  | nil => simp at found
  | cons entry rest ih =>
      obtain ⟨k, value⟩ := entry
      by_cases same : key = k
      · subst same
        rw [List.dlookup_cons_eq, Option.mem_some_iff] at found
        subst found
        have erased : List.kerase key (⟨key, value⟩ :: rest) = rest := List.kerase_cons_eq rfl
        rw [erased, List.countP_cons]
        simp only [decide_eq_true_eq, eq_comm (a := a)]
      · rw [List.dlookup_cons_ne _ _ same] at found
        rw [List.kerase_cons_ne same, List.countP_cons, List.countP_cons, ← ih found]
        omega

theorem pointersTo_erase (found : dict.lookup key = some old) (a : Nat)
    : pointersTo (dict.erase key) a + (if a = old then 1 else 0) = pointersTo dict a :=
  countP_kerase found a

theorem pointersTo_insert_new (absent : dict.lookup key = none) (new a : Nat)
    : pointersTo (dict.insert key new) a = pointersTo dict a + (if a = new then 1 else 0) := by
  rw [pointersTo, AList.entries_insert_of_notMem (AList.lookup_eq_none.mp absent), List.countP_cons]
  simp only [decide_eq_true_eq, eq_comm (a := new), pointersTo]

/-- One pointer goes and one comes when a value is replaced. -/
theorem pointersTo_insert_replaced (found : dict.lookup key = some old) (new a : Nat)
    : pointersTo (dict.insert key new) a + (if a = old then 1 else 0)
      = pointersTo dict a + (if a = new then 1 else 0) := by
  have erased := countP_kerase (Option.mem_def.mpr found) a
  rw [pointersTo, AList.entries_insert, List.countP_cons]
  simp only [decide_eq_true_eq, eq_comm (a := new), pointersTo]
  omega

theorem pointersTo_pos (found : dict.lookup key = some a) : 0 < pointersTo dict a := by
  have erased := pointersTo_erase found a
  rw [if_pos rfl] at erased
  omega

theorem lookup_ne_of_single (single : pointersTo dict a ≤ 1) (found : dict.lookup key = some a)
    (different : other ≠ key)
    : dict.lookup other ≠ some a := by
  intro again
  have erased := pointersTo_erase found a
  rw [if_pos rfl] at erased
  have left : (dict.erase key).lookup other = some a := by rwa [AList.lookup_erase_ne different]
  have positive := pointersTo_pos left
  omega

end PointerDictionary

end Redis.Library
