import Mathlib.Logic.Function.Basic
import Mathlib.Tactic

/-! Objects that are shared by pointers and that count the pointers to them. -/

namespace Redis.Library

variable {β : Type}

/-- An object with the number of references to it. -/
structure Counted (β : Type) where
  value : β
  refcount : Nat

/-- The objects by address. Addresses from `next` on were never used. -/
structure CountedHeap (β : Type) where
  object : Nat → Option (Counted β)
  next : Nat

namespace CountedHeap

variable {h : CountedHeap β} {a b : Nat} {refs : Nat → Nat} {v : β}

def value (h : CountedHeap β) (a : Nat) : Option β := (h.object a).map Counted.value

def refcount (h : CountedHeap β) (a : Nat) : Nat := ((h.object a).map Counted.refcount).getD 0

def alloc (h : CountedHeap β) (v : β) : CountedHeap β where
  object := Function.update h.object h.next (some ⟨v, 1⟩)
  next := h.next + 1

def incr (h : CountedHeap β) (a : Nat) : CountedHeap β :=
  { h with
    object := Function.update h.object a ((h.object a).map fun o => ⟨o.value, o.refcount + 1⟩) }

/-- The object is freed with its last reference. -/
def decr (h : CountedHeap β) (a : Nat) : CountedHeap β :=
  { h with
    object :=
      Function.update h.object a
        ((h.object a).bind fun o =>
          if o.refcount = 1 then none else some ⟨o.value, o.refcount - 1⟩) }

def store (h : CountedHeap β) (a : Nat) (v : β) : CountedHeap β :=
  { h with object := Function.update h.object a ((h.object a).map fun o => ⟨v, o.refcount⟩) }

/-- The counts are the numbers of references, and exactly the objects without one are free. -/
structure Counts (h : CountedHeap β) (refs : Nat → Nat) : Prop where
  count : ∀ a, h.refcount a = refs a
  live : ∀ a, 0 < refs a → (h.object a).isSome
  unused : ∀ a, h.next ≤ a → h.object a = none

theorem Counts.value_isSome (counts : h.Counts refs) (referred : 0 < refs a)
    : ∃ v, h.value a = some v := by
  obtain ⟨o, found⟩ := Option.isSome_iff_exists.mp (counts.live a referred)
  exact ⟨o.value, by rw [value, found, Option.map_some]⟩

theorem Counts.next_free (counts : h.Counts refs) : refs h.next = 0 := by
  rw [← counts.count, refcount, counts.unused h.next le_rfl]
  rfl

theorem Counts.alloc (counts : h.Counts refs) (v : β)
    : (h.alloc v).Counts (Function.update refs h.next 1) := by
  refine ⟨fun b => ?_, fun b referred => ?_, fun b above => ?_⟩
  · by_cases same : b = h.next
    · subst same
      simp [refcount, CountedHeap.alloc]
    · simp only [refcount, CountedHeap.alloc, Function.update_of_ne same]
      exact counts.count b
  · by_cases same : b = h.next
    · subst same
      simp [CountedHeap.alloc]
    · rw [Function.update_of_ne same] at referred
      simp only [CountedHeap.alloc, Function.update_of_ne same]
      exact counts.live b referred
  · have fresh : b ≠ h.next := fun same => by
      rw [same] at above
      exact absurd above (by simp [CountedHeap.alloc])
    simp only [CountedHeap.alloc, Function.update_of_ne fresh]
    exact counts.unused b (Nat.le_of_succ_le above)

/-- A pointer that is copied is counted. -/
theorem Counts.incr (counts : h.Counts refs) (referred : 0 < refs a)
    : (h.incr a).Counts (Function.update refs a (refs a + 1)) := by
  obtain ⟨o, found⟩ := Option.isSome_iff_exists.mp (counts.live a referred)
  refine ⟨fun b => ?_, fun b _ => ?_, fun b above => ?_⟩
  · by_cases same : b = a
    · subst same
      have count := counts.count b
      simp only [refcount, found, Option.map_some, Option.getD_some] at count
      simp [refcount, CountedHeap.incr, found, count]
    · simp only [refcount, CountedHeap.incr, Function.update_of_ne same]
      exact counts.count b
  · by_cases same : b = a
    · subst same
      simp [CountedHeap.incr, found]
    · rw [Function.update_of_ne same] at *
      simp only [CountedHeap.incr, Function.update_of_ne same]
      exact counts.live b ‹_›
  · have other : b ≠ a := fun same => by
      rw [same] at above
      rw [counts.unused a above] at found
      cases found
    simp only [CountedHeap.incr, Function.update_of_ne other]
    exact counts.unused b above

/-- A pointer that goes away is counted no more. -/
theorem Counts.decr (counts : h.Counts refs) (referred : 0 < refs a)
    : (h.decr a).Counts (Function.update refs a (refs a - 1)) := by
  obtain ⟨o, found⟩ := Option.isSome_iff_exists.mp (counts.live a referred)
  have count : o.refcount = refs a := by
    rw [← counts.count a, refcount, found]
    rfl
  refine ⟨fun b => ?_, fun b left => ?_, fun b above => ?_⟩
  · by_cases same : b = a
    · subst same
      by_cases last : o.refcount = 1
      · simp [refcount, CountedHeap.decr, found, last, ← count]
      · rw [count] at last
        simp [refcount, CountedHeap.decr, found, last, count]
    · simp only [refcount, CountedHeap.decr, Function.update_of_ne same]
      exact counts.count b
  · by_cases same : b = a
    · subst same
      rw [Function.update_self] at left
      have many : o.refcount ≠ 1 := by omega
      simp [CountedHeap.decr, found, many]
    · rw [Function.update_of_ne same] at left
      simp only [CountedHeap.decr, Function.update_of_ne same]
      exact counts.live b left
  · have other : b ≠ a := fun same => by
      rw [same] at above
      rw [counts.unused a above] at found
      cases found
    simp only [CountedHeap.decr, Function.update_of_ne other]
    exact counts.unused b above

theorem Counts.store (counts : h.Counts refs) (a : Nat) (v : β) : (h.store a v).Counts refs := by
  refine ⟨fun b => ?_, fun b referred => ?_, fun b above => ?_⟩
  · rw [← counts.count b]
    by_cases same : b = a
    · subst same
      cases found : h.object b <;> simp [refcount, CountedHeap.store, found]
    · simp only [refcount, CountedHeap.store, Function.update_of_ne same]
  · by_cases same : b = a
    · subst same
      simpa [CountedHeap.store] using counts.live b referred
    · simp only [CountedHeap.store, Function.update_of_ne same]
      exact counts.live b referred
  · by_cases same : b = a
    · subst same
      simp [CountedHeap.store, counts.unused b above]
    · simp only [CountedHeap.store, Function.update_of_ne same]
      exact counts.unused b above

theorem Counts.congr {refs' : Nat → Nat} (counts : h.Counts refs) (same : ∀ a, refs' a = refs a)
    : h.Counts refs' := by
  rwa [funext same]

-- Values

theorem value_alloc_next : (h.alloc v).value h.next = some v := by simp [value, alloc]

theorem value_alloc_other (other : b ≠ h.next) : (h.alloc v).value b = h.value b := by
  simp only [value, alloc, Function.update_of_ne other]

@[simp]
theorem value_incr : (h.incr a).value b = h.value b := by
  by_cases same : b = a
  · subst same
    cases found : h.object b <;> simp [value, incr, found]
  · simp only [value, incr, Function.update_of_ne same]

theorem value_decr_other (other : b ≠ a) : (h.decr a).value b = h.value b := by
  simp only [value, decr, Function.update_of_ne other]

theorem value_decr_shared (counts : h.Counts refs) (shared : 1 < refs a)
    : (h.decr a).value a = h.value a := by
  have count := counts.count a
  cases found : h.object a with
  | none => simp [value, decr, found]
  | some o =>
      have many : o.refcount ≠ 1 := by
        simp only [refcount, found, Option.map_some, Option.getD_some] at count
        omega
      simp [value, decr, found, many]

theorem value_decr (counts : h.Counts refs)
    (left : 0 < Function.update refs a (refs a - 1) b)
    : (h.decr a).value b = h.value b := by
  by_cases same : b = a
  · subst same
    rw [Function.update_self] at left
    exact value_decr_shared counts (by omega)
  · exact value_decr_other same

theorem refcount_decr_other (other : b ≠ a) : (h.decr a).refcount b = h.refcount b := by
  simp only [refcount, decr, Function.update_of_ne other]

theorem value_store_self {old : β} (there : h.value a = some old)
    : (h.store a v).value a = some v := by
  cases found : h.object a with
  | none => simp [value, found] at there
  | some o => simp [value, store, found]

theorem value_store_other (other : b ≠ a) : (h.store a v).value b = h.value b := by
  simp only [value, store, Function.update_of_ne other]

end CountedHeap

end Redis.Library
