import Mathlib.Data.List.Nodup

/-! Queues whose items carry a flag that says that they are in the queue. -/

namespace Redis.Library

variable {α : Type}

/-- A queue, and the flags of all items. -/
@[ext]
structure FlaggedQueue (α : Type) where
  items : List α
  flag : α → Bool

namespace FlaggedQueue

variable {q : FlaggedQueue α} {a : α} {more : List α}

/-- Every item is in the queue at most once, and is flagged if and only if it is there. -/
structure Exact (q : FlaggedQueue α) : Prop where
  once : q.items.Nodup
  flagged : ∀ a, a ∈ q.items ↔ q.flag a = true

variable [DecidableEq α]

def append (q : FlaggedQueue α) (more : List α) : FlaggedQueue α where
  items := q.items ++ more
  flag a := q.flag a || decide (a ∈ more)

/-- An item is taken out once, and its flag is cleared. -/
def remove (q : FlaggedQueue α) (a : α) : FlaggedQueue α where
  items := q.items.erase a
  flag b := q.flag b && decide (b ≠ a)

@[simp]
theorem append_nil (q : FlaggedQueue α) : q.append [] = q := by
  ext <;> simp [append]

theorem append_append (q : FlaggedQueue α) (first second : List α)
    : (q.append first).append second = q.append (first ++ second) := by
  ext <;> simp [append, Bool.or_assoc]

theorem exact_append (exact : q.Exact)
    : (q.append more).Exact ↔ more.Nodup ∧ ∀ a ∈ more, q.flag a = false := by
  constructor
  · intro appended
    obtain ⟨_, once, apart⟩ := List.nodup_append.mp appended.once
    refine ⟨once, fun a new => ?_⟩
    apply Bool.eq_false_iff.mpr
    intro flagged
    exact apart a ((exact.flagged a).mpr flagged) a new rfl
  · rintro ⟨once, unflagged⟩
    constructor
    · refine List.nodup_append.mpr ⟨exact.once, once, ?_⟩
      rintro a old _ new rfl
      have flagged : q.flag a = true := (exact.flagged a).mp old
      rw [unflagged a new] at flagged
      cases flagged
    · intro a
      simp [append, exact.flagged a]

/-- The flags tell who is in the queue, behind a removal too. -/
theorem Exact.remove (exact : q.Exact) (a : α) : (q.remove a).Exact where
  once := exact.once.erase a
  flagged b := by
    simp [FlaggedQueue.remove, exact.once.mem_erase_iff, exact.flagged b, and_comm]

theorem not_exact_remove (exact : q.Exact) (flagged : q.flag a = true)
    : ¬ ((q.append [a]).remove a).Exact := by
  intro removed
  have still : a ∈ ((q.append [a]).remove a).items := by
    have old : a ∈ q.items := (exact.flagged a).mpr flagged
    simp only [FlaggedQueue.remove, append]
    rw [List.erase_append_left _ old]
    exact List.mem_append_right _ List.mem_cons_self
  have cleared := (removed.flagged a).mp still
  simp [FlaggedQueue.remove] at cleared

theorem append_remove (exact : q.Exact) (unflagged : q.flag a = false)
    : (q.append [a]).remove a = q := by
  have absent : a ∉ q.items := by
    rw [exact.flagged a, unflagged]
    exact Bool.false_ne_true
  ext b
  · simp [FlaggedQueue.remove, append, List.erase_append_right _ absent]
  · by_cases here : b = a
    · simp [FlaggedQueue.remove, here, unflagged]
    · simp [FlaggedQueue.remove, append, here]

end FlaggedQueue

end Redis.Library
