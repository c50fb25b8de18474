import Mathlib.Data.List.Basic
import Mathlib.Tactic

/-! Computations that may stop the process, and the rules for reading their results.
A C function that can abort, fail an assertion or touch memory outside its block is an
`Except` computation whose error names what went wrong.
-/

namespace Redis.Library

variable {ε α β : Type}

/-- The ways in which a modelled C function leaves its defined behaviour.
`outOfMemory` is the deliberate exit of the allocator; the other four are defects.
-/
inductive Fault where
  /-- The allocator cannot serve the request and ends the process. -/
  | outOfMemory
  /-- An `assert` of the source is false. -/
  | assertion
  /-- A read or a write outside the block it addresses. -/
  | outOfBounds
  /-- A null pointer is followed. -/
  | nullPointer
  /-- A loop of the source does not end. -/
  | diverged
deriving DecidableEq, Repr

@[simp] theorem andThen_ok_iff {first : Except ε α} {next : α → Except ε β} {result : β}
    : (first >>= next) = .ok result
      ↔ ∃ value, first = .ok value ∧ next value = .ok result := by
  rcases first with fault | value <;> simp [bind, Except.bind]

@[simp] theorem return_ok_iff {ε α : Type} {value result : α}
    : (pure value : Except ε α) = .ok result ↔ value = result := by
  simp [pure, Except.pure]

@[simp] theorem ok_andThen (value : α) (next : α → Except ε β)
    : ((.ok value : Except ε α) >>= next) = next value := rfl

@[simp] theorem error_andThen (fault : ε) (next : α → Except ε β)
    : ((.error fault : Except ε α) >>= next) = .error fault := rfl

@[simp] theorem map_ok (f : α → β) (value : α)
    : f <$> (.ok value : Except ε α) = .ok (f value) := rfl

@[simp] theorem map_ok_iff {f : α → β} {first : Except ε α} {result : β}
    : f <$> first = .ok result ↔ ∃ value, first = .ok value ∧ f value = result := by
  rcases first with fault | value <;> simp [Functor.map, Except.map]

theorem foldlM_mem_ok {ε σ α : Type} {body : σ → α → Except ε σ} {inv : List α → σ → Prop}
    {items : List α} {state : σ} (init : inv [] state)
    (round : ∀ done item state, item ∈ items → inv done state
      → ∃ next, body state item = .ok next ∧ inv (done ++ [item]) next)
    : ∃ final, items.foldlM body state = .ok final ∧ inv items final := by
  have loop : ∀ done rest state, (∀ item ∈ rest, item ∈ items) → inv done state →
      ∃ final, rest.foldlM body state = .ok final ∧ inv (done ++ rest) final := by
    intro done rest
    induction rest generalizing done with
    | nil => exact fun state _ holds => ⟨state, rfl, by rwa [List.append_nil]⟩
    | cons item rest ih =>
        intro state inside holds
        obtain ⟨next, ran, kept⟩ := round done item state (inside item List.mem_cons_self) holds
        obtain ⟨final, after, done'⟩ :=
          ih (done ++ [item]) next (fun other member =>
            inside other (List.mem_cons_of_mem _ member)) kept
        refine ⟨final, ?_, by rwa [List.append_assoc] at done'⟩
        rw [List.foldlM_cons, ran, ok_andThen, after]
  simpa using loop [] items state (fun _ member => member) init

theorem foldlM_list_ok {ε σ α : Type} {body : σ → α → Except ε σ} {inv : List α → σ → Prop}
    {items : List α} {state : σ} (init : inv [] state)
    (round : ∀ done item state,
      inv done state → ∃ next, body state item = .ok next ∧ inv (done ++ [item]) next)
    : ∃ final, items.foldlM body state = .ok final ∧ inv items final :=
  foldlM_mem_ok init fun done item state _ holds => round done item state holds

theorem foldlM_range'_ok {ε α : Type} {body : α → Nat → Except ε α} {inv : Nat → α → Prop}
    {start count : Nat} {state : α} (init : inv start state)
    (round : ∀ i state,
      start ≤ i → i < start + count → inv i state
      → ∃ next, body state i = .ok next ∧ inv (i + 1) next)
    : ∃ final, (List.range' start count).foldlM body state = .ok final
      ∧ inv (start + count) final := by
  induction count generalizing start state with
  | zero => exact ⟨state, rfl, init⟩
  | succ count ih =>
      obtain ⟨next, ran, kept⟩ := round start state le_rfl (by omega) init
      obtain ⟨final, rest, holds⟩ :=
        ih kept fun i state low high holds => round i state (by omega) (by omega) holds
      refine ⟨final, ?_, ?_⟩
      · rw [List.range'_succ, List.foldlM_cons, ran, ok_andThen, rest]
      · rwa [show start + (count + 1) = start + 1 + count by omega]

/-- A loop over a range keeps what each of its rounds keeps. -/
theorem foldlM_range_ok {ε α : Type} {body : α → Nat → Except ε α} {inv : Nat → α → Prop}
    {count : Nat} {state : α} (init : inv 0 state)
    (round : ∀ i state,
      i < count → inv i state → ∃ next, body state i = .ok next ∧ inv (i + 1) next)
    : ∃ final, (List.range count).foldlM body state = .ok final ∧ inv count final := by
  have loop
      : ∃ final, (List.range' 0 count).foldlM body state = .ok final ∧ inv (0 + count) final :=
    foldlM_range'_ok init fun i state _ high holds => round i state (by omega) holds
  rwa [Nat.zero_add, ← List.range_eq_range'] at loop

end Redis.Library
