import Redis.SortedSet.SkiplistInvariant

/-! Searching a skiplist: where the walks over its levels end. -/

namespace Redis

open Redis.Library

section Search

variable {σ : Type} {zsl : Zskiplist σ} {entries : List (ZslEntry σ)}
  {ahead : Nat → ZskiplistNode σ → Except Fault Bool} {test : Nat → ZslEntry σ → Bool}
  {before after : List (ZslEntry σ)}

/-- The test of a walk looks at the position, the object and the score of a node only. -/
def Tests (ahead : Nat → ZskiplistNode σ → Except Fault Bool) (test : Nat → ZslEntry σ → Bool)
    : Prop :=
  ∀ position node entry,
    node.obj = some entry.obj → node.score = entry.score
      → ahead position node = .ok (test position entry)

/-- The next entry on level `i`, if there is one, is not to be passed. -/
def Blocked (test : Nat → ZslEntry σ → Bool) (i : Nat) (before after : List (ZslEntry σ)) : Prop :=
  ∀ skipped entry rest,
    after = skipped ++ entry :: rest
    → AllLow ZslEntry.height i skipped
    → i < entry.height
    → test (before.length + skipped.length + 1) entry = false

/-- All entries of some height among those after `before` were tested. -/
def Passed (test : Nat → ZslEntry σ → Bool) (i : Nat) (before passed : List (ZslEntry σ)) : Prop :=
  ∀ front entry back,
    passed = front ++ entry :: back
    → i < entry.height
    → test (before.length + front.length + 1) entry = true

theorem Passed.append {i : Nat} {before passed more : List (ZslEntry σ)}
    (first : Passed test i before passed) (second : Passed test i (before ++ passed) more)
    : Passed test i before (passed ++ more) := by
  intro front entry back split tall
  rcases List.append_eq_append_iff.mp split with ⟨common, frontEq, moreEq⟩
    | ⟨common, passedEq, backEq⟩
  · have tested := second common entry back moreEq tall
    rw [frontEq]
    rw [List.length_append] at tested ⊢
    rwa [← Nat.add_assoc]
  · cases common with
    | nil =>
        have tested := second [] entry back (by simpa using backEq.symm) tall
        rw [List.append_nil] at passedEq
        rw [← passedEq]
        simpa using tested
    | cons other common =>
        rw [List.cons_append, List.cons.injEq] at backEq
        obtain ⟨rfl, _⟩ := backEq
        exact first front entry common passedEq tall

theorem ZslRepresents.levelAt (represents : ZslRepresents zsl entries) {i : Nat}
    (below : i < zsl.level) (split : entries = before ++ after)
    (ends : EndsTaller ZslEntry.height i before)
    : zslLevelAt zsl (pointerAt zsl.header before) i = .ok (cellFor i after) :=
  represents.linked i below before after split ends

theorem ZslRepresents.nodeAt (represents : ZslRepresents zsl entries) {entry : ZslEntry σ}
    (split : entries = before ++ entry :: after)
    : ∃ node,
        zslNode zsl entry.ptr = .ok node
        ∧ node.obj = some entry.obj
        ∧ node.score = entry.score
        ∧ node.backward = lastPtr before
        ∧ node.level.length = entry.height :=
  zslNode_of_shape (represents.nodes before entry after split)

/-- Every span that is followed is the number of steps to the next node of its level. -/
def SpansExact (entries : List (ZslEntry σ)) : Prop :=
  ∀ i before after,
    entries = before ++ after
    → EndsTaller ZslEntry.height i before
    → (nextTaller ZslEntry.height i after).1 ≠ none
    → (cellFor i after).span.toNat = (nextTaller ZslEntry.height i after).2

theorem spansExact_of_small (small : entries.length < 2 ^ 32) : SpansExact entries := by
  intro i before after split _ next
  rcases taller_cases ZslEntry.height i after with low | ⟨skipped, entry, rest, rfl, low, tall⟩
  · rw [nextTaller_none low] at next
    exact absurd rfl next
  · rw [cellFor, nextTaller_some low tall, UInt32.toNat_ofNat']
    refine Nat.mod_eq_of_lt ?_
    rw [split] at small
    simp only [List.length_append, List.length_cons] at small
    omega

theorem zslWalk_ok (represents : ZslRepresents zsl entries) (exact : SpansExact entries)
    (tests : Tests ahead test) {i rounds : Nat} (below : i < zsl.level)
    (split : entries = before ++ after)
    (ends : EndsTaller ZslEntry.height i before) (enough : after.length < rounds)
    : ∃ passed rest,
        after = passed ++ rest
        ∧ zslWalk ahead zsl i rounds (pointerAt zsl.header before) before.length
          = .ok (pointerAt zsl.header (before ++ passed), (before ++ passed).length)
        ∧ EndsTaller ZslEntry.height i (before ++ passed)
        ∧ Blocked test i (before ++ passed) rest
        ∧ Passed test i before passed := by
  induction rounds generalizing before after with
  | zero => exact absurd enough (Nat.not_lt_zero _)
  | succ rounds ih =>
      have cell := represents.levelAt below split ends
      have stay (blocked : Blocked test i before after)
          (run : zslWalk ahead zsl i (rounds + 1) (pointerAt zsl.header before) before.length
            = .ok (pointerAt zsl.header before, before.length))
          : ∃ passed rest,
              after = passed ++ rest
              ∧ zslWalk ahead zsl i (rounds + 1) (pointerAt zsl.header before) before.length
                = .ok (pointerAt zsl.header (before ++ passed), (before ++ passed).length)
              ∧ EndsTaller ZslEntry.height i (before ++ passed)
              ∧ Blocked test i (before ++ passed) rest
              ∧ Passed test i before passed := by
        refine ⟨[], after, rfl, ?_, ?_, ?_, ?_⟩
        · rwa [List.append_nil]
        · rwa [List.append_nil]
        · rwa [List.append_nil]
        · intro front entry back parts
          simp at parts
      rcases taller_cases ZslEntry.height i after with
        low | ⟨skipped, entry, rest, rfl, low, tall⟩
      · refine stay ?_ ?_
        · intro skipped entry rest parts _ tall
          exact absurd (low entry (by simp [parts])) (Nat.not_le.mpr tall)
        · rw [zslWalk, cell, ok_andThen, cellFor, nextTaller_none low]
          rfl
      · have spanEq : (UInt32.ofNat (skipped.length + 1)).toNat = skipped.length + 1 := by
          have span := exact i before (skipped ++ entry :: rest) split ends
          rw [cellFor, nextTaller_some low tall] at span
          exact span (Option.some_ne_none entry)
        have split' : entries = (before ++ skipped ++ [entry]) ++ rest := by
          rw [split]
          simp
        obtain ⟨node, read, obj, score, _⟩ :=
          represents.nodeAt (show entries = (before ++ skipped) ++ entry :: rest by simp [split])
        have tested := tests (before.length + (skipped.length + 1)) node entry obj score
        have run
            : zslWalk ahead zsl i (rounds + 1) (pointerAt zsl.header before) before.length
              = if test (before.length + (skipped.length + 1)) entry = true then
                  zslWalk ahead zsl i rounds entry.ptr (before.length + (skipped.length + 1))
                else .ok (pointerAt zsl.header before, before.length) := by
          rw [zslWalk, cell, ok_andThen, cellFor, nextTaller_some low tall]
          simp only [Option.map_some, spanEq]
          rw [read, ok_andThen, tested, ok_andThen]
          rfl
        cases passes : test (before.length + (skipped.length + 1)) entry with
        | false =>
            rw [passes, if_neg (by simp)] at run
            refine stay ?_ run
            intro skipped' entry' rest' parts low' tall'
            have next := nextTaller_some low tall rest
            rw [parts, nextTaller_some low' tall'] at next
            simp only [Prod.mk.injEq, Option.some.injEq] at next
            obtain ⟨rfl, lengths⟩ := next
            rw [Nat.add_assoc, lengths]
            exact passes
        | true =>
            rw [passes, if_pos rfl] at run
            have ends' : EndsTaller ZslEntry.height i (before ++ skipped ++ [entry]) := by
              intro other member
              rw [List.getLast?_append_of_ne_nil _ (by simp)] at member
              cases member
              exact tall
            simp only [List.length_append, List.length_cons] at enough
            obtain ⟨passed, rest', restEq, walked, stops, blocked, tested'⟩ :=
              ih split' ends' (by omega)
            rw [pointerAt_concat] at walked
            have length : (before ++ skipped ++ [entry]).length
                = before.length + (skipped.length + 1) := by
              simp
            have regroup
                : before ++ (skipped ++ [entry] ++ passed) = before ++ skipped ++ [entry]
                  ++ passed := by
              simp
            refine ⟨skipped ++ [entry] ++ passed, rest', by simp [restEq], ?_, ?_, ?_, ?_⟩
            · rw [run, ← length, walked, regroup]
            · rwa [regroup]
            · rwa [regroup]
            · refine Passed.append ?_ (by simpa [List.append_assoc] using tested')
              intro front other back parts tall'
              rcases List.append_eq_append_iff.mp parts with
                ⟨common, frontEq, singleEq⟩ | ⟨common, skippedEq, backEq⟩
              · cases common with
                | nil =>
                    simp only [List.nil_append, List.cons.injEq] at singleEq
                    rw [← singleEq.1, frontEq, List.append_nil, Nat.add_assoc]
                    exact passes
                | cons first common => simp at singleEq
              · cases common with
                | nil =>
                    simp only [List.nil_append, List.cons.injEq] at backEq
                    rw [backEq.1, ← List.append_nil front, ← skippedEq, Nat.add_assoc]
                    exact passes
                | cons first common =>
                    rw [List.cons_append, List.cons.injEq] at backEq
                    have inSkipped : other ∈ skipped := by
                      rw [skippedEq, backEq.1]
                      simp
                    exact absurd (low other inSkipped) (Nat.not_le.mpr tall')

theorem Passed.higher {i j : Nat} {before passed : List (ZslEntry σ)}
    (done : Passed test i before passed) (order : i ≤ j)
    : Passed test j before passed := by
  intro front entry back parts tall
  exact done front entry back parts (Nat.lt_of_le_of_lt order tall)

theorem Blocked.low {i : Nat} {before passed rest : List (ZslEntry σ)}
    (blocked : Blocked test i before (passed ++ rest)) (done : Passed test i before passed)
    : AllLow ZslEntry.height i passed := by
  rcases taller_cases ZslEntry.height i passed with low | ⟨skipped, entry, more, rfl, low, tall⟩
  · exact low
  · have refused := blocked skipped entry (more ++ rest) (by simp) low tall
    have tested := done skipped entry more rfl tall
    rw [refused] at tested
    cases tested

/-- The last entry of those that were passed was tested. -/
def LastTested (test : Nat → ZslEntry σ → Bool) (before passed : List (ZslEntry σ)) : Prop :=
  ∀ entry ∈ passed.getLast?, test (before.length + passed.length) entry = true

theorem Passed.lastTested {i : Nat} {before passed : List (ZslEntry σ)}
    (done : Passed test i before passed) (ends : EndsTaller ZslEntry.height i (before ++ passed))
    : LastTested test before passed := by
  intro entry last
  obtain ⟨init, rfl⟩ := List.getLast?_eq_some_iff.mp last
  have tall : i < entry.height := ends entry (by simp)
  have tested := done init entry [] rfl tall
  simpa [Nat.add_assoc] using tested

/-- The search over all levels: `update` has the last entry on each level in front of the place
where the search ends.
-/
structure Descended (test : Nat → ZslEntry σ → Bool) (header levels : Nat)
    (before passed rest : List (ZslEntry σ)) (update : List (Nat × Nat)) : Prop where
  size : update.length = levels
  nodes : ∀ i < levels, update[i]?
    = some (pointerAt header (upToTaller ZslEntry.height i (before ++ passed)),
        (upToTaller ZslEntry.height i (before ++ passed)).length)
  tested : Passed test (levels - 1) before passed
  last : LastTested test before passed
  stays : levels = 0 → passed = []
  blocked : 0 < levels → Blocked test 0 (before ++ passed) rest

theorem zslDescend_ok (represents : ZslRepresents zsl entries) (exact : SpansExact entries)
    (tests : Tests ahead test) {levels : Nat} (below : levels ≤ zsl.level)
    (split : entries = before ++ after) (ends : ∀ i < levels, EndsTaller ZslEntry.height i before)
    : ∃ passed rest update,
        after = passed ++ rest
        ∧ zslDescend ahead zsl levels (pointerAt zsl.header before) before.length = .ok update
        ∧ Descended test zsl.header levels before passed rest update := by
  induction levels generalizing before after with
  | zero =>
      refine ⟨[], after, [], rfl, rfl, rfl, ?_, ?_, ?_, fun _ => rfl, ?_⟩
      · intro i outside
        exact absurd outside (Nat.not_lt_zero i)
      · intro front entry back parts
        simp at parts
      · intro entry last
        cases last
      · intro positive
        exact absurd positive (Nat.lt_irrefl 0)
  | succ i ih =>
      have enough : after.length < zsl.length + 1 := by
        rw [represents.length, split, List.length_append]
        omega
      obtain ⟨first, middle, rfl, walked, stops, refused, done⟩ :=
        zslWalk_ok represents exact tests (Nat.lt_of_succ_le below) split (ends i (by omega)) enough
      have split' : entries = before ++ first ++ middle := by
        rw [split, List.append_assoc]
      obtain ⟨more, rest, update, rfl, descended, inner⟩ :=
        ih (by omega) split' (fun j lower entry last =>
          Nat.lt_trans lower (stops entry last))
      have low : AllLow ZslEntry.height i more :=
        refused.low (inner.tested.higher (by omega))
      have top : upToTaller ZslEntry.height i (before ++ (first ++ more)) = before ++ first := by
        rw [← List.append_assoc]
        exact upToTaller_eq stops low
      refine ⟨first ++ more, rest, update ++ [(pointerAt zsl.header (before ++ first),
        (before ++ first).length)], by simp, ?_, ?_, ?_, ?_, ?_, ?_, ?_⟩
      · rw [zslDescend, walked, ok_andThen]
        simp only
        rw [descended, ok_andThen]
        rfl
      · rw [List.length_append, inner.size]
        rfl
      · intro j inside
        rcases Nat.lt_succ_iff_lt_or_eq.mp inside with lower | rfl
        · rw [List.getElem?_append_left (by rw [inner.size]; exact lower), inner.nodes j lower,
            List.append_assoc]
        · rw [List.getElem?_append_right (by rw [inner.size]), inner.size, top]
          simp
      · exact Passed.append done (inner.tested.higher (by omega))
      · rcases List.eq_nil_or_concat more with rfl | ⟨init, last, rfl⟩
        · rw [List.append_nil]
          exact done.lastTested stops
        · intro entry found
          have tested := inner.last entry (by simpa using found)
          simpa [Nat.add_assoc] using tested
      · intro none
        exact absurd none (Nat.succ_ne_zero i)
      · intro _
        rcases Nat.eq_zero_or_pos i with rfl | positive
        · rw [inner.stays rfl] at refused ⊢
          rw [List.append_nil]
          exact refused
        · rw [← List.append_assoc]
          exact inner.blocked positive

theorem ZslRepresents.level_pos (represents : ZslRepresents zsl entries) : 0 < zsl.level := by
  rcases represents.level_used with one | ⟨entry, member, tallest⟩
  · rw [one]
    exact Nat.one_pos
  · rw [← tallest]
    exact (represents.heights entry member).1

/-- The search finds the last entry of every level that passes the test. -/
theorem zslSearch_ok (represents : ZslRepresents zsl entries) (exact : SpansExact entries)
    (tests : Tests ahead test)
    : ∃ lo hi update,
        entries = lo ++ hi
        ∧ zslDescend ahead zsl zsl.level zsl.header 0 = .ok update
        ∧ Descended test zsl.header zsl.level [] lo hi update := by
  obtain ⟨lo, hi, update, parts, descended, found⟩ :=
    zslDescend_ok represents exact tests (Nat.le_refl zsl.level) (List.nil_append entries).symm
      (fun _ _ _ last => nomatch last)
  exact ⟨lo, hi, update, parts, descended, found⟩

end Search

end Redis
