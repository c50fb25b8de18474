import Redis.SortedSet.SkiplistInsertion

/-! The ranks of a skiplist: `zslGetRank` and `zslGetElementByRank` walk down the levels and add the
spans that they follow.
-/

namespace Redis

open Redis.Library

section Model

variable {σ ρ : Type}

/-- The outer loop of the searches for a rank or by a rank: `found` looks at the node that a level
ends at, and the first answer is returned.
-/
def zslSeek (ahead : Nat → ZskiplistNode σ → Except Fault Bool)
    (found : Nat → Nat → Except Fault (Option ρ)) (zsl : Zskiplist σ)
    : (levels x traversed : Nat) → Except Fault (Option ρ)
  | 0, _, _ => pure none
  | i + 1, x, traversed => do
      let (x, traversed) ← zslWalk ahead zsl i (zsl.length + 1) x traversed
      match ← found x traversed with
      | some answer => pure (some answer)
      | none => zslSeek ahead found zsl i x traversed

def zslGetElementByRank (zsl : Zskiplist σ) (rank : Nat) : Except Fault (Option Nat) :=
  zslSeek (fun traversed _ => pure (decide (traversed ≤ rank)))
    (fun x traversed => pure (if traversed = rank then some x else none)) zsl zsl.level zsl.header 0

variable [LinearOrder σ]

/-- The node comes before a score and an object or has them. -/
def zslComesUpTo (node : ZskiplistNode σ) (score : σ) (obj : List UInt8) : Except Fault Bool :=
  if node.score < score then pure true
  else if node.score = score then do
    pure (compareStringObjects (← zslObj node) obj ≤ 0)
  else pure false

/-- `x->obj && equalStringObjects(x->obj,o)`. -/
def zslHasObj (zsl : Zskiplist σ) (x : Nat) (obj : List UInt8) : Except Fault Bool := do
  let node ← zslNode zsl x
  match node.obj with
  | some own => pure (equalStringObjects own obj)
  | none => pure false

def zslGetRank (zsl : Zskiplist σ) (score : σ) (obj : List UInt8) : Except Fault Nat := do
  let rank ← zslSeek (fun _ node => zslComesUpTo node score obj)
    (fun x rank => do
      if ← zslHasObj zsl x obj then pure (some rank) else pure none)
    zsl zsl.level zsl.header 0
  pure (rank.getD 0)

end Model

section Seeking

variable {σ ρ : Type} {zsl : Zskiplist σ} {entries lo hi : List (ZslEntry σ)}
  {ahead : Nat → ZskiplistNode σ → Except Fault Bool} {test : Nat → ZslEntry σ → Bool}

/-- The test passes exactly the entries up to a place. -/
def Cuts (test : Nat → ZslEntry σ → Bool) (lo hi : List (ZslEntry σ)) : Prop :=
  ∀ front entry back,
    lo ++ hi = front ++ entry :: back → test (front.length + 1) entry
      = decide (front.length < lo.length)

theorem Cuts.passed {before after passed rest : List (ZslEntry σ)} {i : Nat}
    (cuts : Cuts test lo hi) (start : lo = before ++ after) (split : after ++ hi = passed ++ rest)
    (ends : EndsTaller ZslEntry.height i (before ++ passed))
    (blocked : Blocked test i (before ++ passed) rest) (done : Passed test i before passed)
    : ∃ left, lo = before ++ passed ++ left ∧ AllLow ZslEntry.height i left := by
  have whole : lo ++ hi = before ++ passed ++ rest := by
    rw [start, List.append_assoc, split, List.append_assoc]
  have reached : (before ++ passed).length ≤ lo.length := by
    rcases List.eq_nil_or_concat passed with rfl | ⟨init, last, rfl⟩
    · rw [List.append_nil, start, List.length_append]
      omega
    · rw [List.concat_eq_append] at ends done whole ⊢
      have tall : i < last.height := ends last (by simp)
      have tested := done init last [] rfl tall
      have place := cuts (before ++ init) last rest (by rw [whole]; simp)
      rw [List.length_append, tested] at place
      have inside : before.length + init.length < lo.length := by simpa using place.symm
      simp only [List.length_append, List.length_singleton]
      omega
  obtain ⟨left, place⟩ : ∃ left, lo = before ++ passed ++ left := by
    rcases List.append_eq_append_iff.mp whole with ⟨more, prefixed, _⟩ | ⟨left, same, _⟩
    · have lengths := congrArg List.length prefixed
      simp only [List.length_append] at lengths reached
      have none : more = [] := List.eq_nil_of_length_eq_zero (by omega)
      exact ⟨[], by rw [prefixed, none]; simp⟩
    · exact ⟨left, same⟩
  refine ⟨left, place, ?_⟩
  have restEq : rest = left ++ hi := by
    rw [place, List.append_assoc] at whole
    exact (List.append_cancel_left whole).symm
  rcases taller_cases ZslEntry.height i left with low | ⟨skipped, entry, more, rfl, low, tall⟩
  · exact low
  · have refused := blocked skipped entry (more ++ hi) (by rw [restEq]; simp) low tall
    have passes := cuts (before ++ passed ++ skipped) entry (more ++ hi) (by rw [place]; simp)
    rw [List.length_append, refused, place] at passes
    simp at passes
    omega

theorem zslSeek_ok {found : Nat → Nat → Except Fault (Option ρ)}
    {answer : List (ZslEntry σ) → Option ρ}
    (represents : ZslRepresents zsl (lo ++ hi)) (exact : SpansExact (lo ++ hi))
    (tests : Tests ahead test) (cuts : Cuts test lo hi)
    (looks : ∀ front, front <+: lo → found (pointerAt zsl.header front) front.length
      = .ok (answer front))
    (early : ∀ front, front <+: lo → front ≠ lo → answer front = none)
    {levels : Nat} (below : levels ≤ zsl.level) {before after : List (ZslEntry σ)}
    (start : lo = before ++ after) (ends : ∀ i < levels, EndsTaller ZslEntry.height i before)
    : zslSeek ahead found zsl levels (pointerAt zsl.header before) before.length
      = .ok (if levels = 0 then none else answer lo) := by
  induction levels generalizing before after with
  | zero => rfl
  | succ i ih =>
      have split : lo ++ hi = before ++ (after ++ hi) := by rw [start, List.append_assoc]
      have enough : (after ++ hi).length < zsl.length + 1 := by
        rw [represents.length, split]
        simp only [List.length_append]
        omega
      obtain ⟨passed, rest, parts, walked, stops, blocked, done⟩ :=
        zslWalk_ok represents exact tests (Nat.lt_of_succ_le below) split (ends i (by omega)) enough
      obtain ⟨left, place, low⟩ := cuts.passed start parts stops blocked done
      have looked := looks (before ++ passed) ⟨left, place.symm⟩
      have deeper := ih (by omega) place (fun j lower entry last =>
        Nat.lt_trans lower (stops entry last))
      rw [zslSeek, walked, ok_andThen]
      dsimp only
      rw [looked, ok_andThen, if_neg (Nat.succ_ne_zero i)]
      by_cases arrived : before ++ passed = lo
      · rw [arrived] at deeper ⊢
        cases reply : answer lo with
        | some value => rfl
        | none =>
            rw [reply, ite_self] at deeper
            exact deeper
      · -- On level 0 nothing is left out, so the walk goes on below.
        have positive : i ≠ 0 := by
          rintro rfl
          refine arrived ?_
          cases left with
          | nil => rw [place, List.append_nil]
          | cons entry left =>
              have tall := (represents.heights entry (by rw [place]; simp)).1
              have flat := low entry List.mem_cons_self
              omega
        rw [early _ ⟨left, place.symm⟩ arrived]
        rw [if_neg positive] at deeper
        exact deeper

end Seeking

section Ranks

variable {σ : Type} {zsl : Zskiplist σ} {entries : List (ZslEntry σ)}
  {before after : List (ZslEntry σ)} {entry : ZslEntry σ}

theorem zslSeek_header {ρ : Type} {lo hi : List (ZslEntry σ)}
    {ahead : Nat → ZskiplistNode σ → Except Fault Bool} {test : Nat → ZslEntry σ → Bool}
    {found : Nat → Nat → Except Fault (Option ρ)} {answer : List (ZslEntry σ) → Option ρ}
    (represents : ZslRepresents zsl (lo ++ hi)) (exact : SpansExact (lo ++ hi))
    (tests : Tests ahead test) (cuts : Cuts test lo hi)
    (looks : ∀ front, front <+: lo → found (pointerAt zsl.header front) front.length
      = .ok (answer front))
    (early : ∀ front, front <+: lo → front ≠ lo → answer front = none)
    : zslSeek ahead found zsl zsl.level zsl.header 0 = .ok (answer lo) := by
  have ran := zslSeek_ok represents exact tests cuts looks early (Nat.le_refl zsl.level)
    (List.nil_append lo).symm (fun _ _ _ last => nomatch last)
  rwa [if_neg (Nat.pos_iff_ne_zero.mp represents.level_pos)] at ran

theorem atMost_tests (rank : Nat)
    : Tests (fun traversed (_ : ZskiplistNode σ) => pure (decide (traversed ≤ rank)))
        (fun traversed _ => decide (traversed ≤ rank)) :=
  fun _ _ _ _ _ => rfl

theorem zslGetElementByRank_ok (represents : ZslRepresents zsl entries) (exact : SpansExact entries)
    (split : entries = before ++ entry :: after)
    : zslGetElementByRank zsl (before.length + 1) = .ok (some entry.ptr) := by
  have parts : entries = (before ++ [entry]) ++ after := by simp [split]
  subst parts
  have length : (before ++ [entry]).length = before.length + 1 := by simp
  have cuts : Cuts (fun traversed _ => decide (traversed ≤ before.length + 1)) (before ++ [entry])
      after := by
    intro front other back _
    rw [length]
    exact decide_eq_decide.mpr (by omega)
  let answer (front : List (ZslEntry σ)) : Option Nat :=
    if front.length = before.length + 1 then some (pointerAt zsl.header front) else none
  have early : ∀ front, front <+: before ++ [entry] → front ≠ before ++ [entry]
      → answer front = none := by
    intro front prefixed other
    refine if_neg fun same => other ?_
    exact prefixed.eq_of_length (by rw [same, length])
  have ran
      : zslGetElementByRank zsl (before.length + 1) = .ok (answer (before ++ [entry])) :=
    zslSeek_header represents exact (atMost_tests _) cuts (fun _ _ => rfl) early
  rw [ran]
  simp only [answer, length, if_true, pointerAt_concat]

theorem zslGetElementByRank_past (represents : ZslRepresents zsl entries)
    (exact : SpansExact entries) {rank : Nat} (past : entries.length < rank)
    : zslGetElementByRank zsl rank = .ok none := by
  have parts : entries = entries ++ [] := (List.append_nil entries).symm
  rw [parts] at represents exact
  have cuts : Cuts (fun traversed _ => decide (traversed ≤ rank)) entries [] := by
    intro front other back split
    have lengths := congrArg List.length split
    simp only [List.length_append, List.length_nil, List.length_cons] at lengths
    exact decide_eq_decide.mpr (by omega)
  have short {front : List (ZslEntry σ)} (prefixed : front <+: entries) : front.length ≠ rank := by
    have bound := prefixed.length_le
    omega
  let found (x traversed : Nat) : Except Fault (Option Nat) :=
    pure (if traversed = rank then some x else none)
  have looks
      : ∀ front, front <+: entries → found (pointerAt zsl.header front) front.length
        = .ok none := by
    intro front prefixed
    simp only [found, if_neg (short prefixed)]
    rfl
  exact zslSeek_header represents exact (atMost_tests rank) cuts looks (fun _ _ _ => rfl)

variable [LinearOrder σ]

/-- The order of a sorted set: by score, then by the bytes of the objects, which are all different.
-/
structure ZslOrdered (entries : List (ZslEntry σ)) : Prop where
  sorted : entries.Pairwise fun a b => a.before b.score b.obj
  unique : (entries.map ZslEntry.obj).Nodup

/-- The entry comes before a score and an object or has them. -/
def ZslEntry.upTo (entry : ZslEntry σ) (score : σ) (obj : List UInt8) : Prop :=
  entry.score < score ∨ entry.score = score ∧ entry.obj ≤ obj

instance (entry : ZslEntry σ) (score : σ) (obj : List UInt8) : Decidable (entry.upTo score obj) :=
  inferInstanceAs (Decidable (_ ∨ _))

theorem zslComesUpTo_tests (score : σ) (obj : List UInt8)
    : Tests (fun _ node => zslComesUpTo node score obj)
        (fun _ entry => decide (entry.upTo score obj)) := by
  intro _ node entry sameObj sameScore
  have compared : decide (compareStringObjects entry.obj obj ≤ 0) = decide (entry.obj ≤ obj) := by
    have greater := compareBytes_gt entry.obj obj
    refine decide_eq_decide.mpr ?_
    rw [← not_lt (a := obj), ← greater, Int.not_lt]
    rfl
  change zslComesUpTo node score obj = .ok (decide (entry.upTo score obj))
  rw [zslComesUpTo, sameScore]
  by_cases less : entry.score < score
  · rw [if_pos less, decide_eq_true (show entry.upTo score obj from .inl less)]
    rfl
  · rw [if_neg less]
    by_cases equal : entry.score = score
    · have order : entry.upTo score obj ↔ entry.obj ≤ obj := by
        simp [ZslEntry.upTo, equal]
      rw [if_pos equal, zslObj, sameObj]
      simp only [ok_andThen]
      rw [compared, decide_eq_decide.mpr order]
      rfl
    · have behind : ¬ entry.upTo score obj := by
        rintro (first | ⟨same, _⟩)
        · exact less first
        · exact equal same
      rw [if_neg equal, decide_eq_false behind]
      rfl

theorem ZslOrdered.cuts (ordered : ZslOrdered entries)
    (split : entries = before ++ [entry] ++ after)
    : Cuts (fun _ other => decide (other.upTo entry.score entry.obj))
      (before ++ [entry]) after := by
  have sorted := ordered.sorted
  rw [split, List.append_assoc, List.singleton_append] at sorted
  obtain ⟨_, later, earlier⟩ := List.pairwise_append.mp sorted
  have behind := (List.pairwise_cons.mp later).1
  have self : entry.upTo entry.score entry.obj := .inr ⟨rfl, le_rfl⟩
  have ahead : ∀ other ∈ before, other.upTo entry.score entry.obj := by
    intro other member
    rcases earlier other member entry List.mem_cons_self with less | ⟨equal, less⟩
    · exact .inl less
    · exact .inr ⟨equal, less.le⟩
  have past : ∀ other ∈ after, ¬other.upTo entry.score entry.obj := by
    intro other member
    rcases behind other member with less | ⟨equal, less⟩
    · rintro (wrong | ⟨wrong, _⟩)
      · exact lt_asymm less wrong
      · exact less.ne wrong.symm
    · rintro (wrong | ⟨_, wrong⟩)
      · exact wrong.ne equal.symm
      · exact not_lt.mpr wrong less
  intro front other back parts
  rw [List.append_assoc] at parts
  rw [List.length_append, List.length_singleton, decide_eq_decide]
  rcases List.append_eq_append_iff.mp parts with ⟨common, rfl, rest⟩ | ⟨common, rfl, rest⟩
  · cases common with
    | nil =>
        obtain ⟨rfl, _⟩ := List.cons.inj rest
        exact iff_of_true self (by simp)
    | cons first common =>
        have tail : after = common ++ other :: back := (List.cons.inj rest).2
        obtain ⟨rfl, _⟩ := List.cons.inj rest
        exact iff_of_false (past other (by rw [tail]; simp)) (by simp)
  · cases common with
    | nil =>
        obtain ⟨rfl, _⟩ := List.cons.inj rest
        exact iff_of_true self (by simp)
    | cons first common =>
        obtain ⟨rfl, _⟩ := List.cons.inj rest
        refine iff_of_true (ahead other (by simp)) ?_
        simp only [List.length_append, List.length_cons]
        omega

omit [LinearOrder σ] in
theorem zslHasObj_ok (represents : ZslRepresents zsl entries) (obj : List UInt8)
    {front : List (ZslEntry σ)} (prefixed : front <+: entries)
    : zslHasObj zsl (pointerAt zsl.header front) obj
      = .ok (front.getLast?.any fun entry => entry.obj = obj) := by
  have same (own : List UInt8) : equalStringObjects own obj = decide (own = obj) :=
    decide_eq_decide.mpr (compareBytes_eq own obj)
  obtain ⟨back, split⟩ := prefixed
  rcases List.eq_nil_or_concat front with rfl | ⟨init, last, rfl⟩
  · obtain ⟨score, shape⟩ := represents.header
    obtain ⟨node, read, none, _⟩ := zslNode_of_shape shape
    rw [zslHasObj, pointerAt_nil, read, ok_andThen, none]
    rfl
  · rw [List.concat_eq_append] at split ⊢
    obtain ⟨node, read, own, _⟩ :=
      represents.nodeAt (show entries = init ++ last :: back by rw [← split]; simp)
    rw [zslHasObj, pointerAt_concat, read, ok_andThen, own]
    simp [same, pure, Except.pure]

theorem zslGetRank_ok (represents : ZslRepresents zsl entries) (exact : SpansExact entries)
    (ordered : ZslOrdered entries)
    (split : entries = before ++ entry :: after)
    : zslGetRank zsl entry.score entry.obj = .ok (before.length + 1) := by
  have parts : entries = (before ++ [entry]) ++ after := by simp [split]
  have cuts := ordered.cuts parts
  have unique := ordered.unique
  subst parts
  have outside : entry.obj ∉ before.map ZslEntry.obj := by
    rw [List.append_assoc, List.map_append] at unique
    exact fun member => (List.nodup_append.mp unique).2.2 _ member entry.obj (by simp) rfl
  let answer (front : List (ZslEntry σ)) : Option Nat :=
    if front.getLast?.any fun other => other.obj = entry.obj then some front.length else none
  have looks
      : ∀ front, front <+: before ++ [entry] →
          (do
            if ← zslHasObj zsl (pointerAt zsl.header front) entry.obj then pure (some front.length)
            else pure none : Except Fault (Option Nat))
          = .ok (answer front) := by
    intro front prefixed
    rw [zslHasObj_ok represents entry.obj (prefixed.trans (List.prefix_append _ _)), ok_andThen]
    simp only [answer]
    split <;> rfl
  have early : ∀ front, front <+: before ++ [entry] → front ≠ before ++ [entry]
      → answer front = none := by
    intro front prefixed other
    have inside : front <+: before := by
      rcases List.prefix_concat_iff.mp prefixed with same | inside
      · exact absurd same other
      · exact inside
    refine if_neg fun found => ?_
    cases last : front.getLast? with
    | none => simp [last] at found
    | some final =>
        have same : final.obj = entry.obj := by simpa [last] using found
        have member : final ∈ before := inside.subset (List.mem_of_getLast? last)
        exact outside (same ▸ List.mem_map_of_mem member)
  have found
      : zslSeek (fun _ node => zslComesUpTo node entry.score entry.obj)
          (fun x rank => do
            if ← zslHasObj zsl x entry.obj then pure (some rank) else pure none)
          zsl zsl.level zsl.header 0
        = .ok (answer (before ++ [entry])) :=
    zslSeek_header represents exact (zslComesUpTo_tests _ _) cuts looks early
  rw [zslGetRank, found]
  simp [answer, pure, Except.pure]

end Ranks

end Redis
