import Redis.SortedSet.SkiplistRuns

/-! The elements of a skiplist in a range of scores: `zslFirstInRange`, `zslLastInRange`, and the
count that `ZCOUNT` takes from their ranks.
-/

namespace Redis

open Redis.Library

section Model

variable {σ : Type} [LinearOrder σ]

def zslIsInRange (zsl : Zskiplist σ) (range : ZrangeSpec σ) : Except Fault Bool :=
  -- Ranges that are always empty.
  if range.min > range.max ∨ range.min = range.max ∧ (range.minex ∨ range.maxex) then pure false
  else
    match zsl.tail with
    | none => pure false
    | some x => do
        let last ← zslNode zsl x
        if zslValueGteMin last.score range then do
          let cell ← zslLevelAt zsl zsl.header 0
          match cell.forward with
          | none => pure false
          | some x => do
              let first ← zslNode zsl x
              pure (zslValueLteMax first.score range)
        else pure false

def zslFirstInRange (zsl : Zskiplist σ) (range : ZrangeSpec σ) : Except Fault (Option Nat) := do
  if ← zslIsInRange zsl range then do
    let (_, _, x) ← zslBehind (fun _ node => pure !zslValueGteMin node.score range) zsl
    match x with
    | none => .error .assertion
    | some x => do
        let node ← zslNode zsl x
        pure (if zslValueLteMax node.score range then some x else none)
  else pure none

def zslLastInRange (zsl : Zskiplist σ) (range : ZrangeSpec σ) : Except Fault (Option Nat) := do
  if ← zslIsInRange zsl range then do
    let update ←
      zslDescend (fun _ node => pure (zslValueLteMax node.score range)) zsl zsl.level zsl.header 0
    let (x, _) ← updateAt update 0
    let node ← zslNode zsl x
    pure (if zslValueGteMin node.score range then some x else none)
  else pure none

/-- The rank of a node, as `zcountCommand` asks for it. -/
def zslRankOf (zsl : Zskiplist σ) (x : Nat) : Except Fault Nat := do
  let node ← zslNode zsl x
  zslGetRank zsl node.score (← zslObj node)

/-- `zcountCommand` on a skiplist: the differences are cast to `int`. -/
def zcountSkiplist (zsl : Zskiplist σ) (range : ZrangeSpec σ) : Except Fault Int := do
  match ← zslFirstInRange zsl range with
  | none => pure 0
  | some x => do
      let rank ← zslRankOf zsl x
      let count := ((zsl.length : Int) - (rank - 1)).bmod (2 ^ 32)
      match ← zslLastInRange zsl range with
      | none => pure count
      | some x => do
          let rank ← zslRankOf zsl x
          pure (count - ((zsl.length : Int) - rank).bmod (2 ^ 32))

def ZslEntry.inRange (range : ZrangeSpec σ) (entry : ZslEntry σ) : Bool :=
  zslValueGteMin entry.score range && zslValueLteMax entry.score range

end Model

section Bounds

variable {σ : Type} [LinearOrder σ] {zsl : Zskiplist σ} {entries : List (ZslEntry σ)}
  {range : ZrangeSpec σ}

/-- What is in front of a bound and what is behind it, when the place between them was found. -/
theorem filter_of_place {lo hi : List (ZslEntry σ)} (ordered : ZslOrdered (lo ++ hi))
    (past : σ → Bool)
    (down : ∀ a b, a ≤ b → past b = true → past a = true)
    (last : ∀ entry ∈ lo.getLast?, past entry.score = true)
    (first : ∀ entry ∈ hi.head?, past entry.score = false)
    : (lo ++ hi).filter (fun entry => past entry.score) = lo
      ∧ (lo ++ hi).filter (fun entry => !past entry.score) = hi := by
  obtain ⟨sortedLo, sortedHi, _⟩ := List.pairwise_append.mp ordered.sorted
  have inLo : ∀ entry ∈ lo, past entry.score = true :=
    forall_of_getLast sortedLo (fun a b before => down _ _ before.score_le) last
  have inHi : ∀ entry ∈ hi, past entry.score = false :=
    forall_of_head sortedHi (fun a b before refused => by
      by_contra passes
      rw [down _ _ before.score_le (Bool.eq_true_of_not_eq_false passes)] at refused
      cases refused) first
  exact @filter_middle _ [] lo hi (fun entry => past entry.score) (by simpa using inHi) inLo

/-- Of a list that is sorted, only the first element can be the first below a bound. -/
theorem find_of_sorted {α : Type} {R : α → α → Prop} {list : List α} (sorted : list.Pairwise R)
    {p : α → Bool} (down : ∀ a b, R a b → p b = true → p a = true)
    : list.find? p = list.head?.filter p := by
  cases list with
  | nil => rfl
  | cons head rest =>
      rw [List.find?_cons, List.head?_cons]
      cases holds : p head with
      | true => simp [Option.filter, holds]
      | false =>
          rw [List.find?_eq_none.mpr]
          · simp [Option.filter, holds]
          · intro other member taken
            rw [down head other ((List.pairwise_cons.mp sorted).1 other member) taken] at holds
            cases holds

theorem zslIsInRange_cases (represents : ZslRepresents zsl entries) (ordered : ZslOrdered entries)
    (range : ZrangeSpec σ)
    : zslIsInRange zsl range = .ok false ∧ (∀ entry ∈ entries, entry.inRange range = false)
      ∨ zslIsInRange zsl range = .ok true
        ∧ (∃ last ∈ entries, zslValueGteMin last.score range = true)
        ∧ ∃ first ∈ entries, zslValueLteMax first.score range = true := by
  have sorted := ordered.sorted
  by_cases empty : range.min > range.max ∨ range.min = range.max ∧ (range.minex ∨ range.maxex)
  · refine .inl ⟨if_pos empty, fun entry _ => ?_⟩
    by_contra within
    have both := Bool.eq_true_of_not_eq_false within
    rw [ZslEntry.inRange, Bool.and_eq_true, zslValueGteMin, zslValueLteMax] at both
    grind
  · rw [zslIsInRange, if_neg empty, represents.tail]
    rcases List.eq_nil_or_concat entries with rfl | ⟨init, last, whole⟩
    · exact .inl ⟨rfl, fun _ member => absurd member List.not_mem_nil⟩
    · rw [List.concat_eq_append] at whole
      obtain ⟨node, read, _, score, _⟩ := represents.nodeAt whole
      rw [whole, lastPtr_concat]
      simp only [read, ok_andThen, score]
      cases least : zslValueGteMin last.score range with
      | false =>
          have low := all_below (whole ▸ sorted) (by simpa using least)
          exact .inl ⟨rfl, fun entry member => Bool.and_eq_false_iff.mpr (.inl (low entry member))⟩
      | true =>
          obtain ⟨cell, forward⟩ := (show ZslRepresents zsl ([] ++ entries) from represents).next
          rw [pointerAt_nil] at cell
          rw [if_pos rfl, cell, ok_andThen, forward]
          obtain ⟨first, rest, parts⟩ : ∃ first rest, entries = first :: rest := by
            cases entries with
            | nil => simp at whole
            | cons first rest => exact ⟨first, rest, rfl⟩
          obtain ⟨head, readHead, _, scoreHead, _⟩ :=
            represents.nodeAt (show entries = [] ++ first :: rest from parts)
          rw [parts, List.head?_cons, Option.map_some]
          simp only [readHead, ok_andThen, scoreHead]
          cases most : zslValueLteMax first.score range with
          | true => exact .inr ⟨rfl, ⟨last, by simp, least⟩, first, by simp [← whole, parts], most⟩
          | false =>
              have high := all_beyond (parts ▸ sorted) (by simpa using most)
              rw [← parts, whole] at high
              exact .inl ⟨rfl, fun entry member =>
                Bool.and_eq_false_iff.mpr (.inr (high entry member))⟩

theorem zslFirstInRange_ok (represents : ZslRepresents zsl entries)
    (small : entries.length < 2 ^ 32)
    (ordered : ZslOrdered entries) (range : ZrangeSpec σ)
    : zslFirstInRange zsl range
      = .ok ((entries.find? (ZslEntry.inRange range)).map ZslEntry.ptr) := by
  rcases zslIsInRange_cases represents ordered range with ⟨ran, none⟩
    | ⟨ran, ⟨last, member, least⟩, -⟩
  · rw [zslFirstInRange, ran, List.find?_eq_none.mpr (by simpa using none)]
    rfl
  · obtain ⟨lo, hi, update, rfl, behind, _, before, after⟩ := zslBehind_ok represents small
      (show Tests (fun _ node => pure !zslValueGteMin node.score range)
          fun _ entry => !zslValueGteMin entry.score range from
        fun _ node entry _ score => by simp only [score]; rfl)
    obtain ⟨_, kept⟩ :=
      filter_of_place ordered (fun score => !zslValueGteMin score range) (fun a b order below => by
      by_contra above
      rw [zslValueGteMin_mono order (by simpa using above)] at below
      cases below) before after
    simp only [Bool.not_not] at kept
    have found : (lo ++ hi).find? (ZslEntry.inRange range)
        = ((lo ++ hi).filter fun entry => zslValueGteMin entry.score range).head?.filter
            fun entry => zslValueLteMax entry.score range := by
      rw [← find_of_sorted (ordered.sorted.filter _)
        (fun a b before most => zslValueLteMax_anti before.score_le most), List.find?_filter]
      simp only [Bool.decide_and, Bool.decide_eq_true]
      rfl
    rw [kept] at found
    obtain ⟨first, rest, rfl⟩ := List.exists_cons_of_ne_nil (List.ne_nil_of_mem (show last ∈ hi by
      rw [← kept]
      exact List.mem_filter.mpr ⟨member, least⟩))
    obtain ⟨node, read, _, score, _⟩ := represents.nodeAt rfl
    rw [zslFirstInRange, ran, ok_andThen, if_pos rfl, behind, ok_andThen, found]
    simp only [List.head?_cons, Option.map_some, read, ok_andThen, score]
    cases most : zslValueLteMax first.score range <;> simp [most, pure, Except.pure]

theorem zslLastInRange_ok (represents : ZslRepresents zsl entries) (small : entries.length < 2 ^ 32)
    (ordered : ZslOrdered entries) (range : ZrangeSpec σ)
    : zslLastInRange zsl range
      = .ok ((entries.reverse.find? (ZslEntry.inRange range)).map ZslEntry.ptr) := by
  rcases zslIsInRange_cases represents ordered range with ⟨ran, none⟩
    | ⟨ran, -, first, member, most⟩
  · rw [zslLastInRange, ran, List.find?_eq_none.mpr (by simpa using none)]
    rfl
  · obtain ⟨lo, hi, update, rfl, descended, place, _, before, after⟩ :=
      zslDescend_place represents small
      (show Tests (fun _ node => pure (zslValueLteMax node.score range))
          fun _ entry => zslValueLteMax entry.score range from
        fun _ node entry _ score => by simp only [score]; rfl)
    obtain ⟨kept, _⟩ :=
      filter_of_place ordered (fun score => zslValueLteMax score range)
        (fun a b order most => zslValueLteMax_anti order most) before after
    have found : (lo ++ hi).reverse.find? (ZslEntry.inRange range)
        = ((lo ++ hi).filter fun entry => zslValueLteMax entry.score range).getLast?.filter
            fun entry => zslValueGteMin entry.score range := by
      rw [← List.head?_reverse,
        ← find_of_sorted (List.pairwise_reverse.mpr (ordered.sorted.filter _))
          (fun a b before least => zslValueGteMin_mono before.score_le least),
        ← List.filter_reverse, List.find?_filter]
      simp only [Bool.decide_and, Bool.decide_eq_true, Bool.and_comm]
      rfl
    rw [kept] at found
    obtain ⟨init, last, rfl⟩ := (List.eq_nil_or_concat lo).resolve_left
      (List.ne_nil_of_mem (show first ∈ lo by
        rw [← kept]
        exact List.mem_filter.mpr ⟨member, most⟩))
    rw [List.concat_eq_append] at *
    obtain ⟨node, read, _, score, _⟩ :=
      represents.nodeAt (show init ++ [last] ++ hi = init ++ last :: hi by simp)
    rw [pointerAt_concat] at place
    rw [zslLastInRange, ran, ok_andThen, if_pos rfl, descended, ok_andThen, place, ok_andThen,
      found]
    simp only [read, ok_andThen, score, List.getLast?_concat]
    cases least : zslValueGteMin last.score range <;> simp [least, pure, Except.pure]

theorem zslRankOf_ok (represents : ZslRepresents zsl entries) (small : entries.length < 2 ^ 32)
    (ordered : ZslOrdered entries) {before after : List (ZslEntry σ)} {entry : ZslEntry σ}
    (split : entries = before ++ entry :: after)
    : zslRankOf zsl entry.ptr = .ok (before.length + 1) := by
  obtain ⟨node, read, obj, score, _⟩ := represents.nodeAt split
  rw [zslRankOf, read, ok_andThen, zslObj, obj]
  simp only [ok_andThen, score]
  exact zslGetRank_ok represents (spansExact_of_small small) ordered split

end Bounds

end Redis
