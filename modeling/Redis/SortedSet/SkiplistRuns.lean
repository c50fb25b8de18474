import Mathlib.Data.Prod.Lex
import Redis.SortedSet.SkiplistDeletion

/-! Runs of the operations on a skiplist, against operations on a sorted list of scores and objects.
-/

namespace Redis

open Redis.Library

section Model

variable {σ : Type} [LinearOrder σ]

/-- What a sorted set is ordered by: the score, then the bytes of the object. -/
def ZslEntry.key (entry : ZslEntry σ) : σ ×ₗ List UInt8 := toLex (entry.score, entry.obj)

/-- The calls that change a skiplist. `level` is what `zslRandomLevel` returns. -/
inductive ZslOp (σ : Type) where
  | insert (level : Nat) (score : σ) (obj : List UInt8)
  | delete (score : σ) (obj : List UInt8)
  | deleteRangeByScore (range : ZrangeSpec σ)
  | deleteRangeByRank (start last : Nat)

/-- The skiplist behind a call, and the objects that the call removes. -/
def ZslOp.run (zsl : Zskiplist σ) : ZslOp σ → Except Fault (Zskiplist σ × List (List UInt8))
  | .insert level score obj => do pure (← zslInsert zsl level score obj, [])
  | .delete score obj => do
      let (next, deleted) ← zslDelete zsl score obj
      pure (next, if deleted then [obj] else [])
  | .deleteRangeByScore range => zslDeleteRangeByScore zsl range
  | .deleteRangeByRank start last => zslDeleteRangeByRank zsl start last

def runZsl (zsl : Zskiplist σ)
    : List (ZslOp σ) → Except Fault (Zskiplist σ × List (List (List UInt8)))
  | [] => pure (zsl, [])
  | op :: ops => do
      let (zsl, removed) ← op.run zsl
      let (zsl, later) ← runZsl zsl ops
      pure (zsl, removed :: later)

end Model

section Sorted

variable {σ : Type} [LinearOrder σ]

/-- What a call leaves of a sorted list, and what it removes. -/
def ZslOp.apply (keys : List (σ ×ₗ List UInt8))
    : ZslOp σ → List (σ ×ₗ List UInt8) × List (σ ×ₗ List UInt8)
  | .insert _ score obj =>
      (keys.filter (· < toLex (score, obj)) ++ toLex (score, obj)
        :: keys.filter (toLex (score, obj) < ·), [])
  | .delete score obj => keys.partition (· ≠ toLex (score, obj))
  | .deleteRangeByScore range =>
      keys.partition fun key =>
        !(zslValueGteMin (ofLex key).1 range && zslValueLteMax (ofLex key).1 range)
  | .deleteRangeByRank start last =>
      let behind := keys.drop (start - 1)
      (keys.take (start - 1) ++ behind.drop (last - (start - 1)), behind.take (last - (start - 1)))

def applyZsl (keys : List (σ ×ₗ List UInt8))
    : List (ZslOp σ) → List (σ ×ₗ List UInt8) × List (List (List UInt8))
  | [] => (keys, [])
  | op :: ops =>
      let rest := applyZsl (op.apply keys).1 ops
      (rest.1, (op.apply keys).2.map (fun key => (ofLex key).2) :: rest.2)

/-- An object is inserted once, at a level of the skiplist, and the ranks stay in 32 bits. -/
def ZslOp.Fits (keys : List (σ ×ₗ List UInt8)) : ZslOp σ → Prop
  | .insert level _ obj =>
      0 < level
      ∧ level ≤ zskiplistMaxLevel
      ∧ obj ∉ keys.map (fun key => (ofLex key).2)
      ∧ keys.length + 1 < 2 ^ 32
  | _ => True

def ZslFits (keys : List (σ ×ₗ List UInt8)) : List (ZslOp σ) → Prop
  | [] => True
  | op :: ops => op.Fits keys ∧ ZslFits (op.apply keys).1 ops

end Sorted

section Step

variable {σ : Type} [LinearOrder σ] {zsl : Zskiplist σ} {entries lo mid hi : List (ZslEntry σ)}

theorem before_iff {entry : ZslEntry σ} {score : σ} {obj : List UInt8}
    : entry.before score obj ↔ entry.key < toLex (score, obj) := by
  rw [ZslEntry.key, Prod.Lex.toLex_lt_toLex, ZslEntry.before]

theorem ZslOrdered.keys (ordered : ZslOrdered entries)
    : (entries.map ZslEntry.key).Pairwise (· < ·) :=
  List.pairwise_map.mpr (ordered.sorted.imp before_iff.mp)

theorem zslOrdered_of_keys (sorted : (entries.map ZslEntry.key).Pairwise (· < ·))
    (unique : (entries.map ZslEntry.obj).Nodup)
    : ZslOrdered entries :=
  ⟨(List.pairwise_map.mp sorted).imp before_iff.mpr, unique⟩

theorem ZslOrdered.sublist (ordered : ZslOrdered entries) (fewer : lo.Sublist entries)
    : ZslOrdered lo :=
  ⟨ordered.sorted.sublist fewer, ordered.unique.sublist (fewer.map _)⟩

/-- What a call has to leave: an ordered list with the keys that it should have. -/
structure ZslStands (zsl : Zskiplist σ) (keys : List (σ ×ₗ List UInt8))
    (entries : List (ZslEntry σ))
    : Prop where
  represents : ZslRepresents zsl entries
  ordered : ZslOrdered entries
  keys : entries.map ZslEntry.key = keys
  small : entries.length < 2 ^ 32

variable {keys : List (σ ×ₗ List UInt8)} {range : ZrangeSpec σ}

theorem ZslStands.insert (stands : ZslStands zsl keys entries) {level : Nat} {score : σ}
    {obj : List UInt8} (fits : (ZslOp.insert level score obj).Fits keys)
    : ∃ next entries', zslInsert zsl level score obj = .ok next
        ∧ ZslStands next ((ZslOp.insert level score obj).apply keys).1 entries' := by
  obtain ⟨represents, ordered, rfl, small⟩ := stands
  obtain ⟨least, most, new, room⟩ := fits
  obtain ⟨lo, hi, next, rfl, ran, represented, last, first⟩ :=
    zslInsert_ok represents small least most score obj
  have sorted := ordered.keys
  rw [List.map_append] at sorted new
  obtain ⟨sortedLo, sortedHi, across⟩ := List.pairwise_append.mp sorted
  have below : ∀ key ∈ lo.map ZslEntry.key, key < toLex (score, obj) :=
    forall_of_getLast sortedLo (fun a b less below => lt_trans less below) (by
      simpa [before_iff] using last)
  have above : ∀ key ∈ hi.map ZslEntry.key, toLex (score, obj) < key := by
    refine forall_of_head sortedHi (fun a b less above => lt_trans above less) ?_
    intro key atHead
    rw [List.head?_map] at atHead
    obtain ⟨entry, isHead, rfl⟩ := Option.map_eq_some_iff.mp atHead
    refine lt_of_le_of_ne (not_lt.mp fun less => first entry isHead (before_iff.mpr less)) ?_
    intro same
    have member : entry.key ∈ lo.map ZslEntry.key ++ hi.map ZslEntry.key :=
      List.mem_append_right _ (List.mem_map_of_mem (List.mem_of_head? isHead))
    rw [← same] at member
    exact new (List.mem_map_of_mem member)
  have keys : (lo ++ [(⟨zsl.unused, score, obj, level⟩ : ZslEntry σ)] ++ hi).map ZslEntry.key
      = ((ZslOp.insert level score obj).apply ((lo ++ hi).map ZslEntry.key)).1 := by
    have front : (lo.map ZslEntry.key).filter (toLex (score, obj) < ·) = [] :=
      List.filter_eq_nil_iff.mpr fun key member => by simpa using (below key member).le
    have back : (hi.map ZslEntry.key).filter (· < toLex (score, obj)) = [] :=
      List.filter_eq_nil_iff.mpr fun key member => by simpa using (above key member).le
    have all : (lo.map ZslEntry.key).filter (· < toLex (score, obj)) = lo.map ZslEntry.key :=
      List.filter_eq_self.mpr fun key member => by simpa using below key member
    have rest : (hi.map ZslEntry.key).filter (toLex (score, obj) < ·) = hi.map ZslEntry.key :=
      List.filter_eq_self.mpr fun key member => by simpa using above key member
    simp only [ZslOp.apply, List.map_append, List.filter_append, front, back, all, rest,
      List.append_nil, List.nil_append, List.map_cons, List.append_assoc, List.singleton_append]
    rfl
  refine ⟨next, _, ran, represented, zslOrdered_of_keys ?_ ?_, keys, ?_⟩
  · simp only [List.map_append, List.map_cons, List.append_assoc, List.singleton_append]
    refine List.pairwise_append.mpr ⟨sortedLo, List.pairwise_cons.mpr ⟨above, sortedHi⟩, ?_⟩
    intro a inLo b inRest
    rcases List.mem_cons.mp inRest with rfl | inHi
    · exact below a inLo
    · exact across a inLo b inHi
  · have unique := ordered.unique
    have outside : obj ∉ (lo ++ hi).map ZslEntry.obj := by
      simpa [ZslEntry.key] using new
    rw [List.append_assoc, List.map_append]
    rw [List.map_append] at unique outside
    exact (List.perm_middle.nodup_iff).mpr (List.nodup_cons.mpr ⟨outside, unique⟩)
  · simp only [List.length_append, List.length_map, List.length_cons, List.length_nil] at room ⊢
    omega

/-- A call that takes the entries out that it should. -/
theorem ZslStands.taken (stands : ZslStands zsl keys (lo ++ mid ++ hi)) {next : Zskiplist σ}
    (represents : ZslRepresents next (lo ++ hi)) (stays : (σ ×ₗ List UInt8) → Bool)
    (outside : ∀ entry ∈ lo ++ hi, stays entry.key = true)
    (inside : ∀ entry ∈ mid, stays entry.key = false)
    : mid.map ZslEntry.obj = (keys.partition stays).2.map (fun key => (ofLex key).2)
      ∧ ZslStands next (keys.partition stays).1 (lo ++ hi) := by
  obtain ⟨removed, kept⟩ :=
    @filter_middle _ (lo.map ZslEntry.key) (mid.map ZslEntry.key) (hi.map ZslEntry.key)
      (fun key => !stays key)
      (by simpa [or_imp, forall_and] using outside) (by simpa using inside)
  simp only [← List.map_append, Bool.not_not, stands.keys] at removed kept
  rw [List.partition_eq_filter_filter]
  refine ⟨?_, represents, stands.ordered.sublist (by simp), kept.symm, ?_⟩
  · change _ = (keys.filter fun key => !stays key).map _
    rw [removed, List.map_map]
    rfl
  · refine Nat.lt_of_le_of_lt ?_ stands.small
    simp only [List.length_append]
    omega

theorem ZslStands.delete (stands : ZslStands zsl keys entries) (score : σ) (obj : List UInt8)
    : ∃ next entries', (ZslOp.delete score obj).run zsl
          = .ok (next, ((ZslOp.delete score obj).apply keys).2.map fun key => (ofLex key).2)
        ∧ ZslStands next ((ZslOp.delete score obj).apply keys).1 entries' := by
  obtain ⟨next, deleted, ran, outcome⟩ :=
    zslDelete_ok stands.represents stands.small stands.ordered score obj
  have run : (ZslOp.delete score obj).run zsl = .ok (next, if deleted then [obj] else []) := by
    rw [ZslOp.run, ran]
    rfl
  rw [run]
  rcases outcome with ⟨lo, entry, hi, rfl, same, rfl, represents⟩ | ⟨absent, rfl, rfl⟩
  · obtain ⟨rfl, rfl⟩ := Prod.mk.inj same
    have sorted := stands.ordered.keys
    rw [List.append_assoc, List.map_append, List.singleton_append, List.map_cons] at sorted
    obtain ⟨_, sortedRest, across⟩ := List.pairwise_append.mp sorted
    have others : ∀ other ∈ lo ++ hi, other.key ≠ entry.key := by
      intro other member
      rcases List.mem_append.mp member with inLo | inHi
      · exact (across _ (List.mem_map_of_mem inLo) entry.key List.mem_cons_self).ne
      · exact ((List.pairwise_cons.mp sortedRest).1 _ (List.mem_map_of_mem inHi)).ne'
    obtain ⟨removed, after⟩ := stands.taken represents (decide <| · ≠ entry.key)
      (by simpa using others) (by simp)
    exact ⟨next, lo ++ hi, congrArg (fun removed => Except.ok (next, removed)) removed, after⟩
  · have others : ∀ other ∈ entries, other.key ≠ toLex (score, obj) :=
      fun other member same => absent other member (toLex.injective same)
    have whole : ZslStands next keys (entries ++ [] ++ []) := by simpa using stands
    obtain ⟨removed, after⟩ := whole.taken (by simpa using stands.represents)
      (decide <| · ≠ toLex (score, obj)) (by simpa using others) (fun _ member => nomatch member)
    exact ⟨next, _, congrArg (fun removed => Except.ok (next, removed)) removed, after⟩

theorem ZslEntry.before.score_le {first second : ZslEntry σ}
    (before : first.before second.score second.obj)
    : first.score ≤ second.score :=
  before.elim le_of_lt fun same => same.1.le

theorem zslValueGteMin_mono {a b : σ} (order : a ≤ b) (least : zslValueGteMin a range = true)
    : zslValueGteMin b range = true := by
  unfold zslValueGteMin at *
  split at least <;> simp_all only [decide_eq_true_eq, if_true]
  · exact lt_of_lt_of_le least order
  · simpa using le_trans least order

theorem zslValueLteMax_anti {a b : σ} (order : a ≤ b) (most : zslValueLteMax b range = true)
    : zslValueLteMax a range = true := by
  unfold zslValueLteMax at *
  split at most <;> simp_all only [decide_eq_true_eq, if_true]
  · exact lt_of_le_of_lt order most
  · simpa using le_trans order most

theorem all_below {list : List (ZslEntry σ)}
    (sorted : list.Pairwise fun a b => a.before b.score b.obj)
    (last : ∀ entry ∈ list.getLast?, zslValueGteMin entry.score range = false)
    : ∀ entry ∈ list, zslValueGteMin entry.score range = false :=
  forall_of_getLast sorted (fun a b before below => by
    by_contra least
    rw [zslValueGteMin_mono before.score_le (Bool.eq_true_of_not_eq_false least)] at below
    cases below) last

theorem all_beyond {list : List (ZslEntry σ)}
    (sorted : list.Pairwise fun a b => a.before b.score b.obj)
    (first : ∀ entry ∈ list.head?, zslValueLteMax entry.score range = false)
    : ∀ entry ∈ list, zslValueLteMax entry.score range = false :=
  forall_of_head sorted (fun a b before beyond => by
    by_contra most
    rw [zslValueLteMax_anti before.score_le (Bool.eq_true_of_not_eq_false most)] at beyond
    cases beyond) first

theorem ZslStands.deleteRangeByScore (stands : ZslStands zsl keys entries) (range : ZrangeSpec σ)
    : ∃ next entries', (ZslOp.deleteRangeByScore range).run zsl
          = .ok (next, ((ZslOp.deleteRangeByScore range).apply keys).2.map fun key => (ofLex key).2)
        ∧ ZslStands next ((ZslOp.deleteRangeByScore range).apply keys).1 entries' := by
  obtain ⟨lo, mid, rest, next, rfl, ran, represents, last, first, taken⟩ :=
    zslDeleteRange_ok stands.represents stands.small
      (show Tests
          (fun _ node =>
            pure (if range.minex then node.score ≤ range.min else node.score < range.min))
          (fun _ entry => !zslValueGteMin entry.score range) from fun _ node entry _ score => by
        simp only [zslValueGteMin, score]
        split <;> simp [pure, Except.pure, ← decide_not])
      (show Tests
          (fun _ node =>
            pure (if range.maxex then node.score < range.max else node.score ≤ range.max))
          (fun _ entry => zslValueLteMax entry.score range) from fun _ node entry _ score => by
        simp only [zslValueLteMax, score]
        split <;> simp [pure, Except.pure])
  rw [← List.append_assoc] at stands
  have sorted := stands.ordered.sorted
  rw [List.append_assoc] at sorted
  obtain ⟨sortedLo, sortedBehind, _⟩ := List.pairwise_append.mp sorted
  have low := all_below sortedLo (by simpa using last)
  have behind : ∀ entry ∈ mid ++ rest, zslValueGteMin entry.score range = true :=
    forall_of_head sortedBehind (fun a b before least => zslValueGteMin_mono before.score_le least)
      (by simpa using first)
  have inside : ∀ entry ∈ mid, zslValueLteMax entry.score range = true := by
    intro entry member
    obtain ⟨front, back, rfl⟩ := List.append_of_mem member
    exact taken.taken front entry back rfl
  have above := all_beyond (List.pairwise_append.mp sortedBehind).2.1 taken.stops
  obtain ⟨removed, after⟩ := stands.taken represents
    (fun key => !(zslValueGteMin (ofLex key).1 range && zslValueLteMax (ofLex key).1 range))
    (fun entry member => by
      rcases List.mem_append.mp member with inLo | inRest
      · simp [ZslEntry.key, low entry inLo]
      · simp [ZslEntry.key, above entry inRest])
    (fun entry member => by
      simp [ZslEntry.key, behind entry (List.mem_append_left rest member), inside entry member])
  exact ⟨next, _, ran.trans (congrArg (fun removed => Except.ok (next, removed)) removed), after⟩

theorem take_drop_of_cut {α : Type} {front back : List α} {count : Nat}
    (most : front.length ≤ count)
    (least : back = [] ∨ count ≤ front.length)
    : (front ++ back).take count = front ∧ (front ++ back).drop count = back := by
  rcases least with rfl | least
  · rw [List.append_nil]
    exact ⟨List.take_of_length_le most, List.drop_of_length_le most⟩
  · rw [← Nat.le_antisymm most least]
    exact ⟨List.take_left, List.drop_left⟩

theorem ZslStands.deleteRangeByRank (stands : ZslStands zsl keys entries) (start last : Nat)
    : ∃ next entries', (ZslOp.deleteRangeByRank start last).run zsl
          = .ok (next,
              ((ZslOp.deleteRangeByRank start last).apply keys).2.map fun key => (ofLex key).2)
        ∧ ZslStands next ((ZslOp.deleteRangeByRank start last).apply keys).1 entries' := by
  obtain ⟨lo, mid, rest, next, rfl, ran, represents, before, first, taken, stops⟩ :=
    zslDeleteRange_ok stands.represents stands.small
      (show Tests _ (fun position _ => decide (position < start)) from fun _ _ _ _ _ => rfl)
      (show Tests _ (fun position _ => decide (position ≤ last)) from fun _ _ _ _ _ => rfl)
  have sizeLo : lo.length ≤ start - 1 := by
    rcases List.eq_nil_or_concat lo with rfl | ⟨init, final, rfl⟩
    · exact Nat.zero_le _
    · have below := of_decide_eq_true (before final (by simp))
      omega
  have whole : mid ++ rest = [] ∨ start - 1 ≤ lo.length := by
    cases behind : mid ++ rest with
    | nil => exact .inl rfl
    | cons head others =>
        have above := of_decide_eq_false (first head (by rw [behind]; rfl))
        omega
  have sizeMid : mid.length ≤ last - (start - 1) := by
    rcases List.eq_nil_or_concat mid with rfl | ⟨init, final, rfl⟩
    · exact Nat.zero_le _
    · rw [List.concat_eq_append] at taken whole ⊢
      have within := of_decide_eq_true (taken init final [] rfl)
      have length := whole.resolve_left (by simp)
      rw [List.length_append, List.length_singleton]
      omega
  have stopped : rest = [] ∨ last - (start - 1) ≤ mid.length := by
    cases rest with
    | nil => exact .inl rfl
    | cons head others =>
        have beyond := of_decide_eq_false (stops head rfl)
        have length := whole.resolve_left (by simp)
        omega
  obtain ⟨front, behind⟩ :=
    @take_drop_of_cut _ (lo.map ZslEntry.key) ((mid ++ rest).map ZslEntry.key)
    (start - 1) (by simpa using sizeLo) (by simpa using whole)
  obtain ⟨middle, back⟩ := @take_drop_of_cut _ (mid.map ZslEntry.key) (rest.map ZslEntry.key)
    (last - (start - 1)) (by simpa using sizeMid) (by simpa using stopped)
  rw [← List.map_append, stands.keys] at front behind
  rw [← List.map_append, ← behind] at middle back
  have fewer : (lo ++ rest).Sublist (lo ++ (mid ++ rest)) := by simp
  refine ⟨next, lo ++ rest, ?_, represents, stands.ordered.sublist fewer, ?_,
    Nat.lt_of_le_of_lt fewer.length_le stands.small⟩
  · refine ran.trans (congrArg (fun removed => Except.ok (next, removed)) ?_)
    simp only [ZslOp.apply, middle, List.map_map]
    rfl
  · simp only [ZslOp.apply, front, back, List.map_append]

theorem ZslStands.step (stands : ZslStands zsl keys entries) {op : ZslOp σ} (fits : op.Fits keys)
    : ∃ next entries', op.run zsl = .ok (next, (op.apply keys).2.map fun key => (ofLex key).2)
        ∧ ZslStands next (op.apply keys).1 entries' := by
  cases op with
  | insert level score obj =>
      obtain ⟨next, entries', ran, after⟩ := stands.insert fits
      refine ⟨next, entries', ?_, after⟩
      rw [ZslOp.run, ran]
      rfl
  | delete score obj => exact stands.delete score obj
  | deleteRangeByScore range => exact stands.deleteRangeByScore range
  | deleteRangeByRank start last => exact stands.deleteRangeByRank start last

theorem runZsl_stands (ops : List (ZslOp σ))
    : ∀ {zsl : Zskiplist σ} {keys : List (σ ×ₗ List UInt8)} {entries},
        ZslStands zsl keys entries
        → ZslFits keys ops
        → ∃ final entries', runZsl zsl ops = .ok (final, (applyZsl keys ops).2)
            ∧ ZslStands final (applyZsl keys ops).1 entries' := by
  induction ops with
  | nil => exact fun stands _ => ⟨_, _, rfl, stands⟩
  | cons op ops ih =>
      intro zsl keys entries stands fit
      obtain ⟨next, entries', ran, after⟩ := stands.step fit.1
      obtain ⟨final, entries'', rest, done⟩ := ih after fit.2
      refine ⟨final, entries'', ?_, done⟩
      rw [runZsl, ran, ok_andThen]
      simp only
      rw [rest]
      rfl

theorem zslCreate_stands [Zero σ] : ZslStands (zslCreate : Zskiplist σ) [] [] :=
  ⟨zslCreate_represents, ⟨.nil, .nil⟩, rfl, Nat.two_pow_pos 32⟩

end Step

end Redis
