import Redis.SortedSet.SkiplistSearch

/-! Changing one level of a skiplist, and the nodes that stand for its entries. -/

namespace Redis

open Redis.Library

section Levels

variable {σ : Type} {zsl next : Zskiplist σ} {i : Nat}
variable {lo hi old new before : List (ZslEntry σ)}

/-- The node where `update` points on level `i`. -/
def updateNode (header i : Nat) (lo : List (ZslEntry σ)) : Nat :=
  pointerAt header (upToTaller ZslEntry.height i lo)

theorem pointerAt_append {header : Nat} (front back : List (ZslEntry σ)) (some : back ≠ [])
    : pointerAt header (front ++ back) = pointerAt header back := by
  obtain ⟨init, last, rfl⟩ := (List.eq_nil_or_concat back).resolve_left some
  rw [List.concat_eq_append, ← List.append_assoc, pointerAt_concat, pointerAt_concat]

theorem pointerAt_not_new {header : Nat}
    (nodup : (header :: (lo ++ new ++ hi).map ZslEntry.ptr).Nodup)
    (here : before <+: lo ++ new ++ hi)
    (outside : before.length ≤ lo.length ∨ (lo ++ new).length < before.length)
    : pointerAt header before ∉ new.map ZslEntry.ptr := by
  intro member
  obtain ⟨entry, inside, same⟩ := List.mem_map.mp member
  obtain ⟨front, back, rfl⟩ := List.append_of_mem inside
  have there : lo ++ front ++ [entry] <+: lo ++ (front ++ entry :: back) ++ hi :=
    ⟨back ++ hi, by simp⟩
  have equal : before = lo ++ front ++ [entry] :=
    pointerAt_injective nodup here there (by rw [pointerAt_concat, same])
  rw [equal] at outside
  simp only [List.length_append, List.length_cons, List.length_nil] at outside
  omega

/-- Between the entries `lo` and `hi`, the entries `old` become `new`. The level changes at the
node where `update` points and at the new nodes, and nowhere else.
-/
theorem LevelLinked.replace (linked : LevelLinked zsl i (lo ++ old ++ hi))
    (header : next.header = zsl.header)
    (nodup : (zsl.header :: (lo ++ new ++ hi).map ZslEntry.ptr).Nodup)
    {mid : List (ZslEntry σ)} (parts : lo = upToTaller ZslEntry.height i lo ++ mid)
    (atUpdate : zslLevelAt next (updateNode zsl.header i lo) i = .ok (cellFor i (mid ++ new ++ hi)))
    (atNew : ∀ front back, new = front ++ back → front ≠ [] → EndsTaller ZslEntry.height i front →
      zslLevelAt next (pointerAt zsl.header front) i = .ok (cellFor i (back ++ hi)))
    (others : ∀ y, y ≠ updateNode zsl.header i lo → y ∉ new.map ZslEntry.ptr →
      zslLevelAt next y i = zslLevelAt zsl y i)
    : LevelLinked next i (lo ++ new ++ hi) := by
  intro before after split ends
  rw [header]
  have here : before <+: lo ++ new ++ hi := ⟨after, split.symm⟩
  have there : upToTaller ZslEntry.height i lo <+: lo ++ new ++ hi :=
    ⟨mid ++ new ++ hi, by rw [← List.append_assoc, ← List.append_assoc, ← parts]⟩
  -- The node stays as it is if it is neither of those that change.
  have stays (outside : before.length ≤ lo.length ∨ (lo ++ new).length < before.length)
      (elsewhere : before ≠ upToTaller ZslEntry.height i lo)
      : zslLevelAt next (pointerAt zsl.header before) i
        = zslLevelAt zsl (pointerAt zsl.header before) i :=
    others _ (fun same => elsewhere (pointerAt_injective nodup here there same))
      (pointerAt_not_new nodup here outside)
  have inLo (m : List (ZslEntry σ)) (loEq : lo = before ++ m) (afterEq : after = m ++ new ++ hi)
      : zslLevelAt next (pointerAt zsl.header before) i = .ok (cellFor i after) := by
    by_cases low : AllLow ZslEntry.height i m
    · have place : upToTaller ZslEntry.height i lo = before := by
        rw [loEq]
        exact upToTaller_eq ends low
      have same : m = mid := by
        rw [place, loEq] at parts
        exact List.append_cancel_left parts
      rw [afterEq, same, ← atUpdate, updateNode, place]
    · have elsewhere : before ≠ upToTaller ZslEntry.height i lo := by
        intro place
        obtain ⟨_, low', lowParts, lows⟩ := upToTaller_split ZslEntry.height i lo
        rw [← place, loEq] at lowParts
        exact low (List.append_cancel_left lowParts ▸ lows)
      rw [stays (.inl (by rw [loEq]; simp)) elsewhere,
        linked before (m ++ old ++ hi) (by rw [loEq]; simp) ends, afterEq, cellFor, cellFor,
        List.append_assoc, List.append_assoc, nextTaller_of_tall low, nextTaller_of_tall low]
  have inNew (front back : List (ZslEntry σ)) (beforeEq : before = lo ++ front)
      (newEq : new = front ++ back) (afterEq : after = back ++ hi)
      : zslLevelAt next (pointerAt zsl.header before) i = .ok (cellFor i after) := by
    by_cases first : front = []
    · rw [first, List.append_nil] at beforeEq
      rw [first, List.nil_append] at newEq
      exact inLo [] (by rw [beforeEq, List.append_nil]) (by rw [afterEq, newEq, List.nil_append])
    · rw [beforeEq] at ends
      rw [beforeEq, pointerAt_append lo front first, afterEq]
      exact atNew front back newEq first (ends.append first)
  rw [List.append_assoc] at split
  rcases List.append_eq_append_iff.mp split with ⟨front, beforeEq, rest⟩ | ⟨m, loEq, afterEq⟩
  · rcases List.append_eq_append_iff.mp rest with ⟨more, frontEq, hiEq⟩ | ⟨back, newEq, afterEq⟩
    · by_cases last : more = []
      · rw [last, List.append_nil] at frontEq
        rw [last, List.nil_append] at hiEq
        exact inNew front [] beforeEq (by rw [frontEq, List.append_nil])
          (by rw [hiEq, List.nil_append])
      · have whole : before = lo ++ new ++ more := by rw [beforeEq, frontEq, List.append_assoc]
        have positive := List.length_pos_of_ne_nil last
        have long : (lo ++ new).length < before.length := by
          simp only [whole, List.length_append]
          omega
        have short := (upToTaller_isPrefix ZslEntry.height i lo).length_le
        have elsewhere : before ≠ upToTaller ZslEntry.height i lo := by
          intro place
          rw [← place] at short
          rw [List.length_append] at long
          omega
        rw [whole] at ends
        have old := linked (lo ++ old ++ more) after (by rw [hiEq]; simp)
          ((ends.append last).prepend last (lo ++ old))
        rw [stays (.inr long) elsewhere, whole, pointerAt_append _ more last, ← old,
          pointerAt_append _ more last]
    · exact inNew front back beforeEq newEq afterEq
  · exact inLo m loEq (by rw [afterEq, List.append_assoc])

theorem LevelLinked.congr {entries : List (ZslEntry σ)} (linked : LevelLinked zsl i entries)
    (header : next.header = zsl.header)
    (same : ∀ y ∈ zsl.header :: entries.map ZslEntry.ptr, zslLevelAt next y i = zslLevelAt zsl y i)
    : LevelLinked next i entries := by
  intro before after split ends
  rw [header, same _ (pointerAt_mem zsl.header ⟨after, split.symm⟩)]
  exact linked before after split ends

theorem cellFor_low {mid : List (ZslEntry σ)} (low : AllLow ZslEntry.height i mid)
    (back : List (ZslEntry σ))
    : cellFor i (mid ++ back)
      = ⟨(cellFor i back).forward, UInt32.ofNat mid.length + (cellFor i back).span⟩ := by
  rw [cellFor, nextTaller_of_low low, cellFor, UInt32.ofNat_add]

theorem cellFor_tall {entry : ZslEntry σ} (tall : i < entry.height) (back : List (ZslEntry σ))
    : cellFor i (entry :: back) = ⟨some entry.ptr, 1⟩ := by
  rw [cellFor, nextTaller, if_pos tall]
  rfl

theorem cellFor_short {entry : ZslEntry σ} (low : entry.height ≤ i) (back : List (ZslEntry σ))
    : cellFor i (entry :: back) = ⟨(cellFor i back).forward, (cellFor i back).span + 1⟩ := by
  rw [cellFor, nextTaller, if_neg (Nat.not_lt.mpr low), cellFor, UInt32.ofNat_add]
  rfl

/-- Steps that change the levels of nodes only. -/
structure Rewired (zsl next : Zskiplist σ) : Prop where
  fields : next = { zsl with heap := next.heap }
  shapes : ∀ y, zslShape next y = zslShape zsl y

theorem Rewired.refl (zsl : Zskiplist σ) : Rewired zsl zsl := ⟨rfl, fun _ => rfl⟩

theorem Rewired.trans {first second third : Zskiplist σ} (one : Rewired first second)
    (two : Rewired second third)
    : Rewired first third := by
  refine ⟨?_, fun y => (two.shapes y).trans (one.shapes y)⟩
  rw [two.fields, one.fields]

theorem LevelSet.rewired {x : Nat} {cell : ZskiplistLevel} (set : LevelSet zsl next x i cell)
    : Rewired zsl next :=
  ⟨set.fields, set.shapes⟩

theorem Rewired.header (rewired : Rewired zsl next) : next.header = zsl.header := by
  rw [rewired.fields]

theorem zslLevelAt_of_shape {x : Nat} {obj : Option (List UInt8)} {score : σ}
    {backward : Option Nat} {levels : Nat}
    (shape : zslShape zsl x = some (obj, score, backward, levels)) (inside : i < levels)
    : ∃ cell, zslLevelAt zsl x i = .ok cell := by
  obtain ⟨node, read, _, _, _, rfl⟩ := zslNode_of_shape shape
  refine ⟨node.level.get ⟨i, inside⟩, ?_⟩
  rw [zslLevelAt, read, ok_andThen, List.getElem?_eq_getElem inside]
  rfl

/-- The shapes of nodes that the entries of a list say. -/
def ShapesAt (zsl : Zskiplist σ) (entries : List (ZslEntry σ)) : Prop :=
  ∀ before entry after,
    entries = before ++ entry :: after
    → zslShape zsl entry.ptr = some (some entry.obj, entry.score, lastPtr before, entry.height)

theorem lastPtr_append {front back : List (ZslEntry σ)} (some : back ≠ [])
    : lastPtr (front ++ back) = lastPtr back := by
  rw [lastPtr, List.getLast?_append_of_ne_nil _ some]
  rfl

theorem ShapesAt.replace (shapes : ShapesAt zsl (lo ++ old ++ hi))
    (inLo : ∀ entry ∈ lo, zslShape next entry.ptr = zslShape zsl entry.ptr)
    (inNew : ∀ before entry after, new = before ++ entry :: after →
      zslShape next entry.ptr
        = some (some entry.obj, entry.score, lastPtr (lo ++ before), entry.height))
    (first : ∀ entry rest, hi = entry :: rest →
      zslShape next entry.ptr
        = some (some entry.obj, entry.score, lastPtr (lo ++ new), entry.height))
    (later : ∀ entry ∈ hi.tail, zslShape next entry.ptr = zslShape zsl entry.ptr)
    : ShapesAt next (lo ++ new ++ hi) := by
  intro before entry after split
  rw [List.append_assoc] at split
  rcases List.append_eq_append_iff.mp split with ⟨front, beforeEq, rest⟩ | ⟨back, loEq, afterEq⟩
  · rcases List.append_eq_append_iff.mp rest with ⟨more, frontEq, hiEq⟩ | ⟨back, newEq, afterEq⟩
    · subst beforeEq frontEq
      cases more with
      | nil =>
          rw [List.append_nil]
          exact first entry after hiEq
      | cons head more =>
          have member : entry ∈ hi.tail := by simp [hiEq]
          have placed := shapes (lo ++ old ++ head :: more) entry after (by simp [hiEq])
          rw [lastPtr_append (by simp)] at placed
          rw [later entry member, placed, ← List.append_assoc, lastPtr_append (by simp)]
    · cases back with
      | nil =>
          rw [List.append_nil] at newEq
          subst beforeEq newEq
          exact first entry after afterEq.symm
      | cons head back =>
          rw [List.cons_append, List.cons.injEq] at afterEq
          obtain ⟨rfl, _⟩ := afterEq
          rw [beforeEq]
          exact inNew front entry back newEq
  · cases back with
    | nil =>
        rw [List.append_nil] at loEq
        rw [List.nil_append] at afterEq
        subst loEq
        cases new with
        | nil =>
            have placed := first entry after afterEq.symm
            rwa [List.append_nil] at placed
        | cons head new =>
            rw [List.cons_append, List.cons.injEq] at afterEq
            obtain ⟨rfl, _⟩ := afterEq
            have placed := inNew [] entry new rfl
            rwa [List.append_nil] at placed
    | cons head back =>
        rw [List.cons_append, List.cons.injEq] at afterEq
        obtain ⟨rfl, _⟩ := afterEq
        rw [inLo entry (by simp [loEq])]
        exact shapes before entry (back ++ old ++ hi) (by simp [loEq])

-- Loops over the levels

variable {entries : List (ZslEntry σ)} {entry : ZslEntry σ} {update : List (Nat × Nat)}
variable {state : Zskiplist σ}

/-- `update` has the node and the rank for each level. -/
def UpdateFor (header levels : Nat) (lo : List (ZslEntry σ)) (update : List (Nat × Nat)) : Prop :=
  ∀ i < levels, updateAt update i
    = .ok (updateNode header i lo, (upToTaller ZslEntry.height i lo).length)

theorem Descended.updateFor {test : Nat → ZslEntry σ → Bool} {header levels : Nat}
    {update : List (Nat × Nat)} (found : Descended test header levels [] lo hi update)
    : UpdateFor header levels lo update := by
  intro i inside
  rw [updateAt, found.nodes i inside]
  rfl

theorem Descended.head_refused {test : Nat → ZslEntry σ → Bool} {header levels : Nat}
    (found : Descended test header levels [] lo hi update) (positive : 0 < levels)
    (heights : ∀ entry ∈ lo ++ hi, 0 < entry.height) {entry : ZslEntry σ} {rest : List (ZslEntry σ)}
    (first : hi = entry :: rest)
    : test (lo.length + 1) entry = false := by
  have refused := found.blocked positive [] entry rest first (fun _ member => nomatch member)
    (heights entry (by simp [first]))
  simpa using refused

/-- The levels up to `k` have the entries, the others are as they were. -/
structure LinkedTo (zsl : Zskiplist σ) (entries : List (ZslEntry σ)) (k : Nat)
    (state : Zskiplist σ) : Prop where
  rewired : Rewired zsl state
  linked : ∀ i < k, LevelLinked state i entries
  others : ∀ y i, k ≤ i → zslLevelAt state y i = zslLevelAt zsl y i

theorem LinkedTo.step {i : Nat} {state next : Zskiplist σ} (linkedTo : LinkedTo zsl entries i state)
    (rewired : Rewired state next)
    (elsewhere : ∀ y j, j ≠ i → zslLevelAt next y j = zslLevelAt state y j)
    (linked : LevelLinked next i entries)
    : LinkedTo zsl entries (i + 1) next := by
  refine ⟨linkedTo.rewired.trans rewired, ?_, ?_⟩
  · intro j inside
    rcases Nat.lt_succ_iff_lt_or_eq.mp inside with before | rfl
    · exact (linkedTo.linked j before).congr rewired.header
        (fun y _ => elsewhere y j (Nat.ne_of_lt before))
    · exact linked
  · intro y j above
    rw [elsewhere y j (by omega)]
    exact linkedTo.others y j (by omega)

theorem updateNode_ne {i : Nat}
    (nodup : (zsl.header :: (lo ++ [entry] ++ hi).map ZslEntry.ptr).Nodup)
    : updateNode zsl.header i lo ≠ entry.ptr := by
  obtain ⟨mid, parts⟩ := upToTaller_isPrefix ZslEntry.height i lo
  have here : upToTaller ZslEntry.height i lo <+: lo ++ [entry] ++ hi :=
    ⟨mid ++ [entry] ++ hi, by rw [← List.append_assoc, ← List.append_assoc, parts]⟩
  have short := (upToTaller_isPrefix ZslEntry.height i lo).length_le
  have outside := pointerAt_not_new nodup here (.inl short)
  simpa [updateNode] using outside

theorem upToTaller_zero {list : List (ZslEntry σ)} (heights : ∀ entry ∈ list, 0 < entry.height)
    : upToTaller ZslEntry.height 0 list = list := by
  have ends : EndsTaller ZslEntry.height 0 list := fun entry last =>
    heights entry (List.mem_of_getLast? last)
  have whole :=
    upToTaller_eq ends (show AllLow ZslEntry.height 0 [] from fun _ member => nomatch member)
  rwa [List.append_nil] at whole

theorem ptr_ne_of_nodup {header : Nat} (nodup : (header :: entries.map ZslEntry.ptr).Nodup)
    (split : entries = lo ++ entry :: hi)
    : header ≠ entry.ptr ∧ (∀ other ∈ lo, other.ptr ≠ entry.ptr)
      ∧ ∀ other ∈ hi, other.ptr ≠ entry.ptr := by
  rw [split, List.map_append, List.map_cons, List.nodup_cons] at nodup
  obtain ⟨outside, distinct⟩ := nodup
  obtain ⟨_, tailNodup, apart⟩ := List.nodup_append.mp distinct
  refine ⟨?_, ?_, ?_⟩
  · intro same
    exact outside (by simp [same])
  · intro other member same
    exact apart other.ptr (List.mem_map_of_mem member) entry.ptr (by simp) same
  · intro other member same
    exact (List.nodup_cons.mp tailNodup).1 (same ▸ List.mem_map_of_mem member)

end Levels

end Redis
