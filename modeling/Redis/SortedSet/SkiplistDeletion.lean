import Redis.SortedSet.SkiplistRank

/-! Deleting nodes of a skiplist: `zslDelete`, and the functions that delete a range of nodes. -/

namespace Redis.Library

section Sorted

variable {α : Type} {R : α → α → Prop} {p : α → Prop} {list : List α}

/-- What holds of the last element and, with every element, of those before it, holds of all. -/
theorem forall_of_getLast (sorted : list.Pairwise R) (down : ∀ a b, R a b → p b → p a)
    (last : ∀ a ∈ list.getLast?, p a)
    : ∀ a ∈ list, p a := by
  rcases List.eq_nil_or_concat list with rfl | ⟨init, final, rfl⟩
  · exact fun a member => nomatch member
  · rw [List.concat_eq_append] at *
    have holds : p final := last final (by simp)
    intro a member
    rcases List.mem_append.mp member with earlier | self
    · exact down a final ((List.pairwise_append.mp sorted).2.2 a earlier final (by simp)) holds
    · rwa [List.mem_singleton.mp self]

/-- What holds of the first element and, with every element, of those behind it, holds of all. -/
theorem forall_of_head (sorted : list.Pairwise R) (up : ∀ a b, R a b → p a → p b)
    (first : ∀ a ∈ list.head?, p a)
    : ∀ a ∈ list, p a := by
  cases list with
  | nil => exact fun a member => nomatch member
  | cons head rest =>
      have holds : p head := first head rfl
      intro a member
      rcases List.mem_cons.mp member with rfl | later
      · exact holds
      · exact up head a ((List.pairwise_cons.mp sorted).1 a later) holds

theorem filter_middle {lo mid hi : List α} {p : α → Bool} (outside : ∀ a ∈ lo ++ hi, p a = false)
    (inside : ∀ a ∈ mid, p a = true)
    : (lo ++ mid ++ hi).filter p = mid ∧ (lo ++ mid ++ hi).filter (fun a => !p a) = lo ++ hi := by
  have inLo : ∀ a ∈ lo, p a = false := fun a member => outside a (List.mem_append_left hi member)
  have inHi : ∀ a ∈ hi, p a = false := fun a member => outside a (List.mem_append_right lo member)
  simp only [List.filter_append]
  constructor
  · rw [List.filter_eq_nil_iff.mpr (by simpa using inLo), List.filter_eq_self.mpr inside,
      List.filter_eq_nil_iff.mpr (by simpa using inHi), List.nil_append, List.append_nil]
  · rw [List.filter_eq_self.mpr (by simpa using inLo),
      List.filter_eq_nil_iff.mpr (by simpa using inside),
      List.filter_eq_self.mpr (by simpa using inHi), List.append_nil]

end Sorted

end Redis.Library

namespace Redis

open Redis.Library

section Model

variable {σ : Type}

/-- One round of the loop of `zslDeleteNode` over the levels. -/
def zslUnlinkLevel (x : Nat) (update : List (Nat × Nat)) (zsl : Zskiplist σ) (i : Nat)
    : Except Fault (Zskiplist σ) := do
  let (u, _) ← updateAt update i
  let cell ← zslLevelAt zsl u i
  if cell.forward = some x then do
    let own ← zslLevelAt zsl x i
    zslSetLevelAt zsl u i ⟨own.forward, cell.span + (own.span - 1)⟩
  else zslSetLevelAt zsl u i { cell with span := cell.span - 1 }

/-- The backward pointer of the node behind `x`, or the tail. -/
def zslUnlinkBack (zsl : Zskiplist σ) (x : Nat) : Except Fault (Zskiplist σ) := do
  let cell ← zslLevelAt zsl x 0
  let node ← zslNode zsl x
  match cell.forward with
  | some next => zslSetBackward zsl next node.backward
  | none => pure { zsl with tail := node.backward }

/-- The loop at the end of `zslDeleteNode`: levels without nodes are given up. -/
def zslLowerLevel (zsl : Zskiplist σ) : (level : Nat) → Except Fault Nat
  | level + 2 => do
      let cell ← zslLevelAt zsl zsl.header (level + 1)
      if cell.forward = none then zslLowerLevel zsl (level + 1) else pure (level + 2)
  | level => pure level

def zslDeleteNode (zsl : Zskiplist σ) (x : Nat) (update : List (Nat × Nat))
    : Except Fault (Zskiplist σ) := do
  let zsl ← (List.range zsl.level).foldlM (zslUnlinkLevel x update) zsl
  let zsl ← zslUnlinkBack zsl x
  let level ← zslLowerLevel zsl zsl.level
  pure { zsl with level, length := zsl.length - 1 }

def zslFreeNode (zsl : Zskiplist σ) (x : Nat) : Zskiplist σ :=
  { zsl with heap := Function.update zsl.heap x none }

/-- The second loop of the functions that delete a range: nodes from `x` on, as long as `inRange`
takes them. The objects are those that are deleted from the dictionary; `removed` counts them.
-/
def zslDeleteWhile (inRange : Nat → ZskiplistNode σ → Except Fault Bool)
    (update : List (Nat × Nat))
    : (rounds : Nat) → Zskiplist σ → (x : Option Nat) → (traversed : Nat)
      → Except Fault (Zskiplist σ × List (List UInt8))
  | _, zsl, none, _ => pure (zsl, [])
  | 0, _, some _, _ => .error .diverged
  | rounds + 1, zsl, some x, traversed => do
      let node ← zslNode zsl x
      if ← inRange traversed node then do
        let next ← zslLevelAt zsl x 0
        let zsl ← zslDeleteNode zsl x update
        let obj ← zslObj node
        let (zsl, removed) ←
          zslDeleteWhile inRange update rounds (zslFreeNode zsl x) next.forward (traversed + 1)
        pure (zsl, obj :: removed)
      else pure (zsl, [])

/-- The search past the nodes in front of a place: `update`, the nodes that were traversed, and
`x->level[0].forward` behind it.
-/
def zslBehind (ahead : Nat → ZskiplistNode σ → Except Fault Bool) (zsl : Zskiplist σ)
    : Except Fault (List (Nat × Nat) × Nat × Option Nat) := do
  let update ← zslDescend ahead zsl zsl.level zsl.header 0
  let (x, traversed) ← updateAt update 0
  let cell ← zslLevelAt zsl x 0
  pure (update, traversed, cell.forward)

/-- The functions that delete a range: past the nodes in front of the range, then while in range. -/
def zslDeleteRange (ahead inRange : Nat → ZskiplistNode σ → Except Fault Bool) (zsl : Zskiplist σ)
    : Except Fault (Zskiplist σ × List (List UInt8)) := do
  let (update, traversed, x) ← zslBehind ahead zsl
  zslDeleteWhile inRange update (zsl.length + 1) zsl x (traversed + 1)

/-- The numbers that `zrangespec` bounds, and whether its bounds are left out. -/
structure ZrangeSpec (σ : Type) where
  min : σ
  max : σ
  minex : Bool
  maxex : Bool

/-- `zslDeleteRangeByRank`, with ranks from 1. -/
def zslDeleteRangeByRank (zsl : Zskiplist σ) (start last : Nat)
    : Except Fault (Zskiplist σ × List (List UInt8)) :=
  zslDeleteRange (fun traversed _ => pure (decide (traversed < start)))
    (fun traversed _ => pure (decide (traversed ≤ last))) zsl

variable [LinearOrder σ]

def zslValueGteMin (value : σ) (spec : ZrangeSpec σ) : Bool :=
  if spec.minex then value > spec.min else value ≥ spec.min

def zslValueLteMax (value : σ) (spec : ZrangeSpec σ) : Bool :=
  if spec.maxex then value < spec.max else value ≤ spec.max

def zslDeleteRangeByScore (zsl : Zskiplist σ) (range : ZrangeSpec σ)
    : Except Fault (Zskiplist σ × List (List UInt8)) :=
  zslDeleteRange
    (fun _ node => pure (if range.minex then node.score ≤ range.min else node.score < range.min))
    (fun _ node => pure (if range.maxex then node.score < range.max else node.score ≤ range.max))
    zsl

def zslDelete (zsl : Zskiplist σ) (score : σ) (obj : List UInt8)
    : Except Fault (Zskiplist σ × Bool) := do
  let (update, _, x) ← zslBehind (fun _ node => zslComesBefore node score obj) zsl
  match x with
  | none => pure (zsl, false)
  | some x => do
      let node ← zslNode zsl x
      if score = node.score then
        if equalStringObjects (← zslObj node) obj then do
          let zsl ← zslDeleteNode zsl x update
          pure (zslFreeNode zsl x, true)
        else pure (zsl, false)
      else pure (zsl, false)

end Model

section Unlinking

variable {σ : Type} {zsl state : Zskiplist σ} {entries lo hi : List (ZslEntry σ)}
  {entry : ZslEntry σ} {update : List (Nat × Nat)} {i levels : Nat}

theorem cellFor_forward {ptr : Nat} (next : (cellFor i entries).forward = some ptr)
    : ptr ∈ entries.map ZslEntry.ptr := by
  rcases taller_cases ZslEntry.height i entries with low | ⟨skipped, found, rest, rfl, low, tall⟩
  · rw [cellFor, nextTaller_none low] at next
    cases next
  · rw [cellFor, nextTaller_some low tall] at next
    cases next
    simp

/-- The levels up to `k` are without the node, which keeps its own levels. -/
structure UnlinkedTo (zsl : Zskiplist σ) (entries : List (ZslEntry σ)) (x k : Nat)
    (state : Zskiplist σ) : Prop
    extends LinkedTo zsl entries k state where
  own : ∀ i, zslLevelAt state x i = zslLevelAt zsl x i

theorem zslUnlinkLevel_ok (nodup : (zsl.header :: (lo ++ [entry] ++ hi).map ZslEntry.ptr).Nodup)
    (linked : ∀ i < levels, LevelLinked zsl i (lo ++ [entry] ++ hi))
    (found : UpdateFor zsl.header levels lo update) (inside : i < levels)
    (unlinked : UnlinkedTo zsl (lo ++ [] ++ hi) entry.ptr i state)
    : ∃ next, zslUnlinkLevel entry.ptr update state i = .ok next
        ∧ UnlinkedTo zsl (lo ++ [] ++ hi) entry.ptr (i + 1) next := by
  obtain ⟨ends, mid, parts, low⟩ := upToTaller_split ZslEntry.height i lo
  have header : state.header = zsl.header := unlinked.rewired.header
  have level : LevelLinked state i (lo ++ [entry] ++ hi) :=
    (linked i inside).congr header (fun y _ => unlinked.others y i (Nat.le_refl i))
  have cell := level (upToTaller ZslEntry.height i lo) (mid ++ ([entry] ++ hi))
    (by rw [← List.append_assoc, ← parts, List.append_assoc]) ends
  rw [header] at cell
  have different : updateNode zsl.header i lo ≠ entry.ptr := updateNode_ne nodup
  obtain ⟨_, _, behind⟩ :=
    ptr_ne_of_nodup nodup (show lo ++ [entry] ++ hi = lo ++ entry :: hi by simp)
  obtain ⟨next, ran, set⟩ := zslSetLevelAt_ok cell (cellFor i (mid ++ hi))
  refine ⟨next, ?_, ⟨unlinked.toLinkedTo.step set.rewired ?_ ?_, ?_⟩⟩
  · rw [zslUnlinkLevel, found i inside, ok_andThen]
    simp only
    rw [show pointerAt zsl.header (upToTaller ZslEntry.height i lo) = updateNode zsl.header i lo
      from rfl] at cell ran
    rw [cell, ok_andThen]
    rw [cellFor_low low, List.singleton_append]
    by_cases tall : i < entry.height
    · have own := level (lo ++ [entry]) hi rfl (fun other last => by
        rw [List.getLast?_append_of_ne_nil _ (by simp)] at last
        cases last
        exact tall)
      rw [pointerAt_concat] at own
      rw [cellFor_tall tall, if_pos rfl, own, ok_andThen, ← ran, cellFor_low low]
      congr 2
      rw [UInt32.add_assoc, UInt32.add_comm 1, UInt32.sub_add_cancel]
    · rw [cellFor_short (Nat.not_lt.mp tall), if_neg, ← ran, cellFor_low low]
      · congr 2
        rw [← UInt32.add_assoc, UInt32.add_sub_cancel]
      · intro same
        obtain ⟨other, member, ptr⟩ := List.mem_map.mp (cellFor_forward same)
        exact behind other member ptr
  · intro y j other
    exact set.others y j (fun same => other same.2)
  · refine level.replace set.rewired.header ?_ parts ?_ ?_ ?_
    · rw [header]
      exact nodup.sublist (by simp)
    · rw [header, List.append_nil]
      exact set.cell
    · intro front back nothing some
      exact absurd (List.append_eq_nil_iff.mp nothing.symm).1 some
    · intro y notUpdate _
      rw [header] at notUpdate
      exact set.others y i (fun same => notUpdate same.1)
  · intro j
    rw [set.others _ j (fun same => different same.1.symm)]
    exact unlinked.own j

theorem zslUnlinkBack_ok (nodup : (zsl.header :: (lo ++ [entry] ++ hi).map ZslEntry.ptr).Nodup)
    (shapes : ShapesAt zsl (lo ++ [entry] ++ hi)) (tail : zsl.tail = lastPtr (lo ++ [entry] ++ hi))
    (own : zslLevelAt zsl entry.ptr 0 = .ok (cellFor 0 hi))
    (positive : ∀ other ∈ hi, 0 < other.height)
    : ∃ next, zslUnlinkBack zsl entry.ptr = .ok next
        ∧ next = { zsl with heap := next.heap, tail := lastPtr (lo ++ hi) }
        ∧ (∀ y j, zslLevelAt next y j = zslLevelAt zsl y j)
        ∧ zslShape next zsl.header = zslShape zsl zsl.header
        ∧ ShapesAt next (lo ++ [] ++ hi) := by
  obtain ⟨node, read, -, -, back, -⟩ :=
    zslNode_of_shape (shapes lo entry hi (by simp))
  have start
      : zslUnlinkBack zsl entry.ptr
        = match (cellFor 0 hi).forward with
          | some next => zslSetBackward zsl next (lastPtr lo)
          | none => pure { zsl with tail := lastPtr lo } := by
    rw [zslUnlinkBack, own, ok_andThen, read, ok_andThen, back]
  obtain ⟨_, _, behind⟩ :=
    ptr_ne_of_nodup nodup (show lo ++ [entry] ++ hi = lo ++ entry :: hi by simp)
  cases hi with
  | nil =>
      refine ⟨{ zsl with tail := lastPtr lo }, start, by simp, fun _ _ => rfl, rfl, ?_⟩
      refine shapes.replace (fun _ _ => rfl) ?_ ?_ (fun _ member => nomatch member)
      · intro before other after none
        simp at none
      · intro other rest none
        cases none
  | cons head rest =>
      have tall : 0 < head.height := positive head List.mem_cons_self
      have headShape := shapes (lo ++ [entry]) head rest (by simp)
      obtain ⟨next, ran, fields, cells, shape, others⟩ := zslSetBackward_ok headShape (lastPtr lo)
      obtain ⟨headerOther, before, after⟩ :=
        ptr_ne_of_nodup nodup (show lo ++ [entry] ++ head :: rest = (lo ++ [entry])
          ++ head :: rest from rfl)
      refine ⟨next, ?_, ?_, cells, others _ headerOther, ?_⟩
      · rw [start, cellFor_tall tall]
        exact ran
      · rw [fields, tail, lastPtr_append (by simp), lastPtr_append (by simp)]
      · refine shapes.replace (fun other member => others _ (before other (by simp [member]))) ?_ ?_
          ?_
        · intro front other rest none
          simp at none
        · intro other rest' parts
          obtain ⟨rfl, rfl⟩ := List.cons.inj parts
          rw [List.append_nil]
          exact shape
        · intro other member
          exact others _ (after other member)

/-- The level ends at the tallest node, and no node is on the levels that are given up. -/
theorem zslLowerLevel_ok {level : Nat} (positive : 0 < level)
    (linked : ∀ i < level, LevelLinked zsl i entries)
    : ∃ top, zslLowerLevel zsl level = .ok top
        ∧ 0 < top
        ∧ top ≤ level
        ∧ (top = 1 ∨ ∃ entry ∈ entries, top ≤ entry.height)
        ∧ ∀ i, top ≤ i → i < level → AllLow ZslEntry.height i entries := by
  induction level with
  | zero => exact absurd positive (Nat.lt_irrefl 0)
  | succ level ih =>
      cases level with
      | zero => exact ⟨1, rfl, Nat.one_pos, le_rfl, .inl rfl, fun i low high => by omega⟩
      | succ level =>
          have cell :=
            linked (level + 1) (Nat.lt_succ_self _) [] entries rfl (fun _ last => nomatch last)
          rw [pointerAt_nil] at cell
          rcases taller_cases ZslEntry.height (level + 1) entries with
            low | ⟨skipped, entry, rest, rfl, low, tall⟩
          · obtain ⟨top, ran, above, most, used, given⟩ :=
              ih (Nat.succ_pos level) (fun i below => linked i (Nat.lt_succ_of_lt below))
            refine ⟨top, ?_, above, Nat.le_succ_of_le most, used, ?_⟩
            · rw [zslLowerLevel, cell, ok_andThen, cellFor, nextTaller_none low]
              exact ran
            · intro i least below
              rcases Nat.lt_succ_iff_lt_or_eq.mp below with lower | rfl
              · exact given i least lower
              · exact low
          · refine ⟨level + 2, ?_, Nat.succ_pos _, le_rfl, .inr ⟨entry, by simp, tall⟩,
              fun i low high => by omega⟩
            rw [zslLowerLevel, cell, ok_andThen, cellFor, nextTaller_some low tall]
            rfl

theorem zslFreeNode_levelAt {x y : Nat} (different : y ≠ x) (i : Nat)
    : zslLevelAt (zslFreeNode zsl x) y i = zslLevelAt zsl y i := by
  simp [zslFreeNode, zslLevelAt, zslNode, Function.update_of_ne different]

theorem zslFreeNode_shape {x y : Nat} (different : y ≠ x)
    : zslShape (zslFreeNode zsl x) y = zslShape zsl y := by
  simp [zslFreeNode, zslShape, Function.update_of_ne different]

/-- `zslDeleteNode` and `zslFreeNode` take one entry out of the list. What `update` holds stays
right for the levels that are left.
-/
theorem zslDeleteNode_ok (represents : ZslRepresents zsl (lo ++ [entry] ++ hi))
    (found : UpdateFor zsl.header zsl.level lo update)
    : ∃ next, zslDeleteNode zsl entry.ptr update = .ok next
        ∧ ZslRepresents (zslFreeNode next entry.ptr) (lo ++ hi)
        ∧ next.header = zsl.header
        ∧ next.level ≤ zsl.level := by
  have nodup := represents.nodup
  obtain ⟨headerOther, inLo, inHi⟩ :=
    ptr_ne_of_nodup nodup (show lo ++ [entry] ++ hi = lo ++ entry :: hi by simp)
  have outside : ∀ y ∈ zsl.header :: (lo ++ hi).map ZslEntry.ptr, y ≠ entry.ptr := by
    intro y member
    rcases List.mem_cons.mp member with rfl | inside
    · exact headerOther
    · obtain ⟨other, among, rfl⟩ := List.mem_map.mp inside
      exact (List.mem_append.mp among).elim (inLo other) (inHi other)
  have start : UnlinkedTo zsl (lo ++ [] ++ hi) entry.ptr 0 zsl :=
    ⟨⟨Rewired.refl zsl, fun i low => absurd low (Nat.not_lt_zero i), fun _ _ _ => rfl⟩, fun _ =>
      rfl⟩
  obtain ⟨middle, ranLevels, unlinked⟩ := @foldlM_range_ok Fault (Zskiplist σ) _
    (UnlinkedTo zsl (lo ++ [] ++ hi) entry.ptr) zsl.level zsl start
    (fun i state inside unlinked =>
      zslUnlinkLevel_ok nodup represents.linked found inside unlinked)
  have header : middle.header = zsl.header := unlinked.rewired.header
  have heights := represents.heights
  have own : zslLevelAt middle entry.ptr 0 = .ok (cellFor 0 hi) := by
    rw [unlinked.own, ← pointerAt_concat zsl.header lo entry]
    refine represents.linked 0 represents.level_pos (lo ++ [entry]) hi rfl ?_
    intro other last
    exact (heights other (List.mem_append_left hi (List.mem_of_getLast? last))).1
  have shapes : ShapesAt middle (lo ++ [entry] ++ hi) := by
    intro before other after split
    rw [unlinked.rewired.shapes]
    exact represents.nodes before other after split
  obtain ⟨back, ranBack, fieldsBack, cells, headerShape, shapesBack⟩ :=
    zslUnlinkBack_ok (by rw [header]; exact nodup) shapes
      (by rw [unlinked.rewired.fields]; exact represents.tail) own
      (fun other member => (heights other (by simp [member])).1)
  have fields : back = { zsl with heap := back.heap, tail := lastPtr (lo ++ hi) } := by
    rw [fieldsBack, unlinked.rewired.fields]
  have headerBack : back.header = zsl.header := by rw [fields]
  have levelBack : back.level = zsl.level := by rw [fields]
  have linked : ∀ i < zsl.level, LevelLinked back i (lo ++ hi) := by
    intro i inside
    have level := (unlinked.linked i inside).congr (headerBack.trans header.symm)
      (fun y _ => cells y i)
    rwa [List.append_nil] at level
  obtain ⟨top, ranTop, least, most, used, given⟩ := zslLowerLevel_ok represents.level_pos linked
  have below : ∀ other ∈ lo ++ hi, other.height ≤ top := by
    intro other member
    rcases Nat.lt_or_eq_of_le most with fewer | same
    · exact given top le_rfl fewer other member
    · rw [same]
      refine (heights other ?_).2
      simp only [List.mem_append] at member ⊢
      tauto
  refine ⟨{ back with level := top, length := back.length - 1 }, ?_, ?_, headerBack, most⟩
  · rw [zslDeleteNode, ranLevels, ok_andThen, ranBack, ok_andThen, levelBack, ranTop]
    rfl
  have others (y : Nat) (member : y ∈ zsl.header :: (lo ++ hi).map ZslEntry.ptr) (i : Nat)
      : zslLevelAt (zslFreeNode { back with level := top, length := back.length - 1 } entry.ptr) y i
        = zslLevelAt back y i :=
    zslFreeNode_levelAt (outside y member) i
  refine ⟨⟨?_, ?_, ?_, ?_⟩, ?_, ?_, ?_, ?_, ?_, ?_, ?_⟩
  · change (back.header :: _).Nodup
    rw [headerBack]
    exact nodup.sublist (by simp)
  · intro y member
    change y < back.unused
    change y ∈ back.header :: _ at member
    rw [headerBack] at member
    rw [fields]
    refine represents.allocated y ?_
    simp only [List.map_append, List.mem_cons, List.mem_append] at member ⊢
    tauto
  · obtain ⟨score, shape⟩ := represents.header
    refine ⟨score, ?_⟩
    change zslShape (zslFreeNode _ _) back.header = _
    rw [headerBack, zslFreeNode_shape headerOther]
    change zslShape back zsl.header = _
    rw [← header, headerShape, unlinked.rewired.shapes, header]
    exact shape
  · intro before other after split
    have member : other.ptr ∈ (lo ++ hi).map ZslEntry.ptr := by
      rw [split]
      simp
    rw [zslFreeNode_shape (outside _ (List.mem_cons_of_mem _ member))]
    exact shapesBack before other after (by rw [List.append_nil]; exact split)
  · intro other member
    refine ⟨(heights other ?_).1, below other member⟩
    simp only [List.mem_append] at member ⊢
    tauto
  · exact Nat.le_trans most represents.level_le
  · refine used.imp id ?_
    rintro ⟨other, member, tall⟩
    exact ⟨other, member, Nat.le_antisymm (below other member) tall⟩
  · intro i inside
    refine (linked i (Nat.lt_of_lt_of_le inside most)).congr rfl ?_
    intro y member
    rw [headerBack] at member
    exact others y member i
  · intro i above inside
    have freed := others zsl.header List.mem_cons_self i
    rw [← headerBack] at freed
    change ∃ span, zslLevelAt (zslFreeNode { back with level := top, length := back.length - 1 }
      entry.ptr) back.header i = _
    rw [freed, headerBack]
    by_cases old : i < zsl.level
    · have cell := linked i old [] (lo ++ hi) rfl (fun _ last => nomatch last)
      rw [pointerAt_nil, headerBack, cellFor, nextTaller_none (given i above old)] at cell
      exact ⟨_, cell⟩
    · obtain ⟨span, cell⟩ := represents.above i (Nat.not_lt.mp old) inside
      refine ⟨span, ?_⟩
      rw [cells, unlinked.others _ i (Nat.not_lt.mp old)]
      exact cell
  · change back.tail = _
    rw [fields]
  · change back.length - 1 = _
    rw [fields]
    change zsl.length - 1 = _
    rw [represents.length]
    simp

end Unlinking

section Ranges

variable {σ : Type} {zsl : Zskiplist σ} {entries lo hi : List (ZslEntry σ)}
  {ahead inRange : Nat → ZskiplistNode σ → Except Fault Bool}
  {past inside : Nat → ZslEntry σ → Bool}

theorem cellFor_zero (positive : ∀ entry ∈ entries, 0 < entry.height)
    : (cellFor 0 entries).forward = entries.head?.map ZslEntry.ptr := by
  cases entries with
  | nil => rfl
  | cons entry rest =>
      rw [cellFor_tall (positive entry List.mem_cons_self)]
      rfl

theorem ZslRepresents.next (represents : ZslRepresents zsl (lo ++ hi))
    : zslLevelAt zsl (pointerAt zsl.header lo) 0 = .ok (cellFor 0 hi)
      ∧ (cellFor 0 hi).forward = hi.head?.map ZslEntry.ptr := by
  have positive : ∀ entry ∈ lo ++ hi, 0 < entry.height := fun entry member =>
    (represents.heights entry member).1
  refine ⟨represents.linked 0 represents.level_pos lo hi rfl fun entry last => ?_,
    cellFor_zero fun entry member => positive entry (List.mem_append_right lo member)⟩
  exact positive entry (List.mem_append_left hi (List.mem_of_getLast? last))

theorem zslDescend_place (represents : ZslRepresents zsl entries) (small : entries.length < 2 ^ 32)
    (tests : Tests ahead past)
    : ∃ lo hi update, entries = lo ++ hi
        ∧ zslDescend ahead zsl zsl.level zsl.header 0 = .ok update
        ∧ updateAt update 0 = .ok (pointerAt zsl.header lo, lo.length)
        ∧ UpdateFor zsl.header zsl.level lo update
        ∧ (∀ entry ∈ lo.getLast?, past lo.length entry = true)
        ∧ ∀ entry ∈ hi.head?, past (lo.length + 1) entry = false := by
  obtain ⟨lo, hi, update, rfl, descended, found⟩ :=
    zslSearch_ok represents (spansExact_of_small small) tests
  have zero := found.updateFor 0 represents.level_pos
  rw [updateNode, upToTaller_zero fun entry member =>
    (represents.heights entry (List.mem_append_left hi member)).1] at zero
  refine ⟨lo, hi, update, rfl, descended, zero, found.updateFor, fun entry last => ?_,
    fun entry first => ?_⟩
  · have tested := found.last entry last
    rwa [List.length_nil, Nat.zero_add] at tested
  · obtain ⟨rest, parts⟩ := List.head?_eq_some_iff.mp first
    exact found.head_refused represents.level_pos
      (fun other member => (represents.heights other member).1) parts

theorem zslBehind_ok (represents : ZslRepresents zsl entries) (small : entries.length < 2 ^ 32)
    (tests : Tests ahead past)
    : ∃ lo hi update, entries = lo ++ hi
        ∧ zslBehind ahead zsl = .ok (update, lo.length, hi.head?.map ZslEntry.ptr)
        ∧ UpdateFor zsl.header zsl.level lo update
        ∧ (∀ entry ∈ lo.getLast?, past lo.length entry = true)
        ∧ ∀ entry ∈ hi.head?, past (lo.length + 1) entry = false := by
  obtain ⟨lo, hi, update, rfl, descended, place, found⟩ := zslDescend_place represents small tests
  obtain ⟨cell, forward⟩ := represents.next
  refine ⟨lo, hi, update, rfl, ?_, found⟩
  rw [zslBehind, descended, ok_andThen, place, ok_andThen]
  simp only
  rw [cell, ok_andThen, forward]
  rfl

/-- The entries `mid` from a position on are in the range, and the next one is not. -/
structure InRange (inside : Nat → ZslEntry σ → Bool) (position : Nat) (mid rest : List (ZslEntry σ))
    : Prop where
  taken : ∀ front entry back,
    mid = front ++ entry :: back → inside (position + front.length) entry = true
  stops : ∀ entry ∈ rest.head?, inside (position + mid.length) entry = false

theorem zslDeleteWhile_ok (represents : ZslRepresents zsl (lo ++ hi)) {update : List (Nat × Nat)}
    (found : UpdateFor zsl.header zsl.level lo update) (tests : Tests inRange inside) {rounds : Nat}
    (enough : hi.length ≤ rounds) (position : Nat)
    : ∃ mid rest next, hi = mid ++ rest
        ∧ zslDeleteWhile inRange update rounds zsl (hi.head?.map ZslEntry.ptr) position
          = .ok (next, mid.map ZslEntry.obj)
        ∧ ZslRepresents next (lo ++ rest)
        ∧ InRange inside position mid rest := by
  induction hi generalizing zsl rounds position with
  | nil =>
      refine ⟨[], [], zsl, rfl, by cases rounds <;> rfl, represents, ?_, fun _ first =>
        nomatch first⟩
      intro front entry back none
      simp at none
  | cons entry hi ih =>
      obtain ⟨rounds, rfl⟩ : ∃ fewer, rounds = fewer + 1 :=
        Nat.exists_eq_add_one_of_ne_zero (by rw [List.length_cons] at enough; omega)
      obtain ⟨node, read, sameObj, sameScore, _⟩ := represents.nodeAt (rfl : lo ++ entry :: hi = _)
      have tested := tests position node entry sameObj sameScore
      rw [List.head?_cons, Option.map_some, zslDeleteWhile, read, ok_andThen, tested, ok_andThen]
      cases takes : inside position entry with
      | false =>
          refine ⟨[], entry :: hi, zsl, rfl, rfl, represents, ?_, ?_⟩
          · intro front other back none
            simp at none
          · intro other first
            cases first
            exact takes
      | true =>
          have moved : lo ++ entry :: hi = lo ++ [entry] ++ hi := by simp
          rw [moved] at represents
          obtain ⟨next, deleted, fewer, header, level⟩ := zslDeleteNode_ok represents found
          obtain ⟨cell, forward⟩ := represents.next
          rw [pointerAt_concat] at cell
          have found' : UpdateFor next.header next.level lo update := fun i below => by
            rw [header]
            exact found i (Nat.lt_of_lt_of_le below level)
          obtain ⟨mid, rest, final, rfl, ran, represented, taken⟩ :=
            ih fewer found' (Nat.le_of_succ_le_succ enough) (position + 1)
          refine ⟨entry :: mid, rest, final, rfl, ?_, represented, ?_, ?_⟩
          · rw [if_pos rfl, cell, ok_andThen, deleted, ok_andThen, zslObj, sameObj]
            simp only [ok_andThen]
            rw [forward, ran]
            rfl
          · intro front other back parts
            cases front with
            | nil =>
                cases parts
                exact takes
            | cons first front =>
                rw [List.cons_append, List.cons.injEq] at parts
                have tested := taken.taken front other back parts.2
                rwa [Nat.add_assoc, Nat.add_comm 1] at tested
          · intro other first
            have tested := taken.stops other first
            rwa [Nat.add_assoc, Nat.add_comm 1] at tested

/-- A range is taken out of the list: `lo` is in front of it and `rest` behind it. -/
theorem zslDeleteRange_ok (represents : ZslRepresents zsl entries) (small : entries.length < 2 ^ 32)
    (passes : Tests ahead past) (tests : Tests inRange inside)
    : ∃ lo mid rest next, entries = lo ++ (mid ++ rest)
        ∧ zslDeleteRange ahead inRange zsl = .ok (next, mid.map ZslEntry.obj)
        ∧ ZslRepresents next (lo ++ rest)
        ∧ (∀ entry ∈ lo.getLast?, past lo.length entry = true)
        ∧ (∀ entry ∈ (mid ++ rest).head?, past (lo.length + 1) entry = false)
        ∧ InRange inside (lo.length + 1) mid rest := by
  obtain ⟨lo, hi, update, rfl, behind, found, last, first⟩ := zslBehind_ok represents small passes
  obtain ⟨mid, rest, next, rfl, ran, represented, taken⟩ :=
    zslDeleteWhile_ok represents found tests
      (show hi.length ≤ zsl.length + 1 by rw [represents.length, List.length_append]; omega)
      (lo.length + 1)
  refine ⟨lo, mid, rest, next, rfl, ?_, represented, last, first, taken⟩
  rw [zslDeleteRange, behind, ok_andThen]
  exact ran

end Ranges

section Deleting

variable {σ : Type} [LinearOrder σ] {zsl : Zskiplist σ} {entries : List (ZslEntry σ)}

theorem ZslEntry.before.trans {first second : ZslEntry σ} {score : σ} {obj : List UInt8}
    (one : first.before second.score second.obj) (two : second.before score obj)
    : first.before score obj := by
  rcases one with less | ⟨same, less⟩ <;> rcases two with less' | ⟨same', less'⟩
  · exact .inl (less.trans less')
  · exact .inl (same' ▸ less)
  · exact .inl (same.symm ▸ less')
  · exact .inr ⟨same.trans same', less.trans less'⟩

theorem ZslEntry.before.irrefl {entry : ZslEntry σ} (before : entry.before entry.score entry.obj)
    : False :=
  before.elim (lt_irrefl _) fun same => lt_irrefl _ same.2

/-- `zslDelete` takes the entry with the score and the object out of an ordered list, if there is
one.
-/
theorem zslDelete_ok (represents : ZslRepresents zsl entries) (small : entries.length < 2 ^ 32)
    (ordered : ZslOrdered entries) (score : σ) (obj : List UInt8)
    : ∃ next deleted, zslDelete zsl score obj = .ok (next, deleted)
        ∧ ((∃ lo entry hi, entries = lo ++ [entry] ++ hi
              ∧ (entry.score, entry.obj) = (score, obj)
              ∧ deleted = true
              ∧ ZslRepresents next (lo ++ hi))
            ∨ (∀ entry ∈ entries, (entry.score, entry.obj) ≠ (score, obj))
              ∧ deleted = false
              ∧ next = zsl) := by
  obtain ⟨lo, hi, update, rfl, behind, found, last, first⟩ :=
    zslBehind_ok represents small (zslComesBefore_tests score obj)
  simp only [zslDelete, behind, ok_andThen]
  obtain ⟨sortedLo, sortedHi, _⟩ := List.pairwise_append.mp ordered.sorted
  -- Entries in front of the place come before what is searched for.
  have inLo : ∀ entry ∈ lo, (entry.score, entry.obj) ≠ (score, obj) := by
    intro entry member same
    obtain ⟨rfl, rfl⟩ := Prod.mk.inj same
    have before : entry.before entry.score entry.obj :=
      forall_of_getLast (p := fun other => other.before entry.score entry.obj) sortedLo
        (fun a b less before => less.trans before) (by simpa using last) entry member
    exact before.irrefl
  cases hi with
  | nil =>
      refine ⟨zsl, false, rfl, .inr ⟨fun entry member => inLo entry ?_, rfl, rfl⟩⟩
      simpa using member
  | cons entry hi =>
      obtain ⟨node, read, sameObj, sameScore, _⟩ := represents.nodeAt (rfl : lo ++ entry :: hi = _)
      simp only [List.head?_cons, Option.map_some, read, ok_andThen, sameScore, zslObj, sameObj]
      have behind : ¬ entry.before score obj := by simpa using first
      by_cases same : (entry.score, entry.obj) = (score, obj)
      · obtain ⟨rfl, rfl⟩ := Prod.mk.inj same
        have moved : lo ++ entry :: hi = lo ++ [entry] ++ hi := by simp
        rw [moved] at represents
        obtain ⟨next, deleted, fewer, _⟩ := zslDeleteNode_ok represents found
        refine ⟨zslFreeNode next entry.ptr, true, ?_, .inl ⟨lo, entry, hi, moved, rfl, rfl, fewer⟩⟩
        rw [if_pos rfl, if_pos, deleted]
        · rfl
        · exact decide_eq_true ((compareBytes_eq _ _).mpr rfl)
      · refine ⟨zsl, false, ?_, .inr ⟨?_, rfl, rfl⟩⟩
        · by_cases equal : score = entry.score
          · rw [if_pos equal, if_neg]
            · rfl
            · intro equalObj
              exact same
                (Prod.ext equal.symm ((compareBytes_eq _ _).mp (of_decide_eq_true equalObj)))
          · rw [if_neg equal]
            rfl
        · intro other member equal
          rcases List.mem_append.mp member with inside | later
          · exact inLo other inside equal
          · rcases List.mem_cons.mp later with rfl | further
            · exact same equal
            · obtain ⟨rfl, rfl⟩ := Prod.mk.inj equal
              exact behind ((List.pairwise_cons.mp sortedHi).1 other further)

end Deleting

end Redis
