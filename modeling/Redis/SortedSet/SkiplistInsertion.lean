import Redis.SortedSet.SkiplistLevels

/-! `zslInsert` puts one entry between those that come before it and those that come after it. -/

namespace Redis

open Redis.Library

section Insertion

variable {σ : Type} {zsl : Zskiplist σ} {entries lo hi : List (ZslEntry σ)} {i : Nat}

-- A new level

theorem ZslRepresents.low_above (represents : ZslRepresents zsl entries) (above : zsl.level ≤ i)
    : AllLow ZslEntry.height i entries :=
  fun entry member => Nat.le_trans (represents.heights entry member).2 above

theorem levelLinked_of_low (low : AllLow ZslEntry.height i entries)
    (cell : zslLevelAt zsl zsl.header i = .ok ⟨none, UInt32.ofNat entries.length⟩)
    : LevelLinked zsl i entries := by
  intro before after split ends
  rcases List.eq_nil_or_concat before with rfl | ⟨init, last, rfl⟩
  · rw [List.nil_append] at split
    rw [pointerAt_nil, cell, ← split, cellFor, nextTaller_none low]
    rfl
  · rw [List.concat_eq_append] at split ends
    have tall : i < last.height := ends last (by simp)
    have short := low last (by simp [split])
    exact absurd tall (Nat.not_lt.mpr short)

/-- The state behind `zslRaiseLevel`. -/
structure Raised (zsl raised : Zskiplist σ) (level : Nat) (lo hi : List (ZslEntry σ))
    (update : List (Nat × Nat)) : Prop where
  fields : raised = { zsl with heap := raised.heap, level := max zsl.level level }
  shapes : ∀ y, zslShape raised y = zslShape zsl y
  linked : ∀ i < max zsl.level level, LevelLinked raised i (lo ++ hi)
  above : ∀ i, max zsl.level level ≤ i → i < zskiplistMaxLevel →
    ∃ span, zslLevelAt raised zsl.header i = .ok ⟨none, span⟩
  update : UpdateFor zsl.header (max zsl.level level) lo update

/-- The headers of the levels up to `k` have the length as their span. -/
structure RaisedTo (zsl : Zskiplist σ) (k : Nat) (state : Zskiplist σ) : Prop where
  rewired : Rewired zsl state
  cells : ∀ i, zsl.level ≤ i → i < k →
    zslLevelAt state zsl.header i = .ok ⟨none, UInt32.ofNat zsl.length⟩
  others : ∀ y i, i < zsl.level ∨ k ≤ i → zslLevelAt state y i = zslLevelAt zsl y i

theorem RaisedTo.round (represents : ZslRepresents zsl entries) {state : Zskiplist σ}
    (low : zsl.level ≤ i) (high : i < zskiplistMaxLevel) (raised : RaisedTo zsl i state)
    : ∃ next, (do
          let cell ← zslLevelAt state state.header i
          zslSetLevelAt state state.header i { cell with span := UInt32.ofNat state.length })
        = .ok next ∧ RaisedTo zsl (i + 1) next := by
  obtain ⟨span, cell⟩ := represents.above i low high
  have current : zslLevelAt state state.header i = .ok ⟨none, span⟩ := by
    rw [raised.rewired.header, raised.others _ i (.inr (Nat.le_refl i)), cell]
  have length : state.length = zsl.length := by rw [raised.rewired.fields]
  obtain ⟨next, ran, set⟩ := zslSetLevelAt_ok current ⟨none, UInt32.ofNat state.length⟩
  refine ⟨next, ?_, raised.rewired.trans set.rewired, ?_, ?_⟩
  · rw [current, ok_andThen]
    exact ran
  · intro j least most
    rcases Nat.lt_succ_iff_lt_or_eq.mp most with before | rfl
    · rw [set.others _ j (fun same => Nat.ne_of_lt before same.2)]
      exact raised.cells j least before
    · rw [← raised.rewired.header, ← length]
      exact set.cell
  · intro y j outside
    rw [set.others y j (fun same => by omega)]
    exact raised.others y j (by omega)

theorem zslRaiseLevel_ok (represents : ZslRepresents zsl (lo ++ hi)) {level : Nat}
    (most : level ≤ zskiplistMaxLevel) {update : List (Nat × Nat)}
    (size : update.length = zsl.level)
    (found : UpdateFor zsl.header zsl.level lo update)
    : ∃ raised update', zslRaiseLevel zsl level update = .ok (raised, update')
        ∧ Raised zsl raised level lo hi update' := by
  by_cases taller : level > zsl.level
  · have larger : max zsl.level level = level := Nat.max_eq_right (Nat.le_of_lt taller)
    have start : RaisedTo zsl zsl.level zsl :=
      ⟨Rewired.refl zsl, fun i low high => absurd high (Nat.not_lt.mpr low), fun _ _ _ => rfl⟩
    obtain ⟨state, ran, raised⟩ := @foldlM_range'_ok Fault (Zskiplist σ) _ (RaisedTo zsl) zsl.level
      (level - zsl.level) zsl start
      (fun i state low high raised => raised.round represents low (by omega))
    rw [show zsl.level + (level - zsl.level) = level by omega] at raised
    refine ⟨{ state with level },
      update ++ List.replicate (level - zsl.level) (zsl.header, 0), ?_, ?_, ?_, ?_, ?_, ?_⟩
    · rw [zslRaiseLevel, if_pos taller, ran]
      rfl
    · rw [larger, raised.rewired.fields]
    · exact raised.rewired.shapes
    · intro i inside
      rw [larger] at inside
      by_cases used : i < zsl.level
      · exact (represents.linked i used).congr raised.rewired.header
          (fun y _ => raised.others y i (.inl used))
      · have low := represents.low_above (Nat.not_lt.mp used)
        have cell := raised.cells i (Nat.not_lt.mp used) inside
        rw [← raised.rewired.header, represents.length] at cell
        exact levelLinked_of_low low cell
    · intro i above inside
      rw [larger] at above
      obtain ⟨span, cell⟩ := represents.above i (by omega) inside
      exact ⟨span, (raised.others _ i (.inr above)).trans cell⟩
    · intro i inside
      rw [larger] at inside
      by_cases used : i < zsl.level
      · rw [updateAt, List.getElem?_append_left (by rw [size]; exact used)]
        exact found i used
      · have low : AllLow ZslEntry.height i lo := fun entry member =>
          represents.low_above (Nat.not_lt.mp used) entry (by simp [member])
        have nothing : upToTaller ZslEntry.height i ([] ++ lo) = [] :=
          upToTaller_eq (fun _ last => by cases last) low
        rw [List.nil_append] at nothing
        rw [updateAt, List.getElem?_append_right (by rw [size]; exact Nat.not_lt.mp used), size,
          List.getElem?_replicate_of_lt (by omega), updateNode, nothing]
        rfl
  · have same : max zsl.level level = zsl.level := Nat.max_eq_left (Nat.not_lt.mp taller)
    refine ⟨zsl, update, by rw [zslRaiseLevel, if_neg taller]; rfl, ?_, fun _ => rfl, ?_, ?_, ?_⟩
    · rw [same]
    · rw [same]
      exact represents.linked
    · rw [same]
      exact represents.above
    · rw [same]
      exact found

-- The levels of the new node

/-- Before the levels are linked: the node is there, but on no level. -/
structure NodeAdded (zsl : Zskiplist σ) (lo hi : List (ZslEntry σ)) (entry : ZslEntry σ) (top : Nat)
    (update : List (Nat × Nat)) : Prop where
  nodup : (zsl.header :: (lo ++ [entry] ++ hi).map ZslEntry.ptr).Nodup
  cells : ∀ i < entry.height, ∃ cell, zslLevelAt zsl entry.ptr i = .ok cell
  linked : ∀ i < top, LevelLinked zsl i (lo ++ [] ++ hi)
  update : UpdateFor zsl.header top lo update

variable {entry : ZslEntry σ} {top : Nat} {update : List (Nat × Nat)} {state : Zskiplist σ}

theorem LinkedTo.cellAt (added : NodeAdded zsl lo hi entry top update) (inside : i < top)
    (linkedTo : LinkedTo zsl (lo ++ [entry] ++ hi) i state)
    : ∃ mid, lo = upToTaller ZslEntry.height i lo ++ mid ∧ AllLow ZslEntry.height i mid
        ∧ LevelLinked state i (lo ++ [] ++ hi)
        ∧ zslLevelAt state (updateNode zsl.header i lo) i = .ok (cellFor i (mid ++ hi)) := by
  obtain ⟨ends, mid, parts, low⟩ := upToTaller_split ZslEntry.height i lo
  have level : LevelLinked state i (lo ++ [] ++ hi) :=
    (added.linked i inside).congr linkedTo.rewired.header
      (fun y _ => linkedTo.others y i (Nat.le_refl i))
  have cell := level (upToTaller ZslEntry.height i lo) (mid ++ hi)
    (by rw [List.append_nil, ← List.append_assoc, ← parts]) ends
  rw [linkedTo.rewired.header] at cell
  exact ⟨mid, parts, low, level, cell⟩

theorem zslLinkLevel_ok (added : NodeAdded zsl lo hi entry top update) (inside : i < top)
    (tall : i < entry.height) (linkedTo : LinkedTo zsl (lo ++ [entry] ++ hi) i state)
    : ∃ next, zslLinkLevel entry.ptr lo.length update state i = .ok next
        ∧ LinkedTo zsl (lo ++ [entry] ++ hi) (i + 1) next := by
  obtain ⟨mid, parts, low, level, cell⟩ := linkedTo.cellAt added inside
  have different : updateNode zsl.header i lo ≠ entry.ptr := updateNode_ne added.nodup
  have skipped : UInt32.ofNat lo.length
      - UInt32.ofNat (upToTaller ZslEntry.height i lo).length = UInt32.ofNat mid.length := by
    have lengths := congrArg List.length parts
    rw [List.length_append] at lengths
    rw [lengths, UInt32.ofNat_add, UInt32.add_comm, UInt32.add_sub_cancel]
  obtain ⟨old, there⟩ := added.cells i tall
  rw [← linkedTo.others _ i (Nat.le_refl i)] at there
  obtain ⟨middle, first, setNew⟩ := zslSetLevelAt_ok there (cellFor i hi)
  have current : zslLevelAt middle (updateNode zsl.header i lo) i
      = .ok (cellFor i (mid ++ hi)) := by
    rw [setNew.others _ i (fun same => different same.1), cell]
  obtain ⟨next, second, setUpdate⟩ :=
    zslSetLevelAt_ok current (cellFor i (mid ++ [entry] ++ hi))
  refine ⟨next, ?_, linkedTo.step (setNew.rewired.trans setUpdate.rewired) ?_ ?_⟩
  · have newCell : (⟨(cellFor i (mid ++ hi)).forward,
        (cellFor i (mid ++ hi)).span - UInt32.ofNat mid.length⟩ : ZskiplistLevel)
        = cellFor i hi := by
      rw [cellFor_low low, UInt32.add_comm, UInt32.add_sub_cancel]
    have updateCell : (⟨some entry.ptr, UInt32.ofNat mid.length + 1⟩ : ZskiplistLevel)
        = cellFor i (mid ++ [entry] ++ hi) := by
      rw [List.append_assoc, cellFor_low low, List.singleton_append, cellFor_tall tall]
    rw [zslLinkLevel, added.update i inside, ok_andThen]
    simp only
    rw [cell, ok_andThen, skipped, newCell, first, ok_andThen, updateCell]
    exact second
  · intro y j other
    rw [setUpdate.others y j (fun same => other same.2),
      setNew.others y j (fun same => other same.2)]
  · have header : state.header = zsl.header := linkedTo.rewired.header
    refine level.replace (setNew.rewired.trans setUpdate.rewired).header ?_ parts ?_ ?_ ?_
    · rw [header]
      exact added.nodup
    · rw [header]
      exact setUpdate.cell
    · intro front back newEq some ends
      obtain ⟨rfl, rfl⟩ : front = [entry] ∧ back = [] := by
        rcases List.append_eq_singleton_iff.mp newEq.symm with ⟨none, _⟩ | whole
        · exact absurd none some
        · exact whole
      rw [← List.nil_append [entry], pointerAt_concat, List.nil_append,
        setUpdate.others _ i (fun same => different same.1.symm)]
      exact setNew.cell
    · intro y notUpdate notNew
      rw [header] at notUpdate
      rw [setUpdate.others y i (fun same => notUpdate same.1),
        setNew.others y i (fun same => notNew (by simp [same.1]))]

theorem zslCountLevel_ok (added : NodeAdded zsl lo hi entry top update) (inside : i < top)
    (low : entry.height ≤ i) (linkedTo : LinkedTo zsl (lo ++ [entry] ++ hi) i state)
    : ∃ next, zslCountLevel update state i = .ok next
        ∧ LinkedTo zsl (lo ++ [entry] ++ hi) (i + 1) next := by
  obtain ⟨mid, parts, lows, level, cell⟩ := linkedTo.cellAt added inside
  have header : state.header = zsl.header := linkedTo.rewired.header
  obtain ⟨next, ran, set⟩ := zslSetLevelAt_ok cell (cellFor i (mid ++ [entry] ++ hi))
  refine ⟨next, ?_, linkedTo.step set.rewired ?_ ?_⟩
  · have counted : ({ cellFor i (mid ++ hi) with span := (cellFor i (mid ++ hi)).span + 1 }
        : ZskiplistLevel) = cellFor i (mid ++ [entry] ++ hi) := by
      rw [List.append_assoc, cellFor_low lows, cellFor_low lows, List.singleton_append,
        cellFor_short low, UInt32.add_assoc]
    rw [zslCountLevel, added.update i inside, ok_andThen]
    simp only
    rw [cell, ok_andThen, counted]
    exact ran
  · intro y j other
    exact set.others y j (fun same => other same.2)
  · refine level.replace set.rewired.header ?_ parts ?_ ?_ ?_
    · rw [header]
      exact added.nodup
    · rw [header]
      exact set.cell
    · intro front back newEq some ends
      obtain ⟨rfl, rfl⟩ : front = [entry] ∧ back = [] := by
        rcases List.append_eq_singleton_iff.mp newEq.symm with ⟨none, _⟩ | whole
        · exact absurd none some
        · exact whole
      have tall : i < entry.height := ends entry (by simp)
      exact absurd tall (Nat.not_lt.mpr low)
    · intro y notUpdate _
      rw [header] at notUpdate
      exact set.others y i (fun same => notUpdate same.1)

theorem linkLevels_ok (added : NodeAdded zsl lo hi entry top update) (fits : entry.height ≤ top)
    : ∃ middle final,
        (List.range entry.height).foldlM (zslLinkLevel entry.ptr lo.length update) zsl = .ok middle
        ∧ Rewired zsl middle
        ∧ (List.range' entry.height (top - entry.height)).foldlM (zslCountLevel update) middle
          = .ok final
        ∧ LinkedTo zsl (lo ++ [entry] ++ hi) top final := by
  have start : LinkedTo zsl (lo ++ [entry] ++ hi) 0 zsl :=
    ⟨Rewired.refl zsl, fun i outside => absurd outside (Nat.not_lt_zero i), fun _ _ _ => rfl⟩
  obtain ⟨middle, first, half⟩ := @foldlM_range_ok Fault (Zskiplist σ) _
    (LinkedTo zsl (lo ++ [entry] ++ hi)) entry.height zsl start
    (fun i state inside linkedTo => zslLinkLevel_ok added (by omega) inside linkedTo)
  obtain ⟨final, second, done⟩ := @foldlM_range'_ok Fault (Zskiplist σ) _
    (LinkedTo zsl (lo ++ [entry] ++ hi)) entry.height (top - entry.height) middle half
    (fun i state low high linkedTo => zslCountLevel_ok added (by omega) low linkedTo)
  rw [show entry.height + (top - entry.height) = top by omega] at done
  exact ⟨middle, final, first, half.rewired, second, done⟩

-- The new node

def zslAddNode (zsl : Zskiplist σ) (node : ZskiplistNode σ) : Zskiplist σ :=
  { zslSetNode zsl zsl.unused node with unused := zsl.unused + 1 }

theorem zslAddNode_levelAt {node : ZskiplistNode σ} {y : Nat} (different : y ≠ zsl.unused) (i : Nat)
    : zslLevelAt (zslAddNode zsl node) y i = zslLevelAt zsl y i := by
  simp [zslAddNode, zslLevelAt, zslNode, zslSetNode, Function.update_of_ne different]

theorem zslAddNode_shape {node : ZskiplistNode σ} {y : Nat} (different : y ≠ zsl.unused)
    : zslShape (zslAddNode zsl node) y = zslShape zsl y := by
  simp [zslAddNode, zslShape, zslSetNode, Function.update_of_ne different]

theorem zslAddNode_new (zsl : Zskiplist σ) (level : Nat) (score : σ) (obj : List UInt8)
    : zslShape (zslAddNode zsl (zslCreateNode level score (some obj))) zsl.unused
      = some (some obj, score, none, level) := by
  simp [zslAddNode, zslShape, zslSetNode, zslCreateNode]

theorem NodesAt.unused_new (nodes : NodesAt zsl (lo ++ hi)) {entry : ZslEntry σ}
    (new : entry.ptr = zsl.unused)
    : (zsl.header :: (lo ++ [entry] ++ hi).map ZslEntry.ptr).Nodup := by
  have fresh : entry.ptr ∉ zsl.header :: (lo ++ hi).map ZslEntry.ptr := by
    intro member
    rw [new] at member
    exact Nat.lt_irrefl _ (nodes.allocated _ member)
  have permuted : (zsl.header :: (lo ++ [entry] ++ hi).map ZslEntry.ptr).Perm
      (entry.ptr :: zsl.header :: (lo ++ hi).map ZslEntry.ptr) := by
    simp only [List.map_append, List.map_cons, List.append_assoc, List.singleton_append]
    exact (List.Perm.cons _ List.perm_middle).trans (List.Perm.swap ..)
  exact permuted.nodup_iff.mpr (List.nodup_cons.mpr ⟨fresh, nodes.nodup⟩)

theorem nodeAdded (represents : ZslRepresents zsl (lo ++ hi)) {raised : Zskiplist σ} {level : Nat}
    (most : Raised zsl raised level lo hi update) (score : σ) (obj : List UInt8)
    : NodeAdded (zslAddNode raised (zslCreateNode level score (some obj))) lo hi
        ⟨zsl.unused, score, obj, level⟩ (max zsl.level level) update := by
  have header : raised.header = zsl.header := by rw [most.fields]
  have unused : raised.unused = zsl.unused := by rw [most.fields]
  have sameHeader : (zslAddNode raised (zslCreateNode level score (some obj))).header
      = zsl.header := header
  refine ⟨?_, ?_, ?_, ?_⟩
  · rw [sameHeader]
    exact represents.unused_new rfl
  · intro i inside
    have shape := zslAddNode_new raised level score obj
    rw [unused] at shape
    exact zslLevelAt_of_shape shape inside
  · intro i inside
    rw [List.append_nil]
    refine (most.linked i inside).congr (sameHeader.trans header.symm) ?_
    intro y member
    rw [header] at member
    refine zslAddNode_levelAt ?_ i
    rw [unused]
    exact Nat.ne_of_lt (represents.allocated y member)
  · rw [sameHeader]
    exact most.update

-- The backward pointers

theorem lastPtr_of_pointerAt (nodup : (zsl.header :: entries.map ZslEntry.ptr).Nodup)
    (here : lo <+: entries)
    : (if pointerAt zsl.header lo = zsl.header then none else some (pointerAt zsl.header lo))
      = lastPtr lo := by
  rcases List.eq_nil_or_concat lo with rfl | ⟨init, last, rfl⟩
  · simp
  · rw [List.concat_eq_append] at here ⊢
    rw [pointerAt_concat, lastPtr_concat, if_neg]
    intro same
    have inside : last.ptr ∈ entries.map ZslEntry.ptr :=
      List.mem_map_of_mem (here.subset (by simp))
    rw [same] at inside
    exact (List.nodup_cons.mp nodup).1 inside

/-- What `zslLinkBack` needs: the levels are linked, the backward pointers are not. -/
structure LevelsLinked (zsl : Zskiplist σ) (lo hi : List (ZslEntry σ)) (entry : ZslEntry σ)
    : Prop where
  nodup : (zsl.header :: (lo ++ [entry] ++ hi).map ZslEntry.ptr).Nodup
  new : zslShape zsl entry.ptr = some (some entry.obj, entry.score, none, entry.height)
  shapes : ShapesAt zsl (lo ++ [] ++ hi)
  positive : ∀ other ∈ lo ++ [entry] ++ hi, 0 < other.height
  linked : LevelLinked zsl 0 (lo ++ [entry] ++ hi)

/-- The state behind `zslLinkBack`. -/
structure LinkedBack (zsl next : Zskiplist σ) (entries : List (ZslEntry σ)) : Prop where
  fields : next = { zsl with heap := next.heap, tail := lastPtr entries, length := zsl.length + 1 }
  levels : ∀ y i, zslLevelAt next y i = zslLevelAt zsl y i
  header : zslShape next zsl.header = zslShape zsl zsl.header
  shapes : ShapesAt next entries

theorem zslLinkBack_ok (levels : LevelsLinked zsl lo hi entry)
    (tail : zsl.tail = lastPtr (lo ++ hi))
    (found : ∃ rank, updateAt update 0 = .ok (pointerAt zsl.header lo, rank))
    : ∃ next, zslLinkBack zsl entry.ptr update = .ok next
        ∧ LinkedBack zsl next (lo ++ [entry] ++ hi) := by
  obtain ⟨rank, place⟩ := found
  have here : lo <+: lo ++ [entry] ++ hi := ⟨[entry] ++ hi, by simp⟩
  obtain ⟨first, setNew, fields, cells, shape, others⟩ :=
    zslSetBackward_ok levels.new (lastPtr lo)
  have cell : zslLevelAt first entry.ptr 0 = .ok (cellFor 0 hi) := by
    rw [cells, ← pointerAt_concat zsl.header lo entry]
    refine levels.linked (lo ++ [entry]) hi rfl ?_
    intro other last
    exact levels.positive other (List.mem_append_left hi (List.mem_of_getLast? last))
  have start : zslLinkBack zsl entry.ptr update
      = (cellFor 0 hi).forward.elim
          (pure { first with tail := some entry.ptr, length := first.length + 1 })
          (fun following => do
            let zsl ← zslSetBackward first following (some entry.ptr)
            pure { zsl with length := zsl.length + 1 }) := by
    rw [zslLinkBack, place, ok_andThen]
    simp only
    rw [lastPtr_of_pointerAt levels.nodup here, setNew, ok_andThen, cell, ok_andThen]
    cases (cellFor 0 hi).forward <;> rfl
  obtain ⟨notHeader, inLo, inHi⟩ := ptr_ne_of_nodup levels.nodup
    (show lo ++ [entry] ++ hi = lo ++ entry :: hi by simp)
  have single : ∀ before other after, [entry] = before ++ other :: after →
      before = [] ∧ other = entry := by
    intro before other after parts
    cases before with
    | nil => exact ⟨rfl, (List.cons.inj parts).1.symm⟩
    | cons head before => simp at parts
  cases hi with
  | nil =>
      refine ⟨{ first with tail := some entry.ptr, length := first.length + 1 }, start, ?_, cells,
        others _ notHeader, ?_⟩
      · rw [fields]
        simp
      · refine levels.shapes.replace (fun other member => others _ (inLo other member)) ?_ ?_ ?_
        · intro before other after parts
          obtain ⟨rfl, rfl⟩ := single before other after parts
          rw [List.append_nil]
          exact shape
        · intro other rest none
          cases none
        · intro other member
          cases member
  | cons head rest =>
      have tall : 0 < head.height := levels.positive head (by simp)
      have headShape := levels.shapes lo head rest (by simp)
      rw [← others _ (inHi head (by simp))] at headShape
      obtain ⟨second, setHead, fields', cells', shape', others'⟩ :=
        zslSetBackward_ok headShape (some entry.ptr)
      rw [cellFor_tall tall, Option.elim_some, setHead, ok_andThen] at start
      obtain ⟨headNotHeader, before, behind⟩ := ptr_ne_of_nodup levels.nodup rfl
      refine ⟨{ second with length := second.length + 1 }, start, ?_, ?_, ?_, ?_⟩
      · rw [fields', fields, tail, lastPtr_append (by simp), lastPtr_append (by simp)]
      · intro y i
        exact (cells' y i).trans (cells y i)
      · exact (others' _ headNotHeader).trans (others _ notHeader)
      · refine levels.shapes.replace ?_ ?_ ?_ ?_
        · intro other member
          exact (others' _ (before other (by simp [member]))).trans (others _ (inLo other member))
        · intro front other after parts
          obtain ⟨rfl, rfl⟩ := single front other after parts
          rw [List.append_nil]
          exact (others' _ (before other (by simp))).trans shape
        · intro other after parts
          obtain ⟨rfl, rfl⟩ := List.cons.inj parts
          rw [lastPtr_concat]
          exact shape'
        · intro other member
          exact (others' _ (behind other member)).trans
            (others _ (inHi other (List.mem_cons_of_mem head member)))

theorem represents_inserted (represents : ZslRepresents zsl (lo ++ hi))
    {raised final next : Zskiplist σ}
    {level : Nat} (least : 0 < level) (most : level ≤ zskiplistMaxLevel) {score : σ}
    {obj : List UInt8} (raise : Raised zsl raised level lo hi update)
    (linkedTo : LinkedTo (zslAddNode raised (zslCreateNode level score (some obj)))
      (lo ++ [⟨zsl.unused, score, obj, level⟩] ++ hi) (max zsl.level level) final)
    (back : LinkedBack final next (lo ++ [⟨zsl.unused, score, obj, level⟩] ++ hi))
    : ZslRepresents next (lo ++ [⟨zsl.unused, score, obj, level⟩] ++ hi) := by
  have unused : raised.unused = zsl.unused := by rw [raise.fields]
  have fields : next = { zsl with
      heap := next.heap
      unused := zsl.unused + 1
      tail := lastPtr (lo ++ [⟨zsl.unused, score, obj, level⟩] ++ hi)
      length := zsl.length + 1
      level := max zsl.level level } := by
    rw [back.fields, linkedTo.rewired.fields, raise.fields]
    rfl
  have header : next.header = zsl.header := by rw [fields]
  have finalHeader : final.header = zsl.header := by
    rw [linkedTo.rewired.header, zslAddNode, raise.fields]
    rfl
  have headerOld : zsl.header ≠ zsl.unused := Nat.ne_of_lt (represents.allocated _ (by simp))
  have old : ∀ other ∈ lo ++ [⟨zsl.unused, score, obj, level⟩] ++ hi,
      other ∈ lo ++ hi ∨ other = ⟨zsl.unused, score, obj, level⟩ := by
    intro other member
    simp only [List.mem_append, List.mem_singleton] at member ⊢
    tauto
  refine ⟨⟨?_, ?_, ?_, back.shapes⟩, ?_, ?_, ?_, ?_, ?_, ?_, ?_⟩
  · rw [header]
    exact represents.unused_new rfl
  · intro y member
    rw [header] at member
    have bound : next.unused = zsl.unused + 1 := by rw [fields]
    rw [bound]
    rcases List.mem_cons.mp member with rfl | inside
    · exact Nat.lt_succ_of_lt (represents.allocated _ (by simp))
    · obtain ⟨other, among, rfl⟩ := List.mem_map.mp inside
      rcases old other among with earlier | rfl
      · exact Nat.lt_succ_of_lt
          (represents.allocated _ (List.mem_cons_of_mem _ (List.mem_map_of_mem earlier)))
      · exact Nat.lt_succ_self _
  · obtain ⟨headerScore, shape⟩ := represents.header
    refine ⟨headerScore, ?_⟩
    rw [header, ← finalHeader, back.header, finalHeader, linkedTo.rewired.shapes,
      zslAddNode_shape (by rw [unused]; exact headerOld), raise.shapes]
    exact shape
  · intro other member
    have bound : next.level = max zsl.level level := by rw [fields]
    rw [bound]
    rcases old other member with earlier | rfl
    · obtain ⟨positive, below⟩ := represents.heights other earlier
      exact ⟨positive, Nat.le_trans below (Nat.le_max_left ..)⟩
    · exact ⟨least, Nat.le_max_right ..⟩
  · rw [fields]
    exact Nat.max_le.mpr ⟨represents.level_le, most⟩
  · have bound : next.level = max zsl.level level := by rw [fields]
    rw [bound]
    rcases Nat.le_total zsl.level level with taller | lower
    · rw [Nat.max_eq_right taller]
      exact .inr ⟨⟨zsl.unused, score, obj, level⟩, by simp, rfl⟩
    · rw [Nat.max_eq_left lower]
      rcases represents.level_used with one | ⟨other, member, tallest⟩
      · exact .inl one
      · refine .inr ⟨other, ?_, tallest⟩
        simp only [List.mem_append] at member ⊢
        tauto
  · intro i inside
    rw [fields] at inside
    refine (linkedTo.linked i inside).congr (header.trans finalHeader.symm) ?_
    intro y _
    exact back.levels y i
  · intro i above inside
    rw [fields] at above
    obtain ⟨span, cell⟩ := raise.above i above inside
    refine ⟨span, ?_⟩
    rw [header, back.levels, linkedTo.others _ i above,
      zslAddNode_levelAt (by rw [unused]; exact headerOld)]
    exact cell
  · rw [fields]
  · rw [fields, represents.length]
    simp
    omega

end Insertion

section Inserting

variable {σ : Type} [LinearOrder σ] {zsl : Zskiplist σ} {entries : List (ZslEntry σ)}

/-- The order of the list: by score, and by the bytes of the object for equal scores. -/
def ZslEntry.before (entry : ZslEntry σ) (score : σ) (obj : List UInt8) : Prop :=
  entry.score < score ∨ entry.score = score ∧ entry.obj < obj

instance (entry : ZslEntry σ) (score : σ) (obj : List UInt8) : Decidable (entry.before score obj) :=
  inferInstanceAs (Decidable (_ ∨ _))

theorem zslComesBefore_tests (score : σ) (obj : List UInt8)
    : Tests (fun _ node => zslComesBefore node score obj)
        (fun _ entry => decide (entry.before score obj)) := by
  intro _ node entry sameObj sameScore
  have compared : decide (compareStringObjects entry.obj obj < 0) = decide (entry.obj < obj) :=
    decide_eq_decide.mpr (compareBytes_lt _ _)
  change zslComesBefore node score obj = .ok (decide (entry.before score obj))
  rw [zslComesBefore, sameScore]
  by_cases less : entry.score < score
  · rw [if_pos less, decide_eq_true (show entry.before score obj from .inl less)]
    rfl
  · rw [if_neg less]
    by_cases equal : entry.score = score
    · have order : entry.before score obj ↔ entry.obj < obj := by
        simp [ZslEntry.before, equal]
      rw [if_pos equal, zslObj, sameObj]
      simp only [ok_andThen]
      rw [compared, decide_eq_decide.mpr order]
      rfl
    · have behind : ¬ entry.before score obj := by
        simp [ZslEntry.before, less, equal]
      rw [if_neg equal, decide_eq_false behind]
      rfl

/-- The new node stands at its place, on its levels. -/
theorem zslInsert_ok (represents : ZslRepresents zsl entries) (small : entries.length < 2 ^ 32)
    {level : Nat} (least : 0 < level) (most : level ≤ zskiplistMaxLevel) (score : σ)
    (obj : List UInt8)
    : ∃ lo hi next, entries = lo ++ hi
        ∧ zslInsert zsl level score obj = .ok next
        ∧ ZslRepresents next (lo ++ [⟨zsl.unused, score, obj, level⟩] ++ hi)
        ∧ (∀ entry ∈ lo.getLast?, entry.before score obj)
        ∧ ∀ entry ∈ hi.head?, ¬ entry.before score obj := by
  obtain ⟨lo, hi, update, rfl, descended, found⟩ :=
    zslSearch_ok represents (spansExact_of_small small) (zslComesBefore_tests score obj)
  obtain ⟨raised, update', ranRaise, raise⟩ :=
    zslRaiseLevel_ok represents most found.size found.updateFor
  have added := nodeAdded represents raise score obj
  have top : level ≤ max zsl.level level := Nat.le_max_right ..
  obtain ⟨middle, final, ranLink, rewiredLink, ranCount, linkedTo⟩ := linkLevels_ok added top
  have positive : ∀ other ∈ lo ++ [⟨zsl.unused, score, obj, level⟩] ++ hi, 0 < other.height := by
    intro other member
    rw [List.append_assoc, List.mem_append, List.singleton_append, List.mem_cons] at member
    rcases member with inLo | rfl | inHi
    · exact (represents.heights other (by simp [inLo])).1
    · exact least
    · exact (represents.heights other (by simp [inHi])).1
  -- The state in front of the loops over the levels.
  have headerEq : (zslAddNode raised (zslCreateNode level score (some obj))).header
      = zsl.header := by
    rw [raise.fields]
    rfl
  have finalHeader : final.header = zsl.header := linkedTo.rewired.header.trans headerEq
  have unused : raised.unused = zsl.unused := by rw [raise.fields]
  have oldShape : ∀ y, y ≠ zsl.unused → zslShape final y = zslShape zsl y := by
    intro y different
    rw [linkedTo.rewired.shapes, zslAddNode_shape (by rw [unused]; exact different), raise.shapes]
  have levels : LevelsLinked final lo hi ⟨zsl.unused, score, obj, level⟩ := by
    refine ⟨?_, ?_, ?_, positive, linkedTo.linked 0 (Nat.lt_of_lt_of_le least top)⟩
    · rw [finalHeader]
      exact represents.unused_new rfl
    · have new := zslAddNode_new raised level score obj
      rw [unused] at new
      rw [linkedTo.rewired.shapes]
      exact new
    · intro before entry after split
      rw [List.append_nil] at split
      rw [oldShape _ (Nat.ne_of_lt (represents.allocated _ (by simp [split])))]
      exact represents.nodes before entry after split
  have tail : final.tail = lastPtr (lo ++ hi) := by
    rw [linkedTo.rewired.fields, ← represents.tail, raise.fields]
    rfl
  have atZero : updateNode zsl.header 0 lo = pointerAt zsl.header lo := by
    rw [updateNode, upToTaller_zero fun entry member =>
      (represents.heights entry (by simp [member])).1]
  have zero := raise.update 0 (Nat.lt_of_lt_of_le least top)
  rw [atZero] at zero
  obtain ⟨next, ranBack, back⟩ := zslLinkBack_ok levels tail ⟨_, by rw [finalHeader]; exact zero⟩
  refine ⟨lo, hi, next, rfl, ?_, represents_inserted represents least most raise linkedTo back, ?_,
    ?_⟩
  · have level' : middle.level = max zsl.level level := by
      rw [rewiredLink.fields, zslAddNode, raise.fields]
      rfl
    have rank : (upToTaller ZslEntry.height 0 lo).length = lo.length := by
      rw [upToTaller_zero fun entry member => (represents.heights entry (by simp [member])).1]
    rw [rank] at zero
    have ranLink' : (List.range level).foldlM (zslLinkLevel zsl.unused lo.length update')
        { zslSetNode raised zsl.unused (zslCreateNode level score (some obj)) with
          unused := zsl.unused + 1 } = .ok middle := by
      rw [zslAddNode, unused] at ranLink
      exact ranLink
    rw [zslInsert, descended, ok_andThen, ranRaise, ok_andThen]
    simp only
    rw [zero, ok_andThen]
    simp only
    rw [unused, ranLink', ok_andThen, level', ranCount, ok_andThen]
    exact ranBack
  · intro entry last
    have tested := found.last entry last
    simpa using tested
  · intro entry first
    obtain ⟨rest, parts⟩ := List.head?_eq_some_iff.mp first
    have refused := found.head_refused represents.level_pos
      (fun other member => (represents.heights other member).1) parts
    simpa using refused

end Inserting

end Redis
