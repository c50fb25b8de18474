import Redis.Dict.Iterator

/-! What the operations do to a dictionary that a safe iterator walks over: no cell moves to another
bucket, so the iterator stands behind the same cells and has the same ones still to come.
-/

namespace Redis

open Redis.Library

variable {K V : Type} {cell : DictEntry K V} {chain : List (DictEntry K V)}

-- Cells by their buckets

def Dict.Holds (d : Dict K V) (second : Bool) (idx : Nat) (cell : DictEntry K V) : Prop :=
  ∃ chain, (d.table second).table[idx]? = some chain ∧ cell ∈ chain

/-- The bucket comes later in the iteration than the bucket `idx` of the table `second`. -/
def LaterBucket (second : Bool) (idx : Nat) (other : Bool) (j : Nat) : Prop :=
  (other = second ∧ idx < j) ∨ (second = false ∧ other = true)

theorem mem_entries_iff {d : Dict K V}
    : cell ∈ d.entries ↔ ∃ second idx, d.Holds second idx cell := by
  have table (ht : Dictht K V)
      : cell ∈ ht.entries
        ↔ ∃ (idx : Nat) (chain : List (DictEntry K V)), ht.table[idx]? = some chain
          ∧ cell ∈ chain := by
    rw [Dictht.entries, List.mem_flatten]
    constructor
    · rintro ⟨chain, inTable, inChain⟩
      obtain ⟨idx, found⟩ := List.mem_iff_getElem?.mp inTable
      exact ⟨idx, chain, found, inChain⟩
    · rintro ⟨idx, chain, found, inChain⟩
      exact ⟨chain, List.mem_of_getElem? found, inChain⟩
  rw [Dict.entries, List.mem_append, table, table]
  constructor
  · rintro (⟨idx, chain, found⟩ | ⟨idx, chain, found⟩)
    · exact ⟨false, idx, chain, found⟩
    · exact ⟨true, idx, chain, found⟩
  · rintro ⟨second, idx, chain, found⟩
    cases second with
    | false => exact Or.inl ⟨idx, chain, found⟩
    | true => exact Or.inr ⟨idx, chain, found⟩

theorem mem_bucketsFrom_iff {d : Dict K V} {second : Bool} {idx : Nat}
    : cell ∈ d.bucketsFrom second (idx + 1)
      ↔ ∃ other j, LaterBucket second idx other j ∧ d.Holds other j cell := by
  have dropped (table : List (List (DictEntry K V)))
      : cell ∈ (table.drop (idx + 1)).flatten
        ↔ ∃ (j : Nat) (chain : List (DictEntry K V)), idx < j ∧ table[j]? = some chain
          ∧ cell ∈ chain := by
    rw [List.mem_flatten]
    constructor
    · rintro ⟨chain, inDrop, inChain⟩
      obtain ⟨k, found⟩ := List.mem_iff_getElem?.mp inDrop
      rw [List.getElem?_drop] at found
      exact ⟨idx + 1 + k, chain, by omega, found, inChain⟩
    · rintro ⟨j, chain, after, found, inChain⟩
      refine ⟨chain, List.mem_iff_getElem?.mpr ⟨j - (idx + 1), ?_⟩, inChain⟩
      rw [List.getElem?_drop, Nat.add_sub_cancel' after]
      exact found
  rw [Dict.bucketsFrom, List.mem_append, dropped]
  constructor
  · rintro (⟨j, chain, after, found⟩ | inSecond)
    · exact ⟨second, j, Or.inl ⟨rfl, after⟩, chain, found⟩
    · cases second with
      | true => cases inSecond
      | false =>
          obtain ⟨chain, inTable, inChain⟩ := List.mem_flatten.mp inSecond
          obtain ⟨j, found⟩ := List.mem_iff_getElem?.mp inTable
          exact ⟨true, j, Or.inr ⟨rfl, rfl⟩, chain, found, inChain⟩
  · rintro ⟨other, j, ⟨rfl, after⟩ | ⟨rfl, rfl⟩, chain, found, inChain⟩
    · exact Or.inl ⟨j, chain, after, found, inChain⟩
    · exact Or.inr (List.mem_flatten.mpr ⟨chain, List.mem_of_getElem? found, inChain⟩)

-- Changes

/-- The keys of the cells, up to keys that are gained or lost. -/
structure KeysChange (gained lost : K → Prop) (cells next : List (DictEntry K V)) : Prop where
  old : ∀ cell ∈ next, (∃ before ∈ cells, before.key = cell.key) ∨ gained cell.key
  kept : ∀ cell ∈ cells, (∃ after ∈ next, after.key = cell.key) ∨ lost cell.key

/-- The iterator's place after a change: it stands behind other cells of the chain, the rest of the
chain has the same keys, and so have the cells still to come but for keys gained or lost.
-/
structure PlaceKept (gained lost : K → Prop) (d next : Dict K V) (iter : DictIterator K) (idx : Nat)
    (suf : List (DictEntry K V)) (pre' suf' : List (DictEntry K V))
    : Prop where
  standing : iter.Standing next idx pre' suf'
  rest : suf'.map DictEntry.key = suf.map DictEntry.key
  coming
    : KeysChange gained lost (suf ++ d.bucketsFrom iter.second (idx + 1))
        (suf' ++ next.bucketsFrom iter.second (idx + 1))

/-- Both tables keep their sizes, or a rehash starts. -/
def Dict.Steady (d next : Dict K V) : Prop :=
  (d.isRehashing = false ∧ next.isRehashing = true)
  ∨ (next.isRehashing = d.isRehashing ∧ next.ht0.size = d.ht0.size ∧ next.ht1.size = d.ht1.size)

/-- What an operation does while iterators are running. -/
structure Dict.Change (d next : Dict K V) (gained lost : K → Prop) : Prop where
  iterators : next.iterators = d.iterators
  steady : d.Steady next
  entries : KeysChange gained lost d.entries next.entries
  place
    : ∀ {iter : DictIterator K} {idx : Nat} {pre suf : List (DictEntry K V)},
        iter.Standing d idx pre suf
        → (∀ cell ∈ suf, ¬lost cell.key)
        → ∃ pre' suf', PlaceKept gained lost d next iter idx suf pre' suf'

section Changes

variable {gained lost : K → Prop} {gained' lost' : K → Prop} {cells next : List (DictEntry K V)}

theorem KeysChange.refl (cells : List (DictEntry K V)) : KeysChange gained lost cells cells :=
  ⟨fun cell member => Or.inl ⟨cell, member, rfl⟩, fun cell member => Or.inl ⟨cell, member, rfl⟩⟩

theorem KeysChange.trans {cells mid next : List (DictEntry K V)}
    (first : KeysChange gained lost cells mid) (second : KeysChange gained' lost' mid next)
    : KeysChange (fun k => gained k ∨ gained' k) (fun k => lost k ∨ lost' k) cells next where
  old := by
    intro cell member
    rcases second.old cell member with ⟨before, inMid, same⟩ | new
    · rcases first.old before inMid with ⟨origin, inCells, same'⟩ | new
      · exact Or.inl ⟨origin, inCells, same'.trans same⟩
      · exact Or.inr (Or.inl (same ▸ new))
    · exact Or.inr (Or.inr new)
  kept := by
    intro cell member
    rcases first.kept cell member with ⟨after, inMid, same⟩ | gone
    · rcases second.kept after inMid with ⟨final, inNext, same'⟩ | gone
      · exact Or.inl ⟨final, inNext, same'.trans same⟩
      · exact Or.inr (Or.inr (same ▸ gone))
    · exact Or.inr (Or.inl gone)

theorem KeysChange.mono
    (change : KeysChange gained lost cells next) (more : ∀ k, gained k → gained' k)
    (fewer : ∀ k, lost k → lost' k)
    : KeysChange gained' lost' cells next :=
  ⟨fun cell member => (change.old cell member).imp_right (more _),
    fun cell member => (change.kept cell member).imp_right (fewer _)⟩

theorem Dict.Steady.trans {d mid next : Dict K V} (first : d.Steady mid) (second : mid.Steady next)
    : d.Steady next := by
  rcases first with ⟨idle, started⟩ | ⟨same, size0, size1⟩
  · rcases second with ⟨idle', _⟩ | ⟨same, _⟩
    · exact absurd (started.symm.trans idle') (by decide)
    · exact Or.inl ⟨idle, same.trans started⟩
  · rcases second with ⟨idle, started⟩ | ⟨same', size0', size1'⟩
    · exact Or.inl ⟨same.symm.trans idle, started⟩
    · exact Or.inr ⟨same'.trans same, size0'.trans size0, size1'.trans size1⟩

theorem Dict.Change.refl (d : Dict K V) : d.Change d gained lost where
  iterators := rfl
  steady := Or.inr ⟨rfl, rfl, rfl⟩
  entries := .refl _
  place := fun {_ _ pre suf} standing _ => ⟨pre, suf, standing, rfl, .refl _⟩

theorem mem_key_of_map_eq
    (same : next.map DictEntry.key = cells.map DictEntry.key) (member : cell ∈ next)
    : ∃ before ∈ cells, before.key = cell.key := by
  have key : cell.key ∈ cells.map DictEntry.key := same ▸ List.mem_map_of_mem member
  exact List.mem_map.mp key

theorem Dict.Change.trans {d mid next : Dict K V}
    (first : d.Change mid gained lost) (second : mid.Change next gained' lost')
    : d.Change next (fun k => gained k ∨ gained' k) (fun k => lost k ∨ lost' k) where
  iterators := second.iterators.trans first.iterators
  steady := first.steady.trans second.steady
  entries := first.entries.trans second.entries
  place := by
    intro iter idx pre suf standing keeps
    obtain ⟨pre', suf', kept⟩ :=
      first.place standing fun cell member gone => keeps cell member (Or.inl gone)
    have keeps' : ∀ cell ∈ suf', ¬lost' cell.key := by
      intro cell member gone
      obtain ⟨before, inSuf, same⟩ := mem_key_of_map_eq kept.rest member
      exact keeps before inSuf (Or.inr (same ▸ gone))
    obtain ⟨pre'', suf'', kept'⟩ := second.place kept.standing keeps'
    exact ⟨pre'', suf'', kept'.standing, kept'.rest.trans kept.rest, kept.coming.trans kept'.coming⟩

theorem Dict.Change.mono {d next : Dict K V}
    (change : d.Change next gained lost) (more : ∀ k, gained k → gained' k)
    (same : ∀ k, lost k ↔ lost' k)
    : d.Change next gained' lost' where
  iterators := change.iterators
  steady := change.steady
  entries := change.entries.mono more fun k => (same k).mp
  place := by
    intro iter idx pre suf standing keeps
    obtain ⟨pre', suf', kept⟩ :=
      change.place standing fun cell member gone => keeps cell member ((same _).mp gone)
    exact ⟨pre', suf', kept.standing, kept.rest, kept.coming.mono more fun k => (same k).mp⟩

end Changes

-- The edits of the operations

theorem KeysChange.append {gained lost : K → Prop} {cells next more after : List (DictEntry K V)}
    (first : KeysChange gained lost cells next) (second : KeysChange gained lost more after)
    : KeysChange gained lost (cells ++ more) (next ++ after) where
  old := by
    intro cell member
    rcases List.mem_append.mp member with left | right
    · exact (first.old cell left).imp_left fun ⟨before, inside, same⟩ =>
        ⟨before, List.mem_append_left _ inside, same⟩
    · exact (second.old cell right).imp_left fun ⟨before, inside, same⟩ =>
        ⟨before, List.mem_append_right _ inside, same⟩
  kept := by
    intro cell member
    rcases List.mem_append.mp member with left | right
    · exact (first.kept cell left).imp_left fun ⟨after, inside, same⟩ =>
        ⟨after, List.mem_append_left _ inside, same⟩
    · exact (second.kept cell right).imp_left fun ⟨after, inside, same⟩ =>
        ⟨after, List.mem_append_right _ inside, same⟩

theorem KeysChange.of_map_eq {gained lost : K → Prop} {cells next : List (DictEntry K V)}
    (same : next.map DictEntry.key = cells.map DictEntry.key)
    : KeysChange gained lost cells next :=
  ⟨fun _ member => Or.inl (mem_key_of_map_eq same member),
    fun _ member => Or.inl (mem_key_of_map_eq same.symm member)⟩

/-- What happens bucket by bucket happens to all cells. -/
structure BucketsChange (gained lost : K → Prop) (d next : Dict K V) : Prop where
  old
    : ∀ {second : Bool} {idx : Nat} {cell : DictEntry K V},
        next.Holds second idx cell
        → (∃ before, d.Holds second idx before ∧ before.key = cell.key) ∨ gained cell.key
  kept
    : ∀ {second : Bool} {idx : Nat} {cell : DictEntry K V},
        d.Holds second idx cell
        → (∃ after, next.Holds second idx after ∧ after.key = cell.key) ∨ lost cell.key

section Buckets

variable {gained lost : K → Prop} {d next : Dict K V}

theorem BucketsChange.entries (change : BucketsChange gained lost d next)
    : KeysChange gained lost d.entries next.entries where
  old := by
    intro cell member
    obtain ⟨second, idx, holds⟩ := mem_entries_iff.mp member
    exact (change.old holds).imp_left fun ⟨before, held, same⟩ =>
      ⟨before, mem_entries_iff.mpr ⟨second, idx, held⟩, same⟩
  kept := by
    intro cell member
    obtain ⟨second, idx, holds⟩ := mem_entries_iff.mp member
    exact (change.kept holds).imp_left fun ⟨after, held, same⟩ =>
      ⟨after, mem_entries_iff.mpr ⟨second, idx, held⟩, same⟩

theorem BucketsChange.coming (change : BucketsChange gained lost d next) (second : Bool) (idx : Nat)
    : KeysChange gained lost (d.bucketsFrom second (idx + 1))
        (next.bucketsFrom second (idx + 1)) where
  old := by
    intro cell member
    obtain ⟨other, j, later, holds⟩ := mem_bucketsFrom_iff.mp member
    exact (change.old holds).imp_left fun ⟨before, held, same⟩ =>
      ⟨before, mem_bucketsFrom_iff.mpr ⟨other, j, later, held⟩, same⟩
  kept := by
    intro cell member
    obtain ⟨other, j, later, holds⟩ := mem_bucketsFrom_iff.mp member
    exact (change.kept holds).imp_left fun ⟨after, held, same⟩ =>
      ⟨after, mem_bucketsFrom_iff.mpr ⟨other, j, later, held⟩, same⟩

theorem dictExpand_change [DecidableEq K] {type : DictType K V} (wf : d.WellFormed type)
    (allocated : d.ht0.size ≠ 0) {size : Nat} {ok : Bool}
    (run : dictExpand d size = .ok (ok, next))
    : d.Change next gained lost := by
  unfold dictExpand at run
  dsimp only at run
  split at run
  · cases run
    exact .refl d
  rename_i idle
  split at run
  · cases run
    exact .refl d
  obtain ⟨table, zeroed, rest⟩ := andThen_ok_iff.mp run
  cases rest
  have buckets : ∃ n, table = List.replicate n [] := by
    simp only [zcallocTable] at zeroed
    split at zeroed
    · cases zeroed
      exact ⟨_, rfl⟩
    · cases zeroed
  obtain ⟨n, buckets⟩ := buckets
  have quiet : d.rehashidx = none := by
    simpa [Dict.isRehashing] using (not_or.mp idle).1
  have reset := wf.idle quiet
  let grown : Dict K V := {
    d with
    ht1 := {
      table
      size := dictNextPower size
      sizemask := dictNextPower size - 1
      used := 0 }
    rehashidx := some 0 }
  have noneOld {idx : Nat} {cell : DictEntry K V} : ¬d.Holds true idx cell := by
    rintro ⟨chain, found, _⟩
    simp [Dict.table, reset, dictReset] at found
  have noneNew {idx : Nat} {cell : DictEntry K V} : ¬grown.Holds true idx cell := by
    rintro ⟨chain, found, inChain⟩
    have empty : chain = [] := by
      have member := List.mem_of_getElem? found
      simp only [grown, Dict.table, if_true, buckets] at member
      exact List.eq_of_mem_replicate member
    rw [empty] at inChain
    cases inChain
  have change : BucketsChange gained lost d grown := by
    refine ⟨fun {second idx cell} holds => ?_, fun {second idx cell} holds => ?_⟩
    · cases second with
      | false => exact Or.inl ⟨cell, holds, rfl⟩
      | true => exact absurd holds noneNew
    · cases second with
      | false => exact Or.inl ⟨cell, holds, rfl⟩
      | true => exact absurd holds noneOld
  refine ⟨rfl, Or.inl ⟨by simp [Dict.isRehashing, quiet], rfl⟩, change.entries, ?_⟩
  intro iter idx pre suf standing _
  have first : iter.second = false := by
    cases second : iter.second with
    | false => rfl
    | true =>
        have chain := standing.chain
        simp [second, Dict.table, reset, dictReset] at chain
  refine ⟨pre, suf, ⟨standing.entry, standing.index, ?_, standing.saved⟩, rfl,
    (KeysChange.refl suf).append (change.coming _ _)⟩
  have chain := standing.chain
  rw [first] at chain ⊢
  exact chain

/-- An edit of a chain: a suffix none of whose cells is lost keeps its keys. -/
structure ChainEdit (gained lost : K → Prop) (chain next : List (DictEntry K V)) : Prop where
  cells : KeysChange gained lost chain next
  split
    : ∀ {pre suf : List (DictEntry K V)},
        chain = pre ++ suf
        → (∀ cell ∈ suf, ¬lost cell.key)
        → ∃ pre' suf', next = pre' ++ suf' ∧ suf'.map DictEntry.key = suf.map DictEntry.key

theorem ChainEdit.cons (chain : List (DictEntry K V)) (cell : DictEntry K V)
    : ChainEdit (· = cell.key) lost chain (cell :: chain) where
  cells := by
    refine ⟨fun other member => ?_, fun other member =>
      Or.inl ⟨other, List.mem_cons_of_mem _ member, rfl⟩⟩
    rcases List.mem_cons.mp member with rfl | old
    · exact Or.inr rfl
    · exact Or.inl ⟨other, old, rfl⟩
  split := by
    rintro pre suf rfl _
    exact ⟨cell :: pre, suf, rfl, rfl⟩

theorem ChainEdit.eraseIdx {pos : Nat} (found : chain[pos]? = some cell)
    : ChainEdit gained (· = cell.key) chain (chain.eraseIdx pos) where
  cells := by
    refine ⟨fun other member => Or.inl ⟨other, List.mem_of_mem_eraseIdx member, rfl⟩,
      fun other member => ?_⟩
    obtain ⟨j, here⟩ := List.mem_iff_getElem?.mp member
    by_cases same : j = pos
    · subst same
      exact Or.inr (by rw [Option.some.inj (here.symm.trans found)])
    · exact Or.inl ⟨other, List.mem_eraseIdx_iff_getElem?.mpr ⟨j, same, here⟩, rfl⟩
  split := by
    rintro pre suf rfl keeps
    have inside : pos < pre.length := by
      by_contra past
      rw [List.getElem?_append_right (by omega)] at found
      exact keeps cell (List.mem_of_getElem? found) rfl
    exact ⟨pre.eraseIdx pos, suf, List.eraseIdx_append_of_lt_length inside suf, rfl⟩

theorem ChainEdit.set {pos : Nat} {cell after : DictEntry K V}
    (found : chain[pos]? = some cell) (same : after.key = cell.key)
    : ChainEdit gained lost chain (chain.set pos after) := by
  have keys : (chain.set pos after).map DictEntry.key = chain.map DictEntry.key := by
    obtain ⟨inside, here⟩ := List.getElem?_eq_some_iff.mp found
    have within : pos < (chain.map DictEntry.key).length := by simpa using inside
    have kept : after.key = (chain.map DictEntry.key)[pos] := by simp [here, same]
    rw [List.map_set, kept, List.set_getElem_self within]
  refine ⟨.of_map_eq keys, ?_⟩
  rintro pre suf rfl _
  refine ⟨((pre ++ suf).set pos after).take pre.length,
    ((pre ++ suf).set pos after).drop pre.length, (List.take_append_drop _ _).symm, ?_⟩
  rw [List.map_drop, keys]
  simp

theorem Dict.table_setChain (d : Dict K V) (second : Bool) (idx used : Nat)
    (chain : List (DictEntry K V)) (other : Bool)
    : ((d.setChain second idx used chain).table other).table
      = if other = second then (d.table other).table.set idx chain else (d.table other).table := by
  cases second <;> cases other <;> rfl

theorem ChainEdit.change {second : Bool} {idx used : Nat} {chain after : List (DictEntry K V)}
    (edit : ChainEdit gained lost chain after)
    (found : (d.table second).table[idx]? = some chain)
    : d.Change (d.setChain second idx used after) gained lost := by
  have inside : idx < (d.table second).table.length := (List.getElem?_eq_some_iff.mp found).1
  have here : ((d.setChain second idx used after).table second).table[idx]? = some after := by
    rw [Dict.table_setChain, if_pos rfl]
    simp [inside]
  have elsewhere {other : Bool} {j : Nat} (apart : ¬(other = second ∧ j = idx))
      : ((d.setChain second idx used after).table other).table[j]?
        = (d.table other).table[j]? := by
    rw [Dict.table_setChain]
    split
    · rename_i same
      have different : idx ≠ j := fun equal => apart ⟨same, equal.symm⟩
      rw [List.getElem?_set_ne different]
    · rfl
  have change : BucketsChange gained lost d (d.setChain second idx used after) := by
    refine ⟨fun {other j cell} holds => ?_, fun {other j cell} holds => ?_⟩
    · obtain ⟨bucket, held, inBucket⟩ := holds
      by_cases place : other = second ∧ j = idx
      · obtain ⟨rfl, rfl⟩ := place
        cases here.symm.trans held
        exact (edit.cells.old cell inBucket).imp_left fun ⟨before, inChain, same⟩ =>
          ⟨before, ⟨chain, found, inChain⟩, same⟩
      · exact Or.inl ⟨cell, ⟨bucket, (elsewhere place).symm.trans held, inBucket⟩, rfl⟩
    · obtain ⟨bucket, held, inBucket⟩ := holds
      by_cases place : other = second ∧ j = idx
      · obtain ⟨rfl, rfl⟩ := place
        cases found.symm.trans held
        exact (edit.cells.kept cell inBucket).imp_left fun ⟨next, inAfter, same⟩ =>
          ⟨next, ⟨after, here, inAfter⟩, same⟩
      · exact Or.inl ⟨cell, ⟨bucket, (elsewhere place).trans held, inBucket⟩, rfl⟩
  refine ⟨by cases second <;> rfl, Or.inr ?_, change.entries, ?_⟩
  · cases second <;> exact ⟨rfl, rfl, rfl⟩
  intro iter place pre suf standing keeps
  by_cases same : iter.second = second ∧ place = idx
  · obtain ⟨rfl, rfl⟩ := same
    obtain ⟨pre', suf', split, keys⟩ :=
      edit.split (Option.some.inj (found.symm.trans standing.chain)) keeps
    refine ⟨pre', suf', ⟨standing.entry, standing.index, split ▸ here, ?_⟩, keys,
      (KeysChange.of_map_eq keys).append (change.coming _ _)⟩
    rw [standing.saved, chainHead, chainHead, ← List.head?_map, ← List.head?_map, keys]
  · exact ⟨pre, suf,
      ⟨standing.entry, standing.index, (elsewhere same).trans standing.chain, standing.saved⟩, rfl,
      (KeysChange.refl suf).append (change.coming _ _)⟩

end Buckets

-- The operations

def noKey (_ : K) : Prop := False

/-- The key that an insertion adds: it is stored for a key that no cell has. -/
def newKey [DecidableEq K] (type : DictType K V) (d : Dict K V) (key stored : K) : Prop :=
  stored = storedKey type key ∧ ∀ cell ∈ d.entries, dictCompareKeys type key cell.key = false

section Operations

variable [DecidableEq K] {type : DictType K V} {d next : Dict K V} {key : K}

omit [DecidableEq K] in
theorem rehashIfNeeded_busy (busy : d.iterators ≠ 0) : rehashIfNeeded type d = .ok d := by
  simp [rehashIfNeeded, dictRehashStep, busy]

theorem dictFind_busy (busy : d.iterators ≠ 0) {found : Option EntryRef}
    (run : dictFind type d key = .ok (found, next))
    : next = d := by
  unfold dictFind at run
  split at run
  · cases run
    rfl
  · rw [rehashIfNeeded_busy busy, ok_andThen] at run
    obtain ⟨_, _, rest⟩ := andThen_ok_iff.mp run
    cases rest
    rfl

omit [DecidableEq K] in
theorem bucket_eq_some {ht : Dictht K V} {idx : Nat} (read : ht.bucket idx = .ok chain)
    : ht.table[idx]? = some chain := by
  unfold Dictht.bucket at read
  split at read
  · rename_i found
    cases read
    exact found
  · cases read

theorem dictKeyIndex_change (lawful : type.Lawful) (wf : d.WellFormed type)
    (allocated : d.ht0.size ≠ 0) {canResize : Bool} {index : Int} {mid : Dict K V}
    (run : dictKeyIndex type canResize d key = .ok (index, mid))
    : d.Change mid noKey noKey
      ∧ (index ≠ -1 → ∀ cell ∈ d.entries, dictCompareKeys type key cell.key = false) := by
  obtain ⟨⟨ok, grown⟩, expanded, rest⟩ := andThen_ok_iff.mp run
  have change : d.Change grown noKey noKey := by
    unfold dictExpandIfNeeded at expanded
    split at expanded
    · cases expanded
      exact .refl d
    split at expanded
    · exact dictExpand_change wf allocated expanded
    · cases expanded
      exact .refl d
  rcases dictExpandIfNeeded_ok canResize wf with oom | ⟨grown', run', same, allocated'⟩
  · cases oom.symm.trans expanded
  cases run'.symm.trans expanded
  obtain ⟨found, search, rest⟩ := andThen_ok_iff.mp rest
  cases found with
  | some ref =>
      cases rest
      exact ⟨change, fun other => absurd rfl other⟩
  | none =>
      cases rest
      refine ⟨change, fun _ cell member => ?_⟩
      rcases findInTables_ok lawful same.wellFormed allocated' key with
        ⟨_, absent⟩ | ⟨ref, entry, found, _⟩
      · exact absent cell (same.perm.mem_iff.mpr member)
      · cases search.symm.trans found

/-- An addition under an iterator gains at most the new key. -/
theorem dictAdd_change (lawful : type.Lawful) (wf : d.WellFormed type)
    (allocated : d.ht0.size ≠ 0) (busy : d.iterators ≠ 0) {canResize added : Bool}
    {val : V} (run : dictAdd type canResize d key val = .ok (added, next))
    : d.Change next (newKey type d key) noKey := by
  unfold dictAdd dictAddRaw at run
  rw [rehashIfNeeded_busy busy, ok_andThen] at run
  obtain ⟨⟨index, mid⟩, keyed, rest⟩ := andThen_ok_iff.mp run
  obtain ⟨grown, absent⟩ := dictKeyIndex_change lawful wf allocated keyed
  have none : ∀ k : K, noKey k ∨ noKey k ↔ noKey k := fun k => or_self_iff
  dsimp only at rest
  split at rest
  · cases rest
    exact grown.mono (fun _ => False.elim) fun _ => Iff.rfl
  rename_i placed
  obtain ⟨_, _, rest⟩ := andThen_ok_iff.mp rest
  split at rest
  · cases rest
  -- The cell is linked in front of the chain of its bucket.
  have linked (second : Bool) {ht : Dictht K V}
      (link : (mid.table second).link index.toNat
        { key := storedKey type key, val := storedVal type val } = .ok ht)
      : ∃ chain used,
          (mid.table second).table[index.toNat]? = some chain
          ∧ ht = { mid.table second with
              table := (mid.table second).table.set index.toNat
                ({ key := storedKey type key, val := storedVal type val } :: chain)
              used } := by
    obtain ⟨chain, read, pure⟩ := andThen_ok_iff.mp link
    cases pure
    exact ⟨chain, _, bucket_eq_some read, rfl⟩
  have joined (second : Bool) {chain : List (DictEntry K V)} {used : Nat}
      (found : (mid.table second).table[index.toNat]? = some chain)
      : d.Change (mid.setChain second index.toNat used
          ({ key := storedKey type key, val := storedVal type val } :: chain))
          (newKey type d key) noKey := by
    have edit : mid.Change (mid.setChain second index.toNat used
        ({ key := storedKey type key, val := storedVal type val } :: chain))
        (· = storedKey type key) noKey :=
      (ChainEdit.cons chain { key := storedKey type key, val := storedVal type val }).change found
    refine (grown.trans edit).mono (fun k new => ?_) none
    exact ⟨new.resolve_left id, absent placed⟩
  split at rest
  · obtain ⟨ht1, link, rest⟩ := andThen_ok_iff.mp rest
    cases rest
    obtain ⟨chain, used, found, rfl⟩ := linked true link
    exact joined true found
  · obtain ⟨ht0, link, rest⟩ := andThen_ok_iff.mp rest
    cases rest
    obtain ⟨chain, used, found, rfl⟩ := linked false link
    exact joined false found

theorem dictReplace_change (lawful : type.Lawful) (wf : d.WellFormed type)
    (allocated : d.ht0.size ≠ 0) (busy : d.iterators ≠ 0) {canResize new : Bool} {val : V}
    (run : dictReplace type canResize d key val = .ok (new, next))
    : d.Change next (newKey type d key) noKey := by
  obtain ⟨⟨added, mid⟩, add, rest⟩ := andThen_ok_iff.mp run
  have change := dictAdd_change lawful wf allocated busy add
  cases added with
  | true =>
      cases rest
      exact change
  | false =>
      obtain ⟨⟨found, same⟩, find, rest⟩ := andThen_ok_iff.mp rest
      cases dictFind_busy (by rw [change.iterators]; exact busy) find
      cases found with
      | none => cases rest
      | some ref =>
          obtain ⟨entry, read, rest⟩ := andThen_ok_iff.mp rest
          obtain ⟨chain, bucket, rest⟩ := andThen_ok_iff.mp rest
          cases rest
          have found := bucket_eq_some bucket
          have here : chain[ref.pos]? = some entry := by
            unfold Dict.entryAt at read
            rw [bucket, ok_andThen] at read
            split at read
            · rename_i at'
              cases read
              exact at'
            · cases read
          have edit : mid.Change (mid.setChain ref.second ref.idx (mid.table ref.second).used
              (chain.set ref.pos { entry with val := storedVal type val })) noKey noKey :=
            (ChainEdit.set here (show ({ entry with val := storedVal type val }
              : DictEntry K V).key = entry.key from rfl)).change found
          exact (change.trans edit).mono (fun k new => new.resolve_right id) fun k => or_self_iff

theorem dictDelete_change (lawful : type.Lawful) (wf : d.WellFormed type)
    (allocated : d.ht0.size ≠ 0) (busy : d.iterators ≠ 0) {deleted : Bool}
    (run : dictDelete type d key = .ok (deleted, next))
    : ∃ lost : K → Prop,
        d.Change next noKey lost ∧ ∀ k, lost k → dictCompareKeys type key k = true := by
  unfold dictDelete at run
  rw [if_neg allocated, rehashIfNeeded_busy busy, ok_andThen] at run
  rcases findInTables_ok lawful wf allocated key with
    ⟨search, _⟩ | ⟨ref, cell, search, ⟨chain, found, here⟩, equated⟩
  · rw [search] at run
    cases run
    exact ⟨noKey, .refl d, fun _ => False.elim⟩
  · rw [search, ok_andThen] at run
    obtain ⟨bucket, read, rest⟩ := andThen_ok_iff.mp run
    cases rest
    cases found.symm.trans (bucket_eq_some read)
    refine ⟨(· = cell.key), (ChainEdit.eraseIdx here).change found, ?_⟩
    rintro k rfl
    exact equated

end Operations

end Redis
