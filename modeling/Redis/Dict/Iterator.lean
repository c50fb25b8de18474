import Redis.Dict.Runs

/-! The safe iterator of `dict.c`: `dictNext`, the cells it still has to return and what one call
does to them. A pointer to a cell is the key of the cell, which no other cell of the dictionary
holds; the pointer to a freed cell is the key of no cell.
-/

namespace Redis

open Redis.Library

variable {K V : Type}

-- Model of dictNext

/-- A safe `dictIterator`; `index` is `none` where the source has `-1`. -/
structure DictIterator (K : Type) where
  second : Bool
  index : Option Nat
  entry : Option K
  nextEntry : Option K
deriving DecidableEq, Repr

def dictGetSafeIterator : DictIterator K :=
  { second := false, index := none, entry := none, nextEntry := none }

def chainHead (chain : List (DictEntry K V)) : Option K := chain.head?.map DictEntry.key

/-- The number of the next bucket, `iter->index+1`. -/
def DictIterator.nextIndex (iter : DictIterator K) : Nat := iter.index.elim 0 (· + 1)

/-- `iter->d->iterators++`, done before the first bucket. -/
def DictIterator.counted (iter : DictIterator K) (d : Dict K V) : Dict K V :=
  if iter.index = none ∧ iter.second = false then { d with iterators := d.iterators + 1 } else d

/-- The step to the next bucket, from the end of `ht[0]` to `ht[1]` during a rehash; the flag is
`false` for the `break` at the end.
-/
def nextBucket (d : Dict K V) (iter : DictIterator K) : Except Fault (Bool × DictIterator K) :=
  let index := iter.nextIndex
  if index ≥ (d.table iter.second).size then
    if d.isRehashing && !iter.second then do
      let chain ← d.ht1.bucket 0
      pure (true, { iter with second := true, index := some 0, entry := chainHead chain })
    else .ok (false, { iter with index := some index })
  else do
    let chain ← (d.table iter.second).bucket index
    pure (true, { iter with index := some index, entry := chainHead chain })

section Pointers

variable [DecidableEq K]

/-- Following a pointer along a chain: the cell and its `next` pointer. -/
def followChain (ptr : K) : List (DictEntry K V) → Option (DictEntry K V × Option K)
  | [] => none
  | cell :: rest => if cell.key = ptr then some (cell, chainHead rest) else followChain ptr rest

/-- Following a pointer to a cell of the dictionary. -/
def Dict.follow (d : Dict K V) (ptr : K) : Except Fault (DictEntry K V × Option K) :=
  match (d.ht0.table ++ d.ht1.table).findSome? (followChain ptr) with
  | some cell => .ok cell
  | none => .error .outOfBounds

/-- The loop of `dictNext`; the result is `none` for `NULL`. -/
def dictNextLoop
    : (rounds : Nat) → (d : Dict K V) → (iter : DictIterator K)
      → Except Fault (Option (DictEntry K V) × DictIterator K × Dict K V)
  | 0, _, _ => .error .diverged
  | rounds + 1, d, iter => do
      let (d, inside, iter) ←
        (if iter.entry = none then do
          let d := iter.counted d
          let (inside, iter) ← nextBucket d iter
          pure (d, inside, iter)
        else pure (d, true, { iter with entry := iter.nextEntry }))
      if !inside then pure (none, iter, d)
      else
        match iter.entry with
        | some ptr => do
            let (cell, nextEntry) ← d.follow ptr
            pure (some cell, { iter with nextEntry }, d)
        | none => dictNextLoop rounds d iter

/-- `dictNext`. Each round but two goes on to another bucket. -/
def dictNext (d : Dict K V) (iter : DictIterator K)
    : Except Fault (Option (DictEntry K V) × DictIterator K × Dict K V) :=
  dictNextLoop (d.ht0.size + d.ht1.size + 2) d iter

end Pointers

section Following

variable [DecidableEq K] {type : DictType K V} {d : Dict K V}

theorem followChain_none {ptr : K} {chain : List (DictEntry K V)}
    (other : ∀ cell ∈ chain, cell.key ≠ ptr)
    : followChain ptr chain = none := by
  induction chain with
  | nil => rfl
  | cons cell rest ih =>
      rw [followChain, if_neg (other cell List.mem_cons_self)]
      exact ih fun cell member => other cell (List.mem_cons_of_mem _ member)

theorem followChain_split {pre rest : List (DictEntry K V)} {cell : DictEntry K V}
    (other : ∀ before ∈ pre, before.key ≠ cell.key)
    : followChain cell.key (pre ++ cell :: rest) = some (cell, chainHead rest) := by
  induction pre with
  | nil => simp [followChain]
  | cons first pre ih =>
      rw [List.cons_append, followChain, if_neg (other first List.mem_cons_self)]
      exact ih fun before member => other before (List.mem_cons_of_mem _ member)

theorem DictType.Lawful.ne (lawful : type.Lawful) {a b : K}
    (apart : dictCompareKeys type a b = false)
    : a ≠ b := by
  rintro rfl
  exact Bool.false_ne_true (apart.symm.trans (lawful.refl a))

theorem Dict.WellFormed.follow_ok (lawful : type.Lawful) (wf : d.WellFormed type) {second : Bool}
    {idx : Nat} {pre rest : List (DictEntry K V)} {cell : DictEntry K V}
    (found : (d.table second).table[idx]? = some (pre ++ cell :: rest))
    : d.follow cell.key = .ok (cell, chainHead rest) := by
  have inTables : pre ++ cell :: rest ∈ d.ht0.table ++ d.ht1.table := by
    have member := List.mem_of_getElem? found
    cases second with
    | false => exact List.mem_append_left _ member
    | true => exact List.mem_append_right _ member
  obtain ⟨before, after, split⟩ := List.append_of_mem inTables
  have flat : d.entries = before.flatten ++ (pre ++ cell :: rest) ++ after.flatten := by
    rw [Dict.entries, Dictht.entries, Dictht.entries, ← List.flatten_append, split]
    simp
  have distinct := wf.distinct
  rw [flat, List.append_assoc, List.append_assoc] at distinct
  obtain ⟨_, inner, outer⟩ := List.pairwise_append.mp distinct
  obtain ⟨_, _, inside⟩ := List.pairwise_append.mp inner
  have elsewhere : before.findSome? (followChain cell.key) = none := by
    rw [List.findSome?_eq_none_iff]
    intro chain member
    refine followChain_none fun other inChain => lawful.ne ?_
    exact outer other (List.mem_flatten.mpr ⟨chain, member, inChain⟩) cell (by simp)
  have here : followChain cell.key (pre ++ cell :: rest) = some (cell, chainHead rest) :=
    followChain_split fun other member => lawful.ne (inside other member cell (by simp))
  rw [Dict.follow, split, List.findSome?_append, elsewhere, List.findSome?_cons, here]
  rfl

end Following

-- The cells still to come

/-- The cells from a bucket of a table on, in the order of the iteration. -/
def Dict.bucketsFrom (d : Dict K V) (second : Bool) (idx : Nat) : List (DictEntry K V) :=
  ((d.table second).table.drop idx).flatten ++ if second then [] else d.ht1.entries

/-- The buckets from a bucket of a table on. -/
def Dict.bucketsLeft (d : Dict K V) (second : Bool) (idx : Nat) : Nat :=
  (d.table second).size - idx + if second then 0 else d.ht1.size

/-- The iterator stands behind the cells `pre` of a chain and has saved the pointer to the rest
`suf` of it.
-/
structure DictIterator.Standing (iter : DictIterator K) (d : Dict K V) (idx : Nat)
    (pre suf : List (DictEntry K V))
    : Prop where
  entry : iter.entry ≠ none
  index : iter.index = some idx
  chain : (d.table iter.second).table[idx]? = some (pre ++ suf)
  saved : iter.nextEntry = chainHead suf

/-- What `dictNext` returns when the cells `coming` are still to come: the first of them, behind
which the iterator stands then, or `NULL` at their end. The iterator goes on to one of the last
`left` buckets, or forward in a chain of which `length` cells are left.
-/
inductive NextResult (d : Dict K V) (left length : Nat)
    : (coming : List (DictEntry K V))
      → Option (DictEntry K V) × DictIterator K × Dict K V
      → Prop
  | done (iter : DictIterator K) : NextResult d left length [] (none, iter, d)
  | cell {cell : DictEntry K V} {iter : DictIterator K} {idx : Nat}
    {pre suf : List (DictEntry K V)} (standing : iter.Standing d idx (pre ++ [cell]) suf)
    (progress
      : d.bucketsLeft iter.second (idx + 1) < left
        ∨ (d.bucketsLeft iter.second (idx + 1) = left ∧ suf.length < length))
    : NextResult d left length (cell :: (suf ++ d.bucketsFrom iter.second (idx + 1)))
        (some cell, iter, d)

section Coming

variable [DecidableEq K] {type : DictType K V} {d : Dict K V} {iter : DictIterator K}
  {result : Option (DictEntry K V) × DictIterator K × Dict K V}

theorem Dict.WellFormed.table (wf : d.WellFormed type) (second : Bool)
    : (d.table second).WellFormed type := by
  cases second with
  | false => exact wf.ht0
  | true => exact wf.ht1

theorem nextBucket_cases (wf : d.WellFormed type) (iter : DictIterator K)
    : (d.bucketsFrom iter.second iter.nextIndex = []
      ∧ ∃ last, nextBucket d iter = .ok (false, last))
      ∨ ∃ second idx chain,
          (d.table second).table[idx]? = some chain
          ∧ nextBucket d iter
            = .ok (true, { iter with second, index := some idx, entry := chainHead chain })
          ∧ d.bucketsFrom iter.second iter.nextIndex = chain ++ d.bucketsFrom second (idx + 1)
          ∧ d.bucketsLeft second (idx + 1) < d.bucketsLeft iter.second iter.nextIndex := by
  have whole := (wf.table iter.second).length
  unfold nextBucket
  dsimp only
  by_cases past : iter.nextIndex ≥ (d.table iter.second).size
  · have drained : (d.table iter.second).table.drop iter.nextIndex = [] :=
      List.drop_eq_nil_of_le (by omega)
    rw [if_pos past]
    cases second : iter.second with
    | true =>
        refine Or.inl ⟨?_, ?_⟩
        · rw [second] at drained
          simp [Dict.bucketsFrom, drained]
        · simp
    | false =>
        rw [second, Dict.table, if_neg (by decide)] at drained
        cases rehashing : d.isRehashing with
        | false =>
            have quiet : d.rehashidx = none := by simpa [Dict.isRehashing] using rehashing
            refine Or.inl ⟨?_, ?_⟩
            · simp [Dict.bucketsFrom, Dict.table, drained, wf.idle quiet, dictReset, Dictht.entries]
            · simp
        | true =>
            obtain ⟨i, started⟩ := Option.isSome_iff_exists.mp rehashing
            have allocated := (wf.allocated started).2
            have length := wf.ht1.length
            obtain ⟨chain, rest, buckets⟩ : ∃ chain rest, d.ht1.table = chain :: rest := by
              cases split : d.ht1.table with
              | nil => simp [split, allocated.symm] at length
              | cons chain rest => exact ⟨chain, rest, rfl⟩
            refine Or.inr ⟨true, 0, chain, ?_, ?_, ?_, ?_⟩
            · simp [Dict.table, buckets]
            · simp [Dictht.bucket, buckets]
            · simp [Dict.bucketsFrom, drained, Dict.table, Dictht.entries, buckets]
            · simp only [Dict.bucketsLeft, Dict.table, if_true, Bool.false_eq_true, if_false]
              omega
  · rw [if_neg past]
    have inside : iter.nextIndex < (d.table iter.second).table.length := by omega
    have found := List.getElem?_eq_getElem inside
    refine Or.inr ⟨iter.second, iter.nextIndex, _, found, ?_, ?_, ?_⟩
    · simp [Dictht.bucket, found]
    · rw [Dict.bucketsFrom, List.drop_eq_getElem_cons inside, List.flatten_cons, List.append_assoc]
      rfl
    · simp only [Dict.bucketsLeft]
      omega

omit [DecidableEq K] in
theorem NextResult.after {left length : Nat} {coming : List (DictEntry K V)}
    (next : NextResult d left length coming result)
    : result.2.2 = d := by
  cases next with
  | done | cell => rfl

omit [DecidableEq K] in
theorem NextResult.mono {left more length : Nat} {coming : List (DictEntry K V)}
    (next : NextResult d left 0 coming result) (fewer : left < more)
    : NextResult d more length coming result := by
  cases next with
  | done iter => exact .done iter
  | cell standing progress =>
      rcases progress with less | ⟨_, none⟩
      · exact .cell standing (Or.inl (Nat.lt_trans less fewer))
      · exact absurd none (Nat.not_lt_zero _)

theorem dictNextLoop_scan (lawful : type.Lawful) (iter : DictIterator K)
    (wf : (iter.counted d).WellFormed type) {rounds : Nat} (ended : iter.entry = none)
    (enough : (iter.counted d).bucketsLeft iter.second iter.nextIndex < rounds)
    : ∃ result,
        dictNextLoop rounds d iter = .ok result
        ∧ NextResult (iter.counted d)
            ((iter.counted d).bucketsLeft iter.second iter.nextIndex) 0
            ((iter.counted d).bucketsFrom iter.second iter.nextIndex) result := by
  induction rounds generalizing d iter with
  | zero => omega
  | succ rounds ih =>
      obtain ⟨counted, here⟩ : ∃ counted, counted = iter.counted d := ⟨_, rfl⟩
      rw [← here] at wf enough ⊢
      rw [dictNextLoop, if_pos ended, ← here]
      dsimp only
      rcases nextBucket_cases wf iter with
        ⟨nothing, last, run⟩ | ⟨second, idx, chain, found, run, split, fewer⟩
      · refine ⟨_, by rw [run]; rfl, ?_⟩
        rw [nothing]
        exact .done last
      · rw [run, split]
        cases chain with
        | nil =>
            let moved : DictIterator K := { iter with second, index := some idx, entry := none }
            have same : moved.counted counted = counted := by simp [moved, DictIterator.counted]
            have left : (moved.counted counted).bucketsLeft moved.second moved.nextIndex
                < rounds := by
              rw [same]
              exact Nat.lt_of_lt_of_le fewer (Nat.le_of_lt_succ enough)
            obtain ⟨result, rest, next⟩ := ih moved (same.symm ▸ wf) rfl left
            rw [same] at next
            exact ⟨result, rest, next.mono fewer⟩
        | cons cell suf =>
            have split : (counted.table second).table[idx]? = some ([] ++ cell :: suf) := found
            have follow := wf.follow_ok lawful split
            have standing
                : ({ second, index := some idx, entry := some cell.key,
                     nextEntry := chainHead suf } : DictIterator K).Standing counted idx
                    ([] ++ [cell]) suf :=
              ⟨by simp, rfl, found, rfl⟩
            refine ⟨_, ?_, .cell standing (Or.inl fewer)⟩
            simp [chainHead, follow]

theorem Dict.WellFormed.setIterators (wf : d.WellFormed type) (n : Nat)
    : ({ d with iterators := n } : Dict K V).WellFormed type :=
  ⟨wf.ht0, wf.ht1, wf.distinct, wf.idle, wf.allocated, wf.emptied, wf.room⟩

theorem dictNext_start (lawful : type.Lawful) (wf : d.WellFormed type)
    : ∃ result,
        dictNext d dictGetSafeIterator = .ok result
        ∧ NextResult { d with iterators := d.iterators + 1 } (d.bucketsLeft false 0) 0 d.entries
            result := by
  have counted
      : (dictGetSafeIterator : DictIterator K).counted d
        = { d with iterators := d.iterators + 1 } := rfl
  have left
      : ((dictGetSafeIterator : DictIterator K).counted d).bucketsLeft false 0
        < d.ht0.size + d.ht1.size + 2 := by
    simp only [counted, Dict.bucketsLeft, Dict.table, Bool.false_eq_true, if_false]
    omega
  exact dictNextLoop_scan lawful dictGetSafeIterator (counted ▸ wf.setIterators _) rfl left

/-- The next cell of the chain is returned, or the first one of a later bucket. -/
theorem dictNext_standing (lawful : type.Lawful) (wf : d.WellFormed type) {idx : Nat}
    {pre suf : List (DictEntry K V)} (standing : iter.Standing d idx pre suf)
    : ∃ result,
        dictNext d iter = .ok result
        ∧ NextResult d (d.bucketsLeft iter.second (idx + 1)) suf.length
            (suf ++ d.bucketsFrom iter.second (idx + 1)) result := by
  rw [dictNext, dictNextLoop, if_neg standing.entry]
  dsimp only [pure, Except.pure, ok_andThen]
  cases suf with
  | nil =>
      let ended : DictIterator K := { iter with entry := none }
      have same : ended.counted d = d := by
        simp [ended, DictIterator.counted, standing.index]
      have next : ended.nextIndex = idx + 1 := by
        simp [ended, DictIterator.nextIndex, standing.index]
      have left
          : (ended.counted d).bucketsLeft ended.second ended.nextIndex
            < d.ht0.size + d.ht1.size + 1 := by
        rw [same, next]
        unfold Dict.bucketsLeft Dict.table
        cases ended.second with
        | false =>
            simp only [Bool.false_eq_true, if_false]
            omega
        | true =>
            simp only [if_true]
            omega
      obtain ⟨result, run, found⟩ := dictNextLoop_scan lawful ended (same.symm ▸ wf) rfl left
      rw [same, next] at found
      refine ⟨result, ?_, found⟩
      have none : iter.nextEntry = none := standing.saved
      simpa [none, ended] using run
  | cons cell suf =>
      have chain := standing.chain
      have follow := wf.follow_ok lawful chain
      have saved : iter.nextEntry = some cell.key := standing.saved
      let stepped : DictIterator K :=
        { iter with entry := some cell.key, nextEntry := chainHead suf }
      have after : stepped.Standing d idx (pre ++ [cell]) suf :=
        ⟨by simp [stepped], standing.index, by rw [chain]; simp, rfl⟩
      have progress
          : d.bucketsLeft stepped.second (idx + 1) = d.bucketsLeft iter.second (idx + 1)
            ∧ suf.length < (cell :: suf).length :=
        ⟨rfl, Nat.lt_succ_self _⟩
      refine ⟨(some cell, stepped, d), ?_, .cell after (Or.inr progress)⟩
      simp [saved, follow, stepped]

end Coming

end Redis
