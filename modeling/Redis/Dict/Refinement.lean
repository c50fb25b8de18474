import Redis.Dict.Contents

/-! A dictionary refines a finite map over every run of its operations.
The abstract map sends a key to the value bound to it; resizing and rehashing are silent.
-/

namespace Redis

open Redis.Library

variable {K V : Type} [DecidableEq K] {entry : DictEntry K V}

-- The operations as updates of the map

/-- The map with a key, and every key equated with it, bound to a value. -/
def bindKey (type : DictType K V) (map : K → Option V) (key : K) (val : V) : K → Option V :=
  fun other => if dictCompareKeys type other key then some val else map other

/-- The map without a key and the keys equated with it. -/
def unbindKey (type : DictType K V) (map : K → Option V) (key : K) : K → Option V :=
  fun other => if dictCompareKeys type other key then none else map other

section Updates

variable {type : DictType K V}

theorem lookupEntries_remove (lawful : type.Lawful) {entries rest : List (DictEntry K V)}
    {key : K} (perm : entries.Perm (entry :: rest))
    (distinct : entries.Pairwise (fun a b => dictCompareKeys type a.key b.key = false))
    (equated : dictCompareKeys type key entry.key = true)
    : lookupEntries type rest = unbindKey type (lookupEntries type entries) key := by
  have split := distinct_perm lawful perm distinct
  funext other
  unfold unbindKey
  rw [← lookupEntries_perm lawful perm distinct, lookupEntries_cons]
  by_cases same : dictCompareKeys type other key = true
  · rw [if_pos same]
    refine lookupEntries_eq_none_iff.mpr (fun left member => ?_)
    have apart := (List.pairwise_cons.mp split).1 left member
    by_contra present
    have both := lawful.trans (lawful.symm (lawful.trans same equated)) (by simpa using present)
    simp [apart] at both
  · have different : ¬dictCompareKeys type other entry.key = true := fun equal =>
      same (lawful.trans equal (lawful.symm equated))
    rw [if_neg same, if_neg different]

theorem lookupEntries_insert (lawful : type.Lawful) {entries next : List (DictEntry K V)}
    {key : K} (perm : next.Perm (entry :: entries))
    (distinct : next.Pairwise (fun a b => dictCompareKeys type a.key b.key = false))
    (equated : dictCompareKeys type key entry.key = true)
    : lookupEntries type next = bindKey type (lookupEntries type entries) key entry.val := by
  funext other
  rw [← lookupEntries_perm lawful perm distinct, lookupEntries_cons, bindKey]
  have same : dictCompareKeys type other entry.key = dictCompareKeys type other key :=
    Bool.eq_iff_iff.mpr
      ⟨fun equal => lawful.trans equal (lawful.symm equated), fun equal =>
        lawful.trans equal equated⟩
  rw [same]

theorem bindKey_unbindKey (map : K → Option V) (key : K) (val : V)
    : bindKey type (unbindKey type map key) key val = bindKey type map key val := by
  funext other
  unfold bindKey unbindKey
  split <;> rfl

end Updates

section Specs

variable {type : DictType K V} {d : Dict K V}

theorem Dict.PointsTo.edit (lawful : type.Lawful) (wf : d.WellFormed type) {ref : EntryRef}
    (points : d.PointsTo ref entry) {key : K} (equated : dictCompareKeys type key entry.key = true)
    : ∃ chain,
        (d.table ref.second).bucket ref.idx = .ok chain
        ∧ (let next := d.setChain ref.second ref.idx ((d.table ref.second).used - 1)
            (chain.eraseIdx ref.pos);
          next.WellFormed type ∧ next.lookup type = unbindKey type (d.lookup type) key)
        ∧ ∀ val,
            let next := d.setChain ref.second ref.idx (d.table ref.second).used
              (chain.set ref.pos { entry with val })
            next.WellFormed type
            ∧ next.lookup type = bindKey type (d.lookup type) key val := by
  obtain ⟨chain, found, here⟩ := points
  have bound : ref.pos < chain.length := (List.getElem?_eq_some_iff.mp here).1
  have full : chain ≠ [] := List.ne_nil_of_length_pos (by omega)
  have cell : chain[ref.pos] = entry := (List.getElem?_eq_some_iff.mp here).2
  have tableWf : (d.table ref.second).WellFormed type := by
    unfold Dict.table
    split
    · exact wf.ht1
    · exact wf.ht0
  have split : chain.Perm (entry :: chain.eraseIdx ref.pos) := by
    have perm := (List.getElem_cons_eraseIdx_perm bound).symm
    rwa [cell] at perm
  have positive : 0 < (d.table ref.second).used := by
    rw [tableWf.used]
    exact List.length_pos_of_mem
      (List.mem_flatten.mpr ⟨chain, List.mem_of_getElem? found, List.mem_of_getElem? here⟩)
  have placed := fun (other : DictEntry K V) (member : other ∈ chain) =>
    tableWf.placed found member
  refine ⟨chain, by simp [Dictht.bucket, found], ?_, ?_⟩
  · have perm
        : d.entries.Perm (entry :: (d.setChain ref.second ref.idx
            ((d.table ref.second).used - 1) (chain.eraseIdx ref.pos)).entries) := by
      have moved := Dict.setChain_perm found (chain.eraseIdx ref.pos)
        ((d.table ref.second).used - 1)
      refine (List.perm_append_left_iff (chain.eraseIdx ref.pos)).mp ?_
      exact moved.symm.trans ((split.append_right _).trans List.perm_middle.symm)
    refine ⟨wf.setChain found full _ _ ?_ ?_ (List.length_eraseIdx_le chain ref.pos) ?_, ?_⟩
    · exact fun other member => placed other (List.mem_of_mem_eraseIdx member)
    · rw [List.length_eraseIdx_of_lt bound]
      omega
    · exact (List.pairwise_cons.mp (distinct_perm lawful perm wf.distinct)).2
    · exact lookupEntries_remove lawful perm wf.distinct equated
  · intro val
    have perm
        : ({ entry with val } :: d.entries).Perm (entry :: (d.setChain ref.second ref.idx
            (d.table ref.second).used (chain.set ref.pos { entry with val })).entries) := by
      have moved := Dict.setChain_perm found (chain.set ref.pos { entry with val })
        (d.table ref.second).used
      have rewritten := (List.set_perm_cons_eraseIdx bound { entry with val })
      refine (List.perm_append_left_iff (chain.eraseIdx ref.pos)).mp ?_
      refine (List.perm_middle.trans ?_).trans List.perm_middle.symm
      exact (rewritten.symm.append_right _).trans (moved.symm.trans (split.append_right _))
    obtain ⟨before, after, whole⟩ :=
      List.append_of_mem (Dict.PointsTo.mem ⟨chain, found, here⟩)
    have old : d.entries.Perm (entry :: (before ++ after)) := whole ▸ List.perm_middle
    have new
        : (d.setChain ref.second ref.idx (d.table ref.second).used
            (chain.set ref.pos { entry with val })).entries.Perm
          ({ entry with val } :: (before ++ after)) := by
      refine (List.perm_cons entry).mp (perm.symm.trans ?_)
      exact (old.cons _).trans (List.Perm.swap _ _ _)
    have distinct := distinct_perm lawful old wf.distinct
    have distinctNew
        : (({ entry with val } : DictEntry K V) :: (before ++ after)).Pairwise
            (fun a b => dictCompareKeys type a.key b.key = false) :=
      List.pairwise_cons.mpr (List.pairwise_cons.mp distinct)
    refine ⟨wf.setChain found full _ _ ?_ ?_ (by simp)
      (distinct_perm lawful new.symm distinctNew), ?_⟩
    · intro other member
      rcases List.mem_or_eq_of_mem_set member with old | rfl
      · exact placed other old
      · exact placed entry (List.mem_of_getElem? here)
    · simp
    · have without := lookupEntries_remove lawful old wf.distinct equated
      have added := lookupEntries_insert lawful new
        (distinct_perm lawful new.symm distinctNew) equated
      rw [without] at added
      exact added.trans (bindKey_unbindKey _ _ _)

/-- The dictionary as it is when an insertion links its entry: after the rehash step and
the expansion check.
-/
def Dict.insertionPoint (type : DictType K V) (canResize : Bool) (d : Dict K V)
    : Except Fault (Dict K V) := do
  let d ← rehashIfNeeded type d
  let (_, d) ← dictExpandIfNeeded canResize d
  pure d

/-- The bucket number that `_dictKeyIndex` returns as an `int` is not negative: bit 31 of
the hash is clear, or the table that receives the entry has at most `2 ^ 31` buckets.
-/
def IndexFits (type : DictType K V) (canResize : Bool) (d : Dict K V) (key : K) : Prop :=
  dictHashKey type key < 2 ^ 31
  ∨ ∀ next, d.insertionPoint type canResize = .ok next → next.insertTable.size ≤ 2 ^ 31

theorem castInt_of_lt {n : Nat} (small : n < 2 ^ 31) : castInt n = n := by
  simp only [castInt]
  rw [Nat.mod_eq_of_lt (by omega), if_pos small]

/-- What `dictAddRaw` can do. Either memory runs out, or the key is present and only the
rehash step and the expansion show, or the key is absent. Then a bucket number below
`2 ^ 31` gets the new entry, and a larger one is refused or leaves the bucket array.
-/
theorem dictAddRaw_cases (lawful : type.Lawful) (wf : d.WellFormed type) (canResize : Bool)
    (key : K) (val : V)
    : dictAddRaw type canResize d key val = .error .outOfMemory
      ∨ ∃ mid,
          d.SameContents type mid
          ∧ d.insertionPoint type canResize = .ok mid
          ∧ ((d.lookup type key ≠ none
                ∧ dictAddRaw type canResize d key val = .ok (false, mid))
            ∨ (d.lookup type key = none
                ∧ dictHashKey type key &&& mid.insertTable.sizemask < 2 ^ 31
                ∧ ∃ next,
                    dictAddRaw type canResize d key val = .ok (true, next)
                    ∧ next.WellFormed type
                    ∧ next.lookup type = bindKey type (d.lookup type) key val)
            ∨ (d.lookup type key = none
                ∧ 2 ^ 31 ≤ dictHashKey type key &&& mid.insertTable.sizemask
                ∧ (dictAddRaw type canResize d key val = .ok (false, mid)
                  ∨ dictAddRaw type canResize d key val = .error .outOfBounds))) := by
  obtain ⟨first, stepped, sameFirst⟩ := rehashIfNeeded_ok lawful wf
  rcases dictExpandIfNeeded_ok canResize sameFirst.wellFormed with
    oom | ⟨mid, expanded, sameMid, allocated⟩
  · exact Or.inl (by simp [dictAddRaw, stepped, dictKeyIndex, oom])
  have same := sameFirst.trans sameMid
  have point : d.insertionPoint type canResize = .ok mid := by
    simp [Dict.insertionPoint, stepped, expanded]
  have midLookup := same.lookup_eq lawful
  rcases findInTables_ok lawful same.wellFormed allocated key with
    ⟨search, absent⟩ | ⟨ref, entry, search, points, equated⟩
  swap
  · refine Or.inr ⟨mid, same, point, Or.inl ⟨?_, ?_⟩⟩
    · rw [← midLookup]
      intro none
      have apart := lookupEntries_eq_none_iff.mp none entry points.mem
      simp [equated] at apart
    · simp [dictAddRaw, stepped, dictKeyIndex, expanded, search]
  have absentLookup : d.lookup type key = none := by
    rw [← midLookup]
    exact lookupEntries_eq_none_iff.mpr absent
  have index
      : dictKeyIndex type canResize first key
        = .ok (castInt (dictHashKey type key &&& mid.insertTable.sizemask), mid) := by
    simp [dictKeyIndex, expanded, search]
  by_cases minus : castInt (dictHashKey type key &&& mid.insertTable.sizemask) = -1
  · refine Or.inr ⟨mid, same, point, Or.inr (Or.inr ⟨absentLookup, ?_, Or.inl ?_⟩)⟩
    · by_contra fits
      rw [castInt_of_lt (by omega)] at minus
      omega
    · simp [dictAddRaw, stepped, index, minus]
  by_cases room : 24 * (mid.size + 1) < addressSpace
  swap
  · exact Or.inl (by simp [dictAddRaw, stepped, index, minus, Dict.zmallocEntry, room])
  have served : mid.zmallocEntry = .ok () := if_pos room
  refine Or.inr ⟨mid, same, point, Or.inr ?_⟩
  by_cases fits : dictHashKey type key &&& mid.insertTable.sizemask < 2 ^ 31
  swap
  · refine Or.inr ⟨absentLookup, by omega, Or.inr ?_⟩
    have negative : castInt (dictHashKey type key &&& mid.insertTable.sizemask) < 0 := by
      have small : dictHashKey type key &&& mid.insertTable.sizemask < 2 ^ 32 := by
        have hash : dictHashKey type key < 2 ^ 32 := (type.hashFunction key).toNat_lt
        exact lt_of_le_of_lt Nat.and_le_left hash
      simp only [castInt]
      rw [Nat.mod_eq_of_lt small, if_neg fits]
      omega
    simp [dictAddRaw, stepped, index, minus, served, negative]
  refine Or.inl ⟨absentLookup, fits, ?_⟩
  let entry : DictEntry K V := { key := storedKey type key, val }
  have hash : dictHashKey type entry.key = dictHashKey type key :=
    (lawful.hash (lawful.dup key)).symm
  have fresh : ∀ other ∈ mid.entries, dictCompareKeys type entry.key other.key = false := by
    intro other member
    by_contra equated
    have both := lawful.trans (lawful.dup key) (by simpa using equated)
    simp [absent other member] at both
  have nonneg : ¬((dictHashKey type key &&& mid.insertTable.sizemask : Nat) : Int) < 0 := by
    omega
  have present
      : ¬((dictHashKey type key &&& mid.insertTable.sizemask : Nat) : Int) = -1 := by omega
  have counted {next : Dict K V} (perm : next.entries.Perm (entry :: mid.entries))
      : 24 * next.entries.length < addressSpace := by
    have size : mid.size = mid.entries.length := same.wellFormed.size_eq
    rwa [perm.length_eq, List.length_cons, ← size]
  -- The new entry is distinct from the old ones, wherever it is linked.
  have finish {next : Dict K V} (perm : next.entries.Perm (entry :: mid.entries))
      (tables : next.entries.Pairwise (fun a b => dictCompareKeys type a.key b.key = false)
        → next.WellFormed type)
      : next.WellFormed type
        ∧ next.lookup type = bindKey type (d.lookup type) key val := by
    have distinct := distinct_perm lawful perm.symm
      (List.pairwise_cons.mpr ⟨fresh, same.wellFormed.distinct⟩)
    refine ⟨tables distinct, ?_⟩
    rw [← midLookup]
    exact lookupEntries_insert lawful perm distinct (lawful.dup key)
  cases idx : mid.rehashidx with
  | none =>
      have idle : mid.isRehashing = false := by simp [Dict.isRehashing, idx]
      simp only [Dict.insertTable, idle] at index present nonneg fits
      obtain ⟨ht0, linked, ht0Wf, ht0Size, perm⟩ :=
        same.wellFormed.ht0.link_ok allocated entry
      rw [hash] at linked
      refine ⟨{ mid with ht0 }, ?_, ?_⟩
      · simp only [dictAddRaw, stepped, index, ok_andThen, castInt_of_lt fits]
        simp [idle, linked, served, entry]
      · have perm := perm.append_right mid.ht1.entries
        refine finish perm (fun distinct => ?_)
        · exact {
            ht0 := ht0Wf
            ht1 := same.wellFormed.ht1
            distinct := distinct
            idle := same.wellFormed.idle
            allocated := by simp [idx]
            emptied := by simp [idx]
            room := counted perm
          }
  | some i =>
      have busy : mid.isRehashing = true := by simp [Dict.isRehashing, idx]
      simp only [Dict.insertTable, busy, if_true] at index present nonneg fits
      obtain ⟨ht1, linked, ht1Wf, ht1Size, perm⟩ :=
        same.wellFormed.ht1.link_ok (same.wellFormed.allocated idx).2 entry
      rw [hash] at linked
      refine ⟨{ mid with ht1 }, ?_, ?_⟩
      · simp only [dictAddRaw, stepped, index, ok_andThen, castInt_of_lt fits]
        simp [busy, linked, served, entry]
      · have perm := (perm.append_left mid.ht0.entries).trans List.perm_middle
        refine finish perm (fun distinct => ?_)
        · exact {
            ht0 := same.wellFormed.ht0
            ht1 := ht1Wf
            distinct := distinct
            idle := by simp [idx]
            allocated := by
              intro j eq
              exact ⟨allocated, by simpa [ht1Size] using (same.wellFormed.allocated idx).2⟩
            emptied := same.wellFormed.emptied
            room := counted perm
          }

end Specs

end Redis
