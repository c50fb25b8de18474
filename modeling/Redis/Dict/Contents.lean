import Redis.Dict.Operations

/-! Lookup, insertion and deletion in terms of the entries of a dictionary.
Entries are compared up to order, so the map a dictionary stands for is read off its
entries by key alone.
-/

namespace Redis

open Redis.Library

variable {K V : Type} [DecidableEq K]

/-- The value bound to a key by a list of entries. -/
def lookupEntries (type : DictType K V) (entries : List (DictEntry K V)) (key : K)
    : Option V :=
  (entries.find? (fun entry => dictCompareKeys type key entry.key)).map DictEntry.val

/-- The map that a dictionary stands for. -/
def Dict.lookup (type : DictType K V) (d : Dict K V) : K → Option V :=
  lookupEntries type d.entries

section Lookup

variable {type : DictType K V} {entries : List (DictEntry K V)} {key : K}

theorem lookupEntries_cons (entry : DictEntry K V)
    : lookupEntries type (entry :: entries) key
      = if dictCompareKeys type key entry.key then some entry.val
        else lookupEntries type entries key := by
  unfold lookupEntries
  rw [List.find?_cons]
  cases dictCompareKeys type key entry.key <;> rfl

theorem lookupEntries_eq_none_iff
    : lookupEntries type entries key = none
      ↔ ∀ entry ∈ entries, dictCompareKeys type key entry.key = false := by
  simp [lookupEntries]

theorem lookupEntries_eq_some_iff (lawful : type.Lawful)
    (distinct : entries.Pairwise (fun a b => dictCompareKeys type a.key b.key = false))
    {val : V}
    : lookupEntries type entries key = some val
      ↔ ∃ entry ∈ entries, dictCompareKeys type key entry.key = true ∧ entry.val = val := by
  induction entries with
  | nil => simp [lookupEntries]
  | cons head rest ih =>
      obtain ⟨apart, distinct⟩ := List.pairwise_cons.mp distinct
      rw [lookupEntries_cons]
      cases equated : dictCompareKeys type key head.key with
      | false => simp [ih distinct, equated]
      | true =>
          have others : ∀ entry ∈ rest, dictCompareKeys type key entry.key = false := by
            intro entry member
            by_contra other
            have both := lawful.trans (lawful.symm equated) (by simpa using other)
            simp [apart entry member] at both
          simp only [if_true, Option.some.injEq, List.mem_cons, exists_eq_or_imp, equated,
            true_and]
          constructor
          · exact Or.inl
          · rintro (same | ⟨entry, member, equal, _⟩)
            · exact same
            · simp [others entry member] at equal

theorem lookupEntries_perm (lawful : type.Lawful) {other : List (DictEntry K V)}
    (perm : entries.Perm other)
    (distinct : entries.Pairwise (fun a b => dictCompareKeys type a.key b.key = false))
    : lookupEntries type other key = lookupEntries type entries key := by
  ext val
  rw [lookupEntries_eq_some_iff lawful distinct,
    lookupEntries_eq_some_iff lawful (distinct_perm lawful perm distinct)]
  simp only [perm.mem_iff]

theorem lookupEntries_congr (lawful : type.Lawful) {other : K}
    (equated : dictCompareKeys type key other = true)
    : lookupEntries type entries key = lookupEntries type entries other := by
  have same (entry : DictEntry K V)
      : dictCompareKeys type key entry.key = dictCompareKeys type other entry.key :=
    Bool.eq_iff_iff.mpr ⟨lawful.trans (lawful.symm equated), lawful.trans equated⟩
  simp only [lookupEntries, same]

end Lookup

theorem Dict.SameContents.lookup_eq {type : DictType K V} (lawful : type.Lawful)
    {d next : Dict K V} (same : d.SameContents type next)
    : next.lookup type = d.lookup type := by
  funext key
  exact (lookupEntries_perm lawful same.perm same.wellFormed.distinct).symm

-- Finding an entry

def Dict.PointsTo (d : Dict K V) (ref : EntryRef) (entry : DictEntry K V) : Prop :=
  ∃ chain,
    (d.table ref.second).table[ref.idx]? = some chain ∧ chain[ref.pos]? = some entry

omit [DecidableEq K] in
theorem Dict.PointsTo.entryAt {d : Dict K V} {ref : EntryRef} {entry : DictEntry K V}
    (points : d.PointsTo ref entry)
    : d.entryAt ref = .ok entry := by
  obtain ⟨chain, found, here⟩ := points
  simp [Dict.entryAt, Dictht.bucket, found, here]

omit [DecidableEq K] in
theorem Dict.PointsTo.mem {d : Dict K V} {ref : EntryRef} {entry : DictEntry K V}
    (points : d.PointsTo ref entry)
    : entry ∈ d.entries := by
  obtain ⟨chain, found, here⟩ := points
  have inTable : entry ∈ (d.table ref.second).entries :=
    List.mem_flatten.mpr ⟨chain, List.mem_of_getElem? found, List.mem_of_getElem? here⟩
  cases second : ref.second with
  | false => exact List.mem_append_left _ (by simpa [Dict.table, second] using inTable)
  | true => exact List.mem_append_right _ (by simpa [Dict.table, second] using inTable)

section Find

variable {type : DictType K V}

theorem findInTable_ok (lawful : type.Lawful) {ht : Dictht K V} (wf : ht.WellFormed type)
    (nonempty : ht.size ≠ 0) (key : K)
    : (findInTable type ht key = .ok (dictHashKey type key &&& ht.sizemask, none)
        ∧ ∀ entry ∈ ht.entries, dictCompareKeys type key entry.key = false)
      ∨ ∃ pos chain entry,
          findInTable type ht key = .ok (dictHashKey type key &&& ht.sizemask, some pos)
          ∧ ht.table[dictHashKey type key &&& ht.sizemask]? = some chain
          ∧ chain[pos]? = some entry
          ∧ dictCompareKeys type key entry.key = true := by
  obtain ⟨chain, read, found⟩ := wf.bucket_ok nonempty (dictHashKey type key)
  cases search : chain.findIdx? (fun he => dictCompareKeys type key he.key) with
  | none =>
      refine Or.inl ⟨by simp [findInTable, read, search], ?_⟩
      intro entry member
      by_contra equated
      rw [Bool.not_eq_false] at equated
      obtain ⟨own, ownFound, inOwn⟩ := wf.mem_chain member
      rw [← lawful.hash equated, found] at ownFound
      obtain rfl := Option.some.inj ownFound
      have absent := List.findIdx?_eq_none_iff.mp search entry inOwn
      simp [equated] at absent
  | some pos =>
      obtain ⟨bound, equated, _⟩ := List.findIdx?_eq_some_iff_getElem.mp search
      exact Or.inr ⟨pos, chain, chain[pos], by simp [findInTable, read, search], found,
        List.getElem?_eq_getElem bound, equated⟩

theorem findInTables_ok (lawful : type.Lawful) {d : Dict K V} (wf : d.WellFormed type)
    (allocated : d.ht0.size ≠ 0) (key : K)
    : (findInTables type d key = .ok none
        ∧ ∀ entry ∈ d.entries, dictCompareKeys type key entry.key = false)
      ∨ ∃ ref entry,
          findInTables type d key = .ok (some ref)
          ∧ d.PointsTo ref entry
          ∧ dictCompareKeys type key entry.key = true := by
  rcases findInTable_ok lawful wf.ht0 allocated key with
    ⟨first, absent0⟩ | ⟨pos, chain, entry, first, found, here, equated⟩
  swap
  · exact Or.inr ⟨⟨false, dictHashKey type key &&& d.ht0.sizemask, pos⟩, entry,
      by simp [findInTables, first],
      ⟨chain, by simpa [Dict.table] using found, here⟩, equated⟩
  cases idx : d.rehashidx with
  | none =>
      refine Or.inl ⟨by simp [findInTables, first, Dict.isRehashing, idx], ?_⟩
      intro entry member
      have noSecond : d.ht1.entries = [] := by rw [wf.idle idx]; rfl
      exact absent0 entry (by simpa [Dict.entries, noSecond] using member)
  | some i =>
      rcases findInTable_ok lawful wf.ht1 (wf.allocated idx).2 key with
        ⟨second, absent1⟩ | ⟨pos, chain, entry, second, found, here, equated⟩
      · refine Or.inl ⟨by simp [findInTables, first, second, Dict.isRehashing, idx], ?_⟩
        intro entry member
        rcases List.mem_append.mp member with in0 | in1
        · exact absent0 entry in0
        · exact absent1 entry in1
      · exact Or.inr ⟨⟨true, dictHashKey type key &&& d.ht1.sizemask, pos⟩, entry,
          by simp [findInTables, first, second, Dict.isRehashing, idx],
          ⟨chain, by simpa [Dict.table] using found, here⟩, equated⟩

theorem dictFind_ok (lawful : type.Lawful) {d : Dict K V} (wf : d.WellFormed type) (key : K)
    : ∃ next,
        d.SameContents type next
        ∧ ((dictFind type d key = .ok (none, next)
            ∧ ∀ entry ∈ next.entries, dictCompareKeys type key entry.key = false)
          ∨ ∃ ref entry,
              dictFind type d key = .ok (some ref, next)
              ∧ next.PointsTo ref entry
              ∧ dictCompareKeys type key entry.key = true) := by
  by_cases empty : d.ht0.size = 0
  · refine ⟨d, .refl wf, Or.inl ⟨by simp [dictFind, empty], ?_⟩⟩
    have idle : d.rehashidx = none := by
      cases idx : d.rehashidx with
      | none => rfl
      | some i => exact absurd empty (wf.allocated idx).1
    have noTable : d.ht0.table = [] := List.length_eq_zero_iff.mp (wf.ht0.length.trans empty)
    simp [Dict.entries, Dictht.entries, noTable, wf.idle idle, dictReset]
  · obtain ⟨next, run, same⟩ := rehashIfNeeded_ok lawful wf
    refine ⟨next, same, ?_⟩
    rcases findInTables_ok lawful same.wellFormed (same.allocated empty) key with
      ⟨search, absent⟩ | ⟨ref, entry, search, points, equated⟩
    · exact Or.inl ⟨by simp [dictFind, empty, run, search], absent⟩
    · exact Or.inr ⟨ref, entry, by simp [dictFind, empty, run, search], points, equated⟩

end Find

section Change

variable {type : DictType K V} {d : Dict K V} {second : Bool} {idx : Nat}
  {chain : List (DictEntry K V)}

omit [DecidableEq K] in
theorem Dict.setChain_perm (found : (d.table second).table[idx]? = some chain)
    (next : List (DictEntry K V)) (used : Nat)
    : (chain ++ (d.setChain second idx used next).entries).Perm (next ++ d.entries) := by
  cases second with
  | false =>
      have perm := flatten_set_perm (by simpa [Dict.table] using found) next
      simp only [Dict.setChain, Dict.entries, Dictht.entries, Bool.false_eq_true, if_false]
      simpa only [List.append_assoc] using perm.append_right d.ht1.table.flatten
  | true =>
      have perm := flatten_set_perm (by simpa [Dict.table] using found) next
      simp only [Dict.setChain, Dict.entries, Dictht.entries, if_true]
      calc
        (chain ++ (d.ht0.table.flatten ++ (d.ht1.table.set idx next).flatten)).Perm
            (d.ht0.table.flatten ++ (chain ++ (d.ht1.table.set idx next).flatten)) :=
          List.perm_append_comm_assoc _ _ _
        (d.ht0.table.flatten ++ (chain ++ (d.ht1.table.set idx next).flatten)).Perm
            (d.ht0.table.flatten ++ (next ++ d.ht1.table.flatten)) := perm.append_left _
        (d.ht0.table.flatten ++ (next ++ d.ht1.table.flatten)).Perm
            (next ++ (d.ht0.table.flatten ++ d.ht1.table.flatten)) :=
          List.perm_append_comm_assoc _ _ _

/-- Replacing a non-empty chain by one that is no longer keeps the dictionary well formed. A
non-empty chain is never one of the buckets a rehash has already emptied, nor in an unused
`ht[1]`.
-/
theorem Dict.WellFormed.setChain (wf : d.WellFormed type)
    (found : (d.table second).table[idx]? = some chain) (full : chain ≠ [])
    (next : List (DictEntry K V)) (used : Nat)
    (placed
      : ∀ entry ∈ next, dictHashKey type entry.key &&& (d.table second).sizemask = idx)
    (counted : chain.length + used = next.length + (d.table second).used)
    (fewer : next.length ≤ chain.length)
    (distinct
      : (d.setChain second idx used next).entries.Pairwise
          (fun a b => dictCompareKeys type a.key b.key = false))
    : (d.setChain second idx used next).WellFormed type := by
  have room : 24 * (d.setChain second idx used next).entries.length < addressSpace := by
    have counts := (Dict.setChain_perm found next used).length_eq
    have before := wf.room
    simp only [List.length_append] at counts
    omega
  cases second with
  | false =>
      simp only [Dict.table, Bool.false_eq_true, if_false] at found placed counted
      simp only [Dict.setChain, Bool.false_eq_true, if_false] at distinct ⊢
      exact {
        ht0 := wf.ht0.setChain next used found placed counted
        ht1 := wf.ht1
        distinct := distinct
        idle := wf.idle
        allocated := wf.allocated
        emptied := by
          intro i j rest rehashing below present
          have later : idx ≠ j := by
            rintro rfl
            exact full (wf.emptied rehashing below found)
          exact wf.emptied rehashing below (by simpa [List.getElem?_set, later] using present)
        room := room
      }
  | true =>
      simp only [Dict.table, if_true] at found placed counted
      simp only [Dict.setChain, if_true] at distinct ⊢
      exact {
        ht0 := wf.ht0
        ht1 := wf.ht1.setChain next used found placed counted
        distinct := distinct
        idle := by
          intro none
          rw [wf.idle none] at found
          simp [dictReset] at found
        allocated := wf.allocated
        emptied := wf.emptied
        room := room
      }

end Change

end Redis
