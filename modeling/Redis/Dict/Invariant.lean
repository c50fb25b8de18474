import Redis.Dict.Model

/-! The representation invariant of a dictionary and its preservation by resizing and by
incremental rehashing. Neither adds, loses or changes an entry: the entries of the result
are a permutation of those before.
-/

namespace Redis

open Redis.Library

variable {K V : Type}

/-- The representation invariant. Both tables are well formed, no two entries have equated
keys, `ht[1]` is unused outside a rehash, and during one both tables have buckets and the
buckets of `ht[0]` below `rehashidx` are empty. The cells, of 24 bytes each, are in memory.
-/
structure Dict.WellFormed [DecidableEq K] (type : DictType K V) (d : Dict K V) : Prop where
  ht0 : d.ht0.WellFormed type
  ht1 : d.ht1.WellFormed type
  distinct : d.entries.Pairwise (fun a b => dictCompareKeys type a.key b.key = false)
  idle : d.rehashidx = none → d.ht1 = dictReset
  allocated : ∀ {i}, d.rehashidx = some i → d.ht0.size ≠ 0 ∧ d.ht1.size ≠ 0
  emptied
    : ∀ {i j chain},
        d.rehashidx = some i → j < i → d.ht0.table[j]? = some chain → chain = []
  room : 24 * d.entries.length < addressSpace

/-- The dictionary is still well formed and holds the same entries, up to order. A table
that was allocated stays allocated.
-/
structure Dict.SameContents [DecidableEq K] (type : DictType K V) (d next : Dict K V)
    : Prop where
  wellFormed : next.WellFormed type
  perm : next.entries.Perm d.entries
  allocated : d.ht0.size ≠ 0 → next.ht0.size ≠ 0
  iterators : next.iterators = d.iterators

section Basics

variable [DecidableEq K] {type : DictType K V} {d : Dict K V}

theorem Dict.SameContents.refl (wf : d.WellFormed type) : d.SameContents type d :=
  ⟨wf, .rfl, id, rfl⟩

theorem Dict.SameContents.trans {mid next : Dict K V}
    (first : d.SameContents type mid) (second : mid.SameContents type next)
    : d.SameContents type next :=
  ⟨second.wellFormed, second.perm.trans first.perm,
    fun old => second.allocated (first.allocated old),
    second.iterators.trans first.iterators⟩

theorem distinct_perm (lawful : type.Lawful) {left right : List (DictEntry K V)}
    (perm : left.Perm right)
    (distinct : left.Pairwise (fun a b => dictCompareKeys type a.key b.key = false))
    : right.Pairwise (fun a b => dictCompareKeys type a.key b.key = false) := by
  refine (perm.pairwise_iff ?_).mp distinct
  intro a b apart
  by_contra equated
  exact Bool.false_ne_true (apart.symm.trans (lawful.symm (by simpa using equated)))

theorem dictCreate_wellFormed : (dictCreate : Dict K V).WellFormed type where
  ht0 := wellFormed_dictReset type
  ht1 := wellFormed_dictReset type
  distinct := List.Pairwise.nil
  idle := fun _ => rfl
  allocated := by simp [dictCreate]
  emptied := by simp [dictCreate]
  room := by simp [dictCreate, Dict.entries, Dictht.entries, dictReset, addressSpace]

theorem Dict.WellFormed.size_eq (wf : d.WellFormed type) : d.size = d.entries.length := by
  rw [Dict.size, wf.ht0.used, wf.ht1.used, Dict.entries, List.length_append]

theorem Dict.WellFormed.rehashidx_lt (wf : d.WellFormed type) {i : Nat}
    (rehashing : d.rehashidx = some i) (left : d.ht0.used ≠ 0)
    : i < d.ht0.size := by
  by_contra past
  have empty : d.ht0.entries = [] := by
    refine List.flatten_eq_nil_iff.mpr ?_
    intro chain member
    obtain ⟨j, found⟩ := List.mem_iff_getElem?.mp member
    have bound : j < d.ht0.table.length := (List.getElem?_eq_some_iff.mp found).1
    rw [wf.ht0.length] at bound
    exact wf.emptied rehashing (by omega) found
  exact left (by rw [wf.ht0.used, empty]; rfl)

end Basics

-- The loops of dictRehash

/-- The scan for a non-empty bucket passes over empty buckets only, and reads none outside
the array as long as one of the remaining buckets holds an entry.
-/
theorem skipEmpty_ok (buckets : List (List (DictEntry K V))) (rehashidx emptyVisits : Nat)
    (left : ∃ chain ∈ buckets, chain ≠ [])
    : ∃ k,
        (∀ j < k, buckets[j]? = some [])
        ∧ (skipEmpty buckets rehashidx emptyVisits = .ok (.exhausted (rehashidx + k))
          ∨ ∃ chain visits,
              chain ≠ []
              ∧ buckets[k]? = some chain
              ∧ skipEmpty buckets rehashidx emptyVisits
                = .ok (.found (rehashidx + k) chain visits)) := by
  induction buckets generalizing rehashidx emptyVisits with
  | nil => simp at left
  | cons head rest ih =>
      cases head with
      | cons entry chain =>
          exact ⟨0, by simp, Or.inr ⟨entry :: chain, emptyVisits, by simp, rfl, rfl⟩⟩
      | nil =>
          by_cases spent : emptyVisits - 1 = 0
          · refine ⟨1, ?_, Or.inl (by simp [skipEmpty, spent])⟩
            intro j small
            obtain rfl : j = 0 := by omega
            rfl
          · have leftInRest : ∃ chain ∈ rest, chain ≠ [] := by
              obtain ⟨chain, member, full⟩ := left
              rcases List.mem_cons.mp member with rfl | inRest
              · exact absurd rfl full
              · exact ⟨chain, inRest, full⟩
            obtain ⟨k, passed, ending⟩ := ih (rehashidx + 1) (emptyVisits - 1) leftInRest
            have index : rehashidx + 1 + k = rehashidx + (k + 1) := by omega
            refine ⟨k + 1, ?_, ?_⟩
            · intro j small
              cases j with
              | zero => rfl
              | succ j => simpa using passed j (by omega)
            · simpa [skipEmpty, spent, index] using ending

theorem moveChain_ok {type : DictType K V} (chain : List (DictEntry K V))
    {ht1 : Dictht K V} (wf : ht1.WellFormed type) (nonempty : ht1.size ≠ 0)
    : ∃ next : Dictht K V,
        moveChain type chain ht1 = .ok next
        ∧ next.WellFormed type
        ∧ next.size = ht1.size
        ∧ next.entries.Perm (chain ++ ht1.entries) := by
  induction chain generalizing ht1 with
  | nil => exact ⟨ht1, rfl, wf, rfl, .rfl⟩
  | cons entry rest ih =>
      obtain ⟨mid, linked, midWf, midSize, midPerm⟩ := wf.link_ok nonempty entry
      obtain ⟨next, moved, nextWf, nextSize, nextPerm⟩ := ih midWf (by omega)
      refine ⟨next, by simp [moveChain, linked, moved], nextWf, by omega, ?_⟩
      exact nextPerm.trans ((midPerm.append_left rest).trans List.perm_middle)

section Rehash

variable [DecidableEq K] {type : DictType K V}

theorem Dict.WellFormed.moveBucket {d : Dict K V} {i k : Nat}
    {chain : List (DictEntry K V)} (lawful : type.Lawful) (wf : d.WellFormed type)
    (rehashing : d.rehashidx = some i)
    (passed : ∀ j < k, (d.ht0.table.drop i)[j]? = some [])
    (found : (d.ht0.table.drop i)[k]? = some chain)
    : ∃ ht1,
        moveChain type chain d.ht1 = .ok ht1
        ∧ d.SameContents type
          { d with
            ht0 := { d.ht0 with
              table := d.ht0.table.set (i + k) []
              used := d.ht0.used - chain.length }
            ht1
            rehashidx := some (i + k + 1) } := by
  simp only [List.getElem?_drop] at passed found
  obtain ⟨full0, full1⟩ := wf.allocated rehashing
  obtain ⟨ht1, moved, ht1Wf, ht1Size, ht1Perm⟩ := moveChain_ok chain wf.ht1 full1
  have taken := flatten_set_perm found ([] : List (DictEntry K V))
  have counted : chain.length ≤ d.ht0.used := by
    have size := taken.length_eq
    rw [wf.ht0.used, Dictht.entries]
    simp only [List.length_append, List.nil_append] at size
    omega
  have perm
      : ((d.ht0.table.set (i + k) []).flatten ++ ht1.entries).Perm d.entries := by
    calc
      ((d.ht0.table.set (i + k) []).flatten ++ ht1.entries).Perm
          ((d.ht0.table.set (i + k) []).flatten ++ (chain ++ d.ht1.entries)) :=
        ht1Perm.append_left _
      ((d.ht0.table.set (i + k) []).flatten ++ (chain ++ d.ht1.entries)).Perm
          ((chain ++ (d.ht0.table.set (i + k) []).flatten) ++ d.ht1.entries) := by
        rw [← List.append_assoc]
        exact List.perm_append_comm.append_right _
      ((chain ++ (d.ht0.table.set (i + k) []).flatten) ++ d.ht1.entries).Perm
          (d.ht0.table.flatten ++ d.ht1.entries) := taken.append_right _
  refine ⟨ht1, moved, ⟨?_, perm, fun _ => full0, rfl⟩⟩
  exact {
    ht0 := wf.ht0.setChain [] _ found (by simp) (by simp; omega)
    ht1 := ht1Wf
    distinct := distinct_perm lawful perm.symm wf.distinct
    idle := by simp
    allocated := fun _ => ⟨full0, by simpa only [ht1Size] using full1⟩
    emptied := by
      intro limit j rest eq below present
      obtain rfl : i + k + 1 = limit := Option.some.inj eq
      by_cases last : j = i + k
      · subst last
        simp only [List.getElem?_set_self', Option.map_eq_map, Option.map_eq_some_iff] at present
        obtain ⟨_, _, rfl⟩ := present
        rfl
      · rw [List.getElem?_set_ne (by omega)] at present
        by_cases old : j < i
        · exact wf.emptied rehashing old present
        · have skipped := passed (j - i) (by omega)
          rw [Nat.add_sub_cancel' (by omega), present] at skipped
          exact Option.some.inj skipped
    room := perm.length_eq ▸ wf.room
  }

/-- The loop of `dictRehash` runs to its end from any well-formed rehashing state: the
assertion holds at every round, every bucket read is inside the array, and the entries are
only moved. Induction on the number of buckets still to be moved.
-/
theorem rehashLoop_ok (lawful : type.Lawful) (n emptyVisits i : Nat) (d : Dict K V)
    (wf : d.WellFormed type) (rehashing : d.rehashidx = some i)
    : ∃ ended next,
        rehashLoop type n emptyVisits i d = .ok (ended, next)
        ∧ d.SameContents type next
        ∧ next.rehashidx.isSome := by
  induction n generalizing emptyVisits i d with
  | zero => exact ⟨true, d, rfl, .refl wf, by simp [rehashing]⟩
  | succ n ih =>
      by_cases done : d.ht0.used = 0
      · exact ⟨true, d, by simp [rehashLoop, done], .refl wf, by simp [rehashing]⟩
      have inside := wf.rehashidx_lt rehashing done
      have left : ∃ chain ∈ d.ht0.table.drop i, chain ≠ [] := by
        by_contra none
        push Not at none
        refine done ?_
        rw [wf.ht0.used, List.length_eq_zero_iff]
        refine List.flatten_eq_nil_iff.mpr (fun chain member => ?_)
        rw [← List.take_append_drop i d.ht0.table, List.mem_append] at member
        rcases member with before | after
        · obtain ⟨j, found⟩ := List.mem_iff_getElem?.mp before
          have below : j < i := by
            have bound := (List.getElem?_eq_some_iff.mp found).1
            simp only [List.length_take] at bound
            omega
          rw [List.getElem?_take_of_lt below] at found
          exact wf.emptied rehashing below found
        · exact none chain after
      obtain ⟨k, passed, exhausted | ⟨chain, visits, _, found, read⟩⟩ :=
        skipEmpty_ok (d.ht0.table.drop i) i emptyVisits left
      · refine ⟨false, { d with rehashidx := some (i + k) }, ?_, ?_, rfl⟩
        · simp [rehashLoop, done, inside, exhausted]
        · refine ⟨{ wf with idle := by simp, allocated := ?_, emptied := ?_ }, .rfl, id, rfl⟩
          · exact fun _ => wf.allocated rehashing
          · intro limit j rest eq below present
            obtain rfl : i + k = limit := Option.some.inj eq
            by_cases old : j < i
            · exact wf.emptied rehashing old present
            · have skipped := passed (j - i) (by omega)
              rw [List.getElem?_drop, Nat.add_sub_cancel' (by omega)] at skipped
              exact Option.some.inj (present.symm.trans skipped)
      · obtain ⟨ht1, moved, same⟩ := wf.moveBucket lawful rehashing passed found
        obtain ⟨ended, next, run, tail, some⟩ := ih visits _ _ same.wellFormed rfl
        refine ⟨ended, next, ?_, same.trans tail, some⟩
        simp [rehashLoop, done, inside, read, moved, run]

theorem dictRehash_ok (lawful : type.Lawful) {d : Dict K V} (wf : d.WellFormed type)
    (n : Nat)
    : ∃ more next, dictRehash type d n = .ok (more, next) ∧ d.SameContents type next := by
  cases rehashing : d.rehashidx with
  | none => exact ⟨0, d, by simp [dictRehash, rehashing], .refl wf⟩
  | some i =>
      obtain ⟨ended, mid, run, same, some⟩ := rehashLoop_ok lawful n (n * 10) i d wf rehashing
      by_cases finished : (ended && mid.ht0.used == 0) = true
      · refine ⟨0, { mid with ht0 := mid.ht1, ht1 := dictReset, rehashidx := none }, ?_, ?_⟩
        · simp only [dictRehash, rehashing, run, ok_andThen, finished, if_true]
          rfl
        obtain ⟨j, at_j⟩ := Option.isSome_iff_exists.mp some
        have empty : mid.ht0.entries = [] := by
          simp only [Bool.and_eq_true, beq_iff_eq] at finished
          have zero := finished.2
          rw [same.wellFormed.ht0.used] at zero
          exact List.length_eq_zero_iff.mp zero
        have perm : (mid.ht1.entries ++ (dictReset : Dictht K V).entries).Perm mid.entries := by
          simp only [Dict.entries, empty]
          simp [dictReset, Dictht.entries]
        refine same.trans ⟨?_, perm, fun _ => (same.wellFormed.allocated at_j).2, rfl⟩
        exact {
          ht0 := same.wellFormed.ht1
          ht1 := wellFormed_dictReset type
          distinct := distinct_perm lawful perm.symm same.wellFormed.distinct
          idle := fun _ => rfl
          allocated := by simp
          emptied := by simp
          room := perm.length_eq.symm ▸ same.wellFormed.room
        }
      · refine ⟨1, mid, ?_, same⟩
        simp only [dictRehash, rehashing, run, ok_andThen, finished]
        rfl

theorem rehashIfNeeded_ok (lawful : type.Lawful) {d : Dict K V} (wf : d.WellFormed type)
    : ∃ next, rehashIfNeeded type d = .ok next ∧ d.SameContents type next := by
  obtain ⟨more, next, run, same⟩ := dictRehash_ok lawful wf 1
  by_cases rehashing : d.isRehashing = true
  · by_cases iterated : d.iterators = 0
    · exact ⟨next, by simp [rehashIfNeeded, rehashing, dictRehashStep, iterated, run], same⟩
    · exact ⟨d, by simp [rehashIfNeeded, rehashing, dictRehashStep, iterated], .refl wf⟩
  · exact ⟨d, by simp [rehashIfNeeded, rehashing], .refl wf⟩

end Rehash

end Redis
