import Redis.Cluster.KeySlots
import Redis.Keyspace.SideIndexes
import Redis.SortedSet.SkiplistRuns

/-! The list `slots_to_keys` is what a skiplist holds at its level 0 when it is filled by the calls
of `slotToKeyAdd` and `slotToKeyDel`, with the slots of the keys as scores.
-/

namespace Redis.SideIndexes

open Redis.Library
open Redis.Keyspace (Sds)

/-- A pair of the list, as the skiplist orders it. -/
def slotKey (entry : Filed Sds) : Nat ×ₗ List UInt8 := toLex (entry.group, entry.member)

section Orders

variable {new old entry : Filed Sds} {index : List (Filed Sds)}

theorem before_iff_slotKey : entry.before new ↔ slotKey entry < slotKey new := by
  rw [slotKey, slotKey, Prod.Lex.toLex_lt_toLex, Filed.before]

theorem slotKey_injective : Function.Injective slotKey := by
  rintro ⟨group, member⟩ ⟨group', member'⟩ same
  obtain ⟨rfl, rfl⟩ := Prod.mk.inj (toLex.injective same)
  rfl

/-- An insertion into a sorted list splits it at the new pair. -/
theorem indexInsert_slotKey (sorted : IndexSorted index) (absent : new ∉ index)
    : (indexInsert new index).map slotKey
      = (index.map slotKey).filter (· < slotKey new)
        ++ slotKey new :: (index.map slotKey).filter (slotKey new < ·) := by
  induction index with
  | nil => rfl
  | cons first rest ih =>
      obtain ⟨ahead, sortedRest⟩ := List.pairwise_cons.mp sorted
      obtain ⟨other, absentRest⟩ := not_or.mp (mt List.mem_cons.mpr absent)
      rw [indexInsert]
      by_cases order : first.before new
      · have less := before_iff_slotKey.mp order
        rw [if_pos order, List.map_cons, ih sortedRest absentRest, List.map_cons,
          List.filter_cons_of_pos (by simpa using less),
          List.filter_cons_of_neg (by simpa using less.le), List.cons_append]
      · have greater : slotKey new < slotKey first :=
          lt_of_le_of_ne (not_lt.mp (mt before_iff_slotKey.mpr order)) (slotKey_injective.ne other)
        have above : ∀ key ∈ (first :: rest).map slotKey, slotKey new < key := by
          rintro _ member
          obtain ⟨entry, inside, rfl⟩ := List.mem_map.mp member
          rcases List.mem_cons.mp inside with rfl | behind
          · exact greater
          · exact greater.trans (before_iff_slotKey.mp (ahead entry behind))
        rw [if_neg order, List.filter_eq_nil_iff.mpr fun key member => by
            simpa using (above key member).le,
          List.filter_eq_self.mpr fun key member => by simpa using above key member]
        rfl

/-- A deletion from a sorted list leaves all other pairs. -/
theorem indexDelete_slotKey (sorted : IndexSorted index)
    : (indexDelete old index).map slotKey = (index.map slotKey).filter (· ≠ slotKey old) := by
  by_cases inside : old ∈ index
  · obtain ⟨front, back, rfl⟩ := List.append_of_mem inside
    have unique := sorted.nodup
    rw [List.nodup_middle, List.nodup_cons, List.mem_append, not_or] at unique
    have others : ∀ part : List (Filed Sds), old ∉ part →
        (part.map slotKey).filter (· ≠ slotKey old) = part.map slotKey := by
      intro part outside
      refine List.filter_eq_self.mpr fun key member => ?_
      obtain ⟨entry, there, rfl⟩ := List.mem_map.mp member
      have other : entry ≠ old := fun same => outside (same ▸ there)
      simpa using slotKey_injective.ne other
    rw [indexDelete_split sorted, List.map_append, List.map_append, List.map_cons,
      List.filter_append, List.filter_cons_of_neg (by simp), others front unique.1.1,
      others back unique.1.2]
  · rw [indexDelete_absent inside]
    refine (List.filter_eq_self.mpr fun key member => ?_).symm
    obtain ⟨entry, there, rfl⟩ := List.mem_map.mp member
    have other : entry ≠ old := fun same => inside (same ▸ there)
    simpa using slotKey_injective.ne other

end Orders

section Skiplist

variable {V : Type} {s : Server V} {zsl : Zskiplist Nat} {key : Sds}

/-- The list is what a skiplist holds. -/
def IndexedBy (s : Server V) (zsl : Zskiplist Nat) : Prop :=
  ∃ entries, ZslStands zsl (s.slotsToKeys.map slotKey) entries

/-- In a new server the list is that of a new skiplist. -/
theorem empty_indexedBy (dbnum : Nat) (dbnum_pos : 0 < dbnum) (clusterEnabled : Bool)
    : IndexedBy (Server.empty dbnum dbnum_pos clusterEnabled : Server V) zslCreate :=
  ⟨[], zslCreate_stands⟩

/-- `slotToKeyAdd` of a key that is new is `zslInsert` of its slot. -/
theorem slotToKeyAdd_skiplist (indexed : IndexedBy s zsl) (sorted : IndexSorted s.slotsToKeys)
    (absent : ∀ entry ∈ s.slotsToKeys, entry.member ≠ key)
    (room : s.slotsToKeys.length + 1 < 2 ^ 32) {level : Nat} (least : 0 < level)
    (most : level ≤ zskiplistMaxLevel)
    : ∃ next,
        zslInsert zsl level (Cluster.keyHashSlot key) key = .ok next
        ∧ IndexedBy (slotToKeyAdd Cluster.keyHashSlot s key) next := by
  obtain ⟨entries, stands⟩ := indexed
  have new : key ∉ (s.slotsToKeys.map slotKey).map fun key => (ofLex key).2 := by
    rw [List.map_map]
    intro member
    obtain ⟨entry, there, same⟩ := List.mem_map.mp member
    exact absent entry there same
  have fits
      : (ZslOp.insert level (Cluster.keyHashSlot key) key).Fits (s.slotsToKeys.map slotKey) :=
    ⟨least, most, new, by rw [List.length_map]; exact room⟩
  obtain ⟨next, entries', ran, stands'⟩ := stands.insert fits
  refine ⟨next, ran, entries', ?_⟩
  rw [slotToKeyAdd, indexInsert_slotKey sorted fun there => absent _ there rfl]
  exact stands'

/-- `slotToKeyDel` is `zslDelete` of the slot of the key. -/
theorem slotToKeyDel_skiplist (indexed : IndexedBy s zsl) (sorted : IndexSorted s.slotsToKeys)
    (key : Sds)
    : ∃ next deleted,
        zslDelete zsl (Cluster.keyHashSlot key) key = .ok (next, deleted)
        ∧ IndexedBy (slotToKeyDel Cluster.keyHashSlot s key) next := by
  obtain ⟨entries, stands⟩ := indexed
  obtain ⟨next, entries', ran, stands'⟩ := stands.delete (Cluster.keyHashSlot key) key
  obtain ⟨⟨after, deleted⟩, deletes, rest⟩ := andThen_ok_iff.mp ran
  obtain ⟨rfl, -⟩ := Prod.mk.inj (Except.ok.inj rest)
  refine ⟨after, deleted, deletes, entries', ?_⟩
  rw [slotToKeyDel, indexDelete_slotKey sorted]
  rwa [ZslOp.apply, List.partition_eq_filter_filter] at stands'

end Skiplist

end Redis.SideIndexes
