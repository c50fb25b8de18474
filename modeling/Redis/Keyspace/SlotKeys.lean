import Redis.Keyspace.IndexConsistency

/-! The keys of a slot, as `slots_to_keys` gives, counts and deletes them. -/

namespace Redis.SideIndexes

open Redis.Library
open Redis.Keyspace (Sds)

section Slots

variable {slot : Nat} {lower own higher : List (Filed Sds)} {front back : List (Filed Sds)}
  {node : Filed Sds}

/-- The nodes of a slot, and those in front of them and behind them. -/
structure AroundSlot (slot : Nat) (lower own higher : List (Filed Sds)) : Prop where
  lower : ∀ node ∈ lower, node.group < slot
  own : ∀ node ∈ own, node.group = slot
  higher : ∀ node ∈ higher, slot < node.group

theorem firstInSlot_eq (around : AroundSlot slot lower own higher)
    : firstInSlot (lower ++ own ++ higher) slot = if own = [] then [] else own ++ higher := by
  have passed
      : (lower ++ own ++ higher).dropWhile (fun node => node.group < slot)
        = (own ++ higher).dropWhile fun node => node.group < slot := by
    rw [List.append_assoc]
    exact List.dropWhile_append_of_pos fun node member => by simpa using around.lower node member
  rw [firstInSlot, passed]
  cases own with
  | nil =>
      cases higher with
      | nil => rfl
      | cons node higher =>
          have above := around.higher node List.mem_cons_self
          have stays : ¬node.group < slot := by omega
          simp [stays, above]
  | cons node own =>
      have equal := around.own node List.mem_cons_self
      simp [equal]

theorem lastInSlot_eq (around : AroundSlot slot lower own higher)
    : lastInSlot (lower ++ own ++ higher) slot = own.getLast? := by
  have upTo
      : (lower ++ own ++ higher).takeWhile (fun node => node.group ≤ slot) = lower ++ own := by
    rw [List.takeWhile_append_of_pos]
    · have none : higher.takeWhile (fun node => node.group ≤ slot) = [] := by
        cases higher with
        | nil => rfl
        | cons node higher =>
            have above := around.higher node List.mem_cons_self
            simp [above]
      rw [none, List.append_nil]
    · intro node member
      rcases List.mem_append.mp member with below | inside
      · simpa using (around.lower node below).le
      · simpa using (around.own node inside).le
  rw [lastInSlot, upTo]
  rcases List.eq_nil_or_concat own with rfl | ⟨init, last, rfl⟩
  · rw [List.append_nil]
    cases final : lower.getLast? with
    | none => rfl
    | some node =>
        have below := around.lower node (List.mem_of_getLast? final)
        simp [below]
  · rw [List.concat_eq_append] at around ⊢
    have equal := around.own last (by simp)
    simp [← List.append_assoc, equal]

theorem slotRank_eq (absent : node ∉ front)
    : slotRank (front ++ node :: back) node = front.length + 1 := by
  rw [slotRank, if_pos (by simp), List.idxOf_append_of_notMem absent, List.idxOf_cons_self,
    Nat.add_zero]

theorem getKeysLoop_eq (own' : ∀ node ∈ own, node.group = slot)
    (higher' : ∀ node ∈ higher, slot < node.group) (count : Nat)
    : getKeysLoop slot count (own ++ higher) = (own.map Filed.member).take count := by
  induction own generalizing count with
  | nil =>
      rw [List.map_nil, List.take_nil]
      cases count with
      | zero => rfl
      | succ count =>
          cases higher with
          | nil => rfl
          | cons node higher =>
              have above := higher' node List.mem_cons_self
              rw [List.nil_append, getKeysLoop, if_neg (Nat.ne_of_gt above)]
  | cons node own ih =>
      cases count with
      | zero => rfl
      | succ count =>
          rw [List.cons_append, getKeysLoop, if_pos (own' node List.mem_cons_self),
            ih (fun other member => own' other (List.mem_cons_of_mem _ member))]
          rfl

theorem countKeysInSlot_eq {V : Type} {s : Server V}
    (index : s.slotsToKeys = lower ++ own ++ higher)
    (nodup : s.slotsToKeys.Nodup) (around : AroundSlot slot lower own higher)
    : countKeysInSlot s slot = UInt32.ofNat own.length := by
  rw [index] at nodup
  rw [countKeysInSlot, index, firstInSlot_eq around, lastInSlot_eq around]
  cases own with
  | nil => rfl
  | cons first rest =>
      obtain ⟨init, last, whole⟩ : ∃ init last, first :: rest = init ++ [last] :=
        ⟨_, _, (List.dropLast_append_getLast (List.cons_ne_nil first rest)).symm⟩
      have firstRank : slotRank (lower ++ first :: rest ++ higher) first = lower.length + 1 := by
        rw [List.append_assoc, List.cons_append] at nodup ⊢
        refine slotRank_eq fun member => ?_
        exact (List.nodup_cons.mp (List.nodup_middle.mp nodup)).1 (List.mem_append_left _ member)
      have lastRank
          : slotRank (lower ++ first :: rest ++ higher) last = lower.length + init.length + 1 := by
        have regroup : lower ++ first :: rest ++ higher = (lower ++ init) ++ last :: higher := by
          rw [whole]
          simp
        rw [regroup] at nodup ⊢
        rw [← List.length_append]
        refine slotRank_eq fun member => ?_
        exact (List.nodup_cons.mp (List.nodup_middle.mp nodup)).1 (List.mem_append_left _ member)
      have final : (first :: rest).getLast? = some last := by rw [whole, List.getLast?_concat]
      have length : (first :: rest).length = init.length + 1 := by rw [whole]; simp
      rw [if_neg (List.cons_ne_nil first rest), List.cons_append, final, length]
      dsimp only
      rw [firstRank, lastRank]
      simp only [UInt32.ofNat_add]
      grind

-- Deleting

variable {V : Type} {keyHashSlot : Sds → Nat} {s : Server V}

theorem forwardOf_eq (absent : node ∉ front)
    : forwardOf (front ++ node :: back) node = .ok back.head? := by
  have passed : (front ++ node :: back).dropWhile (· ≠ node) = node :: back := by
    rw [List.dropWhile_append_of_pos]
    · simp
    · intro other member
      simp only [ne_eq, decide_eq_true_eq]
      rintro rfl
      exact absent member
  rw [forwardOf, passed]

theorem dbDelete_node (indexed : Indexed keyHashSlot s) (enabled : s.clusterEnabled = true)
    (index : s.slotsToKeys = front ++ node :: back)
    : (dbDelete keyHashSlot s 0 node.member).1.slotsToKeys = front ++ back := by
  obtain ⟨present, group⟩ := (indexed.slots enabled node).mp (by rw [index]; simp)
  have sorted := indexed.sorted enabled
  have same : (⟨keyHashSlot node.member, node.member⟩ : Filed Sds) = node := by
    rw [← group]
  let db : RedisDb V :=
    ⟨Function.update (s.dbs 0).dict node.member none,
      Function.update (s.dbs 0).expires node.member none⟩
  have run
      : dbDelete keyHashSlot s 0 node.member
        = (if (s.setDb 0 db).clusterEnabled then slotToKeyDel keyHashSlot (s.setDb 0 db) node.member
            else s.setDb 0 db, true) :=
    if_pos (isSome_of_ne_none present)
  rw [run, if_pos (show (s.setDb 0 db).clusterEnabled = true from enabled), slotToKeyDel, same]
  change indexDelete node s.slotsToKeys = front ++ back
  rw [index] at sorted ⊢
  exact indexDelete_split sorted

theorem delKeysLoop_ok (indexed : Indexed keyHashSlot s) (enabled : s.clusterEnabled = true)
    (index : s.slotsToKeys = lower ++ own ++ higher) (own' : ∀ node ∈ own, node.group = slot)
    (higher' : ∀ node ∈ higher, slot < node.group) {rounds : Nat} (enough : own.length < rounds)
    (deleted : Nat)
    : ∃ next,
        delKeysLoop keyHashSlot slot rounds (own ++ higher).head? deleted s
          = .ok (next, deleted + own.length)
        ∧ Indexed keyHashSlot next
        ∧ SameSettings s next
        ∧ ∀ id key,
            lookupKey next id key
              = if id = 0 ∧ key ∈ own.map Filed.member then none else lookupKey s id key := by
  induction own generalizing s rounds deleted with
  | nil =>
      obtain ⟨rounds, rfl⟩ := Nat.exists_eq_add_one_of_ne_zero (Nat.ne_of_gt enough)
      refine ⟨s, ?_, indexed, .refl s, by simp⟩
      cases higher with
      | nil => rfl
      | cons node higher =>
          have nodup := (indexed.sorted enabled).nodup
          rw [index, List.append_nil] at nodup
          have absent : node ∉ lower := fun member =>
            (List.nodup_cons.mp (List.nodup_middle.mp nodup)).1 (List.mem_append_left _ member)
          have forward : forwardOf s.slotsToKeys node = .ok higher.head? := by
            rw [index, List.append_nil]
            exact forwardOf_eq absent
          have above := higher' node List.mem_cons_self
          rw [List.nil_append, List.head?_cons, delKeysLoop, forward, ok_andThen,
            if_pos (Nat.ne_of_gt above)]
          rfl
  | cons node own ih =>
      obtain ⟨rounds, rfl⟩ := Nat.exists_eq_add_one_of_ne_zero (Nat.ne_of_gt (Nat.lt_of_le_of_lt
        (Nat.zero_le _) enough))
      have regroup : s.slotsToKeys = lower ++ node :: (own ++ higher) := by
        rw [index, List.append_assoc, List.cons_append]
      have nodup := (indexed.sorted enabled).nodup
      rw [regroup] at nodup
      have absent : node ∉ lower := fun member =>
        (List.nodup_cons.mp (List.nodup_middle.mp nodup)).1 (List.mem_append_left _ member)
      have forward : forwardOf s.slotsToKeys node = .ok (own ++ higher).head? := by
        rw [regroup]
        exact forwardOf_eq absent
      have without := dbDelete_node indexed enabled regroup
      obtain ⟨middleIndexed, kept, lookups⟩ := dbDelete_ok indexed (fun _ => rfl) node.member
      have enabled' : (dbDelete keyHashSlot s 0 node.member).1.clusterEnabled = true := by
        rw [kept.clusterEnabled]
        exact enabled
      obtain ⟨next, run, nextIndexed, kept', lookups'⟩ :=
        ih middleIndexed enabled' (by rw [without, List.append_assoc])
          (fun other member => own' other (List.mem_cons_of_mem _ member))
          (show own.length < rounds by simpa using enough) (deleted + 1)
      refine ⟨next, ?_, nextIndexed, kept.trans kept', ?_⟩
      · rw [List.cons_append, List.head?_cons, delKeysLoop, forward, ok_andThen,
          if_neg (not_not.mpr (own' node List.mem_cons_self)), run, List.length_cons]
        congr 2
        omega
      · intro id key
        rw [lookups', lookups]
        simp only [List.map_cons, List.mem_cons]
        split_ifs <;> tauto

/-- What the three functions answer about a slot with these keys. -/
structure SlotAnswers (keyHashSlot : Sds → Nat) (s : Server V) (slot : Nat) (keys : List Sds)
    : Prop where
  nodup : keys.Nodup
  members : ∀ key, key ∈ keys ↔ lookupKey s 0 key ≠ none ∧ keyHashSlot key = slot
  get : ∀ count, getKeysInSlot s slot count = keys.take count
  count : countKeysInSlot s slot = UInt32.ofNat keys.length
  delete
    : ∃ next,
        delKeysInSlot keyHashSlot s slot = .ok (next, keys.length)
        ∧ Indexed keyHashSlot next
        ∧ SameSettings s next
        ∧ ∀ id key,
            lookupKey next id key = if id = 0 ∧ key ∈ keys then none else lookupKey s id key

/-- Consistent indexes give, count and delete the keys of a slot. -/
theorem Indexed.slotAnswers (indexed : Indexed keyHashSlot s) (enabled : s.clusterEnabled = true)
    (slot : Nat)
    : ∃ keys, SlotAnswers keyHashSlot s slot keys := by
  have sorted := indexed.sorted enabled
  obtain ⟨lower, own, higher, index, low, mid, high⟩ := sorted.groups slot
  have around : AroundSlot slot lower own higher := ⟨low, mid, high⟩
  have nodup := sorted.nodup
  refine ⟨own.map Filed.member, ?_, ?_, ?_, ?_, ?_⟩
  · have ownNodup : own.Nodup := by
      rw [index] at nodup
      exact nodup.sublist
        ((List.sublist_append_right lower own).trans (List.sublist_append_left _ higher))
    refine List.Nodup.map_on ?_ ownNodup
    rintro ⟨group, member⟩ first ⟨group', member'⟩ second same
    rw [Filed.mk.injEq]
    exact ⟨(mid _ first).trans (mid _ second).symm, same⟩
  · intro key
    constructor
    · intro inside
      obtain ⟨node, member, rfl⟩ := List.mem_map.mp inside
      obtain ⟨present, group⟩ := (indexed.slots enabled node).mp (by rw [index]; simp [member])
      exact ⟨present, group.symm.trans (mid node member)⟩
    · rintro ⟨present, group⟩
      have there : (⟨slot, key⟩ : Filed Sds) ∈ s.slotsToKeys :=
        (indexed.slots enabled _).mpr ⟨present, group.symm⟩
      rw [index, List.mem_append, List.mem_append] at there
      rcases there with (below | inside) | above
      · exact absurd (low _ below) (Nat.lt_irrefl _)
      · exact List.mem_map.mpr ⟨_, inside, rfl⟩
      · exact absurd (high _ above) (Nat.lt_irrefl _)
  · intro count
    rw [getKeysInSlot, index, firstInSlot_eq around]
    split
    · rename_i none
      rw [none]
      cases count <;> rfl
    · exact getKeysLoop_eq mid high count
  · rw [List.length_map]
    exact countKeysInSlot_eq index nodup around
  · have long : own.length < s.slotsToKeys.length + 1 := by
      rw [index]
      simp only [List.length_append]
      omega
    by_cases some : own = []
    · refine ⟨s, ?_, indexed, .refl s, by simp [some]⟩
      rw [delKeysInSlot, index, firstInSlot_eq around, if_pos some, some]
      rfl
    · obtain ⟨next, run, facts⟩ := delKeysLoop_ok indexed enabled index mid high long 0
      refine ⟨next, ?_, facts⟩
      rw [delKeysInSlot]
      rw [index] at run ⊢
      rw [firstInSlot_eq around, if_neg some, run, Nat.zero_add, List.length_map]

end Slots

end Redis.SideIndexes
