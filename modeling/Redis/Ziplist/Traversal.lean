import Redis.Ziplist.InsertionCorrectness

/-! Ziplists that are built by pushing to the tail, and that are read from the head to the end. -/

namespace Redis

open Redis.Library

-- Walking

/-- The loop of `ziplistLen`. -/
def ziplistLenLoop (zl : List UInt8) : (rounds : Nat) → (p len : Nat) → Except Fault Nat
  | 0, _, _ => .error .diverged
  | rounds + 1, p, len => do
      if (← readByte zl p) ≠ zipEnd then do
        let rawlen ← zipRawEntryLength zl p
        ziplistLenLoop zl rounds (p + rawlen) (len + 1)
      else pure len

/-- `ziplistLen`, which re-stores the length if it is small enough. -/
def ziplistLen (zl : List UInt8) : Except Fault (Nat × List UInt8) := do
  let field ← readBytes zl 8 2
  if leValue field < 2 ^ 16 - 1 then pure (leValue field, zl)
  else do
    let len ← ziplistLenLoop zl zl.length ziplistHeaderSize 0
    let zl ← (if len < 2 ^ 16 - 1 then writeBytes zl 8 (leBytes 2 len) else pure zl)
    pure (len, zl)

def ziplistNext (zl : List UInt8) (p : Nat) : Except Fault (Option Nat) := do
  if (← readByte zl p) = zipEnd then pure none
  else do
    let rawlen ← zipRawEntryLength zl p
    if (← readByte zl (p + rawlen)) = zipEnd then pure none else pure (some (p + rawlen))

/-- What an iterator meets: `ziplistGet`, which its users assert, and `ziplistNext`. -/
def ziplistIterate (zl : List UInt8)
    : (rounds : Nat) → (p : Option Nat) → Except Fault (List ZipValue)
  | 0, _ => .error .diverged
  | _ + 1, none => .ok []
  | rounds + 1, some p => do
      match ← ziplistGet zl p with
      | none => .error .assertion
      | some value => do
          let next ← ziplistNext zl p
          let values ← ziplistIterate zl rounds next
          pure (value :: values)

/-- The values of an iterator that starts at `ziplistIndex(zl,0)`. -/
def ziplistValues (zl : List UInt8) : Except Fault (List ZipValue) := do
  let first ← ziplistIndex zl 0
  ziplistIterate zl zl.length first

section Walking

variable {zl : List UInt8} {nodes before rest : List ZipNode} {node : ZipNode}
  {values : List (List UInt8)} {len : Nat}

theorem ZiplistOf.rawEntryLength (wellFormed : ZiplistOf zl (before ++ node :: rest))
    : zipRawEntryLength zl (10 + chainSize before) = .ok node.rawLength := by
  obtain ⟨len, rfl, _⟩ := wellFormed.block
  have word := wellFormed.word
  simp only [chainSize_append, chainSize] at word
  exact zipRawEntryLength_ok (nodesBlock_split len before rest node) (by simp)
    (linked_append.mp wellFormed.linked).2.1 (wellFormed.reads node (by simp)) (by omega)

theorem ZiplistOf.readByte_after (wellFormed : ZiplistOf zl (before ++ rest))
    : ∃ first, readByte zl (10 + chainSize before) = .ok first ∧ (first = zipEnd ↔ rest = []) := by
  obtain ⟨len, rfl, _⟩ := wellFormed.block
  cases rest with
  | nil =>
      rw [List.append_nil]
      exact ⟨zipEnd, readByte_end len before, by simp⟩
  | cons node rest =>
      obtain ⟨first, read, inside⟩ := readByte_entry len wellFormed.linked
      exact ⟨first, read, by simp [inside]⟩

theorem ziplistLenLoop_ok (rounds : Nat) (wellFormed : ZiplistOf zl (before ++ rest))
    (enough : rest.length < rounds) (len : Nat)
    : ziplistLenLoop zl rounds (10 + chainSize before) len = .ok (len + rest.length) := by
  induction rounds generalizing before rest len with
  | zero => exact absurd enough (Nat.not_lt_zero _)
  | succ rounds ih =>
      obtain ⟨first, read, last⟩ := wellFormed.readByte_after
      rw [ziplistLenLoop, read, ok_andThen]
      cases rest with
      | nil =>
          rw [if_neg (by simp [last.mpr rfl])]
          rfl
      | cons node rest =>
          have inside : first ≠ zipEnd := by simp [last]
          have shifted : ZiplistOf zl ((before ++ [node]) ++ rest) := by simpa using wellFormed
          have walked := ih shifted (Nat.lt_of_succ_lt_succ enough) (len + 1)
          rw [if_pos inside, wellFormed.rawEntryLength, ok_andThen, Nat.add_assoc]
          simp only [chainSize_append, chainSize] at walked
          rw [Nat.add_zero] at walked
          rw [walked, List.length_cons]
          congr 1
          omega

theorem ZiplistOf.length_lt (wellFormed : ZiplistOf zl nodes) : nodes.length < zl.length := by
  have few := two_mul_length_le wellFormed.reads
  obtain ⟨len, rfl, _⟩ := wellFormed.block
  simp [nodesBlock]
  omega

theorem ziplistLen_ok (holds : ZiplistHolds zl nodes values)
    : ∃ next, ziplistLen zl = .ok (values.length, next) ∧ ZiplistHolds next nodes values := by
  have count : nodes.length = values.length := by
    have lengths := congrArg List.length holds.texts
    simpa using lengths
  obtain ⟨len, block, counted, lenWord⟩ := holds.entries.block
  have field : readBytes zl 8 2 = .ok (leBytes 2 len) := by
    rw [block]
    exact readBytes_split
      (show _ = (leBytes 4 (11 + chainSize nodes) ++ leBytes 4 (10 + chainSize nodes.dropLast))
          ++ leBytes 2 len ++ (chainBytes 0 nodes ++ [zipEnd]) by simp [nodesBlock, ziplistBlock])
      (by simp) (by simp)
  have value : leValue (leBytes 2 len) = len := by
    rw [leValue_leBytes]
    exact Nat.mod_eq_of_lt (by omega)
  rw [ziplistLen, field, ok_andThen, value]
  split
  · rename_i small
    rcases counted with exact | full
    · exact ⟨zl, by rw [exact, count]; rfl, holds⟩
    · omega
  · have shape : ZiplistOf zl ([] ++ nodes) := holds.entries
    have walked := ziplistLenLoop_ok zl.length shape shape.length_lt 0
    rw [show ziplistHeaderSize = 10 + chainSize [] from rfl, walked, ok_andThen, Nat.zero_add,
      count]
    split
    · rename_i small
      have written : writeBytes zl 8 (leBytes 2 values.length)
          = .ok (nodesBlock values.length nodes) := by
        rw [block]
        exact writeBytes_split
          (show _ = (leBytes 4 (11 + chainSize nodes) ++ leBytes 4 (10 + chainSize nodes.dropLast))
              ++ leBytes 2 len ++ (chainBytes 0 nodes ++ [zipEnd]) by
                simp [nodesBlock, ziplistBlock])
          (by simp) (by simp)
      refine ⟨nodesBlock values.length nodes, by rw [written]; rfl, ⟨?_, holds.texts⟩⟩
      exact ⟨⟨values.length, rfl, .inl count.symm, by omega⟩, holds.entries.linked,
        holds.entries.word, holds.entries.valued⟩
    · exact ⟨zl, rfl, holds⟩

theorem ziplistNext_ok (wellFormed : ZiplistOf zl (before ++ node :: rest))
    : ziplistNext zl (10 + chainSize before)
      = .ok (if rest = [] then none else some (10 + chainSize (before ++ [node]))) := by
  obtain ⟨first, read, last⟩ := wellFormed.readByte_after
  have shifted : ZiplistOf zl ((before ++ [node]) ++ rest) := by simpa using wellFormed
  obtain ⟨second, readNext, lastNext⟩ := shifted.readByte_after
  have place : 10 + chainSize (before ++ [node]) = 10 + chainSize before + node.rawLength := by
    simp only [chainSize_append, chainSize]
    omega
  rw [place] at readNext ⊢
  rw [ziplistNext, read, ok_andThen, if_neg (by simp [last]), wellFormed.rawEntryLength, ok_andThen,
    readNext, ok_andThen]
  by_cases none : rest = []
  · rw [if_pos (lastNext.mpr none), if_pos none]
    rfl
  · rw [if_neg (fun atEnd => none (lastNext.mp atEnd)), if_neg none]
    rfl

theorem ziplistIterate_ok (rounds : Nat) (wellFormed : ZiplistOf zl (before ++ rest))
    (enough : rest.length < rounds)
    : ∃ entries,
        ziplistIterate zl rounds (if rest = [] then none else some (10 + chainSize before))
          = .ok entries
        ∧ entries.map ZipValue.text = rest.filterMap ZipNode.text := by
  induction rounds generalizing before rest with
  | zero => exact absurd enough (Nat.not_lt_zero _)
  | succ rounds ih =>
      cases rest with
      | nil => exact ⟨[], rfl, rfl⟩
      | cons node rest =>
          have shifted : ZiplistOf zl ((before ++ [node]) ++ rest) := by simpa using wellFormed
          obtain ⟨entries, walked, texts⟩ := ih shifted (Nat.lt_of_succ_lt_succ enough)
          obtain ⟨value, valued⟩ := Option.isSome_iff_exists.mp (wellFormed.valued node (by simp))
          have text : node.text = some value.text := by rw [ZipNode.text, valued]; rfl
          refine ⟨value :: entries, ?_, ?_⟩
          · rw [if_neg (List.cons_ne_nil _ _), ziplistIterate, ziplistGet_ok wellFormed, valued,
              ok_andThen]
            dsimp only
            rw [ziplistNext_ok wellFormed, ok_andThen, walked]
            rfl
          · rw [List.map_cons, texts, List.filterMap_cons_some text]

/-- Walking from the head gives the values in order. -/
theorem ziplistValues_ok (holds : ZiplistHolds zl nodes values)
    : ∃ entries, ziplistValues zl = .ok entries ∧ entries.map ZipValue.text = values := by
  have shape : ZiplistOf zl ([] ++ nodes) := holds.entries
  obtain ⟨entries, walked, texts⟩ := ziplistIterate_ok zl.length shape shape.length_lt
  have start : ziplistIndex zl 0
      = .ok (if nodes = [] then none else some (10 + chainSize [])) := by
    rw [ziplistIndex_ok holds.entries, positionOf]
    cases nodes with
    | nil => rfl
    | cons node rest =>
        simp only [Int32.toInt_zero, le_refl, if_true, List.length_cons, Nat.cast_add, Nat.cast_one]
        rw [if_pos (by omega)]
        rfl
  refine ⟨entries, by rw [ziplistValues, start, ok_andThen, walked], ?_⟩
  have all : nodes.filterMap ZipNode.text = (nodes.map ZipNode.text).filterMap id := by
    rw [List.filterMap_map]
    rfl
  rw [texts, all, holds.texts, List.filterMap_map]
  exact List.filterMap_some

end Walking

-- Pushing

/-- The entries that pushing strings to the tail makes, behind an entry of length `prev`. -/
def pushedNodes : (prev : Nat) → List (List UInt8) → List ZipNode
  | _, [] => []
  | prev, s :: rest => newNode prev s :: pushedNodes (newNode prev s).rawLength rest

section Pushing

variable {zl : List UInt8} {nodes : List ZipNode} {values : List (List UInt8)} {s : List UInt8}

/-- A ziplist to which these strings were pushed. -/
def Pushed (zl : List UInt8) (values : List (List UInt8)) : Prop :=
  ZiplistHolds zl (pushedNodes 0 values) values

theorem ziplistNew_pushed : Pushed ziplistNew [] :=
  ⟨⟨⟨0, rfl, .inl rfl, by decide⟩, trivial, by decide, by simp [pushedNodes]⟩, rfl⟩

end Pushing

end Redis
