import Redis.Ziplist.Encoding

/-! Deleting entries of a ziplist. -/

namespace Redis

open Redis.Library

section Skip

variable {block pre : List UInt8} {nodes : List ZipNode} {prev p : Nat}

theorem ziplistSkip_ok (num : Nat) (split : block = pre ++ chainBytes prev nodes ++ [zipEnd])
    (start : pre.length = p) (linked : Linked prev nodes) (reads : ∀ node ∈ nodes, node.Reads)
    (word : chainSize nodes < 2 ^ 32)
    : ziplistSkip block num p
      = .ok (p + chainSize (nodes.take num), (nodes.take num).length) := by
  induction num generalizing nodes pre prev p with
  | zero =>
      cases nodes with
      | nil =>
          simp [ziplistSkip, readByte_chain_nil split start, chainSize]
      | cons node rest =>
          obtain ⟨first, read, _⟩ := readByte_chain split start linked
          simp [ziplistSkip, read, chainSize]
  | succ num ih =>
      cases nodes with
      | nil =>
          rw [ziplistSkip, readByte_chain_nil split start, ok_andThen, if_pos rfl]
          rfl
      | cons node rest =>
          obtain ⟨first, read, inside⟩ := readByte_chain split start linked
          simp only [chainSize] at word
          have length :=
            zipRawEntryLength_chain split start linked (reads node (by simp)) (by omega)
          have others :=
            ih (chain_behind_first split) (p := p + node.rawLength)
              (by simp [start, ZipNode.rawLength]) linked.2
              (fun other member => reads other (by simp [member])) (by omega)
          rw [ziplistSkip, read, ok_andThen, if_neg inside, length, ok_andThen, others, ok_andThen]
          simp [chainSize, Nat.add_assoc]

end Skip

section CloseGap

variable {size tail len prev old : Nat} {front gap : List UInt8} {node : ZipNode}
  {rest : List ZipNode}

/-- Moving the surviving entries down over the deleted ones, with the new field of the first in
front of them. The field takes bytes of the deleted entries when it is larger than before.
-/
theorem ziplistCloseGap_ok (len : Nat) {tail' : Nat} (linked : Linked old (node :: rest))
    (reads : node.Reads) (prevWord : prev < 2 ^ 32)
    (sized : size = 11 + front.length + gap.length + chainSize (node :: rest))
    (word : size < 2 ^ 32) (tailWord : tail < 2 ^ 32)
    (room : fieldDiff prev node ≤ gap.length) (inside : 10 + front.length + gap.length ≤ tail)
    (tailed : (tail' : Int)
      = tail - gap.length + if rest = [] then 0 else fieldDiff prev node)
    (tailWord' : tail' < 2 ^ 32)
    : ∃ left,
        ziplistCloseGap
            (ziplistBlock size tail len (front ++ gap ++ chainBytes old (node :: rest) ++ [zipEnd]))
            (10 + front.length) (10 + front.length + gap.length) prev gap.length
          = .ok
              (ziplistBlock size tail' len
                (front
                ++ (prevField (!(prev < zipBigLen)) prev ++ node.body
                  ++ chainBytes node.rawLength rest)
                ++ left),
              fieldDiff prev node) := by
  obtain ⟨fitted, fittedEq⟩
      : ∃ fitted : ZipNode, fitted = { node with wide := !(prev < zipBigLen) } := ⟨_, rfl⟩
  have lengths := rawLength_refit prev node
  rw [← fittedEq] at lengths
  have fittedSize : fieldDiff prev node = (prevSize fitted.wide : Int) - prevSize node.wide := by
    rw [fittedEq, fieldDiff]
  -- The bytes up to the data of the first surviving entry, and those of them that its new
  -- field does not take.
  obtain ⟨spent, spentEq⟩ : ∃ spent, spent = gap ++ prevField node.wide old := ⟨_, rfl⟩
  have spentLength : spent.length = gap.length + prevSize node.wide := by simp [spentEq]
  obtain ⟨junk, junkEq⟩ : ∃ junk, junk = spent.take (spent.length - prevSize fitted.wide) :=
    ⟨_, rfl⟩
  obtain ⟨place, placeEq⟩ : ∃ place, place = spent.drop (spent.length - prevSize fitted.wide) :=
    ⟨_, rfl⟩
  have parts : spent = junk ++ place := by rw [junkEq, placeEq, List.take_append_drop]
  have junkLength : (junk.length : Int) = gap.length - fieldDiff prev node := by
    rw [junkEq, List.length_take]
    omega
  have placeLength : place.length = prevSize fitted.wide := by
    rw [placeEq, List.length_drop]
    omega
  have fieldAt
      : ziplistBlock size tail len (front ++ gap ++ chainBytes old (node :: rest) ++ [zipEnd])
        = ziplistBlock size tail len (front ++ gap) ++ prevField node.wide old
          ++ (node.body ++ chainBytes node.rawLength rest ++ [zipEnd]) := by
    simp [chainBytes, ziplistBlock_append]
  have start : (ziplistBlock size tail len (front ++ gap)).length
      = 10 + front.length + gap.length := by
    simp [Nat.add_assoc]
  obtain ⟨first, read, notEnd⟩ := readByte_prevField fieldAt start linked.1
  have diff
      : zipPrevLenByteDiff
          (ziplistBlock size tail len (front ++ gap ++ chainBytes old (node :: rest) ++ [zipEnd]))
          (10 + front.length + gap.length) prev
        = .ok (fieldDiff prev node) := by
    rw [zipPrevLenByteDiff, zipDecodePrevLenSize_ok fieldAt start linked.1, ok_andThen,
      zipPrevEncodeSize_eq]
    rfl
  have target : ((10 + front.length + gap.length : Nat) - fieldDiff prev node).toNat
      = 10 + (front ++ junk).length := by
    rw [List.length_append]
    omega
  have written
      : zipPrevEncodeLength
          (ziplistBlock size tail len (front ++ gap ++ chainBytes old (node :: rest) ++ [zipEnd]))
          (10 + (front ++ junk).length) prev
        = .ok (staleBlock size tail len (front ++ junk) prev fitted node.rawLength rest) := by
    have split
        : ziplistBlock size tail len (front ++ gap ++ chainBytes old (node :: rest) ++ [zipEnd])
          = ziplistBlock size tail len (front ++ junk) ++ place
            ++ (node.body ++ chainBytes node.rawLength rest ++ [zipEnd]) := by
      have same : gap
          ++ (prevField node.wide old
          ++ (node.body ++ (chainBytes node.rawLength rest ++ [zipEnd])))
          = junk ++ (place ++ (node.body ++ (chainBytes node.rawLength rest ++ [zipEnd]))) := by
        rw [← List.append_assoc, ← List.append_assoc junk, ← spentEq, ← parts]
      simp only [chainBytes, ziplistBlock_append, List.append_assoc, same]
    rw [zipPrevEncodeLength_eq,
      writeBytes_split split (by simp) (by simp [placeLength, fittedEq])]
    simp [staleBlock, fittedEq, ziplistBlock_append]
  have nodeWord : node.rawLength ≤ chainSize (node :: rest) := by simp [chainSize]
  have fittedFits : fitted.wide = false → prev < zipBigLen := by
    intro narrow
    simpa [fittedEq] using narrow
  have adjusted
      : ziplistAdjustTail
          (staleBlock size (tail - gap.length) len (front ++ junk) prev fitted node.rawLength rest)
          (10 + (front ++ junk).length) (fieldDiff prev node)
        = .ok (staleBlock size tail' len (front ++ junk) prev fitted node.rawLength rest) := by
    refine ziplistAdjustTail_ok fittedFits prevWord ?_ (by rw [fittedEq]; exact reads) linked.2
      (by omega) (fun last => ?_) (fun inner => ?_)
    · omega
    · simp only [last, if_true] at tailed
      omega
    · rw [if_neg inner] at tailed
      omega
  obtain ⟨kept, keptEq⟩
      : ∃ kept,
          kept = prevField fitted.wide prev ++ node.body ++ chainBytes node.rawLength rest :=
    ⟨_, rfl⟩
  have keptLength : kept.length = size - (10 + (front ++ junk).length) - 1 := by
    have raw : fitted.rawLength = prevSize fitted.wide + node.body.length := by
      rw [fittedEq]
      rfl
    simp only [chainSize] at sized
    simp only [keptEq, List.length_append, length_prevField, length_chainBytes]
    omega
  have block
      : staleBlock size tail' len (front ++ junk) prev fitted node.rawLength rest
        = ziplistBlock size tail' len (front ++ junk) ++ kept ++ [zipEnd] := by
    simp [staleBlock, keptEq, fittedEq, ziplistBlock_append]
  have moved
      : moveBytes (staleBlock size tail' len (front ++ junk) prev fitted node.rawLength rest)
          (10 + front.length) (10 + (front ++ junk).length)
          (size - (10 + (front ++ junk).length) - 1)
        = .ok (ziplistBlock size tail' len
            (front ++ kept ++ ((junk ++ kept).drop kept.length ++ [zipEnd]))) := by
    have target
        : staleBlock size tail' len (front ++ junk) prev fitted node.rawLength rest
          = ziplistBlock size tail' len front ++ (junk ++ kept).take kept.length
            ++ ((junk ++ kept).drop kept.length ++ [zipEnd]) := by
      rw [block, List.append_assoc _ ((junk ++ kept).take kept.length), ← List.append_assoc
        ((junk ++ kept).take kept.length), List.take_append_drop]
      simp [ziplistBlock_append]
    rw [← keptLength, moveBytes_split block (by simp) rfl target (by simp) (by simp)]
    simp [ziplistBlock_append]
  refine ⟨(junk ++ kept).drop kept.length ++ [zipEnd], ?_⟩
  rw [ziplistCloseGap, read, ok_andThen, if_pos notEnd, diff, ok_andThen, target]
  dsimp only
  have tailRead
      : ziplistTailOffset (staleBlock size tail len (front ++ junk) prev fitted node.rawLength rest)
        = .ok tail := ziplistTailOffset_block tailWord
  have tailSet
      : setTailOffset (staleBlock size tail len (front ++ junk) prev fitted node.rawLength rest)
          (tail - gap.length)
        = .ok (staleBlock size (tail - gap.length) len (front ++ junk) prev fitted node.rawLength
            rest) :=
    setTailOffset_block (by omega)
  have sizeRead
      : ziplistBytes (staleBlock size tail' len (front ++ junk) prev fitted node.rawLength rest)
        = .ok size := ziplistBytes_block word
  rw [written, ok_andThen, tailRead, ok_andThen, tailSet, ok_andThen, adjusted, ok_andThen,
    sizeRead, ok_andThen, moved, ok_andThen, keptEq, fittedEq]
  rfl

end CloseGap

section Deletion

variable {before gone after rest : List ZipNode} {node : ZipNode} {prev : Nat}

theorem fieldDiff_le_gone (some : gone ≠ []) (linked : Linked prev gone)
    : fieldDiff prev node ≤ chainSize gone := by
  cases gone with
  | nil => exact absurd rfl some
  | cons first others =>
      rcases fieldDiff_cases prev node with less | same | more
      · omega
      · omega
      · have large : ¬ prev < zipBigLen := by
          intro small
          simp only [fieldDiff, small, decide_true, Bool.not_true] at more
          have positive := prevSize_pos node.wide
          simp only [prevSize, Bool.false_eq_true, if_false] at more positive
          omega
        have wide : first.wide = true := by
          by_contra narrow
          exact large (linked.1 (by simpa using narrow))
        simp only [chainSize, ZipNode.rawLength, wide, prevSize, if_true]
        omega

/-- How a deletion ends: with the entries gone, or with a fault when the fields that have to be
widened make the block outgrow 32 bits.
-/
def DeletionEnds (run : Except Fault (List UInt8)) (before after : List ZipNode) : Prop :=
  let nodes := before ++ relink (lastLength 0 before) after
  (11 + chainSize nodes < 2 ^ 32
    ∧ ∃ len,
        run = .ok (nodesBlock len nodes)
        ∧ (len = nodes.length ∨ len = 2 ^ 16 - 1)
        ∧ len ≤ 2 ^ 16 - 1)
  ∨ ((∃ fault, run = .error fault) ∧ 2 ^ 32 ≤ 11 + chainSize nodes)

theorem CascadeEnds.deletionEnds {run : Except Fault (List UInt8)} {len : Nat}
    (ends : CascadeEnds run len (chainBytes 0 before) (lastLength 0 before)
      { node with wide := !(lastLength 0 before < zipBigLen) } rest)
    (reads : ∀ other ∈ node :: rest, other.Reads)
    (counted : len = (before ++ node :: rest).length ∨ len = 2 ^ 16 - 1)
    (lenWord : len ≤ 2 ^ 16 - 1)
    : DeletionEnds run before (node :: rest) := by
  obtain ⟨fitted, fittedEq⟩
      : ∃ fitted : ZipNode, fitted = { node with wide := !(lastLength 0 before < zipBigLen) } :=
    ⟨_, rfl⟩
  obtain ⟨others, othersEq⟩ : ∃ others, others = widen fitted.rawLength rest := ⟨_, rfl⟩
  have relinked : relink (lastLength 0 before) (node :: rest) = fitted :: others := by
    rw [relink, othersEq, fittedEq]
  have sizes
      : 11 + chainSize before + chainSize (fitted :: others)
        = 11 + chainSize (before ++ fitted :: others) := by
    rw [chainSize_append, Nat.add_assoc]
  have tails
      : 10 + chainSize before + chainSize (fitted :: others).dropLast
        = 10 + chainSize (before ++ fitted :: others).dropLast := by
    rw [dropLast_append_cons, chainSize_append, Nat.add_assoc]
  unfold CascadeEnds at ends
  unfold DeletionEnds
  rw [← fittedEq] at ends
  simp only [length_chainBytes, relinked, ← othersEq, sizes, tails] at ends ⊢
  rcases ends with ⟨word, ok⟩ | ⟨failed, large | ⟨other, member, bad⟩⟩
  · refine Or.inl ⟨word, len, ?_, ?_, lenWord⟩
    · rw [ok, staleBlock_eq_nodesBlock rfl rfl]
    · simpa [othersEq] using counted
  · exact Or.inr ⟨failed, large⟩
  · refine absurd ?_ bad
    rcases List.mem_cons.mp member with rfl | old
    · rw [fittedEq]
      exact reads node (by simp)
    · exact reads other (by simp [old])

variable {len num : Nat}

theorem ziplistDeleteAt_ends (fresh : Nat → UInt8) (some : gone ≠ [])
    (linked : Linked 0 (before ++ gone ++ after))
    (reads : ∀ node ∈ before ++ gone ++ after, node.Reads)
    (word : 11 + chainSize (before ++ gone ++ after) < 2 ^ 32)
    (counted : len = (before ++ gone ++ after).length ∨ len = 2 ^ 16 - 1)
    (lenWord : len ≤ 2 ^ 16 - 1) (taken : (gone ++ after).take num = gone)
    : DeletionEnds
        (ziplistDeleteAt fresh (nodesBlock len (before ++ gone ++ after)) (10 + chainSize before)
          num)
        before after := by
  obtain ⟨prev, prevEq⟩ : ∃ prev, prev = lastLength 0 before := ⟨_, rfl⟩
  rw [List.append_assoc, linked_append, ← prevEq] at linked
  obtain ⟨linkedBefore, linkedRest⟩ := linked
  obtain ⟨linkedGone, linkedAfter⟩ := linked_append.mp linkedRest
  obtain ⟨size, sized⟩ : ∃ size, size = 11 + chainSize (before ++ gone ++ after) := ⟨_, rfl⟩
  obtain ⟨tail, tailed⟩ : ∃ tail, tail = 10 + chainSize (before ++ gone ++ after).dropLast :=
    ⟨_, rfl⟩
  obtain ⟨front, frontEq⟩ : ∃ front, front = chainBytes 0 before := ⟨_, rfl⟩
  obtain ⟨gap, gapEq⟩ : ∃ gap, gap = chainBytes prev gone := ⟨_, rfl⟩
  have frontLength : front.length = chainSize before := by simp [frontEq]
  have gapLength : gap.length = chainSize gone := by simp [gapEq]
  have prevWord : prev < 2 ^ 32 := by
    have bound := lastLength_le 0 before
    simp only [chainSize_append] at word
    omega
  have block
      : nodesBlock len (before ++ gone ++ after)
        = ziplistBlock size tail len
            (front ++ gap ++ chainBytes (lastLength prev gone) after ++ [zipEnd]) := by
    simp [nodesBlock, sized, tailed, chainBytes_append, frontEq, gapEq, prevEq]
  have skipped
      : ziplistSkip (nodesBlock len (before ++ gone ++ after)) num (10 + front.length)
        = .ok (10 + front.length + gap.length, gone.length) := by
    have split
        : nodesBlock len (before ++ gone ++ after)
          = ziplistBlock size tail len front ++ chainBytes prev (gone ++ after) ++ [zipEnd] := by
      rw [block, gapEq]
      simp [chainBytes_append, ziplistBlock_append]
    rw [List.append_assoc, chainSize_append] at word
    rw [ziplistSkip_ok num split (by simp) linkedRest (fun node member => reads node (by
      rw [List.append_assoc]
      exact List.mem_append_right _ member)) (by omega), taken, gapLength]
  obtain ⟨entry, atFirst, value⟩
      : ∃ entry,
          zipEntry (nodesBlock len (before ++ gone ++ after)) (10 + front.length) = .ok entry
          ∧ entry.prevrawlen = prev := by
    cases gone with
    | nil => exact absurd rfl some
    | cons first others =>
        have split
            : nodesBlock len (before ++ first :: others ++ after)
              = ziplistBlock size tail len front ++ (prevField first.wide prev ++ first.body)
                ++ (chainBytes first.rawLength others
                  ++ chainBytes (lastLength prev (first :: others)) after ++ [zipEnd]) := by
          rw [block, gapEq]
          simp [chainBytes, ziplistBlock_append]
        have firstWord : first.rawLength < 2 ^ 32 := by
          simp only [chainSize_append, chainSize] at word
          omega
        obtain ⟨entry, read, _, value, _⟩ :=
          zipEntry_ok split (p := 10 + front.length) (by simp) linkedGone.1 prevWord
            (reads first (by simp)) firstWord
        exact ⟨entry, read, value⟩
  have positive : 0 < gap.length := by
    have few := length_le_chainSize gone
    have nonempty := List.length_pos_of_ne_nil some
    omega
  have totlen : (10 + front.length + gap.length - (10 + front.length)) % 2 ^ 32 = gap.length := by
    simp only [chainSize_append] at word
    rw [Nat.add_sub_cancel_left]
    exact Nat.mod_eq_of_lt (by omega)
  rw [ziplistDeleteAt, ← frontLength, atFirst, ok_andThen, skipped, ok_andThen]
  dsimp only
  rw [totlen, if_pos positive, value, block]
  cases after with
  | nil =>
      have atEnd
          : readByte (ziplistBlock size tail len
              (front ++ gap ++ chainBytes (lastLength prev gone) [] ++ [zipEnd]))
              (10 + front.length + gap.length)
            = .ok zipEnd := by
        have split
            : ziplistBlock size tail len
                (front ++ gap ++ chainBytes (lastLength prev gone) [] ++ [zipEnd])
              = ziplistBlock size tail len (front ++ gap) ++ zipEnd :: [] := by
          simp [chainBytes, ziplistBlock_append]
        exact readByte_split split (by simp [Nat.add_assoc])
      have lastStart := lastLength_zero before
      simp only [chainSize_append, chainSize] at sized word
      obtain ⟨tail', tailEq⟩ : ∃ tail', tail' = 10 + chainSize before.dropLast := ⟨_, rfl⟩
      have tailSet
          : setTailOffset (ziplistBlock size tail len
              (front ++ gap ++ chainBytes (lastLength prev gone) [] ++ [zipEnd]))
              ((10 + front.length : Nat) - prev)
            = .ok (ziplistBlock size tail' len
                (front ++ gap ++ chainBytes (lastLength prev gone) [] ++ [zipEnd])) :=
        setTailOffset_block (by omega)
      have cut
          : (((size : Int) - gap.length + 0) % 2 ^ 32).toNat = front.length + 11 := by
        omega
      have fewer : (before.length : Int)
          = (before ++ gone ++ []).length + -(gone.length : Int) := by
        simp
      obtain ⟨len', counted', exact', small'⟩ :=
        ziplistIncrLength_block (front.length + 11) tail' (front ++ [zipEnd]) fewer
          (by simp only [List.length_append] at counted; omega) counted lenWord
      refine Or.inl ⟨?_, len', ?_, ?_, small'⟩
      · simp only [relink, List.append_nil]
        omega
      · rw [ziplistCloseGap, atEnd, ok_andThen, if_neg (by simp), tailSet, ok_andThen]
        rw [pure_bind]
        dsimp only
        rw [ziplistBytes_block (by omega), ok_andThen, cut, List.append_assoc, List.append_assoc,
          ziplistResize_cut fresh rfl (by omega), ok_andThen, counted', ok_andThen,
            if_neg (by simp)]
        simp [relink, nodesBlock, tailEq, frontEq, Nat.add_comm]
      · simpa [relink] using exact'
  | cons node rest =>
      obtain ⟨fitted, fittedEq⟩
          : ∃ fitted : ZipNode, fitted = { node with wide := !(prev < zipBigLen) } := ⟨_, rfl⟩
      have lengths := rawLength_refit prev node
      rw [← fittedEq] at lengths
      have room : fieldDiff prev node ≤ gap.length := by
        rw [gapLength]
        exact fieldDiff_le_gone some linkedGone
      obtain ⟨size', sizeEq⟩ : ∃ size', size' = 11 + front.length + chainSize (fitted :: rest) :=
        ⟨_, rfl⟩
      obtain ⟨tail', tailEq⟩
          : ∃ tail', tail' = 10 + front.length + chainSize (fitted :: rest).dropLast := ⟨_, rfl⟩
      rw [dropLast_append_cons] at tailed
      have lastBefore := chainSize_dropLast_lt (List.cons_ne_nil node rest)
      have lastAfter := chainSize_dropLast_lt (List.cons_ne_nil fitted rest)
      simp only [chainSize_append] at sized word tailed
      have tailMoves
          : (tail' : Int) = tail - gap.length + if rest = [] then 0 else fieldDiff prev node := by
        cases rest with
        | nil =>
            simp only [List.dropLast_singleton, chainSize, if_true] at tailEq tailed ⊢
            omega
        | cons second others =>
            simp only [List.dropLast_cons_cons, chainSize, reduceCtorEq, if_false]
              at tailEq tailed ⊢
            omega
      have sizeMoves : (size' : Int) = size - gap.length + fieldDiff prev node := by
        simp only [chainSize] at sizeEq sized
        omega
      have oldSize : size = 11 + front.length + gap.length + chainSize (node :: rest) := by omega
      obtain ⟨left, closed⟩ :=
        ziplistCloseGap_ok len linkedAfter (reads node (by simp)) prevWord oldSize (by omega)
          (show tail < 2 ^ 32 by omega) room (by omega) tailMoves (by omega)
      have fewer
          : ((before ++ node :: rest).length : Int)
            = (before ++ gone ++ node :: rest).length + -(gone.length : Int) := by
        simp only [List.length_append]
        push_cast
        omega
      obtain ⟨len', counted', exact', small'⟩ :=
        ziplistIncrLength_block size' tail'
          (front ++ (prevField (!(prev < zipBigLen)) prev ++ node.body
            ++ chainBytes node.rawLength rest) ++ [zipEnd])
          fewer (by simp only [List.length_append] at counted ⊢; omega) counted lenWord
      have reduced : (((size : Int) - gap.length + fieldDiff prev node) % 2 ^ 32).toNat
          = size' := by
        omega
      have stale : Stale size' tail' front prev fitted node.rawLength rest := by
        refine ⟨sizeEq, by omega, tailEq, ?_, prevWord, linkedAfter.2, ?_, ?_⟩
        · intro narrow
          simpa [fittedEq] using narrow
        · simp only [chainSize] at word
          omega
        · rw [fittedEq]
          exact Readable.any_field (Readable.of_reads fun other member => reads other (by
            rw [List.append_assoc]
            exact List.mem_append_right _ (List.mem_append_right _ member))) _
      have cut
          : (front ++ (prevField (!(prev < zipBigLen)) prev ++ node.body
              ++ chainBytes node.rawLength rest)).length + 11
            = size' := by
        have raw : fitted.rawLength = prevSize (!(prev < zipBigLen)) + node.body.length := by
          rw [fittedEq]
          rfl
        simp only [chainSize] at sizeEq
        simp only [List.length_append, length_prevField, length_chainBytes]
        omega
      have block'
          : ziplistBlock size' tail' len'
              (front ++ (prevField (!(prev < zipBigLen)) prev ++ node.body
                ++ chainBytes node.rawLength rest) ++ [zipEnd])
            = staleBlock size' tail' len' front prev fitted node.rawLength rest := by
        simp [staleBlock, fittedEq]
      rw [closed, ok_andThen]
      dsimp only
      rw [ziplistBytes_block (by omega), ok_andThen, reduced,
        ziplistResize_cut fresh cut stale.word, ok_andThen, counted', ok_andThen, block', fittedEq]
      rw [fittedEq] at stale
      have settled := relink_settles len' fresh stale
      rw [frontEq, prevEq] at settled ⊢
      refine settled.deletionEnds (fun other member => reads other ?_) exact' small'
      rw [List.append_assoc]
      exact List.mem_append_right _ (List.mem_append_right _ member)

end Deletion

-- Correctness

def deleteNodes (nodes : List ZipNode) (index num : Nat) : List ZipNode :=
  nodes.take index ++ relink (lastLength 0 (nodes.take index)) (nodes.drop (index + num))

section Correctness

variable {zl : List UInt8} {nodes : List ZipNode} {values : List (List UInt8)}
  {index num : Nat}

theorem texts_deleteNodes (texts : nodes.map ZipNode.text = values.map some) (index num : Nat)
    : (deleteNodes nodes index num).map ZipNode.text
      = (values.take index ++ values.drop (index + num)).map some := by
  rw [deleteNodes, List.map_append, map_text_eq (map_body_relink _ _), List.map_take, List.map_drop,
    texts, ← List.map_take, ← List.map_drop, ← List.map_append]

theorem linked_deleteNodes (linked : Linked 0 nodes) : Linked 0 (deleteNodes nodes index num) := by
  rw [deleteNodes, linked_append]
  refine ⟨?_, linked_relink _ _⟩
  rw [← List.take_append_drop index nodes, linked_append] at linked
  exact linked.1

theorem ziplistDeleteAt_cases (fresh : Nat → UInt8) (holds : ZiplistHolds zl nodes values)
    (inside : index < nodes.length) (positive : 1 ≤ num)
    : (11 + chainSize (deleteNodes nodes index num) < 2 ^ 32
        ∧ ∃ next,
            ziplistDeleteAt fresh zl (entryOffset nodes index) num = .ok next
            ∧ ZiplistHolds next (deleteNodes nodes index num)
                (values.take index ++ values.drop (index + num)))
      ∨ (2 ^ 32 ≤ 11 + chainSize (deleteNodes nodes index num)
        ∧ ∃ fault, ziplistDeleteAt fresh zl (entryOffset nodes index) num = .error fault) := by
  obtain ⟨len, rfl, counted, lenWord⟩ := holds.entries.block
  have parts
      : nodes
        = nodes.take index ++ (nodes.drop index).take num ++ nodes.drop (index + num) := by
    rw [← List.drop_drop, List.append_assoc, List.take_append_drop, List.take_append_drop]
  have some : (nodes.drop index).take num ≠ [] := by
    intro none
    have length := congrArg List.length none
    simp only [List.length_take, List.length_drop, List.length_nil] at length
    omega
  have taken
      : ((nodes.drop index).take num ++ nodes.drop (index + num)).take num
        = (nodes.drop index).take num := by
    rw [← List.drop_drop, List.take_append_drop]
  have linked := holds.entries.linked
  have reads := holds.entries.reads
  have word := holds.entries.word
  have ends :=
    ziplistDeleteAt_ends fresh some (by rwa [← parts]) (by rwa [← parts])
      (by rwa [← parts]) (by rwa [← parts]) lenWord taken
  rw [← parts] at ends
  rcases ends with ⟨small, len', run, counted', lenWord'⟩ | ⟨failed, large⟩
  · have texts := texts_deleteNodes holds.texts index num
    exact Or.inl ⟨small, _, run, ⟨⟨len', rfl, counted', lenWord'⟩, linked_deleteNodes linked, small,
      valued_of_texts texts⟩, texts⟩
  · exact Or.inr ⟨large, failed⟩

/-- A run leaves a well-formed ziplist of the values without those deleted, in which the entry
after the deleted ones, or the end byte, is at `p`.
-/
def Deleted (run : Except Fault (List UInt8)) (values : List (List UInt8)) (index num p : Nat)
    : Prop :=
  ∃ next nodes,
    run = .ok next
    ∧ ZiplistHolds next nodes (values.take index ++ values.drop (index + num))
    ∧ p = entryOffset nodes index

/-- What is asked of a deletion at an entry, for any bytes that the allocator may return. -/
structure DeletionCorrect (zl : List UInt8) (nodes : List ZipNode)
    (values : List (List UInt8)) (index num : Nat)
    : Prop where
  deleteAt : ∀ fresh,
    Deleted (ziplistDeleteAt fresh zl (entryOffset nodes index) num) values index num
      (entryOffset nodes index)
  /-- The bytes that a larger field takes in front of the surviving entry are deleted ones. -/
  room : ∀ node,
    nodes[index + num]? = some node
    → fieldDiff (lastLength 0 (nodes.take index)) node ≤ chainSize ((nodes.drop index).take num)
  delete : ∀ fresh,
    num = 1
    → ∃ p next,
        ziplistDelete fresh zl (entryOffset nodes index) = .ok (next, p)
        ∧ Deleted (.ok next) values index 1 p
  deleteRange : ∀ fresh (start count : UInt32),
    positionOf nodes.length start.toInt32.toInt = some index
    → count.toNat = num
    → Deleted (ziplistDeleteRange fresh zl start count) values index num (entryOffset nodes index)

theorem take_deleteNodes (inside : index < nodes.length)
    : entryOffset (deleteNodes nodes index num) index = entryOffset nodes index := by
  have length : (nodes.take index).length = index := by
    rw [List.length_take]
    omega
  rw [entryOffset, entryOffset, deleteNodes, List.take_append_of_le_length (by omega),
    List.take_of_length_le (by omega)]

theorem room_for_field (linked : Linked 0 nodes) (inside : index < nodes.length)
    (positive : 1 ≤ num) (node : ZipNode)
    : fieldDiff (lastLength 0 (nodes.take index)) node
      ≤ chainSize ((nodes.drop index).take num) := by
  have parts
      : nodes
        = nodes.take index ++ ((nodes.drop index).take num ++ (nodes.drop index).drop num) := by
    rw [List.take_append_drop, List.take_append_drop]
  rw [parts, linked_append, linked_append] at linked
  refine fieldDiff_le_gone (fun none => ?_) linked.2.1
  have length := congrArg List.length none
  simp only [List.length_take, List.length_drop, List.length_nil] at length
  omega

/-- Deleting entries is correct exactly when what is left fits in 32 bits, with the fields that
have to be widened.
-/
theorem ziplist_deletion_correct (holds : ZiplistHolds zl nodes values)
    (inside : index < nodes.length) (positive : 1 ≤ num)
    : DeletionCorrect zl nodes values index num
      ↔ 11 + chainSize (deleteNodes nodes index num) < 2 ^ 32 := by
  constructor
  · intro correct
    obtain ⟨next, left, run, _⟩ := correct.deleteAt (fun _ => 0)
    rcases ziplistDeleteAt_cases (fun _ => 0) holds inside positive with
      ⟨small, _⟩ | ⟨_, fault, failed⟩
    · exact small
    · cases run.symm.trans failed
  · intro small
    have deleted (fresh : Nat → UInt8)
        : Deleted (ziplistDeleteAt fresh zl (entryOffset nodes index) num) values index num
            (entryOffset nodes index) := by
      rcases ziplistDeleteAt_cases fresh holds inside positive with
        ⟨_, next, run, left⟩ | ⟨large, _⟩
      · exact ⟨next, _, run, left, (take_deleteNodes inside).symm⟩
      · omega
    refine ⟨deleted, fun node _ => room_for_field holds.entries.linked inside positive node, ?_, ?_⟩
    · rintro fresh rfl
      obtain ⟨next, left, run, rest⟩ := deleted fresh
      refine ⟨entryOffset nodes index, next, ?_, next, left, rfl, rest⟩
      rw [ziplistDelete, run]
      rfl
    · rintro fresh start count position rfl
      obtain ⟨next, left, run, rest⟩ := deleted fresh
      refine ⟨next, left, ?_, rest⟩
      rw [ziplistDeleteRange, ziplistIndex_ok holds.entries, ok_andThen, position]
      exact run

/-- A list of the strings `a` and `5`. -/
def pairNodes : List ZipNode := [⟨false, zipBody [0x61]⟩, ⟨false, zipBody [0x35]⟩]

theorem ziplist_deletion_correct_pair
    : DeletionCorrect (nodesBlock 2 pairNodes) pairNodes [[0x61], [0x35]] 0 1 := by
  have texts : pairNodes.map ZipNode.text = [[0x61], [0x35]].map some :=
    texts_of_bodies rfl (by decide)
  have holds : ZiplistHolds (nodesBlock 2 pairNodes) pairNodes [[0x61], [0x35]] := by
    refine ⟨⟨⟨2, rfl, by decide, by decide⟩, ?_, by decide, valued_of_texts texts⟩, texts⟩
    exact ⟨fun _ => by decide, fun _ => by decide, trivial⟩
  exact (ziplist_deletion_correct holds (by decide) (by decide)).mpr (by decide)

-- A list that outgrows its size field

theorem cascade_replicate {n : Nat} (prev : Nat) {node : ZipNode} (narrow : node.wide = false)
    (length : node.rawLength = 253)
    : chainSize (List.replicate n node) = n * 253
      ∧ (prev < zipBigLen → Linked prev (List.replicate n node))
      ∧ (¬ prev < zipBigLen → chainSize (widen prev (List.replicate n node)) = n * 257) := by
  induction n generalizing prev with
  | zero => simp [chainSize, widen, Linked]
  | succ n ih =>
      have wider : ZipNode.rawLength { node with wide := true } = 257 := by
        simp only [ZipNode.rawLength, narrow, prevSize, Bool.false_eq_true, if_false, if_true]
          at length ⊢
        omega
      obtain ⟨size, linked, _⟩ := ih node.rawLength
      obtain ⟨_, _, widened⟩ := ih 257
      rw [List.replicate_succ]
      refine ⟨?_, fun small => ⟨fun _ => small, linked (by rw [length]; decide)⟩, fun large => ?_⟩
      · rw [chainSize, length, size]
        omega
      · simp only [widen, large, decide_false, Bool.not_false, Bool.or_true, chainSize, wider]
        rw [widened (by decide)]
        omega

/-- A long string, an empty one and many of 250 bytes. -/
def growingValues (count : Nat) : List (List UInt8) :=
  List.replicate 300 0x61 :: [] :: List.replicate count (List.replicate 250 0x61)

/-- The entries after pushing these strings one by one. -/
def growingNodes (count : Nat) : List ZipNode :=
  ⟨false, zipBody (List.replicate 300 0x61)⟩ :: ⟨true, zipBody []⟩
  :: List.replicate count ⟨false, zipBody (List.replicate 250 0x61)⟩

theorem growingNodes_facts (count : Nat)
    : chainSize (growingNodes count) = 309 + count * 253
      ∧ Linked 0 (growingNodes count)
      ∧ chainSize (deleteNodes (growingNodes (count + 1)) 1 1) = 303 + (count + 1) * 257 := by
  have sized (n : Nat) (least : 64 ≤ n) (most : n ≤ 0x3FFF)
      : (zipBody (List.replicate n 0x61)).length = n + 2 := by
    rw [length_zipBody (by rwa [List.length_replicate]) (by rwa [List.length_replicate]),
      List.length_replicate]
  have long := sized 300 (by decide) (by decide)
  have middle := sized 250 (by decide) (by decide)
  have empty : (zipBody []).length = 1 := by decide
  have first : ZipNode.rawLength ⟨false, zipBody (List.replicate 300 0x61)⟩ = 303 := by
    rw [ZipNode.rawLength, long]
    rfl
  have second : ZipNode.rawLength ⟨true, zipBody []⟩ = 6 := by
    rw [ZipNode.rawLength, empty]
    rfl
  have third : ZipNode.rawLength ⟨false, zipBody (List.replicate 250 0x61)⟩ = 253 := by
    rw [ZipNode.rawLength, middle]
    rfl
  have wider : ZipNode.rawLength ⟨true, zipBody (List.replicate 250 0x61)⟩ = 257 := by
    rw [ZipNode.rawLength, middle]
    rfl
  obtain ⟨size, linked, _⟩ := cascade_replicate (n := count) 6 rfl third
  obtain ⟨_, _, widened⟩ := cascade_replicate (n := count) 257 rfl third
  refine ⟨?_, ?_, ?_⟩
  · simp only [growingNodes, chainSize, first, second, size]
    omega
  · refine ⟨fun _ => by decide, (fun marked => by cases marked), ?_⟩
    rw [second]
    exact linked (by decide)
  · have kept : (growingNodes (count + 1)).take 1 = [⟨false, zipBody (List.replicate 300 0x61)⟩] :=
      rfl
    have rest
        : (growingNodes (count + 1)).drop (1 + 1)
          = ⟨false, zipBody (List.replicate 250 0x61)⟩
            :: List.replicate count ⟨false, zipBody (List.replicate 250 0x61)⟩ := rfl
    have large : ¬ 303 < zipBigLen := by decide
    rw [deleteNodes, kept, rest, lastLength, lastLength, first, relink]
    simp only [large, decide_false, Bool.not_false, chainSize_append, chainSize, first, wider]
    rw [widened (by decide)]
    omega

/-- Deleting the second entry widens all that follow, past the largest size. -/
theorem deletion_outgrows_block
    : ZiplistHolds (nodesBlock (2 ^ 16 - 1) (growingNodes 16900000)) (growingNodes 16900000)
        (growingValues 16900000)
      ∧ ¬ DeletionCorrect (nodesBlock (2 ^ 16 - 1) (growingNodes 16900000)) (growingNodes 16900000)
        (growingValues 16900000) 1 1 := by
  obtain ⟨count, countEq⟩ : ∃ count, count = 16899999 := ⟨_, rfl⟩
  rw [show 16900000 = count + 1 by omega]
  obtain ⟨size, linked, _⟩ := growingNodes_facts (count + 1)
  obtain ⟨_, _, grown⟩ := growingNodes_facts count
  have texts
      : (growingNodes (count + 1)).map ZipNode.text = (growingValues (count + 1)).map some := by
    refine texts_of_bodies ?_ ?_
    · simp only [growingNodes, growingValues, List.map_cons, List.map_replicate]
    · intro s member
      simp only [growingValues, List.mem_cons, List.mem_replicate] at member
      rcases member with rfl | rfl | ⟨_, rfl⟩
      · rw [List.length_replicate]
        decide
      · decide
      · rw [List.length_replicate]
        decide
  have holds
      : ZiplistHolds (nodesBlock (2 ^ 16 - 1) (growingNodes (count + 1))) (growingNodes (count + 1))
          (growingValues (count + 1)) :=
    ⟨⟨⟨2 ^ 16 - 1, rfl, Or.inr rfl, le_rfl⟩, linked, by omega, valued_of_texts texts⟩, texts⟩
  refine ⟨holds, fun correct => ?_⟩
  obtain ⟨next, left, run, _⟩ := correct.deleteAt (fun _ => 0)
  rcases ziplistDeleteAt_cases (fun _ => 0) holds
    (show 1 < (growingNodes (count + 1)).length from Nat.succ_lt_succ (Nat.succ_pos _)) le_rfl with
    ⟨small, _⟩ | ⟨_, fault, failed⟩
  · omega
  · cases run.symm.trans failed

end Correctness

end Redis
