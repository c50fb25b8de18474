import Redis.Ziplist.Spoiled

/-! Inserting an entry into a ziplist. -/

namespace Redis

open Redis.Library

/-- The entry that is inserted after one of length `prev`. -/
def newNode (prev : Nat) (s : List UInt8) : ZipNode where
  wide := !(prev < zipBigLen)
  body := zipBody s

theorem length_zipData (s : List UInt8) : (zipData s).length = zipDataSize s := by
  unfold zipData zipDataSize
  cases zipTryEncoding s with
  | none => rfl
  | some result => simp [zipIntBytes]

theorem zipRequiredLength_eq (prev : Nat) (s : List UInt8)
    : zipRequiredLength prev s = (newNode prev s).rawLength := by
  rw [zipRequiredLength, ← length_zipData, zipPrevEncodeSize_eq, ZipNode.rawLength, newNode,
    zipBody, List.length_append]
  dsimp only
  omega

section WriteEntry

variable {prev : Nat} {hole s : List UInt8}

theorem ziplistWriteEntry_ok (bytes tail len : Nat) (front back : List UInt8)
    (reserved : hole.length = (newNode prev s).rawLength)
    : ziplistWriteEntry (ziplistBlock bytes tail len (front ++ hole ++ back)) (10 + front.length)
        prev s
      = .ok (ziplistBlock bytes tail len
          (front ++ (prevField (newNode prev s).wide prev ++ (newNode prev s).body) ++ back)) := by
  obtain ⟨wide, wideEq⟩ : ∃ wide, wide = (newNode prev s).wide := ⟨_, rfl⟩
  obtain ⟨field, fieldEq⟩ : ∃ field, field = zipLengthField (zipEncodingOf s) s.length := ⟨_, rfl⟩
  have lengths : hole.length = prevSize wide + (field.length + (zipData s).length) := by
    rw [reserved, ZipNode.rawLength, wideEq, newNode, zipBody, List.length_append, fieldEq]
  -- The bytes reserved for the three parts.
  obtain ⟨first, firstEq⟩ : ∃ first, first = hole.take (prevSize wide) := ⟨_, rfl⟩
  obtain ⟨second, secondEq⟩ : ∃ second, second = (hole.drop (prevSize wide)).take field.length :=
    ⟨_, rfl⟩
  obtain ⟨third, thirdEq⟩ : ∃ third, third = (hole.drop (prevSize wide)).drop field.length :=
    ⟨_, rfl⟩
  have parts : hole = first ++ (second ++ third) := by
    rw [firstEq, secondEq, thirdEq, List.take_append_drop, List.take_append_drop]
  have firstLength : first.length = prevSize wide := by
    rw [firstEq, List.length_take]
    omega
  have secondLength : second.length = field.length := by
    rw [secondEq, List.length_take, List.length_drop]
    omega
  have thirdLength : third.length = (zipData s).length := by
    rw [thirdEq, List.length_drop, List.length_drop]
    omega
  have start
      : ziplistBlock bytes tail len (front ++ hole ++ back)
        = ziplistBlock bytes tail len front ++ first ++ (second ++ third ++ back) := by
    rw [parts]
    simp [ziplistBlock_append]
  have middle
      : ziplistBlock bytes tail len front ++ prevField wide prev ++ (second ++ third ++ back)
        = (ziplistBlock bytes tail len front ++ prevField wide prev) ++ second
          ++ (third ++ back) := by
    simp
  have last
      : (ziplistBlock bytes tail len front ++ prevField wide prev) ++ field ++ (third ++ back)
        = (ziplistBlock bytes tail len front ++ prevField wide prev ++ field) ++ third ++ back := by
    simp
  have position
      : (ziplistBlock bytes tail len front ++ prevField wide prev ++ field).length
        = 10 + front.length + prevSize wide + field.length := by
    simp [Nat.add_assoc]
  have data
      : zipWriteData (ziplistBlock bytes tail len front ++ prevField wide prev ++ field
        ++ (third ++ back))
          (10 + front.length + prevSize wide + field.length) s
        = .ok (ziplistBlock bytes tail len front ++ prevField wide prev ++ field ++ zipData s
            ++ back) := by
    have written :=
      writeBytes_split last position (show (zipData s).length = third.length from thirdLength.symm)
    rw [← written]
    unfold zipWriteData zipData
    cases encoded : zipTryEncoding s with
    | none => rfl
    | some result =>
        obtain ⟨value, encoding⟩ := result
        refine zipSaveInteger_eq encoded ?_
        rw [last, List.append_assoc, List.length_append, position]
        omega
  rw [ziplistWriteEntry, zipPrevEncodeLength_eq, zipPrevEncodeSize_eq,
    show (!decide (prev < zipBigLen)) = wide from wideEq.symm,
    writeBytes_split start (by simp) (by simp [firstLength]), ok_andThen]
  dsimp only
  rw [← fieldEq, middle, writeBytes_split rfl (by simp) secondLength.symm, ok_andThen, data]
  rw [← wideEq]
  simp [newNode, zipBody, ← fieldEq, ziplistBlock_append]

end WriteEntry

section OpenGap

variable {size tail len prev req : Nat} {front extra stuff : List UInt8} {node : ZipNode}
  {rest : List ZipNode}

/-- Moving the entries up, with a new field in front of the first of them. When the field is
larger than the old one, the bytes moved start before the entry; when it is smaller, after its
start.
-/
theorem openGap_moves (size tail len : Nat)
    (content : front ++ prevField node.wide prev ++ (node.body ++ chainBytes node.rawLength rest)
      ++ extra = stuff ++ [zipEnd])
    (sized : stuff.length = front.length + req + prevSize (!(req < zipBigLen))
      + (node.body.length + chainSize rest))
    : ∃ hole,
        hole.length = req
        ∧ (do
            let zl ← moveBytes (ziplistBlock size tail len (stuff ++ [zipEnd]))
              (10 + front.length + req)
              (((10 + front.length : Nat) : Int) - fieldDiff req node).toNat
              ((11 + front.length + chainSize (node :: rest) : Nat)
                - ((10 + front.length : Nat) : Int) - 1 + fieldDiff req node).toNat
            zipPrevEncodeLength zl (10 + front.length + req) req)
          = .ok (staleBlock size tail len (front ++ hole) req
              { node with wide := !(req < zipBigLen) } node.rawLength rest) := by
  obtain ⟨wide, wideEq⟩ : ∃ wide, wide = !decide (req < zipBigLen) := ⟨_, rfl⟩
  obtain ⟨after, afterEq⟩ : ∃ after, after = node.body ++ chainBytes node.rawLength rest := ⟨_, rfl⟩
  have afterLength : after.length = node.body.length + chainSize rest := by simp [afterEq]
  rw [← wideEq] at sized ⊢
  rw [← afterEq] at content
  have diff : fieldDiff req node = (prevSize wide : Int) - prevSize node.wide := by
    rw [fieldDiff, wideEq]
  have width : prevSize wide ≤ 5 := by cases wide <;> decide
  -- The bytes up to the data of the entry, the last of which are moved in place of its field.
  obtain ⟨block, blockEq⟩ : ∃ block, block = ziplistBlock size tail len (stuff ++ [zipEnd]) :=
    ⟨_, rfl⟩
  obtain ⟨upto, uptoEq⟩
      : ∃ upto, upto = ziplistBlock size tail len (front ++ prevField node.wide prev) := ⟨_, rfl⟩
  have uptoLength : upto.length = 10 + front.length + prevSize node.wide := by
    simp [uptoEq, Nat.add_assoc]
  obtain ⟨pre, preEq⟩ : ∃ pre, pre = upto.take (upto.length - prevSize wide) := ⟨_, rfl⟩
  obtain ⟨junk, junkEq⟩ : ∃ junk, junk = upto.drop (upto.length - prevSize wide) := ⟨_, rfl⟩
  have junkLength : junk.length = prevSize wide := by
    rw [junkEq, List.length_drop]
    omega
  have source : block = pre ++ (junk ++ after) ++ extra := by
    have parts : pre ++ junk = upto := by rw [preEq, junkEq, List.take_append_drop]
    rw [← List.append_assoc pre, parts, blockEq, ← content, uptoEq]
    simp [ziplistBlock_append]
  have preLength : pre.length = (((10 + front.length : Nat) : Int) - fieldDiff req node).toNat := by
    rw [preEq, List.length_take]
    omega
  have movedLength
      : (junk ++ after).length
        = ((11 + front.length + chainSize (node :: rest) : Nat)
            - ((10 + front.length : Nat) : Int) - 1 + fieldDiff req node).toNat := by
    rw [List.length_append, junkLength, afterLength, diff, chainSize, ZipNode.rawLength]
    omega
  -- The new entry gets the bytes that stand after the entries in front of it.
  obtain ⟨hole, holeEq⟩ : ∃ hole, hole = (stuff.drop front.length).take req := ⟨_, rfl⟩
  obtain ⟨covered, coveredEq⟩ : ∃ covered, covered = (stuff.drop front.length).drop req := ⟨_, rfl⟩
  have holeLength : hole.length = req := by
    rw [holeEq, List.length_take, List.length_drop]
    omega
  have coveredLength : covered.length = (junk ++ after).length := by
    rw [coveredEq, List.length_drop, List.length_drop, List.length_append]
    omega
  have whole : stuff = front ++ hole ++ covered := by
    have leads : stuff.take front.length = front := by
      have same : stuff.take front.length = (stuff ++ [zipEnd]).take front.length := by
        rw [List.take_append_of_le_length (by omega)]
      rw [same, ← content]
      simp
    rw [holeEq, coveredEq, List.append_assoc, List.take_append_drop]
    conv_lhs => rw [← List.take_append_drop front.length stuff, leads]
  have target : block = ziplistBlock size tail len (front ++ hole) ++ covered ++ [zipEnd] := by
    rw [blockEq, whole, ziplistBlock_append _ [zipEnd], ziplistBlock_append _ covered]
  have written
      : ziplistBlock size tail len (front ++ hole) ++ (junk ++ after) ++ [zipEnd]
        = ziplistBlock size tail len (front ++ hole) ++ junk ++ (after ++ [zipEnd]) := by
    simp
  refine ⟨hole, holeLength, ?_⟩
  rw [← blockEq, moveBytes_split source preLength movedLength target
    (by simp [holeLength, Nat.add_assoc])
    (coveredLength.trans movedLength), ok_andThen, zipPrevEncodeLength_eq, ← wideEq,
    writeBytes_split written (by simp [holeLength, Nat.add_assoc]) (by simp [junkLength])]
  simp [staleBlock, afterEq, ziplistBlock_append]

theorem ziplistAdjustTail_overruns {nextdiff : Int} {old : Nat}
    (fits : node.wide = false → prev < zipBigLen) (prevWord : prev < 2 ^ 32)
    (overruns : node.Overruns)
    : ziplistAdjustTail (staleBlock size tail len front prev node old []) (10 + front.length)
        nextdiff
      = .error .outOfBounds := by
  obtain ⟨past, declares, beyond, bound⟩ := overruns
  have width : prevSize node.wide ≤ 5 := by cases node.wide <;> decide
  have split
      : staleBlock size tail len front prev node old []
        = ziplistBlock size tail len front ++ (prevField node.wide prev ++ node.body)
          ++ (chainBytes old [] ++ [zipEnd]) := by
    simp [staleBlock, ziplistBlock_append]
  obtain ⟨entry, read, _, _, rawlen⟩ :=
    zipEntry_ok (p := 10 + front.length) split (by simp) fits prevWord declares (by omega)
  have outside
      : readByte (staleBlock size tail len front prev node old [])
        (10 + front.length + entry.rawlen)
        = .error .outOfBounds := by
    refine readByte_past ?_
    simp only [staleBlock, chainBytes, length_ziplistBlock, List.length_append, length_prevField,
      List.length_nil, List.length_singleton, rawlen]
    omega
  rw [ziplistAdjustTail, read, ok_andThen, outside]
  rfl

theorem ziplistOpenGap_ok (size len : Nat) {tail' : Nat}
    (content : front ++ prevField node.wide prev ++ (node.body ++ chainBytes node.rawLength rest)
      ++ extra = stuff ++ [zipEnd])
    (sized : stuff.length = front.length + req + prevSize (!(req < zipBigLen))
      + (node.body.length + chainSize rest))
    (fits : node.wide = false → prev < zipBigLen) (linked : Linked node.rawLength rest)
    (word : 11 + stuff.length < 2 ^ 32) (tailWord : tail < 2 ^ 32)
    (tailed : (tail' : Int) = tail + req + if rest = [] then 0 else fieldDiff req node)
    (tailWord' : tail' < 2 ^ 32) (readable : Readable (node :: rest))
    : (∃ hole,
        hole.length = req
        ∧ ziplistOpenGap (ziplistBlock size tail len (stuff ++ [zipEnd]))
            (11 + front.length + chainSize (node :: rest)) (10 + front.length) req
            (fieldDiff req node)
          = .ok (staleBlock size tail' len (front ++ hole) req
              { node with wide := !(req < zipBigLen) } node.rawLength rest))
      ∨ ((∃ fault,
          ziplistOpenGap (ziplistBlock size tail len (stuff ++ [zipEnd]))
              (11 + front.length + chainSize (node :: rest)) (10 + front.length) req
              (fieldDiff req node)
            = .error fault)
        ∧ ¬ node.Reads) := by
  obtain ⟨hole, holeLength, moved⟩ := openGap_moves size tail len content sized
  obtain ⟨fitted, fittedEq⟩
      : ∃ fitted : ZipNode, fitted = { node with wide := !(req < zipBigLen) } := ⟨_, rfl⟩
  rw [← fittedEq] at moved ⊢
  have split
      : ziplistBlock size tail len (stuff ++ [zipEnd])
        = ziplistBlock size tail len front ++ prevField node.wide prev
          ++ (node.body ++ chainBytes node.rawLength rest ++ extra) := by
    rw [← content]
    simp [ziplistBlock_append]
  obtain ⟨first, read, inside⟩ :=
    readByte_prevField (p := 10 + front.length) split (by simp) fits
  have tailRead
      : ziplistTailOffset (staleBlock size tail len (front ++ hole) req fitted node.rawLength rest)
        = .ok tail := ziplistTailOffset_block (by omega)
  have tailSet
      : setTailOffset (staleBlock size tail len (front ++ hole) req fitted node.rawLength rest)
          ((tail : Int) + req)
        = .ok (staleBlock size ((tail + req) % 2 ^ 32) len (front ++ hole) req fitted node.rawLength
            rest) :=
    setTailOffset_block (by omega)
  have position : 10 + front.length + req = 10 + (front ++ hole).length := by
    rw [List.length_append, holeLength, Nat.add_assoc]
  have opened
      : ziplistOpenGap (ziplistBlock size tail len (stuff ++ [zipEnd]))
          (11 + front.length + chainSize (node :: rest)) (10 + front.length) req
            (fieldDiff req node)
        = ziplistAdjustTail
            (staleBlock size ((tail + req) % 2 ^ 32) len (front ++ hole) req fitted node.rawLength
              rest)
            (10 + (front ++ hole).length) (fieldDiff req node) := by
    rw [ziplistOpenGap, read, ok_andThen, if_pos inside, ← bind_assoc, moved, ok_andThen, tailRead,
      ok_andThen, tailSet, ok_andThen, position]
  have fittedFits : fitted.wide = false → req < zipBigLen := by
    intro narrow
    simpa [fittedEq] using narrow
  have reqWord : req < 2 ^ 32 := by omega
  have reads (reads : node.Reads)
      : ziplistAdjustTail
          (staleBlock size ((tail + req) % 2 ^ 32) len (front ++ hole) req fitted node.rawLength
            rest)
          (10 + (front ++ hole).length) (fieldDiff req node)
        = .ok (staleBlock size tail' len (front ++ hole) req fitted node.rawLength rest) := by
    refine ziplistAdjustTail_ok fittedFits reqWord ?_ (by rw [fittedEq]; exact reads) linked
      (Nat.mod_lt _ (by decide)) (fun last => ?_) (fun inner => ?_)
    · rw [fittedEq, ZipNode.rawLength]
      dsimp only
      omega
    · rw [if_pos last] at tailed
      omega
    · rw [if_neg inner] at tailed
      omega
  rw [opened]
  cases rest with
  | nil =>
      rcases readable with ok | overruns
      · exact Or.inl ⟨hole, holeLength, reads ok⟩
      · refine Or.inr ⟨⟨_, ziplistAdjustTail_overruns fittedFits reqWord ?_⟩, fun ok => ?_⟩
        · rw [fittedEq]
          exact overruns
        · obtain ⟨past, declares, beyond, _⟩ := overruns
          exact absurd (declares.unique ok) (by omega)
  | cons next others => exact Or.inl ⟨hole, holeLength, reads readable.1⟩

end OpenGap

-- Insertion in front of an entry

/-- The part of `__ziplistInsert` after the block has its new size. -/
def insertResized (fresh : Nat → UInt8) (zl : List UInt8) (curlen p prevlen : Nat)
    (nextdiff : Int) (s : List UInt8)
    : Except Fault (List UInt8) := do
  let reqlen := (newNode prevlen s).rawLength
  let zl ← ziplistOpenGap zl curlen p reqlen nextdiff
  let zl ← (if nextdiff ≠ 0 then ziplistCascadeUpdate fresh zl (p + reqlen) else pure zl)
  let zl ← ziplistWriteEntry zl p prevlen s
  ziplistIncrLength zl 1

section Insertion

variable {before rest : List ZipNode} {node : ZipNode} {s extra stuff : List UInt8}
  {size tail len prev : Nat}

/-- A block of entries with their number or 65535. -/
def BlockOf (zl : List UInt8) (nodes : List ZipNode) : Prop :=
  ∃ len, zl = nodesBlock len nodes ∧ (len = nodes.length ∨ len = 2 ^ 16 - 1) ∧ len ≤ 2 ^ 16 - 1

theorem insertion_finishes {hole : List UInt8} {back : List ZipNode}
    (reserved : hole.length = (newNode (lastLength 0 before) s).rawLength)
    (sized : size = 11 + chainSize (before ++ newNode (lastLength 0 before) s :: back))
    (tailed : tail = 10 + chainSize (before ++ newNode (lastLength 0 before) s :: back).dropLast)
    (counted : len = (before ++ back).length ∨ len = 2 ^ 16 - 1) (lenWord : len ≤ 2 ^ 16 - 1)
    : ∃ next,
        (do
          let zl ← ziplistWriteEntry
            (ziplistBlock size tail len
              (chainBytes 0 before ++ hole
              ++ (chainBytes (newNode (lastLength 0 before) s).rawLength back ++ [zipEnd])))
            (10 + chainSize before) (lastLength 0 before) s
          ziplistIncrLength zl 1)
          = .ok next
        ∧ BlockOf next (before ++ newNode (lastLength 0 before) s :: back) := by
  have written :=
    ziplistWriteEntry_ok size tail len (chainBytes 0 before)
      (chainBytes (newNode (lastLength 0 before) s).rawLength back ++ [zipEnd]) reserved
  rw [length_chainBytes] at written
  have more
      : ((before ++ newNode (lastLength 0 before) s :: back).length : Int)
        = (before ++ back).length + 1 := by
    simp only [List.length_append, List.length_cons]
    push_cast
    omega
  obtain ⟨len', run, counted', small'⟩ :=
    ziplistIncrLength_block size tail
      (chainBytes 0 before
      ++ (prevField (newNode (lastLength 0 before) s).wide (lastLength 0 before)
        ++ (newNode (lastLength 0 before) s).body)
      ++ (chainBytes (newNode (lastLength 0 before) s).rawLength back ++ [zipEnd]))
      more (by omega) counted lenWord
  refine ⟨_, by rw [written, ok_andThen, run], len', ?_, counted', small'⟩
  simp [nodesBlock, sized, tailed, chainBytes_append, chainBytes]

/-- How an insertion ends: with the new entry in the list, or with a fault when an entry runs
past the end of the block.
-/
def InsertionEnds (run : Except Fault (List UInt8)) (before after : List ZipNode)
    (s : List UInt8)
    : Prop :=
  let new := newNode (lastLength 0 before) s
  (∃ next, run = .ok next ∧ BlockOf next (before ++ new :: relink new.rawLength after))
  ∨ ((∃ fault, run = .error fault) ∧ ∃ node ∈ after, ¬ node.Reads)

theorem chainSize_refit_le (prev : Nat) (node : ZipNode) (rest : List ZipNode)
    : chainSize ({ node with wide := !(prev < zipBigLen) } :: rest)
      ≤ chainSize (relink prev (node :: rest)) := by
  rw [relink, chainSize, chainSize]
  exact Nat.add_le_add_left (chainSize_le_widen _ _) _

theorem insertResized_ends (fresh : Nat → UInt8) {req : Nat}
    (reqEq : req = (newNode (lastLength 0 before) s).rawLength)
    (content : chainBytes 0 before ++ prevField node.wide (lastLength 0 before)
      ++ (node.body ++ chainBytes node.rawLength rest) ++ extra = stuff ++ [zipEnd])
    (sized : stuff.length = chainSize before + req + prevSize (!(req < zipBigLen))
      + (node.body.length + chainSize rest))
    (fits : node.wide = false → lastLength 0 before < zipBigLen)
    (linked : Linked node.rawLength rest)
    (word : 11 + (chainSize before + (req + chainSize (relink req (node :: rest)))) < 2 ^ 32)
    (oldWord : 11 + chainSize (before ++ node :: rest) < 2 ^ 32)
    (tailed : tail = 10 + (chainSize before + chainSize (node :: rest).dropLast))
    (readable : Readable (node :: rest))
    (counted : len = (before ++ node :: rest).length ∨ len = 2 ^ 16 - 1)
    (lenWord : len ≤ 2 ^ 16 - 1)
    : InsertionEnds
        (insertResized fresh (ziplistBlock (11 + stuff.length) tail len (stuff ++ [zipEnd]))
          (11 + chainSize (before ++ node :: rest)) (10 + chainSize before) (lastLength 0 before)
          (fieldDiff req node) s)
        before (node :: rest) s := by
  obtain ⟨fitted, fittedEq⟩
      : ∃ fitted : ZipNode, fitted = { node with wide := !(req < zipBigLen) } := ⟨_, rfl⟩
  have lengths := rawLength_refit req node
  have grows := chainSize_refit_le req node rest
  rw [← fittedEq] at lengths grows
  have fittedRaw : fitted.rawLength = prevSize (!(req < zipBigLen)) + node.body.length := by
    rw [fittedEq]
    rfl
  obtain ⟨tail', tailEq⟩
      : ∃ tail', tail' = 10 + (chainSize before + req) + chainSize (fitted :: rest).dropLast :=
    ⟨_, rfl⟩
  have lastBefore := chainSize_dropLast_lt (List.cons_ne_nil node rest)
  have lastAfter := chainSize_dropLast_lt (List.cons_ne_nil fitted rest)
  have tailMoves
      : (tail' : Int) = tail + req + if rest = [] then 0 else fieldDiff req node := by
    cases rest with
    | nil =>
        simp only [List.dropLast_singleton, chainSize, if_true] at tailEq tailed ⊢
        omega
    | cons second others =>
        simp only [List.dropLast_cons_cons, chainSize, reduceCtorEq, if_false] at tailEq tailed ⊢
        omega
  rw [chainSize_append] at oldWord
  have sized' : 11 + stuff.length = 11 + (chainSize before + req) + chainSize (fitted :: rest) := by
    rw [chainSize]
    omega
  have opened :=
    ziplistOpenGap_ok (11 + stuff.length) len content (by rwa [length_chainBytes]) fits linked
      (show 11 + stuff.length < 2 ^ 32 by omega) (show tail < 2 ^ 32 by omega) tailMoves (by omega)
      readable
  rw [length_chainBytes, ← fittedEq] at opened
  have curlen : 11 + chainSize (before ++ node :: rest)
      = 11 + chainSize before + chainSize (node :: rest) := by
    rw [chainSize_append, Nat.add_assoc]
  unfold InsertionEnds insertResized
  dsimp only
  rw [← reqEq, curlen]
  rcases opened with ⟨hole, holeLength, opened⟩ | ⟨⟨fault, failed⟩, bad⟩
  · have frontLength : (chainBytes 0 before ++ hole).length = chainSize before + req := by
      simp [holeLength]
    have stale
        : Stale (11 + stuff.length) tail' (chainBytes 0 before ++ hole) req fitted node.rawLength
            rest := by
      refine ⟨by rw [frontLength, sized'], by omega, by rw [frontLength, tailEq], ?_, by omega,
        linked, ?_, ?_⟩
      · intro narrow
        simpa [fittedEq] using narrow
      · rw [chainSize] at oldWord
        omega
      · rw [fittedEq]
        exact readable.any_field _
    rw [fittedEq] at stale
    have settled := relink_settles len fresh stale
    rw [frontLength, ← fittedEq] at settled
    rw [opened, ok_andThen, Nat.add_assoc 10]
    rcases settled with ⟨small, ok⟩ | ⟨⟨fault, failed⟩, large | ⟨other, member, bad⟩⟩
    · obtain ⟨back, backEq⟩ : ∃ back, back = fitted :: widen fitted.rawLength rest := ⟨_, rfl⟩
      have relinked : relink req (node :: rest) = back := by
        rw [relink, backEq, fittedEq]
      have block (size tail : Nat)
          : staleBlock size tail len (chainBytes 0 before ++ hole) req fitted fitted.rawLength
              (widen fitted.rawLength rest)
            = ziplistBlock size tail len
                (chainBytes 0 before ++ hole ++ (chainBytes req back ++ [zipEnd])) := by
        simp [staleBlock, backEq, chainBytes]
      have count : back.length = (node :: rest).length := by simp [backEq]
      rw [ok, ok_andThen, relinked, block, ← backEq, reqEq]
      refine Or.inl (insertion_finishes (holeLength.trans reqEq) ?_ ?_ ?_ lenWord)
      · rw [frontLength, chainSize_append, chainSize, ← reqEq]
        omega
      · have nonempty : back ≠ [] := by simp [backEq]
        rw [frontLength, dropLast_append_cons, chainSize_append,
          List.dropLast_cons_of_ne_nil nonempty, chainSize, ← reqEq]
        omega
      · rw [List.length_append, count, ← List.length_append]
        exact counted
    · rw [frontLength] at large
      rw [relink, ← fittedEq] at word
      omega
    · refine Or.inr ⟨⟨fault, by rw [failed]; rfl⟩, ?_⟩
      rcases List.mem_cons.mp member with rfl | old
      · refine ⟨node, by simp, ?_⟩
        rw [fittedEq] at bad
        exact bad
      · exact ⟨other, by simp [old], bad⟩
  · exact Or.inr ⟨⟨fault, by rw [failed]; rfl⟩, node, by simp, bad⟩

theorem ziplistInsertAt_before (fresh : Nat → UInt8) {req : Nat}
    (reqEq : req = (newNode (lastLength 0 before) s).rawLength)
    (linked : Linked 0 (before ++ node :: rest))
    (word : 11 + chainSize (before ++ node :: rest) < 2 ^ 32)
    : ziplistInsertAt fresh (nodesBlock len (before ++ node :: rest)) (10 + chainSize before) s
      = (do
          let zl ← ziplistResize fresh (nodesBlock len (before ++ node :: rest))
            (11 + (chainSize before + req
              + chainSize ({ node with wide := !(req < zipBigLen) } :: rest)))
          insertResized fresh zl (11 + chainSize (before ++ node :: rest)) (10 + chainSize before)
            (lastLength 0 before) (fieldDiff req node) s) := by
  obtain ⟨prev, prevEq⟩ : ∃ prev, prev = lastLength 0 before := ⟨_, rfl⟩
  obtain ⟨zl, zlEq⟩ : ∃ zl, zl = nodesBlock len (before ++ node :: rest) := ⟨_, rfl⟩
  have fits := (linked_append.mp linked).2.1
  have split
      : zl
        = ziplistBlock (11 + chainSize (before ++ node :: rest))
            (10 + chainSize (before ++ node :: rest).dropLast) len (chainBytes 0 before)
          ++ prevField node.wide prev
          ++ (node.body ++ (chainBytes node.rawLength rest ++ [zipEnd])) := by
    rw [zlEq, nodesBlock_split, prevEq]
    simp
  have bound := lastLength_le 0 before
  have lengths := rawLength_refit req node
  rw [← prevEq] at fits bound
  obtain ⟨first, read, inside⟩ :=
    readByte_prevField (p := 10 + chainSize before) split (by simp) fits
  have prevWord : prev < 2 ^ 32 := by
    rw [chainSize_append] at word
    omega
  have decoded := zipDecodePrevLen_ok (p := 10 + chainSize before) split (by simp) fits prevWord
  have prevLength : ziplistPrevLength zl (10 + chainSize before) = .ok prev := by
    rw [ziplistPrevLength, read, ok_andThen, if_pos inside, decoded]
    rfl
  have diff : zipPrevLenByteDiff zl (10 + chainSize before) req = .ok (fieldDiff req node) := by
    rw [zipPrevLenByteDiff, zipDecodePrevLenSize_ok (p := 10 + chainSize before) split
      (by simp) fits, ok_andThen, zipPrevEncodeSize_eq]
    rfl
  have sizeRead : ziplistBytes zl = .ok (11 + chainSize (before ++ node :: rest)) := by
    rw [zlEq]
    exact ziplistBytes_block word
  have target
      : (((11 + chainSize (before ++ node :: rest) : Nat) : Int) + req + fieldDiff req node).toNat
        = 11 + (chainSize before + req
          + chainSize ({ node with wide := !(req < zipBigLen) } :: rest)) := by
    rw [chainSize_append, chainSize, chainSize]
    omega
  rw [← prevEq] at reqEq
  rw [← zlEq, ← prevEq, ziplistInsertAt, sizeRead, ok_andThen, prevLength, ok_andThen,
    zipRequiredLength_eq, ← reqEq]
  dsimp only
  rw [read, ok_andThen, if_pos inside, diff, ok_andThen, target]
  simp only [insertResized, ← reqEq]

theorem resize_grows (fresh : Nat → UInt8) (len : Nat) (before rest : List ZipNode) (node : ZipNode)
    {size : Nat} (word : size < 2 ^ 32) (grows : 11 + chainSize (before ++ node :: rest) ≤ size)
    : ∃ stuff extra,
        ziplistResize fresh (nodesBlock len (before ++ node :: rest)) size
          = .ok (ziplistBlock size (10 + chainSize (before ++ node :: rest).dropLast) len
              (stuff ++ [zipEnd]))
        ∧ stuff.length + 11 = size
        ∧ chainBytes 0 before ++ prevField node.wide (lastLength 0 before)
            ++ (node.body ++ chainBytes node.rawLength rest) ++ extra
          = stuff ++ [zipEnd] := by
  obtain ⟨stuff, resized, length, keeps⟩ :=
    ziplistResize_block fresh (11 + chainSize (before ++ node :: rest))
      (10 + chainSize (before ++ node :: rest).dropLast) len
      (chainBytes 0 (before ++ node :: rest) ++ [zipEnd]) (show 11 ≤ size by omega) word
  have entries : chainBytes 0 (before ++ node :: rest) <+: stuff := by
    refine List.IsPrefix.trans ?_ keeps
    rw [List.take_append, List.take_of_length_le (by rw [length_chainBytes]; omega)]
    exact List.prefix_append _ _
  obtain ⟨extra, stuffEq⟩ := entries
  refine ⟨stuff, extra ++ [zipEnd], resized, length, ?_⟩
  rw [← stuffEq]
  simp [chainBytes_append, chainBytes]

end Insertion

end Redis
