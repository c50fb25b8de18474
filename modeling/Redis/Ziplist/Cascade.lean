import Redis.Ziplist.Layout

/-! `__ziplistCascadeUpdate` widens exactly the fields that are too small. -/

namespace Redis

open Redis.Library

/-- The length field of an entry gives more than the bytes that are left in the block. -/
def ZipNode.Overruns (node : ZipNode) : Prop :=
  ∃ size, node.Declares size ∧ node.body.length < size ∧ size + 5 < 2 ^ 32

theorem ZipNode.Declares.unique {node : ZipNode} {size other : Nat} (first : node.Declares size)
    (second : node.Declares other)
    : size = other := by
  obtain ⟨_, _, _, read, total⟩ := first
  obtain ⟨_, _, _, again, total'⟩ := second
  cases read.symm.trans again
  exact total.symm.trans total'

/-- Every entry can be read, except that the last may run past the end of the block. -/
def Readable : List ZipNode → Prop
  | [] => True
  | [node] => node.Reads ∨ node.Overruns
  | node :: next :: rest => node.Reads ∧ Readable (next :: rest)

theorem Readable.of_reads {nodes : List ZipNode} (all : ∀ node ∈ nodes, node.Reads)
    : Readable nodes := by
  induction nodes with
  | nil => trivial
  | cons node rest ih =>
      have first := all node (by simp)
      have others := ih fun other member => all other (by simp [member])
      cases rest with
      | nil => exact Or.inl first
      | cons next others' => exact ⟨first, others⟩

theorem Readable.any_field {node : ZipNode} {rest : List ZipNode}
    (readable : Readable (node :: rest)) (wide : Bool)
    : Readable ({ node with wide } :: rest) := by
  cases rest with
  | nil => exact readable
  | cons next others => exact readable

theorem Readable.declares {node : ZipNode} {rest : List ZipNode}
    (readable : Readable (node :: rest)) (small : node.rawLength < 2 ^ 32)
    : ∃ size, node.Declares size ∧ prevSize node.wide + size < 2 ^ 32 := by
  have width : prevSize node.wide ≤ 5 := by cases node.wide <;> decide
  cases rest with
  | nil =>
      rcases readable with reads | ⟨size, declares, _, bound⟩
      · exact ⟨_, reads, small⟩
      · exact ⟨size, declares, by omega⟩
  | cons next others => exact ⟨_, readable.1, small⟩

/-- A block in which an entry after `front` has just changed its length, so that the entry
after it still has the length `old`.
-/
def staleBlock (size tail len : Nat) (front : List UInt8) (prev : Nat) (cur : ZipNode)
    (old : Nat) (rest : List ZipNode)
    : List UInt8 :=
  ziplistBlock size tail len
    (front ++ (prevField cur.wide prev ++ cur.body) ++ chainBytes old rest ++ [zipEnd])

theorem zipPrevEncodeLength_eq (zl : List UInt8) (p len : Nat)
    : zipPrevEncodeLength zl p len = writeBytes zl p (prevField (!(len < zipBigLen)) len) := by
  unfold zipPrevEncodeLength prevField
  split
  · rename_i small
    simp [small]
  · rename_i large
    simp [large]

theorem zipPrevEncodeSize_eq (len : Nat)
    : zipPrevEncodeSize len = prevSize (!(len < zipBigLen)) := by
  unfold zipPrevEncodeSize prevSize
  split
  · rename_i small
    simp [small]
  · rename_i large
    simp [large]

theorem widenField {size tail len : Nat} {front after spare : List UInt8} {old : UInt8}
    {rawlen : Nat} (three : spare.length = 3) (large : ¬ rawlen < zipBigLen)
    : (do
        let zl ← moveBytes
          (ziplistBlock size tail len (front ++ old :: after ++ [zipEnd] ++ spare ++ [zipEnd]))
          (10 + front.length + 5) (10 + front.length + 1) after.length
        zipPrevEncodeLength zl (10 + front.length) rawlen)
      = .ok (ziplistBlock size tail len (front ++ prevField true rawlen ++ after ++ [zipEnd])) := by
  obtain ⟨hole, holeEq⟩ : ∃ hole, hole = (old :: after ++ [zipEnd] ++ spare).take 5 := ⟨_, rfl⟩
  obtain ⟨covered, coveredEq⟩ : ∃ covered, covered = (old :: after ++ [zipEnd] ++ spare).drop 5 :=
    ⟨_, rfl⟩
  have whole : old :: after ++ [zipEnd] ++ spare = hole ++ covered := by
    rw [holeEq, coveredEq, List.take_append_drop]
  have holeLength : hole.length = 5 := by
    rw [holeEq, List.length_take]
    simp [three]
  have coveredLength : covered.length = after.length := by
    rw [coveredEq, List.length_drop]
    simp [three]
  have source
      : ziplistBlock size tail len (front ++ old :: after ++ [zipEnd] ++ spare ++ [zipEnd])
        = ziplistBlock size tail len (front ++ [old]) ++ after
          ++ ([zipEnd] ++ spare ++ [zipEnd]) := by
    simp [← ziplistBlock_append]
  have target
      : ziplistBlock size tail len (front ++ old :: after ++ [zipEnd] ++ spare ++ [zipEnd])
        = ziplistBlock size tail len (front ++ hole) ++ covered ++ [zipEnd] := by
    have parts : front ++ old :: after ++ [zipEnd] ++ spare = front ++ hole ++ covered := by
      rw [List.append_assoc front hole, ← whole]
      simp
    rw [parts, ziplistBlock_append _ [zipEnd], ziplistBlock_append _ covered]
  have split
      : ziplistBlock size tail len (front ++ hole) ++ after ++ [zipEnd]
        = ziplistBlock size tail len front ++ hole ++ (after ++ [zipEnd]) := by
    simp [ziplistBlock_append]
  rw [moveBytes_split source (by simp [Nat.add_assoc]) rfl target
      (by simp [holeLength, Nat.add_assoc]) coveredLength,
    ok_andThen, zipPrevEncodeLength_eq, decide_eq_false large, Bool.not_false,
    writeBytes_split split (by simp) (by simp [holeLength, prevSize])]
  simp [ziplistBlock_append]

section Loop

variable {size tail len prev old : Nat} {front : List UInt8} {cur : ZipNode}
  {rest : List ZipNode} {next : ZipNode}

/-- The state of a cascade at an entry: the block is well formed up to the length that the
next entry has of it.
-/
structure Stale (size tail : Nat) (front : List UInt8) (prev : Nat) (cur : ZipNode) (old : Nat)
    (rest : List ZipNode)
    : Prop where
  sized : size = 11 + front.length + chainSize (cur :: rest)
  word : size < 2 ^ 32
  tailed : tail = 10 + front.length + chainSize (cur :: rest).dropLast
  fits : cur.wide = false → prev < zipBigLen
  prevWord : prev < 2 ^ 32
  linked : Linked old rest
  oldWord : old < 2 ^ 32
  readable : Readable (cur :: rest)

theorem Stale.tail_lt (stale : Stale size tail front prev cur old rest) : tail < size := by
  have before := chainSize_dropLast_lt (List.cons_ne_nil cur rest)
  have sized := stale.sized
  have tailed := stale.tailed
  omega

/-- How a cascade ends: with the fields widened, or with a fault when the block would outgrow
32 bits or an entry runs past its end.
-/
def CascadeEnds (run : Except Fault (List UInt8)) (len : Nat) (front : List UInt8) (prev : Nat)
    (cur : ZipNode) (rest : List ZipNode)
    : Prop :=
  let next := widen cur.rawLength rest
  let size := 11 + front.length + chainSize (cur :: next)
  let tail := 10 + front.length + chainSize (cur :: next).dropLast
  (size < 2 ^ 32 ∧ run = .ok (staleBlock size tail len front prev cur cur.rawLength next))
  ∨ ((∃ fault, run = .error fault)
    ∧ (2 ^ 32 ≤ size ∨ ∃ node ∈ cur :: rest, ¬ node.Reads))

theorem CascadeEnds.of_next {run : Except Fault (List UInt8)} (large : ¬ cur.rawLength < zipBigLen)
    (ends : CascadeEnds run len (front ++ (prevField cur.wide prev ++ cur.body)) cur.rawLength
      { next with wide := true } rest)
    : CascadeEnds run len front prev cur (next :: rest) := by
  have widened
      : widen cur.rawLength (next :: rest)
        = { next with wide := true } :: widen (ZipNode.rawLength { next with wide := true })
          rest := by
    simp [widen, large]
  have position : (front ++ (prevField cur.wide prev ++ cur.body)).length
      = front.length + cur.rawLength := by
    simp [ZipNode.rawLength]
  obtain ⟨others, othersEq⟩
      : ∃ others, others = widen (ZipNode.rawLength { next with wide := true }) rest := ⟨_, rfl⟩
  have sizes
      : 11 + (front.length + cur.rawLength) + chainSize ({ next with wide := true } :: others)
        = 11 + front.length + chainSize (cur :: { next with wide := true } :: others) := by
    simp only [chainSize]
    omega
  have tails
      : 10 + (front.length + cur.rawLength)
          + chainSize ({ next with wide := true } :: others).dropLast
        = 10 + front.length
          + chainSize (cur :: { next with wide := true } :: others).dropLast := by
    rw [List.dropLast_cons_cons, chainSize.eq_2 cur]
    omega
  unfold CascadeEnds at ends ⊢
  simp only [widened, position, ← othersEq, sizes, tails] at ends ⊢
  rcases ends with ⟨word, ok⟩ | ⟨failed, large | ⟨node, member, bad⟩⟩
  · refine Or.inl ⟨word, ok.trans ?_⟩
    simp [staleBlock, chainBytes]
  · exact Or.inr ⟨failed, Or.inl large⟩
  · refine Or.inr ⟨failed, Or.inr ?_⟩
    rcases List.mem_cons.mp member with rfl | old
    · exact ⟨next, by simp, bad⟩
    · exact ⟨node, by simp [old], bad⟩

theorem CascadeEnds.of_linked (linked : Linked cur.rawLength rest)
    (word : 11 + front.length + chainSize (cur :: rest) < 2 ^ 32)
    : CascadeEnds
        (.ok (staleBlock (11 + front.length + chainSize (cur :: rest))
          (10 + front.length + chainSize (cur :: rest).dropLast) len front prev cur cur.rawLength
          rest))
        len front prev cur rest := by
  unfold CascadeEnds
  rw [widen_of_linked linked]
  exact Or.inl ⟨word, rfl⟩

theorem readByte_after_last
    : readByte (staleBlock size tail len front prev cur old [])
        (10 + front.length + (prevSize cur.wide + cur.body.length))
      = .ok zipEnd := by
  have split
      : staleBlock size tail len front prev cur old []
        = ziplistBlock size tail len (front ++ (prevField cur.wide prev ++ cur.body))
          ++ zipEnd :: [] := by
    simp [staleBlock, chainBytes, ziplistBlock_append]
  exact readByte_split split (by simp [Nat.add_assoc])

theorem readByte_after_inner (narrow : next.wide = false → old < zipBigLen)
    : ∃ first,
        readByte (staleBlock size tail len front prev cur old (next :: rest))
            (10 + front.length + cur.rawLength)
          = .ok first
        ∧ first ≠ zipEnd := by
  have split
      : staleBlock size tail len front prev cur old (next :: rest)
        = ziplistBlock size tail len (front ++ (prevField cur.wide prev ++ cur.body))
          ++ prevField next.wide old
          ++ (next.body ++ chainBytes next.rawLength rest ++ [zipEnd]) := by
    simp [staleBlock, chainBytes, ziplistBlock_append]
  exact readByte_prevField split (by simp [ZipNode.rawLength, Nat.add_assoc]) narrow

theorem rewriteField (old new : Nat)
    : writeBytes (staleBlock size tail len front prev cur old (next :: rest))
        (10 + front.length + cur.rawLength) (prevField next.wide new)
      = .ok (staleBlock size tail len front prev cur new (next :: rest)) := by
  have split
      : staleBlock size tail len front prev cur old (next :: rest)
        = ziplistBlock size tail len (front ++ (prevField cur.wide prev ++ cur.body))
          ++ prevField next.wide old
          ++ (next.body ++ chainBytes next.rawLength rest ++ [zipEnd]) := by
    simp [staleBlock, chainBytes, ziplistBlock_append]
  rw [writeBytes_split split (by simp [ZipNode.rawLength, Nat.add_assoc]) (by simp)]
  simp [staleBlock, chainBytes, ziplistBlock_append]

theorem cascade_widens (fresh : Nat → UInt8) {rounds : Nat}
    (goesOn : ∀ {size tail prev old : Nat} {front : List UInt8} {cur : ZipNode}
      {rest : List ZipNode},
      Stale size tail front prev cur old rest
      → rest.length < rounds
      → CascadeEnds
          (ziplistCascadeLoop fresh rounds (staleBlock size tail len front prev cur old rest) size
            (10 + front.length))
          len front prev cur rest)
    (stale : Stale size tail front prev cur old (next :: rest)) (narrowed : next.wide = false)
    (large : ¬ cur.rawLength < zipBigLen) (enough : rest.length < rounds)
    : CascadeEnds
        (do
          let zl ← ziplistResize fresh (staleBlock size tail len front prev cur old (next :: rest))
            (size + (5 - 1))
          let tail ← ziplistTailOffset zl
          let zl ← (if tail ≠ 10 + front.length + cur.rawLength then
              setTailOffset zl (tail + (5 - 1 : Nat))
            else pure zl)
          let zl ← moveBytes zl (10 + front.length + cur.rawLength + 5)
            (10 + front.length + cur.rawLength + 1)
            (size - (10 + front.length + cur.rawLength) - 1 - 1)
          let zl ← zipPrevEncodeLength zl (10 + front.length + cur.rawLength) cur.rawLength
          ziplistCascadeLoop fresh rounds zl (size + (5 - 1))
            (10 + front.length + cur.rawLength))
        len (front ++ (prevField cur.wide prev ++ cur.body)) cur.rawLength
        { next with wide := true } rest := by
  obtain ⟨front', frontEq⟩
      : ∃ front', front' = front ++ (prevField cur.wide prev ++ cur.body) := ⟨_, rfl⟩
  obtain ⟨after, afterEq⟩ : ∃ after, after = next.body ++ chainBytes next.rawLength rest := ⟨_, rfl⟩
  obtain ⟨wider, widerEq⟩ : ∃ wider : ZipNode, wider = { next with wide := true } := ⟨_, rfl⟩
  have position : 10 + front.length + cur.rawLength = 10 + front'.length := by
    simp [frontEq, ZipNode.rawLength, Nat.add_assoc]
  have nextLength : next.rawLength = 1 + next.body.length := by
    simp [ZipNode.rawLength, narrowed, prevSize]
  have widerLength : wider.rawLength = next.rawLength + 4 := by
    simp [widerEq, ZipNode.rawLength, narrowed, prevSize]
    omega
  have sized := stale.sized
  have word := stale.word
  have tailed := stale.tailed
  simp only [List.dropLast_cons_cons, chainSize] at sized tailed
  have afterLength : after.length = next.body.length + chainSize rest := by simp [afterEq]
  have block
      : staleBlock size tail len front prev cur old (next :: rest)
        = ziplistBlock size tail len (front' ++ UInt8.ofNat old :: after ++ [zipEnd]) := by
    simp [staleBlock, chainBytes, narrowed, prevField, frontEq, afterEq]
  have grown : 11 + front'.length + chainSize (wider :: rest) = size + 4 := by
    simp only [chainSize, widerLength]
    omega
  rw [← frontEq, ← widerEq, position, block]
  rcases Nat.lt_or_ge (size + 4) (2 ^ 32) with room | full
  · obtain ⟨kept, resized, keptLength, keeps⟩ :=
      ziplistResize_block fresh size tail len (front' ++ UInt8.ofNat old :: after ++ [zipEnd])
        (show 11 ≤ size + 4 by omega) room
    rw [List.take_of_length_le (by simp; omega)] at keeps
    obtain ⟨spare, rfl⟩ := keeps
    have three : spare.length = 3 := by
      simp only [List.length_append, List.length_cons, List.length_nil] at keptLength
      omega
    -- The last entry starts four bytes later, unless it is the one with the wider field.
    obtain ⟨tail', tailEq⟩
        : ∃ tail', tail' = 10 + front'.length + chainSize (wider :: rest).dropLast := ⟨_, rfl⟩
    have tailMoves
        : (if tail ≠ 10 + front'.length then
              setTailOffset (ziplistBlock (size + 4) tail len
                (front' ++ UInt8.ofNat old :: after ++ [zipEnd] ++ spare ++ [zipEnd]))
                (tail + (5 - 1 : Nat))
            else
              pure (ziplistBlock (size + 4) tail len
                (front' ++ UInt8.ofNat old :: after ++ [zipEnd] ++ spare ++ [zipEnd])))
          = .ok (ziplistBlock (size + 4) tail' len
              (front' ++ UInt8.ofNat old :: after ++ [zipEnd] ++ spare ++ [zipEnd])) := by
      cases rest with
      | nil =>
          have same : tail = 10 + front'.length := by
            simp only [List.dropLast_singleton, chainSize] at tailed
            omega
          have same' : tail' = 10 + front'.length := by
            simp [tailEq, chainSize]
          rw [if_neg (by simp [same]), same, same']
          rfl
      | cons second others =>
          have positive := next.rawLength_pos
          have before := chainSize_dropLast_lt (List.cons_ne_nil second others)
          simp only [List.dropLast_cons_cons, chainSize, widerLength] at tailEq tailed before sized
          rw [if_pos (by omega)]
          exact setTailOffset_block (by omega)
    have moved : size - (10 + front'.length) - 1 - 1 = after.length := by omega
    rw [resized, ok_andThen, ziplistTailOffset_block (by have := stale.tail_lt; omega),
      ok_andThen, tailMoves, ok_andThen,
      moved, ← bind_assoc, widenField three large, ok_andThen]
    have again
        : ziplistBlock (size + 4) tail' len (front' ++ prevField true cur.rawLength ++ after
          ++ [zipEnd])
          = staleBlock (size + 4) tail' len front' cur.rawLength wider next.rawLength rest := by
      simp [staleBlock, afterEq, widerEq]
    rw [again]
    refine goesOn ⟨grown.symm, room, tailEq, ?_, by omega, stale.linked.2, by omega, ?_⟩ enough
    · intro narrow
      rw [widerEq] at narrow
      cases narrow
    · rw [widerEq]
      exact Readable.any_field stale.readable.2 true
  · have lost :=
      ziplistResize_wraps fresh
        (ziplistBlock size tail len (front' ++ UInt8.ofNat old :: after ++ [zipEnd]))
        (show (size + (5 - 1)) % 2 ^ 32 < 4 by omega)
    rw [lost]
    refine Or.inr ⟨⟨_, rfl⟩, Or.inl ?_⟩
    have atLeast := chainSize_le_widen wider.rawLength rest
    simp only [chainSize] at grown ⊢
    omega

theorem cascadeLoop_ends (fresh : Nat → UInt8) (rounds : Nat)
    (stale : Stale size tail front prev cur old rest) (enough : rest.length < rounds)
    : CascadeEnds
        (ziplistCascadeLoop fresh rounds (staleBlock size tail len front prev cur old rest) size
          (10 + front.length))
        len front prev cur rest := by
  induction rounds generalizing size tail prev old front cur rest with
  | zero => exact absurd enough (Nat.not_lt_zero _)
  | succ rounds ih =>
      obtain ⟨sized, word, tailed, fits, prevWord, linked, oldWord, readable⟩ := id stale
      have curWord : cur.rawLength < 2 ^ 32 := by
        simp only [chainSize] at sized
        omega
      have split
          : staleBlock size tail len front prev cur old rest
            = ziplistBlock size tail len front ++ (prevField cur.wide prev ++ cur.body)
              ++ (chainBytes old rest ++ [zipEnd]) := by
        simp [staleBlock, ziplistBlock_append]
      have fieldSplit
          : staleBlock size tail len front prev cur old rest
            = ziplistBlock size tail len front ++ prevField cur.wide prev
              ++ (cur.body ++ (chainBytes old rest ++ [zipEnd])) := by
        rw [split]
        simp
      obtain ⟨first, atFirst, notEnd⟩ :=
        readByte_prevField (p := 10 + front.length) fieldSplit (by simp) fits
      obtain ⟨declared, declares, bound⟩ := readable.declares curWord
      obtain ⟨entry, atCur, _, _, rawlen⟩ :=
        zipEntry_ok (p := 10 + front.length) split (by simp) fits prevWord declares bound
      rw [ziplistCascadeLoop, atFirst, ok_andThen, if_neg notEnd, atCur, ok_andThen]
      dsimp only
      cases rest with
      | nil =>
          rcases readable with reads | ⟨past, overruns, beyond, _⟩
          · obtain rfl := declares.unique reads
            rw [rawlen, readByte_after_last, ok_andThen, if_pos rfl, sized, tailed]
            exact CascadeEnds.of_linked (by trivial) (by rwa [← sized])
          · obtain rfl := declares.unique overruns
            have outside
                : readByte (staleBlock size tail len front prev cur old [])
                    (10 + front.length + entry.rawlen)
                  = .error .outOfBounds := by
              refine readByte_past ?_
              simp only [staleBlock, chainBytes, length_ziplistBlock, List.length_append,
                length_prevField, List.length_nil, List.length_singleton, rawlen]
              omega
            rw [outside]
            refine Or.inr ⟨⟨_, rfl⟩, Or.inr ⟨cur, by simp, fun reads => ?_⟩⟩
            exact absurd (declares.unique reads) (by omega)
      | cons next rest =>
          obtain ⟨reads, others⟩ := readable
          obtain rfl := declares.unique reads
          have exact : entry.rawlen = cur.rawLength := rawlen
          obtain ⟨narrow, links⟩ := linked
          have nextWord : next.rawLength < 2 ^ 32 := by
            simp only [chainSize] at sized
            omega
          have nextSplit
              : staleBlock size tail len front prev cur old (next :: rest)
                = ziplistBlock size tail len (front ++ (prevField cur.wide prev ++ cur.body))
                  ++ (prevField next.wide old ++ next.body)
                  ++ (chainBytes next.rawLength rest ++ [zipEnd]) := by
            simp [staleBlock, chainBytes, ziplistBlock_append]
          have nextStart
              : (ziplistBlock size tail len (front ++ (prevField cur.wide prev ++ cur.body))).length
                = 10 + front.length + cur.rawLength := by
            simp [ZipNode.rawLength, Nat.add_assoc]
          obtain ⟨second, atSecond, inside⟩ := readByte_after_inner narrow
          obtain ⟨_, declares', bound'⟩ := others.declares nextWord
          obtain ⟨following, atNext, fieldSize, fieldValue, _⟩ :=
            zipEntry_ok nextSplit nextStart narrow oldWord declares' bound'
          rw [exact, atSecond, ok_andThen, if_neg inside, atNext, ok_andThen, fieldSize, fieldValue,
            zipPrevEncodeSize_eq]
          split
          · -- The length has not changed.
            rename_i same
            subst same
            rw [sized, tailed]
            exact CascadeEnds.of_linked ⟨narrow, links⟩ (by rwa [← sized])
          · split
            · -- The field grows, and the cascade moves on to its entry.
              rename_i smaller
              obtain ⟨narrowed, large⟩ := prevSize_lt_iff.mp smaller
              simp only [Bool.not_eq_true', decide_eq_false_iff_not] at large
              refine CascadeEnds.of_next large ?_
              have five : prevSize (!decide (cur.rawLength < zipBigLen)) = 5 := by
                simp [large, prevSize]
              have one : prevSize next.wide = 1 := by simp [narrowed, prevSize]
              rw [five, one]
              exact cascade_widens fresh ih stale narrowed large (Nat.lt_of_succ_lt_succ enough)
            · -- The field is large enough.
              rename_i notSmaller
              have written
                  : (if prevSize next.wide > prevSize (!(cur.rawLength < zipBigLen)) then
                        zipPrevEncodeLengthForceLarge
                          (staleBlock size tail len front prev cur old (next :: rest))
                          (10 + front.length + cur.rawLength) cur.rawLength
                      else
                        zipPrevEncodeLength
                          (staleBlock size tail len front prev cur old (next :: rest))
                          (10 + front.length + cur.rawLength) cur.rawLength)
                    = .ok (staleBlock size tail len front prev cur cur.rawLength
                      (next :: rest)) := by
                rw [← rewriteField old, zipPrevEncodeLength_eq]
                rw [prevSize_lt_iff] at notSmaller
                split
                · rename_i larger
                  rw [(prevSize_lt_iff.mp larger).2]
                  rfl
                · rename_i notLarger
                  rw [gt_iff_lt, prevSize_lt_iff] at notLarger
                  congr 2
                  cases shape : next.wide with
                  | false => simpa [shape] using notSmaller
                  | true => simpa [shape] using notLarger
              have still : Linked cur.rawLength (next :: rest) := by
                refine ⟨fun narrowed => ?_, links⟩
                by_contra large
                exact notSmaller (prevSize_lt_iff.mpr ⟨narrowed, by simpa using large⟩)
              rw [written, sized, tailed]
              exact CascadeEnds.of_linked still (by rwa [← sized])

theorem length_le_chainSize (nodes : List ZipNode) : nodes.length ≤ chainSize nodes := by
  induction nodes with
  | nil => exact le_rfl
  | cons node rest ih =>
      have positive := node.rawLength_pos
      simp only [List.length_cons, chainSize]
      omega

theorem cascadeUpdate_ends (fresh : Nat → UInt8) (stale : Stale size tail front prev cur old rest)
    : CascadeEnds
        (ziplistCascadeUpdate fresh (staleBlock size tail len front prev cur old rest)
          (10 + front.length))
        len front prev cur rest := by
  have few := length_le_chainSize rest
  have sized := stale.sized
  simp only [chainSize] at sized
  rw [ziplistCascadeUpdate, staleBlock, ziplistBytes_block stale.word, ok_andThen]
  exact cascadeLoop_ends fresh size stale (by omega)

end Loop

-- Entries in front of which something was inserted or deleted

/-- The entries after a change: the first gets a field of the size that its new predecessor
needs, and the others are widened where they have to be.
-/
def relink (prev : Nat) : List ZipNode → List ZipNode
  | [] => []
  | node :: rest =>
      let node := { node with wide := !(prev < zipBigLen) }
      node :: widen node.rawLength rest

/-- The change of the size of a field for a new length. -/
def fieldDiff (prev : Nat) (node : ZipNode) : Int :=
  (prevSize (!(prev < zipBigLen)) : Int) - prevSize node.wide

theorem fieldDiff_cases (prev : Nat) (node : ZipNode)
    : fieldDiff prev node = -4 ∨ fieldDiff prev node = 0 ∨ fieldDiff prev node = 4 := by
  unfold fieldDiff
  cases node.wide <;> cases !decide (prev < zipBigLen) <;> simp [prevSize]

section Relink

variable {size tail len prev : Nat} {front : List UInt8} {node : ZipNode} {rest : List ZipNode}

theorem rawLength_refit (prev : Nat) (node : ZipNode)
    : (ZipNode.rawLength { node with wide := !(prev < zipBigLen) } : Int)
      = node.rawLength + fieldDiff prev node := by
  simp only [ZipNode.rawLength, fieldDiff]
  push_cast
  omega

theorem linked_relink (prev : Nat) (nodes : List ZipNode) : Linked prev (relink prev nodes) := by
  cases nodes with
  | nil => trivial
  | cons node rest =>
      refine ⟨fun narrow => ?_, linked_widen _ rest⟩
      simpa using narrow

theorem map_body_relink (prev : Nat) (nodes : List ZipNode)
    : (relink prev nodes).map ZipNode.body = nodes.map ZipNode.body := by
  cases nodes with
  | nil => rfl
  | cons node rest => simp [relink, map_body_widen]

theorem length_relink (prev : Nat) (nodes : List ZipNode)
    : (relink prev nodes).length = nodes.length := by
  cases nodes with
  | nil => rfl
  | cons node rest => simp [relink]

/-- The entry behind a change gets its field, and the cascade settles the rest. -/
theorem relink_settles (len : Nat) (fresh : Nat → UInt8)
    (stale : Stale size tail front prev { node with wide := !(prev < zipBigLen) } node.rawLength
      rest)
    : CascadeEnds
        (if fieldDiff prev node ≠ 0 then
          ziplistCascadeUpdate fresh
            (staleBlock size tail len front prev { node with wide := !(prev < zipBigLen) }
              node.rawLength rest)
            (10 + front.length)
        else
          pure (staleBlock size tail len front prev { node with wide := !(prev < zipBigLen) }
            node.rawLength rest))
        len front prev { node with wide := !(prev < zipBigLen) } rest := by
  split
  · exact cascadeUpdate_ends fresh stale
  · rename_i same
    have lengths := rawLength_refit prev node
    have equal : node.rawLength = ZipNode.rawLength { node with wide := !(prev < zipBigLen) } := by
      simp only [ne_eq, not_not] at same
      omega
    have word := stale.word
    have linked := stale.linked
    rw [stale.sized] at word
    rw [equal] at linked
    rw [stale.sized, stale.tailed, equal]
    exact CascadeEnds.of_linked linked word

theorem ziplistAdjustTail_ok {old tail' : Nat} {nextdiff : Int}
    (fits : node.wide = false → prev < zipBigLen) (prevWord : prev < 2 ^ 32)
    (nodeWord : node.rawLength < 2 ^ 32) (reads : node.Reads) (linked : Linked old rest)
    (tailWord : tail < 2 ^ 32) (last : rest = [] → tail' = tail)
    (inner : rest ≠ [] → ((tail : Int) + nextdiff) % 2 ^ 32 = tail')
    : ziplistAdjustTail (staleBlock size tail len front prev node old rest) (10 + front.length)
        nextdiff
      = .ok (staleBlock size tail' len front prev node old rest) := by
  have split
      : staleBlock size tail len front prev node old rest
        = ziplistBlock size tail len front ++ (prevField node.wide prev ++ node.body)
          ++ (chainBytes old rest ++ [zipEnd]) := by
    simp [staleBlock, ziplistBlock_append]
  obtain ⟨entry, read, _, _, rawlen⟩ :=
    zipEntry_ok (p := 10 + front.length) split (by simp) fits prevWord reads nodeWord
  rw [ziplistAdjustTail, read, ok_andThen]
  cases rest with
  | nil =>
      rw [rawlen, readByte_after_last, ok_andThen, if_neg (by simp), last rfl]
      rfl
  | cons next others =>
      obtain ⟨first, read', inside⟩ := readByte_after_inner linked.1
      rw [show entry.rawlen = node.rawLength from rawlen, read', ok_andThen, if_pos inside,
        staleBlock, ziplistTailOffset_block tailWord, ok_andThen]
      exact setTailOffset_block (inner (by simp))

end Relink

def nodesBlock (len : Nat) (nodes : List ZipNode) : List UInt8 :=
  ziplistBlock (11 + chainSize nodes) (10 + chainSize nodes.dropLast) len
    (chainBytes 0 nodes ++ [zipEnd])

theorem staleBlock_eq_nodesBlock {len size tail : Nat} {before rest : List ZipNode} {cur : ZipNode}
    (sized : size = 11 + chainSize (before ++ cur :: rest))
    (tailed : tail = 10 + chainSize (before ++ cur :: rest).dropLast)
    : staleBlock size tail len (chainBytes 0 before) (lastLength 0 before) cur cur.rawLength rest
      = nodesBlock len (before ++ cur :: rest) := by
  simp [staleBlock, nodesBlock, sized, tailed, chainBytes_append, chainBytes]

theorem dropLast_append_cons (before rest : List ZipNode) (cur : ZipNode)
    : (before ++ cur :: rest).dropLast = before ++ (cur :: rest).dropLast :=
  List.dropLast_append_of_ne_nil (by simp)

end Redis
