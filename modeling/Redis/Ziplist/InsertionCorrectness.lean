import Redis.Ziplist.Deletion
import Redis.Ziplist.Insertion

/-! When inserting an entry into a ziplist is correct. -/

namespace Redis

open Redis.Library

section Uniqueness

variable {node other : ZipNode} {nodes others : List ZipNode} {prev : Nat}

theorem prevField_unique {wide wide' : Bool} {rest rest' : List UInt8}
    (fits : wide = false → prev < zipBigLen) (fits' : wide' = false → prev < zipBigLen)
    (same : prevField wide prev ++ rest = prevField wide' prev ++ rest')
    : wide = wide' ∧ rest = rest' := by
  obtain ⟨first, more, field, _, narrow, _⟩ := prevField_cons fits
  obtain ⟨first', more', field', _, narrow', _⟩ := prevField_cons fits'
  have heads : first = first' := by
    rw [field, field', List.cons_append, List.cons_append, List.cons.injEq] at same
    exact same.1
  have widths : wide = wide' := by
    rw [heads] at narrow
    have both := narrow.symm.trans narrow'
    cases wide <;> cases wide' <;> simp_all
  subst widths
  exact ⟨rfl, List.append_cancel_left same⟩

theorem ZipNode.Reads.unique {rest rest' : List UInt8} (reads : node.Reads)
    (reads' : other.Reads) (same : node.body ++ rest = other.body ++ rest')
    : node.body = other.body ∧ rest = rest' := by
  obtain ⟨encoding, lensize, len, decoded, total⟩ := reads
  obtain ⟨encoding', lensize', len', decoded', total'⟩ := reads'
  have first := zipDecodeLength_within decoded [] rest
  have second := zipDecodeLength_within decoded' [] rest'
  rw [List.nil_append, same] at first
  rw [List.nil_append] at second
  cases first.symm.trans second
  exact List.append_inj same (total.symm.trans total')

theorem chainBytes_unique (linked : Linked prev nodes) (linked' : Linked prev others)
    (readable : Readable nodes) (reads : ∀ other ∈ others, other.Reads)
    (count : nodes.length = others.length)
    (same : chainBytes prev nodes = chainBytes prev others)
    : nodes = others := by
  induction nodes generalizing others prev with
  | nil => exact (List.eq_nil_of_length_eq_zero count.symm).symm
  | cons node rest ih =>
      cases others with
      | nil => cases count
      | cons other rest' =>
          rw [chainBytes, chainBytes, List.append_assoc, List.append_assoc] at same
          obtain ⟨wide, bodies⟩ := prevField_unique linked.1 linked'.1 same
          have equal (body : node.body = other.body) : node = other := by
            cases node
            cases other
            simp_all
          cases rest with
          | nil =>
              have none := List.eq_nil_of_length_eq_zero (Nat.succ.inj count).symm
              rw [none, chainBytes, chainBytes, List.append_nil, List.append_nil] at bodies
              rw [none, equal bodies]
          | cons next more =>
              obtain ⟨body, tails⟩ := readable.1.unique (reads other (by simp)) bodies
              obtain rfl := equal body
              have restSame :=
                ih linked.2 linked'.2 readable.2
                  (fun entry member => reads entry (by simp [member]))
                  (Nat.succ.inj count) tails
              rw [restSame]

end Uniqueness

section AtEnd

variable {nodes : List ZipNode} {s : List UInt8} {len : Nat}

theorem ziplistPrevLength_end (linked : Linked 0 nodes) (reads : ∀ node ∈ nodes, node.Reads)
    (word : 11 + chainSize nodes < 2 ^ 32)
    : ziplistPrevLength (nodesBlock len nodes) (10 + chainSize nodes)
      = .ok (lastLength 0 nodes) := by
  have atEnd := readByte_end len nodes
  have shorter : chainSize nodes.dropLast ≤ chainSize nodes := by
    rcases eq_or_ne nodes [] with rfl | some
    · exact le_rfl
    · exact (chainSize_dropLast_lt some).le
  have tail : ziplistTailOffset (nodesBlock len nodes) = .ok (10 + chainSize nodes.dropLast) :=
    ziplistTailOffset_block (by omega)
  rw [ziplistPrevLength, atEnd, ok_andThen, if_neg (by simp), tail, ok_andThen]
  rcases List.eq_nil_or_concat nodes with rfl | ⟨before, last, rfl⟩
  · rw [show ([] : List ZipNode).dropLast = [] from rfl, atEnd]
    rfl
  · rw [List.concat_eq_append] at linked reads word ⊢
    obtain ⟨first, read, inside⟩ := readByte_entry len linked
    have length
        : zipRawEntryLength (nodesBlock len (before ++ [last])) (10 + chainSize before)
          = .ok last.rawLength := by
      rw [chainSize_append, chainSize] at word
      exact zipRawEntryLength_ok (nodesBlock_split len before [] last) (by simp)
        (linked_append.mp linked).2.1 (reads last (by simp)) (by omega)
    rw [List.dropLast_concat, read, ok_andThen, if_pos inside, length, lastLength_append]
    rfl

theorem ziplistInsertAt_end (fresh : Nat → UInt8) (linked : Linked 0 nodes)
    (reads : ∀ node ∈ nodes, node.Reads)
    (word : 11 + chainSize (nodes ++ [newNode (lastLength 0 nodes) s]) < 2 ^ 32)
    (counted : len = nodes.length ∨ len = 2 ^ 16 - 1) (lenWord : len ≤ 2 ^ 16 - 1)
    : ∃ next,
        ziplistInsertAt fresh (nodesBlock len nodes) (10 + chainSize nodes) s = .ok next
        ∧ BlockOf next (nodes ++ [newNode (lastLength 0 nodes) s]) := by
  obtain ⟨req, reqEq⟩ : ∃ req, req = (newNode (lastLength 0 nodes) s).rawLength := ⟨_, rfl⟩
  have positive := (newNode (lastLength 0 nodes) s).rawLength_pos
  rw [← reqEq] at positive
  rw [chainSize_append, chainSize, ← reqEq, chainSize] at word
  obtain ⟨kept, resized, keptLength, keeps⟩ :=
    ziplistResize_block fresh (11 + chainSize nodes) (10 + chainSize nodes.dropLast) len
      (chainBytes 0 nodes ++ [zipEnd]) (show 11 ≤ 11 + chainSize nodes + req by omega) (by omega)
  rw [List.take_of_length_le (by simp; omega)] at keeps
  obtain ⟨junk, keptEq⟩ := keeps
  have size : ziplistBytes (nodesBlock len nodes) = .ok (11 + chainSize nodes) :=
    ziplistBytes_block (by omega)
  have grown : (((11 + chainSize nodes : Nat) : Int) + req + 0).toNat
      = 11 + chainSize nodes + req := by
    omega
  -- The old end byte is still where it was and sends the run into the branch for the end.
  have split
      : ziplistBlock (11 + chainSize nodes + req) (10 + chainSize nodes.dropLast) len
          (kept ++ [zipEnd])
        = ziplistBlock (11 + chainSize nodes + req) (10 + chainSize nodes.dropLast) len
            (chainBytes 0 nodes)
          ++ zipEnd :: (junk ++ [zipEnd]) := by
    rw [← keptEq]
    simp [ziplistBlock_append]
  have opened
      : ziplistOpenGap
          (ziplistBlock (11 + chainSize nodes + req) (10 + chainSize nodes.dropLast) len
            (kept ++ [zipEnd]))
          (11 + chainSize nodes) (10 + chainSize nodes) req 0
        = .ok (ziplistBlock (11 + chainSize nodes + req) (10 + chainSize nodes) len
            (kept ++ [zipEnd])) := by
    have read
        : readByte
            (ziplistBlock (11 + chainSize nodes + req) (10 + chainSize nodes.dropLast) len
              (kept ++ [zipEnd]))
            (10 + chainSize nodes)
          = .ok zipEnd := readByte_split split (by simp)
    have tailSet
        : setTailOffset
            (ziplistBlock (11 + chainSize nodes + req) (10 + chainSize nodes.dropLast) len
              (kept ++ [zipEnd]))
            ((10 + chainSize nodes : Nat) : Int)
          = .ok (ziplistBlock (11 + chainSize nodes + req) (10 + chainSize nodes) len
              (kept ++ [zipEnd])) :=
      setTailOffset_block (by omega)
    rw [ziplistOpenGap, read, ok_andThen, if_neg (by simp), tailSet]
  have content
      : kept ++ [zipEnd]
        = chainBytes 0 nodes ++ kept.drop (chainSize nodes)
          ++ (chainBytes (newNode (lastLength 0 nodes) s).rawLength [] ++ [zipEnd]) := by
    have front : kept.drop (chainSize nodes) = zipEnd :: junk := by
      rw [← keptEq, List.append_assoc, List.drop_left' (by simp)]
      rfl
    rw [front, ← keptEq]
    simp [chainBytes]
  rw [ziplistInsertAt, size, ok_andThen, ziplistPrevLength_end linked reads (by omega), ok_andThen,
    zipRequiredLength_eq, ← reqEq]
  dsimp only
  rw [readByte_end, ok_andThen, if_neg (by simp), pure_bind, grown, nodesBlock, resized, ok_andThen,
    opened, ok_andThen, if_neg (by simp), pure_bind, content]
  refine insertion_finishes ?_ ?_ ?_ ?_ lenWord
  · rw [List.length_drop, ← reqEq]
    omega
  · rw [chainSize_append, chainSize, chainSize, ← reqEq]
    omega
  · rw [List.dropLast_concat]
  · rwa [List.append_nil]

end AtEnd

section InFront

variable {before rest : List ZipNode} {node : ZipNode} {s : List UInt8} {len req : Nat}

theorem fieldDiff_squeezed (wide : node.wide = true) (short : req < 4)
    : fieldDiff req node = -4 := by
  have small : req < zipBigLen := by
    unfold zipBigLen
    omega
  simp [fieldDiff, wide, small, prevSize]

theorem fieldDiff_grows (positive : 0 < req) (grows : ¬ (node.wide = true ∧ req < 4))
    : 0 ≤ req + fieldDiff req node := by
  rcases fieldDiff_cases req node with small | same | large
  · rcases Nat.lt_or_ge req 4 with short | long
    · have narrow : node.wide = false := by
        cases wide : node.wide with
        | false => rfl
        | true => exact absurd ⟨wide, short⟩ grows
      simp only [fieldDiff, narrow, prevSize] at small
      split at small <;> simp at small
    · omega
  · omega
  · omega

theorem ziplistInsertAt_grows (fresh : Nat → UInt8)
    (reqEq : req = (newNode (lastLength 0 before) s).rawLength)
    (linked : Linked 0 (before ++ node :: rest)) (reads : ∀ entry ∈ node :: rest, entry.Reads)
    (oldWord : 11 + chainSize (before ++ node :: rest) < 2 ^ 32)
    (word : 11 + (chainSize before + (req + chainSize (relink req (node :: rest)))) < 2 ^ 32)
    (counted : len = (before ++ node :: rest).length ∨ len = 2 ^ 16 - 1)
    (lenWord : len ≤ 2 ^ 16 - 1)
    (grows : ¬ (node.wide = true ∧ req < 4))
    : InsertionEnds
        (ziplistInsertAt fresh (nodesBlock len (before ++ node :: rest)) (10 + chainSize before) s)
        before (node :: rest) s := by
  have positive : 0 < req := by
    rw [reqEq]
    exact ZipNode.rawLength_pos _
  have diff := fieldDiff_grows positive grows
  have lengths := rawLength_refit req node
  have fitted := chainSize_refit_le req node rest
  obtain ⟨size, sizeEq⟩
      : ∃ size,
          size = 11 + (chainSize before + req
            + chainSize ({ node with wide := !(req < zipBigLen) } :: rest)) := ⟨_, rfl⟩
  have grown : 11 + chainSize (before ++ node :: rest) ≤ size := by
    rw [sizeEq, chainSize_append, chainSize, chainSize]
    omega
  obtain ⟨stuff, extra, resized, length, content⟩ :=
    resize_grows fresh len before rest node (show size < 2 ^ 32 by omega) grown
  rw [ziplistInsertAt_before fresh reqEq linked oldWord, ← sizeEq, resized, ok_andThen, ← length,
    Nat.add_comm stuff.length]
  refine insertResized_ends fresh reqEq content ?_ (linked_append.mp linked).2.1
    (linked_append.mp linked).2.2 word oldWord ?_ (Readable.of_reads reads) counted lenWord
  · rw [chainSize, ZipNode.rawLength] at sizeEq
    dsimp only at sizeEq
    omega
  · rw [dropLast_append_cons, chainSize_append]

theorem ziplistInsertAt_spoils (fresh : Nat → UInt8)
    (reqEq : req = (newNode (lastLength 0 before) s).rawLength)
    (linked : Linked 0 (before ++ node :: rest))
    (valued : ∀ entry ∈ node :: rest, (zipValue entry.body).isSome = true)
    (oldWord : 11 + chainSize (before ++ node :: rest) < 2 ^ 32)
    (word : 11 + (chainSize before + (req + chainSize (relink req (node :: rest)))) < 2 ^ 32)
    (counted : len = (before ++ node :: rest).length ∨ len = 2 ^ 16 - 1)
    (lenWord : len ≤ 2 ^ 16 - 1)
    (wide : node.wide = true) (three : req = 3)
    : InsertionEnds
        (ziplistInsertAt fresh (nodesBlock len (before ++ node :: rest)) (10 + chainSize before) s)
        before (spoilLast (node :: rest)) s := by
  have diff := fieldDiff_squeezed wide (show req < 4 by omega)
  have lengths := rawLength_refit req node
  have bodies := body_ne_nil valued
  obtain ⟨size, sizeEq⟩
      : ∃ size,
          size = 11 + (chainSize before + req
            + chainSize ({ node with wide := !(req < zipBigLen) } :: rest)) := ⟨_, rfl⟩
  have shrinks : 11 + chainSize (before ++ node :: rest) = size + 1 := by
    rw [sizeEq, chainSize_append, chainSize, chainSize]
    omega
  obtain ⟨stuff, resized, length, content⟩ :=
    resize_spoils fresh len before (List.cons_ne_nil node rest) bodies (show size < 2 ^ 32 by omega)
      shrinks
  have sizes := chainSize_spoilLast bodies
  have grown : chainSize (spoilLast (relink req (node :: rest)))
      = chainSize (relink req (node :: rest)) := by
    refine chainSize_spoilLast fun entry member => ?_
    have body : entry.body ∈ (node :: rest).map ZipNode.body := by
      rw [← map_body_relink req]
      exact List.mem_map_of_mem member
    obtain ⟨entry', member', same⟩ := List.mem_map.mp body
    rw [← same]
    exact bodies entry' member'
  have readable := readable_spoilLast valued
  have links := (linked_append.mp linked).2.spoilLast
  have before' := dropLast_spoilLast (node :: rest)
  have count := length_spoilLast (node :: rest)
  have relinked := relink_spoilLast bodies req
  obtain ⟨node', rest', spoiled, wide', raw'⟩ := spoilLast_cons (bodies node (by simp)) rest
  rw [spoiled] at content sizes readable links before' count relinked ⊢
  have diff' : fieldDiff req node' = fieldDiff req node := by
    rw [fieldDiff, fieldDiff, wide']
  have whole : chainSize (before ++ node' :: rest') = chainSize (before ++ node :: rest) := by
    rw [chainSize_append, chainSize_append, sizes]
  have bytes
      : chainBytes 0 before ++ prevField node'.wide (lastLength 0 before)
          ++ (node'.body ++ chainBytes node'.rawLength rest') ++ []
        = stuff ++ [zipEnd] := by
    rw [← content]
    simp [chainBytes]
  rw [ziplistInsertAt_before fresh reqEq linked oldWord, ← sizeEq, resized, ok_andThen, ← length,
    Nat.add_comm stuff.length, ← diff', ← whole]
  refine insertResized_ends fresh reqEq bytes ?_ links.1 links.2 ?_ ?_ ?_ readable ?_ lenWord
  · rw [chainSize, ZipNode.rawLength] at sizeEq
    rw [chainSize, chainSize, raw'] at sizes
    rw [ZipNode.rawLength, ZipNode.rawLength, wide'] at raw'
    dsimp only at sizeEq
    omega
  · rw [relinked, grown]
    exact word
  · rwa [whole]
  · rw [dropLast_append_cons, chainSize_append, before']
  · rw [List.length_append, count, ← List.length_append]
    exact counted

theorem ziplistInsertAt_fails (len : Nat) (fresh : Nat → UInt8)
    (reqEq : req = (newNode (lastLength 0 before) s).rawLength)
    (linked : Linked 0 (before ++ node :: rest)) (some : node.body ≠ [])
    (word : 11 + chainSize (before ++ node :: rest) < 2 ^ 32)
    (wide : node.wide = true) (two : req = 2)
    : ∃ fault,
        ziplistInsertAt fresh (nodesBlock len (before ++ node :: rest)) (10 + chainSize before) s
          = .error fault := by
  have diff := fieldDiff_squeezed wide (show req < 4 by omega)
  have lengths := rawLength_refit req node
  have body := List.length_pos_of_ne_nil some
  have raw : node.rawLength = 5 + node.body.length := by
    rw [ZipNode.rawLength, wide]
    rfl
  obtain ⟨size, sizeEq⟩
      : ∃ size,
          size = 11 + (chainSize before + req
            + chainSize ({ node with wide := !(req < zipBigLen) } :: rest)) := ⟨_, rfl⟩
  have shrinks : size + 2 = 11 + chainSize (before ++ node :: rest) := by
    rw [sizeEq, chainSize_append, chainSize, chainSize]
    omega
  rw [chainSize_append, chainSize] at shrinks
  obtain ⟨kept, resized, keptLength, keeps⟩ :=
    ziplistResize_block fresh (11 + chainSize (before ++ node :: rest))
      (10 + chainSize (before ++ node :: rest).dropLast) len
      (chainBytes 0 (before ++ node :: rest) ++ [zipEnd]) (show 11 ≤ size by omega)
      (by rw [chainSize_append, chainSize] at word; omega)
  -- The first byte of the entry is still there.
  have bytes
      : chainBytes 0 (before ++ node :: rest) ++ [zipEnd]
        = (chainBytes 0 before ++ [UInt8.ofNat zipBigLen])
          ++ (leBytes 4 (lastLength 0 before) ++ node.body ++ chainBytes node.rawLength rest
            ++ [zipEnd]) := by
    simp [chainBytes_append, chainBytes, prevField, wide]
  have front : chainBytes 0 before ++ [UInt8.ofNat zipBigLen] <+: kept := by
    refine List.IsPrefix.trans ?_ keeps
    rw [bytes, List.take_append, List.take_of_length_le (by simp; omega)]
    exact List.prefix_append _ _
  obtain ⟨more, keptEq⟩ := front
  have read
      : readByte
          (ziplistBlock size (10 + chainSize (before ++ node :: rest).dropLast) len
            (kept ++ [zipEnd]))
          (10 + chainSize before)
        = .ok (UInt8.ofNat zipBigLen) := by
    have split
        : ziplistBlock size (10 + chainSize (before ++ node :: rest).dropLast) len
          (kept ++ [zipEnd])
          = ziplistBlock size (10 + chainSize (before ++ node :: rest).dropLast) len
              (chainBytes 0 before)
            ++ UInt8.ofNat zipBigLen :: (more ++ [zipEnd]) := by
      rw [← keptEq]
      simp [ziplistBlock_append]
    exact readByte_split split (by simp)
  have outside
      : moveBytes
          (ziplistBlock size (10 + chainSize (before ++ node :: rest).dropLast) len
            (kept ++ [zipEnd]))
          (10 + chainSize before + req)
          (((10 + chainSize before : Nat) : Int) - fieldDiff req node).toNat
          (((11 + chainSize (before ++ node :: rest) : Nat) : Int)
            - (10 + chainSize before : Nat) - 1 + fieldDiff req node).toNat
        = .error .outOfBounds := by
    rw [moveBytes, readBytes, if_neg]
    · rfl
    · rw [chainSize_append, chainSize]
      simp only [length_ziplistBlock, List.length_append, List.length_singleton]
      omega
  refine ⟨.outOfBounds, ?_⟩
  rw [ziplistInsertAt_before fresh reqEq linked word, ← sizeEq, nodesBlock, resized, ok_andThen,
    insertResized, ziplistOpenGap, read, ok_andThen, if_pos (by decide), ← reqEq, outside]
  rfl

end InFront

-- Correctness

def insertNodes (nodes : List ZipNode) (index : Nat) (s : List UInt8) : List ZipNode :=
  let new := newNode (lastLength 0 (nodes.take index)) s
  nodes.take index ++ new :: relink new.rawLength (nodes.drop index)

/-- A run leaves a well-formed ziplist of the values with the new one. -/
def Inserted (run : Except Fault (List UInt8)) (values : List (List UInt8)) (index : Nat)
    (s : List UInt8)
    : Prop :=
  ∃ next nodes,
    run = .ok next ∧ ZiplistHolds next nodes (values.take index ++ s :: values.drop index)

/-- What is asked of an insertion at an entry or at the end, for any bytes that the allocator
may return.
-/
structure InsertionCorrect (zl : List UInt8) (nodes : List ZipNode)
    (values : List (List UInt8)) (index : Nat) (s : List UInt8)
    : Prop where
  insertAt : ∀ fresh,
    Inserted (ziplistInsertAt fresh zl (entryOffset nodes index) s) values index s
  insert : ∀ fresh, Inserted (ziplistInsert fresh zl (entryOffset nodes index) s) values index s
  pushHead : ∀ fresh, index = 0 → Inserted (ziplistPush fresh zl s true) values index s
  pushTail : ∀ fresh, index = nodes.length → Inserted (ziplistPush fresh zl s false) values index s

/-- The block gets smaller before its entries are moved. The entry after the new one has a
large field for a length that will be small, so that four bytes are taken off and fewer than
four are added. With two new bytes the move reads past the end of the block; with three, the
end byte overwrites the last byte of the entries.
-/
def InsertionLoses (nodes : List ZipNode) (index : Nat) (s : List UInt8) : Prop :=
  let req := (newNode (lastLength 0 (nodes.take index)) s).rawLength
  nodes[index]?.any ZipNode.wide = true
  ∧ (req = 2 ∨ req = 3 ∧ (chainBytes 0 nodes).getLast? ≠ some zipEnd)

section Correctness

variable {zl s : List UInt8} {nodes before after : List ZipNode} {values : List (List UInt8)}
  {index : Nat} {run : Except Fault (List UInt8)}

theorem length_lt_of_fits (word : 11 + chainSize (insertNodes nodes index s) < 2 ^ 32)
    : s.length < 2 ^ 32 := by
  rw [insertNodes, chainSize_append, chainSize] at word
  cases encoded : zipTryEncoding s with
  | none =>
      have data : zipData s = s := by rw [zipData, encoded]
      rw [ZipNode.rawLength, newNode, zipBody, data, List.length_append] at word
      omega
  | some result =>
      unfold zipTryEncoding at encoded
      split at encoded
      · cases encoded
      · omega

theorem texts_insertNodes (texts : nodes.map ZipNode.text = values.map some)
    (short : s.length < 2 ^ 32) (index : Nat)
    : (insertNodes nodes index s).map ZipNode.text
      = (values.take index ++ s :: values.drop index).map some := by
  have new (prev : Nat) : (newNode prev s).text = some s := zipValue_zipBody short
  rw [insertNodes, List.map_append, List.map_cons, new, map_text_eq (map_body_relink _ _),
    List.map_take, List.map_drop, texts, List.map_append, List.map_cons, List.map_take,
    List.map_drop]

theorem linked_insertNodes (linked : Linked 0 nodes) : Linked 0 (insertNodes nodes index s) := by
  rw [insertNodes, linked_append]
  refine ⟨?_, ?_, linked_relink _ _⟩
  · rw [← List.take_append_drop index nodes, linked_append] at linked
    exact linked.1
  · intro narrow
    simpa [newNode] using narrow

theorem BlockOf.holds {next : List UInt8} (block : BlockOf next (insertNodes nodes index s))
    (holds : ZiplistHolds zl nodes values)
    (word : 11 + chainSize (insertNodes nodes index s) < 2 ^ 32)
    : ZiplistHolds next (insertNodes nodes index s)
        (values.take index ++ s :: values.drop index) := by
  have texts := texts_insertNodes holds.texts (length_lt_of_fits word) index
  exact ⟨⟨block, linked_insertNodes holds.entries.linked, word, valued_of_texts texts⟩, texts⟩

theorem spoiled_holds {next : List UInt8} {others : List ZipNode} (linked : Linked 0 nodes)
    (texts : nodes.map ZipNode.text = values.map some) (block : BlockOf next (spoilLast nodes))
    (holds : ZiplistHolds next others values)
    : spoilLast nodes = nodes := by
  have valued := valued_of_texts texts
  obtain ⟨len, nextEq, _⟩ := block
  obtain ⟨len', nextEq', _⟩ := holds.entries.block
  have bytes : chainBytes 0 (spoilLast nodes) = chainBytes 0 others := by
    have blocks := congrArg (List.drop 10) (nextEq.symm.trans nextEq')
    rw [nodesBlock, nodesBlock, drop_ziplistBlock, drop_ziplistBlock] at blocks
    exact List.append_cancel_right blocks
  have count : (spoilLast nodes).length = others.length := by
    have here := congrArg List.length texts
    have there := congrArg List.length holds.texts
    simp only [List.length_map] at here there
    rw [length_spoilLast, here, there]
  have same : spoilLast nodes = others :=
    chainBytes_unique linked.spoilLast holds.entries.linked (readable_spoilLast valued)
      holds.entries.reads count bytes
  refine spoilLast_of_texts valued ?_
  rw [same, holds.texts, texts]

theorem spoilLast_eq_iff (before : List ZipNode) (some : after ≠ [])
    (bodies : ∀ node ∈ after, node.body ≠ [])
    : spoilLast after = after
      ↔ (chainBytes 0 (before ++ after)).getLast? = Option.some zipEnd := by
  have positive := List.length_pos_of_ne_nil some
  have few := length_le_chainSize after
  have nonempty : chainBytes (lastLength 0 before) after ≠ [] := by
    intro none
    have length := congrArg List.length none
    rw [length_chainBytes, List.length_nil] at length
    omega
  rw [chainBytes_append, List.getLast?_append_of_ne_nil _ nonempty]
  constructor
  · intro same
    rw [← same, chainBytes_spoilLast some bodies]
    simp
  · intro last
    exact spoilLast_eq_self bodies last

theorem InsertionEnds.holds (ends : InsertionEnds run (nodes.take index) (nodes.drop index) s)
    (holds : ZiplistHolds zl nodes values)
    (word : 11 + chainSize (insertNodes nodes index s) < 2 ^ 32)
    : ∃ next, run = .ok next
        ∧ ZiplistHolds next (insertNodes nodes index s)
            (values.take index ++ s :: values.drop index) := by
  rcases ends with ⟨next, ok, block⟩ | ⟨_, node, member, bad⟩
  · exact ⟨next, ok, BlockOf.holds block holds word⟩
  · exact absurd (holds.entries.reads node (List.mem_of_mem_drop member)) bad

theorem InsertionEnds.inserted (ends : InsertionEnds run (nodes.take index) (nodes.drop index) s)
    (holds : ZiplistHolds zl nodes values)
    (word : 11 + chainSize (insertNodes nodes index s) < 2 ^ 32)
    : Inserted run values index s := by
  obtain ⟨next, ok, held⟩ := ends.holds holds word
  exact ⟨next, _, ok, held⟩

theorem InsertionEnds.spoiled
    (ends : InsertionEnds run (nodes.take index) (spoilLast (nodes.drop index)) s)
    (holds : ZiplistHolds zl nodes values) (some : nodes.drop index ≠ [])
    (word : 11 + chainSize (insertNodes nodes index s) < 2 ^ 32)
    : Inserted run values index s ↔ (chainBytes 0 nodes).getLast? = Option.some zipEnd := by
  have valued : ∀ node ∈ nodes.drop index, (zipValue node.body).isSome = true :=
    fun node member => holds.entries.valued node (List.mem_of_mem_drop member)
  have bodies := body_ne_nil valued
  have last := spoilLast_eq_iff (nodes.take index) some bodies
  rw [List.take_append_drop] at last
  rw [← last]
  constructor
  · rintro ⟨next, others, ok, left⟩
    rcases ends with ⟨next', ok', block⟩ | ⟨⟨fault, failed⟩, _⟩
    · cases ok.symm.trans ok'
      obtain ⟨new, newEq⟩ : ∃ new, new = newNode (lastLength 0 (nodes.take index)) s := ⟨_, rfl⟩
      rw [← newEq] at block
      have relinked : relink new.rawLength (nodes.drop index) ≠ [] := by
        intro none
        have length := congrArg List.length none
        rw [length_relink, List.length_nil] at length
        exact some (List.eq_nil_of_length_eq_zero length)
      have all
          : spoilLast (insertNodes nodes index s)
            = nodes.take index ++ new :: spoilLast (relink new.rawLength (nodes.drop index)) := by
        rw [insertNodes, ← newEq, List.append_cons, spoilLast_append _ relinked, ← List.append_cons]
      rw [relink_spoilLast bodies, ← all] at block
      have texts := texts_insertNodes holds.texts (length_lt_of_fits word) index
      have stays := spoiled_holds (linked_insertNodes holds.entries.linked) texts block left
      rw [all, insertNodes, ← newEq] at stays
      have relinkedStays := (List.cons.inj (List.append_cancel_left stays)).2
      refine spoilLast_of_texts valued ?_
      rw [← map_text_eq (map_body_relink new.rawLength (spoilLast _)), relink_spoilLast bodies,
        relinkedStays, map_text_eq (map_body_relink _ _)]
    · cases ok.symm.trans failed
  · intro same
    rw [same] at ends
    exact ends.inserted holds word

theorem ziplistInsertAt_holds (fresh : Nat → UInt8) (holds : ZiplistHolds zl nodes values)
    (word : 11 + chainSize (insertNodes nodes index s) < 2 ^ 32)
    (grows : ∀ node ∈ nodes[index]?,
      ¬ (node.wide = true ∧ (newNode (lastLength 0 (nodes.take index)) s).rawLength < 4))
    : ∃ next, ziplistInsertAt fresh zl (entryOffset nodes index) s = .ok next
        ∧ ZiplistHolds next (insertNodes nodes index s)
            (values.take index ++ s :: values.drop index) := by
  obtain ⟨len, rfl, counted, lenWord⟩ := holds.entries.block
  have oldWord := holds.entries.word
  have linked := holds.entries.linked
  have atIndex : nodes[index]? = (nodes.drop index).head? := (List.head?_drop ..).symm
  rw [atIndex] at grows
  rw [entryOffset]
  cases there : nodes.drop index with
  | nil =>
      have all : nodes.take index = nodes := by
        have parts := List.take_append_drop index nodes
        rwa [there, List.append_nil] at parts
      have result : insertNodes nodes index s = nodes ++ [newNode (lastLength 0 nodes) s] := by
        rw [insertNodes, there, all]
        rfl
      obtain ⟨next, run, block⟩ :=
        ziplistInsertAt_end fresh linked holds.entries.reads (by rwa [← result]) counted lenWord
      rw [← result] at block
      exact ⟨next, by rw [all, run], block.holds holds word⟩
  | cons node rest =>
      have parts : nodes = nodes.take index ++ node :: rest := by
        rw [← there, List.take_append_drop]
      have sizes := word
      rw [insertNodes, chainSize_append, chainSize, there] at sizes
      rw [there] at grows
      have ends :=
        ziplistInsertAt_grows fresh rfl (by rwa [← parts])
          (fun entry member =>
            holds.entries.reads entry (by rw [parts]; exact List.mem_append_right _ member))
          (by rwa [← parts]) sizes (by rwa [← parts]) lenWord (grows node rfl)
      rw [← parts, ← there] at ends
      exact ends.holds holds word

theorem insertNodes_tail (nodes : List ZipNode) (s : List UInt8)
    : insertNodes nodes nodes.length s = nodes ++ [newNode (lastLength 0 nodes) s] := by
  rw [insertNodes, List.take_length, List.drop_length]
  rfl

theorem ziplistPush_holds (fresh : Nat → UInt8) (holds : ZiplistHolds zl nodes values)
    (word : 11 + chainSize (insertNodes nodes nodes.length s) < 2 ^ 32)
    : ∃ next, ziplistPush fresh zl s false = .ok next
        ∧ ZiplistHolds next (insertNodes nodes nodes.length s) (values ++ [s]) := by
  have count : nodes.length = values.length := by
    have lengths := congrArg List.length holds.texts
    simpa using lengths
  have none : nodes[nodes.length]? = none := List.getElem?_eq_none le_rfl
  obtain ⟨next, ran, held⟩ := ziplistInsertAt_holds fresh holds word (by rw [none]; exact nofun)
  rw [count, List.take_length, List.drop_length, ← count] at held
  have size : ziplistBytes zl = .ok (11 + chainSize nodes) := by
    obtain ⟨len, rfl, _⟩ := holds.entries.block
    exact ziplistBytes_block holds.entries.word
  have offset : 11 + chainSize nodes - 1 = entryOffset nodes nodes.length := by
    rw [entryOffset, List.take_length]
    omega
  refine ⟨next, ?_, held⟩
  rw [ziplistPush, size, ok_andThen, if_neg (by decide), offset, ran]

theorem ziplistInsertAt_inserts (fresh : Nat → UInt8) (holds : ZiplistHolds zl nodes values)
    (word : 11 + chainSize (insertNodes nodes index s) < 2 ^ 32)
    : Inserted (ziplistInsertAt fresh zl (entryOffset nodes index) s) values index s
      ↔ ¬ InsertionLoses nodes index s := by
  obtain ⟨req, reqEq⟩ : ∃ req, req = (newNode (lastLength 0 (nodes.take index)) s).rawLength :=
    ⟨_, rfl⟩
  by_cases squeezed : ∃ node ∈ nodes[index]?, node.wide = true ∧ req < 4
  · obtain ⟨node, atIndex, wide, short⟩ := squeezed
    obtain ⟨len, rfl, counted, lenWord⟩ := holds.entries.block
    have linked := holds.entries.linked
    have oldWord := holds.entries.word
    have valued : ∀ node ∈ nodes.drop index, (zipValue node.body).isSome = true :=
      fun node member => holds.entries.valued node (List.mem_of_mem_drop member)
    have sizes := word
    rw [insertNodes, chainSize_append, chainSize, ← reqEq] at sizes
    have two : 2 ≤ req := by
      have text := zipValue_zipBody (length_lt_of_fits word)
      obtain ⟨value, read, _⟩ := Option.map_eq_some_iff.mp text
      rw [reqEq]
      exact (reads_of_value (by rw [newNode, read]; rfl)).two_le
    unfold InsertionLoses
    dsimp only
    rw [← reqEq, Option.mem_def.mp atIndex, entryOffset]
    obtain ⟨rest, there⟩ : ∃ rest, nodes.drop index = node :: rest := by
      rw [Option.mem_def, ← List.head?_drop] at atIndex
      exact List.head?_eq_some_iff.mp atIndex
    have parts : nodes = nodes.take index ++ node :: rest := by
      rw [← there, List.take_append_drop]
    rw [there] at sizes valued
    have linked' : Linked 0 (nodes.take index ++ node :: rest) := by rwa [← parts]
    have oldWord' : 11 + chainSize (nodes.take index ++ node :: rest) < 2 ^ 32 := by rwa [← parts]
    have counted' : len = (nodes.take index ++ node :: rest).length ∨ len = 2 ^ 16 - 1 := by
      rwa [← parts]
    have lengths : req = 2 ∨ req = 3 := by omega
    rcases lengths with lost | spoiled
    · obtain ⟨fault, failed⟩ :=
        ziplistInsertAt_fails len fresh reqEq linked' (body_ne_nil valued node (by simp))
          oldWord' wide lost
      rw [← parts] at failed
      refine iff_of_false ?_ (not_not_intro ⟨wide, Or.inl lost⟩)
      rintro ⟨next, others, ok, _⟩
      cases ok.symm.trans failed
    · have ends :=
        ziplistInsertAt_spoils fresh reqEq linked' valued oldWord' sizes counted' lenWord wide
          spoiled
      rw [← parts, ← there] at ends
      rw [ends.spoiled holds (by simp [there]) word]
      simp [wide, spoiled]
  · have grows : ∀ node ∈ nodes[index]?, ¬ (node.wide = true ∧ req < 4) :=
      fun node member loses => squeezed ⟨node, member, loses⟩
    obtain ⟨next, ran, held⟩ := ziplistInsertAt_holds fresh holds word (by rwa [← reqEq])
    refine iff_of_true ⟨next, _, ran, held⟩ fun loses => ?_
    obtain ⟨node, atIndex, wide⟩ := (Option.any_eq_true _ _).mp loses.1
    refine grows node atIndex ⟨wide, ?_⟩
    rw [reqEq]
    have short := loses.2
    omega

/-- Inserting an entry is correct exactly when the block does not lose bytes that are still to
be moved.
-/
theorem ziplist_insertion_correct (holds : ZiplistHolds zl nodes values)
    (fits : 11 + chainSize (insertNodes nodes index s) < 2 ^ 32)
    : InsertionCorrect zl nodes values index s ↔ ¬ InsertionLoses nodes index s := by
  have inserts (fresh : Nat → UInt8) := ziplistInsertAt_inserts fresh holds fits
  constructor
  · intro correct
    exact (inserts fun _ => 0).mp (correct.insertAt fun _ => 0)
  · intro keeps
    have inserted (fresh : Nat → UInt8) := (inserts fresh).mpr keeps
    have size : ziplistBytes zl = .ok (11 + chainSize nodes) := by
      obtain ⟨len, rfl, _⟩ := holds.entries.block
      exact ziplistBytes_block holds.entries.word
    refine ⟨inserted, inserted, ?_, ?_⟩
    · rintro fresh rfl
      rw [ziplistPush, size, ok_andThen]
      exact inserted fresh
    · rintro fresh rfl
      have offset : 11 + chainSize nodes - 1 = entryOffset nodes nodes.length := by
        rw [entryOffset, List.take_length]
        omega
      rw [ziplistPush, size, ok_andThen, if_neg (by decide), offset]
      exact inserted fresh

/-- What is left of strings of 300, 250 and one bytes when the first is deleted: the second gets
a smaller field, so that its length fits in one byte, and the third keeps its large field.
-/
def shrunkNodes : List ZipNode :=
  [⟨false, zipBody (List.replicate 250 0x61)⟩, ⟨true, zipBody [0x35]⟩]

theorem shrunkNodes_holds
    : ZiplistHolds (nodesBlock 2 shrunkNodes) shrunkNodes [List.replicate 250 0x61, [0x35]] := by
  have texts
      : shrunkNodes.map ZipNode.text = [List.replicate 250 0x61, [0x35]].map some := by
    refine texts_of_bodies rfl ?_
    intro s member
    simp only [List.mem_cons, List.not_mem_nil, or_false] at member
    rcases member with rfl | rfl
    · rw [List.length_replicate]
      decide
    · decide
  refine ⟨⟨⟨2, rfl, by decide, by decide⟩, ?_, by decide +kernel, valued_of_texts texts⟩, texts⟩
  exact ⟨fun _ => by decide, nofun, trivial⟩

theorem ziplist_insertion_correct_shrunk
    : InsertionCorrect (nodesBlock 2 shrunkNodes) shrunkNodes [List.replicate 250 0x61, [0x35]] 1
        [0x61, 0x62, 0x63] :=
  (ziplist_insertion_correct shrunkNodes_holds (by decide +kernel)).mpr fun loses =>
    absurd loses.2 (by decide +kernel)

/-- Inserting a string of one digit in front of an entry with a large field for a length that
fits in one byte reads past the end of the block.
-/
theorem insertion_outruns_block
    : deleteNodes
          (insertNodes
            (insertNodes (insertNodes [] 0 (List.replicate 300 0x61)) 1 (List.replicate 250 0x61))
            2 [0x35])
          0 1
        = shrunkNodes
      ∧ ZiplistHolds (nodesBlock 2 shrunkNodes) shrunkNodes [List.replicate 250 0x61, [0x35]]
      ∧ 11 + chainSize (insertNodes shrunkNodes 1 [0x37]) < 2 ^ 32
      ∧ ¬ InsertionCorrect (nodesBlock 2 shrunkNodes) shrunkNodes
          [List.replicate 250 0x61, [0x35]] 1 [0x37] := by
  have fits : 11 + chainSize (insertNodes shrunkNodes 1 [0x37]) < 2 ^ 32 := by decide +kernel
  refine ⟨by decide +kernel, shrunkNodes_holds, fits, fun correct => ?_⟩
  have keeps :=
    (ziplistInsertAt_inserts (fun _ => 0) shrunkNodes_holds fits).mp (correct.insertAt _)
  exact keeps ⟨rfl, Or.inl (by decide +kernel)⟩

end Correctness

end Redis
