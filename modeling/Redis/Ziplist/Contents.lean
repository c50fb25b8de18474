import Redis.Ziplist.Cascade

/-! Well-formed ziplists, the values in them and the positions of their entries. -/

namespace Redis

open Redis.Library

/-- The text of a value: an integer stands for the string that it was made from. -/
def ZipValue.text : ZipValue → List UInt8
  | .str bytes => bytes
  | .int value => decimalText value

/-- The value of an entry, from the bytes after the field for the length of the entry before.
There is none when the length field does not fit the bytes or the encoding is unknown.
-/
def zipValue (body : List UInt8) : Option ZipValue :=
  match zipDecodeLength body 0 with
  | .error _ => none
  | .ok (encoding, lensize, len) =>
      if lensize + len = body.length then
        if zipIsStr encoding then some (.str (body.drop lensize))
        else
          match zipLoadInteger body lensize encoding with
          | .ok value => some (.int value)
          | .error _ => none
      else none

/-- A block is a well-formed ziplist of entries: the header has the size of the block, the
offset of the last entry and the number of entries or 65535, every entry has the length of the
one before it in a field that is large enough and has a value, and the end byte follows.
-/
structure ZiplistOf (zl : List UInt8) (nodes : List ZipNode) : Prop where
  block : ∃ len,
    zl = nodesBlock len nodes ∧ (len = nodes.length ∨ len = 2 ^ 16 - 1) ∧ len ≤ 2 ^ 16 - 1
  linked : Linked 0 nodes
  word : 11 + chainSize nodes < 2 ^ 32
  valued : ∀ node ∈ nodes, (zipValue node.body).isSome = true

def ZipNode.text (node : ZipNode) : Option (List UInt8) :=
  (zipValue node.body).map ZipValue.text

/-- A block is a well-formed ziplist of entries with these values. -/
structure ZiplistHolds (zl : List UInt8) (nodes : List ZipNode) (values : List (List UInt8))
    : Prop where
  entries : ZiplistOf zl nodes
  texts : nodes.map ZipNode.text = values.map some

def entryOffset (nodes : List ZipNode) (index : Nat) : Nat := 10 + chainSize (nodes.take index)

section Values

variable {node : ZipNode} {nodes : List ZipNode} {zl : List UInt8}

theorem reads_of_value (valued : (zipValue node.body).isSome = true) : node.Reads := by
  unfold zipValue at valued
  split at valued
  · cases valued
  · rename_i encoding lensize len decoded
    split at valued
    · rename_i exact
      exact ⟨encoding, lensize, len, decoded, exact⟩
    · cases valued

theorem ZiplistOf.reads (wellFormed : ZiplistOf zl nodes) : ∀ node ∈ nodes, node.Reads :=
  fun node member => reads_of_value (wellFormed.valued node member)

theorem map_text_eq {front back : List ZipNode}
    (bodies : front.map ZipNode.body = back.map ZipNode.body)
    : front.map ZipNode.text = back.map ZipNode.text := by
  have same := congrArg (List.map fun body => (zipValue body).map ZipValue.text) bodies
  rw [List.map_map, List.map_map] at same
  exact same

theorem valued_of_texts {values : List (List UInt8)}
    (texts : nodes.map ZipNode.text = values.map some)
    : ∀ node ∈ nodes, (zipValue node.body).isSome = true := by
  intro node member
  have inTexts : node.text ∈ values.map some := by
    rw [← texts]
    exact List.mem_map_of_mem member
  obtain ⟨value, _, text⟩ := List.mem_map.mp inTexts
  cases read : zipValue node.body with
  | none => simp [ZipNode.text, read] at text
  | some value => rfl

theorem ZipNode.Reads.two_le (reads : node.Reads) : 2 ≤ node.rawLength := by
  obtain ⟨encoding, lensize, len, decoded, total⟩ := reads
  have nonempty : node.body ≠ [] := by
    intro empty
    rw [empty] at decoded
    cases decoded
  have positive := prevSize_pos node.wide
  have body := List.length_pos_of_ne_nil nonempty
  unfold ZipNode.rawLength
  omega

theorem two_mul_length_le (reads : ∀ node ∈ nodes, node.Reads)
    : 2 * nodes.length ≤ chainSize nodes := by
  induction nodes with
  | nil => exact le_rfl
  | cons node rest ih =>
      have first := (reads node (by simp)).two_le
      have others := ih fun other member => reads other (by simp [member])
      simp only [List.length_cons, chainSize]
      omega

theorem zipLoadInteger_within {body : List UInt8} {offset : Nat} {encoding : UInt8} {value : Int}
    (read : zipLoadInteger body offset encoding = .ok value) (pre post : List UInt8)
    : zipLoadInteger (pre ++ body ++ post) (pre.length + offset) encoding = .ok value := by
  have load {size : Nat} {f : List UInt8 → Int}
      (run : (do let bytes ← readBytes body offset size; pure (f bytes)) = .ok value)
      : (do
          let bytes ← readBytes (pre ++ body ++ post) (pre.length + offset) size
          pure (f bytes))
        = .ok value := by
    obtain ⟨bytes, atBytes, rest⟩ := andThen_ok_iff.mp run
    rw [readBytes_within atBytes, ok_andThen]
    exact rest
  unfold zipLoadInteger at read ⊢
  split at read
  · rw [if_pos (by assumption)]
    exact load read
  rw [if_neg (by assumption)]
  split at read
  · rw [if_pos (by assumption)]
    exact load read
  rw [if_neg (by assumption)]
  split at read
  · rw [if_pos (by assumption)]
    exact load read
  rw [if_neg (by assumption)]
  split at read
  · rw [if_pos (by assumption)]
    exact load read
  rw [if_neg (by assumption)]
  split at read
  · rw [if_pos (by assumption)]
    exact load read
  rw [if_neg (by assumption)]
  exact read

theorem nodesBlock_split (len : Nat) (before rest : List ZipNode) (node : ZipNode)
    : nodesBlock len (before ++ node :: rest)
      = ziplistBlock (11 + chainSize (before ++ node :: rest))
          (10 + chainSize (before ++ node :: rest).dropLast) len (chainBytes 0 before)
        ++ (prevField node.wide (lastLength 0 before) ++ node.body)
        ++ (chainBytes node.rawLength rest ++ [zipEnd]) := by
  simp [nodesBlock, chainBytes_append, chainBytes, ziplistBlock_append]

theorem nodesBlock_field (len : Nat) (before rest : List ZipNode) (node : ZipNode)
    : nodesBlock len (before ++ node :: rest)
      = ziplistBlock (11 + chainSize (before ++ node :: rest))
          (10 + chainSize (before ++ node :: rest).dropLast) len (chainBytes 0 before)
        ++ prevField node.wide (lastLength 0 before)
        ++ (node.body ++ (chainBytes node.rawLength rest ++ [zipEnd])) := by
  rw [nodesBlock_split]
  simp

theorem readBytes_drop {body : List UInt8} {lensize len : Nat} (exact : lensize + len = body.length)
    : readBytes body lensize len = .ok (body.drop lensize) := by
  refine readBytes_split (show body = body.take lensize ++ body.drop lensize ++ [] by simp) ?_ ?_
  · rw [List.length_take]
    omega
  · rw [List.length_drop]
    omega

theorem ZiplistOf.lastWord {before rest : List ZipNode} (wellFormed : ZiplistOf zl (before ++ rest))
    : lastLength 0 before < 2 ^ 32 := by
  have bound := lastLength_le 0 before
  have word := wellFormed.word
  simp only [chainSize_append] at word
  omega

theorem ziplistGet_at {block pre post : List UInt8} {prev p : Nat} {value : ZipValue}
    (split : block = pre ++ (prevField node.wide prev ++ node.body) ++ post)
    (start : pre.length = p)
    (fits : node.wide = false → prev < zipBigLen) (word : prev < 2 ^ 32)
    (valued : zipValue node.body = some value)
    : ziplistGet block p = .ok (some value) := by
  have fieldSplit : block = pre ++ prevField node.wide prev ++ (node.body ++ post) := by
    rw [split]
    simp
  obtain ⟨first, read, inside⟩ := readByte_prevField fieldSplit start fits
  rw [ziplistGet, read, ok_andThen, if_neg inside]
  unfold zipValue at valued
  split at valued
  · cases valued
  · rename_i encoding lensize len decoded
    rw [zipEntry_eq split start fits word decoded, ok_andThen]
    split at valued
    · rename_i exact
      have position : p + (prevSize node.wide + lensize)
          = (pre ++ prevField node.wide prev).length + lensize := by
        simp [start, Nat.add_assoc]
      split
      · rename_i str
        rw [if_pos str] at valued
        rw [fieldSplit, position, ← List.append_assoc _ node.body,
          readBytes_within (readBytes_drop exact), ok_andThen]
        exact congrArg Except.ok valued
      · rename_i notStr
        rw [if_neg notStr] at valued
        split at valued
        · rename_i number loaded
          rw [fieldSplit, position, ← List.append_assoc _ node.body, zipLoadInteger_within loaded,
            ok_andThen]
          exact congrArg Except.ok valued
        · cases valued
    · cases valued

theorem ziplistGet_ok {before rest : List ZipNode}
    (wellFormed : ZiplistOf zl (before ++ node :: rest))
    : ziplistGet zl (10 + chainSize before) = .ok (zipValue node.body) := by
  obtain ⟨len, rfl, _⟩ := wellFormed.block
  have links := (linked_append.mp wellFormed.linked).2.1
  obtain ⟨value, valued⟩ := Option.isSome_iff_exists.mp (wellFormed.valued node (by simp))
  rw [valued]
  exact ziplistGet_at (nodesBlock_split len before rest node) (by simp) links wellFormed.lastWord
    valued

end Values

-- Positions

/-- The position that an index stands for: a negative one counts from the end. -/
def positionOf (count : Nat) (index : Int) : Option Nat :=
  if 0 ≤ index then if index < count then some index.toNat else none
  else if 0 ≤ count + index then some (count + index).toNat
  else none

section Positions

variable {block pre : List UInt8} {nodes before rest : List ZipNode} {node : ZipNode}
  {prev p len : Nat}

theorem readByte_chain (split : block = pre ++ chainBytes prev (node :: rest) ++ [zipEnd])
    (start : pre.length = p) (linked : Linked prev (node :: rest))
    : ∃ first, readByte block p = .ok first ∧ first ≠ zipEnd := by
  have fieldSplit
      : block
        = pre ++ prevField node.wide prev
          ++ (node.body ++ chainBytes node.rawLength rest ++ [zipEnd]) := by
    simpa [chainBytes] using split
  exact readByte_prevField fieldSplit start linked.1

theorem readByte_chain_nil (split : block = pre ++ chainBytes prev [] ++ [zipEnd])
    (start : pre.length = p)
    : readByte block p = .ok zipEnd :=
  readByte_split (by simpa [chainBytes] using split) start

theorem chain_behind_first (split : block = pre ++ chainBytes prev (node :: rest) ++ [zipEnd])
    : block
      = (pre ++ (prevField node.wide prev ++ node.body)) ++ chainBytes node.rawLength rest
        ++ [zipEnd] := by
  simpa [chainBytes] using split

theorem zipRawEntryLength_chain (split : block = pre ++ chainBytes prev (node :: rest) ++ [zipEnd])
    (start : pre.length = p) (linked : Linked prev (node :: rest)) (reads : node.Reads)
    (small : node.rawLength < 2 ^ 32)
    : zipRawEntryLength block p = .ok node.rawLength :=
  zipRawEntryLength_ok ((chain_behind_first split).trans (List.append_assoc ..)) start linked.1
    reads small

theorem ziplistIndexForward_ok (rounds index : Nat)
    (split : block = pre ++ chainBytes prev nodes ++ [zipEnd]) (start : pre.length = p)
    (linked : Linked prev nodes) (reads : ∀ node ∈ nodes, node.Reads)
    (word : chainSize nodes < 2 ^ 32) (enough : nodes.length < rounds)
    : ∃ left,
        ziplistIndexForward block rounds p index = .ok (p + chainSize (nodes.take index), left)
        ∧ (index < nodes.length → left = -1) := by
  induction rounds generalizing nodes pre prev p index with
  | zero => exact absurd enough (Nat.not_lt_zero _)
  | succ rounds ih =>
      cases nodes with
      | nil =>
          refine ⟨index, ?_, fun inside => absurd inside (Nat.not_lt_zero _)⟩
          rw [ziplistIndexForward, readByte_chain_nil split start, ok_andThen, if_neg (by simp)]
          simp [chainSize]
      | cons node rest =>
          obtain ⟨first, read, inside⟩ := readByte_chain split start linked
          rw [ziplistIndexForward, read, ok_andThen, if_pos inside]
          cases index with
          | zero => exact ⟨-1, by simp [chainSize], fun _ => rfl⟩
          | succ index =>
              simp only [chainSize] at word
              have length :=
                zipRawEntryLength_chain split start linked (reads node (by simp)) (by omega)
              obtain ⟨left, walked, exact⟩ :=
                ih index (chain_behind_first split) (p := p + node.rawLength)
                  (by simp [start, ZipNode.rawLength])
                  linked.2 (fun other member => reads other (by simp [member])) (by omega)
                  (Nat.lt_of_succ_lt_succ enough)
              refine ⟨left, ?_, fun inside => exact (Nat.lt_of_succ_lt_succ inside)⟩
              rw [if_pos (by omega), length, ok_andThen,
                show ((index + 1 : Nat) : Int) - 1 = index by omega, walked]
              simp [chainSize, Nat.add_assoc]

theorem ziplistIndexBackward_ok (len rounds index : Nat)
    (linked : Linked 0 (before ++ node :: rest))
    (word : 11 + chainSize (before ++ node :: rest) < 2 ^ 32) (enough : before.length < rounds)
    : ∃ left,
        ziplistIndexBackward (nodesBlock len (before ++ node :: rest)) rounds
            (10 + chainSize before) (lastLength 0 before) index
          = .ok (10 + chainSize (before.take (before.length - index)), left)
        ∧ (left > 0 ↔ before.length < index) := by
  induction rounds generalizing before node rest index with
  | zero => exact absurd enough (Nat.not_lt_zero _)
  | succ rounds ih =>
      rw [ziplistIndexBackward]
      rcases List.eq_nil_or_concat before with rfl | ⟨init, last, rfl⟩
      · exact ⟨index, by simp [lastLength], by simp⟩
      · have regroup : init.concat last ++ node :: rest = init ++ last :: (node :: rest) := by simp
        rw [regroup] at linked word ⊢
        have lastEq : lastLength 0 (init.concat last) = last.rawLength := by
          simp [lastLength_append, lastLength]
        have sizeEq : chainSize (init.concat last) = chainSize init + last.rawLength := by
          simp [chainSize]
        rw [lastEq, if_pos last.rawLength_pos, sizeEq]
        cases index with
        | zero =>
            refine ⟨-1, ?_, by simp⟩
            rw [if_neg (by simp), Nat.sub_zero, List.take_length, sizeEq]
            rfl
        | succ index =>
            have bound := lastLength_le 0 init
            have prevWord : lastLength 0 init < 2 ^ 32 := by
              simp only [chainSize_append] at word
              omega
            have decoded :=
              zipDecodePrevLen_ok (p := 10 + chainSize init)
                (nodesBlock_field len init (node :: rest) last)
                (by simp)
                (linked_append.mp linked).2.1 prevWord
            obtain ⟨left, walked, past⟩ :=
              ih index linked word (by simpa using enough)
            refine ⟨left, ?_, by simpa using past⟩
            rw [if_pos (by omega), show 10 + (chainSize init + last.rawLength) - last.rawLength
              = 10 + chainSize init by omega]
            dsimp only
            rw [decoded, ok_andThen, show ((index + 1 : Nat) : Int) - 1 = index by omega]
            dsimp only
            rw [walked, List.concat_eq_append, List.length_append, List.length_singleton,
              Nat.add_sub_add_right, List.take_append_of_le_length (Nat.sub_le _ _)]

variable {zl : List UInt8}

theorem readByte_end (len : Nat) (nodes : List ZipNode)
    : readByte (nodesBlock len nodes) (10 + chainSize nodes) = .ok zipEnd := by
  have split
      : nodesBlock len nodes
        = ziplistBlock (11 + chainSize nodes) (10 + chainSize nodes.dropLast) len
            (chainBytes 0 nodes) ++ zipEnd :: [] := by
    simp [nodesBlock, ziplistBlock_append]
  exact readByte_split split (by simp)

theorem readByte_entry (len : Nat) (linked : Linked 0 (before ++ node :: rest))
    : ∃ first,
        readByte (nodesBlock len (before ++ node :: rest)) (10 + chainSize before) = .ok first
        ∧ first ≠ zipEnd := by
  exact readByte_prevField (nodesBlock_field len before rest node) (by simp)
    (linked_append.mp linked).2.1

theorem entry_at {index : Nat} (inside : index < nodes.length)
    : ∃ before node rest,
        nodes = before ++ node :: rest ∧ before.length = index ∧ nodes.take index = before := by
  refine ⟨nodes.take index, nodes[index], nodes.drop (index + 1), ?_, ?_, rfl⟩
  · rw [← List.drop_eq_getElem_cons inside, List.take_append_drop]
  · rw [List.length_take]
    omega

theorem toInt_neg_sub_one (index : Int32) : (-index - 1).toInt = -index.toInt - 1 := by
  have low := index.le_toInt
  have high := index.toInt_lt
  rw [Int32.toInt_sub, Int32.toInt_neg, show (1 : Int32).toInt = 1 from rfl, Int.bmod_sub_bmod]
  apply Int.bmod_eq_of_le_mul_two <;> omega

theorem readByte_inside {count : Nat} (len : Nat) (linked : Linked 0 nodes)
    (inside : count < nodes.length)
    : ∃ first,
        readByte (nodesBlock len nodes) (10 + chainSize (nodes.take count)) = .ok first
        ∧ first ≠ zipEnd := by
  obtain ⟨before, node, rest, rfl, _, taken⟩ := entry_at inside
  rw [taken]
  exact readByte_entry len linked

theorem index_found {count : Nat} {left : Int} (linked : Linked 0 nodes)
    (inside : count < nodes.length) (found : left ≤ 0)
    : (do
        if (← readByte (nodesBlock len nodes) (10 + chainSize (nodes.take count))) = zipEnd
            ∨ left > 0 then
          pure none
        else pure (some (10 + chainSize (nodes.take count))))
      = (.ok (some (entryOffset nodes count)) : Except Fault (Option Nat)) := by
  obtain ⟨first, read, notEnd⟩ := readByte_inside len linked inside
  rw [read, ok_andThen, if_neg]
  · rfl
  · rintro (atEnd | more)
    · exact notEnd atEnd
    · omega

/-- `ziplistIndex` finds the entry of an index, from either end. -/
theorem ziplistIndex_ok (wellFormed : ZiplistOf zl nodes) (index : Int32)
    : ziplistIndex zl index
      = .ok ((positionOf nodes.length index.toInt).map (entryOffset nodes)) := by
  obtain ⟨len, rfl, _⟩ := id wellFormed.block
  have few := two_mul_length_le wellFormed.reads
  have word := wellFormed.word
  have low := index.le_toInt
  have high := index.toInt_lt
  have sized : ziplistBytes (nodesBlock len nodes) = .ok (11 + chainSize nodes) :=
    ziplistBytes_block word
  rw [ziplistIndex, sized, ok_andThen]
  split
  · rename_i backward
    have negative : index.toInt < 0 := by
      rw [Int32.lt_iff_toInt_lt] at backward
      simpa using backward
    obtain ⟨count, countEq⟩ : ∃ count : Nat, -index.toInt - 1 = count :=
      Int.eq_ofNat_of_zero_le (by omega)
    dsimp only
    rw [toInt_neg_sub_one, countEq]
    rcases List.eq_nil_or_concat nodes with rfl | ⟨before, last, rfl⟩
    · have tailRead : ziplistTailOffset (nodesBlock len []) = .ok 10 :=
        ziplistTailOffset_block (by decide)
      have atEnd : readByte (nodesBlock len []) 10 = .ok zipEnd := readByte_end len []
      rw [tailRead, ok_andThen, atEnd, ok_andThen, if_neg (by simp), pure_bind]
      dsimp only
      rw [atEnd, ok_andThen, if_pos (Or.inl rfl), positionOf, if_neg (by omega),
        if_neg (by simp; omega)]
      rfl
    · rw [List.concat_eq_append] at wellFormed few word ⊢
      have tailRead
          : ziplistTailOffset (nodesBlock len (before ++ [last]))
            = .ok (10 + chainSize before) := by
        have read
            : ziplistTailOffset (nodesBlock len (before ++ [last]))
              = .ok (10 + chainSize (before ++ [last]).dropLast) := by
          refine ziplistTailOffset_block ?_
          have shorter := chainSize_dropLast_lt (List.append_ne_nil_of_right_ne_nil before
            (List.cons_ne_nil last []))
          omega
        rwa [List.dropLast_concat] at read
      obtain ⟨first, atLast, inside⟩ := readByte_entry len wellFormed.linked
      have bound := lastLength_le 0 before
      have decoded :=
        zipDecodePrevLen_ok (p := 10 + chainSize before) (nodesBlock_field len before [] last)
          (by simp)
          (linked_append.mp wellFormed.linked).2.1
          (by simp only [chainSize_append] at word; omega)
      have shorter := length_le_chainSize before
      obtain ⟨left, walked, past⟩ :=
        ziplistIndexBackward_ok len (11 + chainSize (before ++ [last])) count
          wellFormed.linked word (by simp only [chainSize_append]; omega)
      rw [tailRead, ok_andThen, atLast, ok_andThen, if_pos inside, decoded, ok_andThen]
      dsimp only
      rw [walked, ok_andThen]
      dsimp only
      rw [positionOf, if_neg (by omega)]
      simp only [List.length_append, List.length_singleton] at few ⊢
      have same
          : before.take (before.length - count)
            = (before ++ [last]).take (before.length - count) := by
        rw [List.take_append_of_le_length (Nat.sub_le _ _)]
      rw [same]
      rcases Nat.lt_or_ge before.length count with outside | reached
      · obtain ⟨first', read', _⟩ :=
          readByte_inside len wellFormed.linked (show before.length - count < _ by simp)
        rw [read', ok_andThen, if_pos (Or.inr (past.mpr outside)), if_neg (by omega)]
        rfl
      · rw [index_found wellFormed.linked (by simp) (by
          by_contra more
          exact absurd (past.mp (by omega)) (by omega)), if_pos (by omega)]
        congr 3
        omega
  · rename_i forward
    have nonneg : 0 ≤ index.toInt := by
      rw [Int32.lt_iff_toInt_lt] at forward
      simpa using forward
    obtain ⟨count, countEq⟩ := Int.eq_ofNat_of_zero_le nonneg
    have split
        : nodesBlock len nodes
          = ziplistBlock (11 + chainSize nodes) (10 + chainSize nodes.dropLast) len []
            ++ chainBytes 0 nodes ++ [zipEnd] := by
      simp [nodesBlock, ziplistBlock]
    obtain ⟨left, walked, exact⟩ :=
      ziplistIndexForward_ok (11 + chainSize nodes) count split (p := 10) (by simp)
        wellFormed.linked wellFormed.reads (by omega) (by omega)
    rw [countEq, show ziplistHeaderSize = 10 from rfl, walked, ok_andThen]
    dsimp only
    rw [positionOf, if_pos (by omega)]
    rcases Nat.lt_or_ge count nodes.length with inside | outside
    · rw [index_found wellFormed.linked inside (by rw [exact inside]; decide), if_pos (by omega)]
      rfl
    · rw [List.take_of_length_le outside, readByte_end, ok_andThen, if_pos (Or.inl rfl),
        if_neg (by omega)]
      rfl

end Positions

end Redis
