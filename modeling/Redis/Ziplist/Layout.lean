import Redis.Ziplist.Model

/-! The entries that a block of bytes stands for. -/

namespace Redis

open Redis.Library

/-- An entry of a ziplist: whether the length of the entry before it has a field of five
bytes, and the bytes after that field.
-/
structure ZipNode where
  wide : Bool
  body : List UInt8
deriving DecidableEq, Repr

/-- The size of a field for the length of the entry before. -/
def prevSize (wide : Bool) : Nat := if wide then 5 else 1

/-- The field for the length of the entry before. -/
def prevField (wide : Bool) (prev : Nat) : List UInt8 :=
  if wide then UInt8.ofNat zipBigLen :: leBytes 4 prev else [UInt8.ofNat prev]

def ZipNode.rawLength (node : ZipNode) : Nat := prevSize node.wide + node.body.length

/-- The bytes of entries that follow an entry of length `prev`. -/
def chainBytes : (prev : Nat) → List ZipNode → List UInt8
  | _, [] => []
  | prev, node :: rest =>
      prevField node.wide prev ++ node.body ++ chainBytes node.rawLength rest

def chainSize : List ZipNode → Nat
  | [] => 0
  | node :: rest => node.rawLength + chainSize rest

/-- The length of the entry before the one that comes next. -/
def lastLength : (prev : Nat) → List ZipNode → Nat
  | prev, [] => prev
  | _, node :: rest => lastLength node.rawLength rest

/-- Every field is large enough for the length in it. -/
def Linked : (prev : Nat) → List ZipNode → Prop
  | _, [] => True
  | prev, node :: rest => (node.wide = false → prev < zipBigLen) ∧ Linked node.rawLength rest

/-- Widening every field that is too small. -/
def widen : (prev : Nat) → List ZipNode → List ZipNode
  | _, [] => []
  | prev, node :: rest =>
      let node := { node with wide := node.wide || !(prev < zipBigLen) }
      node :: widen node.rawLength rest

section Chains

variable {prev : Nat} {nodes front back : List ZipNode}

@[simp] theorem length_prevField (wide : Bool) (prev : Nat)
    : (prevField wide prev).length = prevSize wide := by
  cases wide <;> simp [prevField, prevSize]

theorem prevSize_pos (wide : Bool) : 0 < prevSize wide := by
  cases wide <;> decide

theorem prevSize_lt_iff {wide other : Bool}
    : prevSize wide < prevSize other ↔ wide = false ∧ other = true := by
  cases wide <;> cases other <;> decide

theorem ZipNode.rawLength_pos (node : ZipNode) : 0 < node.rawLength :=
  Nat.add_pos_left (prevSize_pos node.wide) _

@[simp] theorem length_chainBytes (prev : Nat) (nodes : List ZipNode)
    : (chainBytes prev nodes).length = chainSize nodes := by
  induction nodes generalizing prev with
  | nil => rfl
  | cons node rest ih => simp [chainBytes, chainSize, ZipNode.rawLength, ih, Nat.add_assoc]

theorem chainBytes_append (prev : Nat) (front back : List ZipNode)
    : chainBytes prev (front ++ back)
      = chainBytes prev front ++ chainBytes (lastLength prev front) back := by
  induction front generalizing prev with
  | nil => rfl
  | cons node rest ih => simp [chainBytes, lastLength, ih]

@[simp] theorem chainSize_append (front back : List ZipNode)
    : chainSize (front ++ back) = chainSize front + chainSize back := by
  induction front with
  | nil => simp [chainSize]
  | cons node rest ih => simp [chainSize, ih, Nat.add_assoc]

theorem lastLength_append (prev : Nat) (front back : List ZipNode)
    : lastLength prev (front ++ back) = lastLength (lastLength prev front) back := by
  induction front generalizing prev with
  | nil => rfl
  | cons node rest ih => simp [lastLength, ih]

theorem linked_append
    : Linked prev (front ++ back) ↔ Linked prev front ∧ Linked (lastLength prev front) back := by
  induction front generalizing prev with
  | nil => simp [Linked, lastLength]
  | cons node rest ih => simp [Linked, lastLength, ih, and_assoc]

theorem linked_widen (prev : Nat) (nodes : List ZipNode) : Linked prev (widen prev nodes) := by
  induction nodes generalizing prev with
  | nil => trivial
  | cons node rest ih =>
      refine ⟨fun narrow => ?_, ih _⟩
      simp only [Bool.or_eq_false_iff, Bool.not_eq_false', decide_eq_true_eq] at narrow
      exact narrow.2

theorem widen_of_linked (linked : Linked prev nodes) : widen prev nodes = nodes := by
  induction nodes generalizing prev with
  | nil => rfl
  | cons node rest ih =>
      obtain ⟨fits, links⟩ := linked
      obtain ⟨wide, body⟩ := node
      have kept : (wide || !(prev < zipBigLen)) = wide := by
        cases wide with
        | true => rfl
        | false => simp [fits rfl]
      simp only [widen, kept, ih links]

@[simp] theorem length_widen (prev : Nat) (nodes : List ZipNode)
    : (widen prev nodes).length = nodes.length := by
  induction nodes generalizing prev with
  | nil => rfl
  | cons node rest ih => simp [widen, ih]

theorem map_body_widen (prev : Nat) (nodes : List ZipNode)
    : (widen prev nodes).map ZipNode.body = nodes.map ZipNode.body := by
  induction nodes generalizing prev with
  | nil => rfl
  | cons node rest ih => simp [widen, ih]

theorem chainSize_le_widen (prev : Nat) (nodes : List ZipNode)
    : chainSize nodes ≤ chainSize (widen prev nodes) := by
  induction nodes generalizing prev with
  | nil => exact le_rfl
  | cons node rest ih =>
      refine Nat.add_le_add ?_ (ih _)
      unfold ZipNode.rawLength
      cases node.wide with
      | true => simp
      | false => cases decide (prev < zipBigLen) <;> simp [prevSize]

theorem chainSize_dropLast_lt (some : nodes ≠ []) : chainSize nodes.dropLast < chainSize nodes := by
  have parts := List.dropLast_append_getLast some
  have size := chainSize_append nodes.dropLast [nodes.getLast some]
  have positive := (nodes.getLast some).rawLength_pos
  rw [parts] at size
  simp only [chainSize] at size
  omega

theorem lastLength_eq (prev : Nat) (some : nodes ≠ [])
    : lastLength prev nodes + chainSize nodes.dropLast = chainSize nodes := by
  induction nodes generalizing prev with
  | nil => exact absurd rfl some
  | cons node rest ih =>
      cases rest with
      | nil => simp [lastLength, chainSize]
      | cons second others =>
          have tail := ih node.rawLength (List.cons_ne_nil second others)
          rw [List.dropLast_cons_cons, lastLength, chainSize, chainSize, ← tail]
          omega

theorem lastLength_le (prev : Nat) (nodes : List ZipNode)
    : lastLength prev nodes ≤ prev + chainSize nodes := by
  induction nodes generalizing prev with
  | nil => exact Nat.le_add_right _ _
  | cons node rest ih =>
      have tail := ih node.rawLength
      simp only [lastLength, chainSize]
      omega

theorem lastLength_zero (nodes : List ZipNode)
    : lastLength 0 nodes + chainSize nodes.dropLast = chainSize nodes := by
  cases nodes with
  | nil => rfl
  | cons node rest => exact lastLength_eq 0 (by simp)

end Chains

section Reading

variable {mid : List UInt8} {offset : Nat}

theorem zipDecodeLength_within {result : UInt8 × Nat × Nat}
    (read : zipDecodeLength mid offset = .ok result) (pre post : List UInt8)
    : zipDecodeLength (pre ++ mid ++ post) (pre.length + offset) = .ok result := by
  unfold zipDecodeLength at read ⊢
  obtain ⟨first, atFirst, read⟩ := andThen_ok_iff.mp read
  rw [readByte_within atFirst, ok_andThen]
  dsimp only at read ⊢
  split at read
  · rw [if_pos (by assumption)]
    split at read
    · rw [if_pos (by assumption)]
      exact read
    · rw [if_neg (by assumption)]
      split at read
      · rw [if_pos (by assumption)]
        obtain ⟨second, atSecond, read⟩ := andThen_ok_iff.mp read
        rw [Nat.add_assoc, readByte_within atSecond, ok_andThen]
        exact read
      · rw [if_neg (by assumption)]
        split at read
        · rw [if_pos (by assumption)]
          obtain ⟨field, atField, read⟩ := andThen_ok_iff.mp read
          rw [Nat.add_assoc, readBytes_within atField, ok_andThen]
          exact read
        · cases read
  · rw [if_neg (by assumption)]
    exact read

/-- The size that the length field of an entry gives to its body. -/
def ZipNode.Declares (node : ZipNode) (size : Nat) : Prop :=
  ∃ encoding lensize len,
    zipDecodeLength node.body 0 = .ok (encoding, lensize, len) ∧ lensize + len = size

/-- The length field of an entry gives the size that the body has. -/
def ZipNode.Reads (node : ZipNode) : Prop := node.Declares node.body.length

theorem prevField_cons {wide : Bool} {prev : Nat} (fits : wide = false → prev < zipBigLen)
    : ∃ first rest,
        prevField wide prev = first :: rest
        ∧ first ≠ zipEnd
        ∧ (first.toNat < zipBigLen ↔ wide = false)
        ∧ (wide = false → first.toNat = prev) := by
  cases wide with
  | true => exact ⟨_, _, rfl, by decide, by decide, nofun⟩
  | false =>
      have small := fits rfl
      unfold zipBigLen at small
      have value : (UInt8.ofNat prev).toNat = prev := by
        rw [UInt8.toNat_ofNat']
        omega
      refine ⟨_, _, rfl, fun same => ?_, ?_, fun _ => value⟩
      · have equal := congrArg UInt8.toNat same
        rw [value, show zipEnd.toNat = 255 from rfl] at equal
        omega
      · rw [value, zipBigLen]
        simp only [small, iff_self]

section Fields

variable {block pre post : List UInt8} {wide : Bool} {prev p : Nat}
  (split : block = pre ++ prevField wide prev ++ post) (start : pre.length = p)
  (fits : wide = false → prev < zipBigLen)

include split start fits

theorem readByte_prevField_first
    : ∃ first,
        readByte block p = .ok first
        ∧ first ≠ zipEnd
        ∧ (first.toNat < zipBigLen ↔ wide = false)
        ∧ (wide = false → first.toNat = prev) := by
  obtain ⟨first, rest, field, facts⟩ := prevField_cons fits
  have split' : block = pre ++ first :: (rest ++ post) := by
    rw [split, field]
    simp
  exact ⟨first, readByte_split split' start, facts⟩

theorem readByte_prevField : ∃ first, readByte block p = .ok first ∧ first ≠ zipEnd := by
  obtain ⟨first, read, inside, _⟩ := readByte_prevField_first split start fits
  exact ⟨first, read, inside⟩

theorem zipDecodePrevLenSize_ok : zipDecodePrevLenSize block p = .ok (prevSize wide) := by
  obtain ⟨first, read, _, size, _⟩ := readByte_prevField_first split start fits
  rw [zipDecodePrevLenSize, read, ok_andThen]
  cases wide with
  | true => simp [prevSize, size]
  | false => simp [prevSize, size]

theorem zipDecodePrevLen_ok (word : prev < 2 ^ 32)
    : zipDecodePrevLen block p = .ok (prevSize wide, prev) := by
  obtain ⟨first, read, _, size, value⟩ := readByte_prevField_first split start fits
  rw [zipDecodePrevLen, read, ok_andThen]
  cases wide with
  | true =>
      have large : ¬ first.toNat < zipBigLen := by simp [size]
      have split' : block = (pre ++ [UInt8.ofNat zipBigLen]) ++ leBytes 4 prev ++ post := by
        rw [split]
        simp [prevField]
      have bytes : readBytes block (p + 1) 4 = .ok (leBytes 4 prev) :=
        readBytes_split split' (by simp [start]) (by simp)
      rw [if_neg large, bytes, ok_andThen, leValue_leBytes, Nat.mod_eq_of_lt (by simpa using word)]
      rfl
  | false =>
      rw [if_pos (size.mpr rfl), value rfl]
      rfl

end Fields

theorem zipEntry_eq {block pre post : List UInt8} {node : ZipNode} {prev p lensize len : Nat}
    {encoding : UInt8} (split : block = pre ++ (prevField node.wide prev ++ node.body) ++ post)
    (start : pre.length = p) (fits : node.wide = false → prev < zipBigLen)
    (word : prev < 2 ^ 32) (decoded : zipDecodeLength node.body 0 = .ok (encoding, lensize, len))
    : zipEntry block p
      = .ok {
          prevrawlensize := prevSize node.wide
          prevrawlen := prev
          lensize
          len
          headersize := prevSize node.wide + lensize
          encoding
          p } := by
  have fieldSplit : block = pre ++ prevField node.wide prev ++ (node.body ++ post) := by
    rw [split]
    simp
  have field : zipDecodePrevLen block p = .ok (prevSize node.wide, prev) :=
    zipDecodePrevLen_ok fieldSplit start fits word
  have length : zipDecodeLength block (p + prevSize node.wide) = .ok (encoding, lensize, len) := by
    have within := zipDecodeLength_within decoded (pre ++ prevField node.wide prev) post
    rw [split]
    simpa [start] using within
  simp only [zipEntry, field, ok_andThen, length]
  rfl

theorem zipEntry_ok {block pre post : List UInt8} {node : ZipNode} {prev p size : Nat}
    (split : block = pre ++ (prevField node.wide prev ++ node.body) ++ post)
    (start : pre.length = p) (fits : node.wide = false → prev < zipBigLen)
    (word : prev < 2 ^ 32) (declares : node.Declares size)
    (small : prevSize node.wide + size < 2 ^ 32)
    : ∃ entry,
        zipEntry block p = .ok entry
        ∧ entry.prevrawlensize = prevSize node.wide
        ∧ entry.prevrawlen = prev
        ∧ entry.rawlen = prevSize node.wide + size := by
  obtain ⟨encoding, lensize, len, decoded, total⟩ := declares
  refine ⟨_, zipEntry_eq split start fits word decoded, rfl, rfl, ?_⟩
  rw [ZlEntry.rawlen, Nat.mod_eq_of_lt]
  · dsimp only
    omega
  · dsimp only
    omega

theorem zipRawEntryLength_ok {block pre post : List UInt8} {node : ZipNode} {prev p : Nat}
    (split : block = pre ++ (prevField node.wide prev ++ node.body) ++ post)
    (start : pre.length = p) (fits : node.wide = false → prev < zipBigLen)
    (reads : node.Reads) (small : node.rawLength < 2 ^ 32)
    : zipRawEntryLength block p = .ok node.rawLength := by
  obtain ⟨encoding, lensize, len, decoded, total⟩ := reads
  have fieldSplit : block = pre ++ prevField node.wide prev ++ (node.body ++ post) := by
    rw [split]
    simp
  have field : zipDecodePrevLenSize block p = .ok (prevSize node.wide) :=
    zipDecodePrevLenSize_ok fieldSplit start fits
  have length : zipDecodeLength block (p + prevSize node.wide) = .ok (encoding, lensize, len) := by
    have within := zipDecodeLength_within decoded (pre ++ prevField node.wide prev) post
    rw [split]
    simpa [start] using within
  have whole : prevSize node.wide + lensize + len = node.rawLength := by
    rw [ZipNode.rawLength, ← total, Nat.add_assoc]
  simp only [zipRawEntryLength, field, ok_andThen, length, whole, Nat.mod_eq_of_lt small]
  rfl

end Reading

-- Headers

def ziplistBlock (bytes tail len : Nat) (rest : List UInt8) : List UInt8 :=
  leBytes 4 bytes ++ leBytes 4 tail ++ leBytes 2 len ++ rest

section Headers

variable {bytes tail len : Nat} {rest : List UInt8}

@[simp] theorem length_ziplistBlock
    : (ziplistBlock bytes tail len rest).length = 10 + rest.length := by
  simp only [ziplistBlock, List.length_append, length_leBytes]

theorem ziplistBlock_append (front back : List UInt8)
    : ziplistBlock bytes tail len (front ++ back) = ziplistBlock bytes tail len front ++ back := by
  simp [ziplistBlock]

theorem drop_ziplistBlock : (ziplistBlock bytes tail len rest).drop 10 = rest := by
  rw [ziplistBlock]
  exact List.drop_left' (by simp)

theorem ziplistBytes_block (word : bytes < 2 ^ 32)
    : ziplistBytes (ziplistBlock bytes tail len rest) = .ok bytes := by
  have split
      : ziplistBlock bytes tail len rest
        = [] ++ leBytes 4 bytes ++ (leBytes 4 tail ++ leBytes 2 len ++ rest) := by
    simp [ziplistBlock]
  have read : readBytes (ziplistBlock bytes tail len rest) 0 4 = .ok (leBytes 4 bytes) :=
    readBytes_split split rfl (by simp)
  rw [ziplistBytes, read, ok_andThen, leValue_leBytes, Nat.mod_eq_of_lt (by simpa using word)]
  rfl

theorem ziplistBlock_tail (bytes tail len : Nat) (rest : List UInt8)
    : ziplistBlock bytes tail len rest
      = leBytes 4 bytes ++ leBytes 4 tail ++ (leBytes 2 len ++ rest) := by
  simp [ziplistBlock]

theorem ziplistTailOffset_block (word : tail < 2 ^ 32)
    : ziplistTailOffset (ziplistBlock bytes tail len rest) = .ok tail := by
  have read : readBytes (ziplistBlock bytes tail len rest) 4 4 = .ok (leBytes 4 tail) :=
    readBytes_split (ziplistBlock_tail bytes tail len rest) (by simp) (by simp)
  rw [ziplistTailOffset, read, ok_andThen, leValue_leBytes,
    Nat.mod_eq_of_lt (by simpa using word)]
  rfl

theorem setTailOffset_block {offset : Int} {next : Nat} (value : offset % 2 ^ 32 = next)
    : setTailOffset (ziplistBlock bytes tail len rest) offset
      = .ok (ziplistBlock bytes next len rest) := by
  have reduced : (offset % 2 ^ 32).toNat = next := by omega
  rw [setTailOffset, reduced,
    writeBytes_split (ziplistBlock_tail bytes tail len rest) (by simp) (by simp),
    ziplistBlock_tail]

theorem ziplistIncrLength_block (bytes tail : Nat) (rest : List UInt8) {count count' : Nat}
    {incr : Int} (moved : count' = count + incr)
    (small : count' ≤ 2 ^ 16 - 1 ∨ len = 2 ^ 16 - 1) (counted : len = count ∨ len = 2 ^ 16 - 1)
    (word : len ≤ 2 ^ 16 - 1)
    : ∃ len',
        ziplistIncrLength (ziplistBlock bytes tail len rest) incr
          = .ok (ziplistBlock bytes tail len' rest)
        ∧ (len' = count' ∨ len' = 2 ^ 16 - 1)
        ∧ len' ≤ 2 ^ 16 - 1 := by
  have read : readBytes (ziplistBlock bytes tail len rest) 8 2 = .ok (leBytes 2 len) :=
    readBytes_split (ziplistBlock.eq_def bytes tail len rest) (by simp) (by simp)
  have value : leValue (leBytes 2 len) = len := by
    rw [leValue_leBytes]
    omega
  rw [ziplistIncrLength, read, ok_andThen, value]
  split
  · have exact : len = count := by omega
    have reduced : ((len + incr) % 2 ^ 16).toNat = count' := by omega
    refine ⟨count', ?_, Or.inl rfl, by omega⟩
    rw [reduced,
      writeBytes_split (ziplistBlock.eq_def bytes tail len rest) (by simp) (by simp)]
    rfl
  · exact ⟨len, rfl, Or.inr (by omega), word⟩

theorem ziplistResize_block (fresh : Nat → UInt8) (bytes tail len : Nat) (rest : List UInt8)
    {size : Nat} (least : 11 ≤ size)
    (word : size < 2 ^ 32)
    : ∃ kept,
        ziplistResize fresh (ziplistBlock bytes tail len rest) size
          = .ok (ziplistBlock size tail len (kept ++ [zipEnd]))
        ∧ kept.length + 11 = size
        ∧ rest.take (size - 11) <+: kept := by
  obtain ⟨fill, fillEq⟩
      : ∃ fill,
          fill = (List.range' (10 + rest.length) (size - (10 + rest.length))).map fresh :=
    ⟨_, rfl⟩
  obtain ⟨body, bodyEq⟩ : ∃ body, body = rest.take (size - 10) ++ fill := ⟨_, rfl⟩
  have length : body.length = size - 10 := by
    simp only [bodyEq, fillEq, List.length_append, List.length_take, List.length_map,
      List.length_range']
    omega
  have resized
      : resizeBytes fresh (ziplistBlock bytes tail len rest) size
        = ziplistBlock bytes tail len body := by
    have head : (leBytes 4 bytes ++ leBytes 4 tail ++ leBytes 2 len).length = 10 := by simp
    rw [resizeBytes, length_ziplistBlock, ← fillEq, bodyEq, ziplistBlock_append, ziplistBlock,
      ziplistBlock, List.take_append, head, List.take_of_length_le (by omega)]
  have parts : body.take (size - 11) ++ body.drop (size - 11) = body := List.take_append_drop _ _
  have sized : (body.take (size - 11)).length = size - 11 := by
    rw [List.length_take]
    omega
  refine ⟨body.take (size - 11), ?_, by omega, ?_⟩
  · have split
        : ziplistBlock bytes tail len body
          = [] ++ leBytes 4 bytes ++ (leBytes 4 tail ++ leBytes 2 len ++ body) := by
      simp [ziplistBlock]
    have first
        : writeBytes (ziplistBlock bytes tail len body) 0 (leBytes 4 size)
          = .ok ([] ++ leBytes 4 size ++ (leBytes 4 tail ++ leBytes 2 len ++ body)) :=
      writeBytes_split split rfl (by simp)
    have whole
        : [] ++ leBytes 4 size ++ (leBytes 4 tail ++ leBytes 2 len ++ body)
          = ziplistBlock size tail len (body.take (size - 11)) ++ body.drop (size - 11) ++ [] := by
      rw [← ziplistBlock_append, parts]
      simp [ziplistBlock]
    have last
        : writeBytes ([] ++ leBytes 4 size ++ (leBytes 4 tail ++ leBytes 2 len ++ body)) (size - 1)
            [zipEnd]
          = .ok (ziplistBlock size tail len (body.take (size - 11)) ++ [zipEnd] ++ []) :=
      writeBytes_split whole (by simp; omega) (by simp; omega)
    rw [ziplistResize, Nat.mod_eq_of_lt word, resized, first, ok_andThen, last, ziplistBlock_append]
    simp
  · have shorter : rest.take (size - 11) = (rest.take (size - 10)).take (size - 11) := by
      rw [List.take_take]
      congr 1
      omega
    rw [shorter, bodyEq, List.take_append]
    exact List.prefix_append _ _

theorem ziplistResize_cut (fresh : Nat → UInt8) {size : Nat} {keep more : List UInt8}
    (length : keep.length + 11 = size) (word : size < 2 ^ 32)
    : ziplistResize fresh (ziplistBlock bytes tail len (keep ++ more)) size
      = .ok (ziplistBlock size tail len (keep ++ [zipEnd])) := by
  obtain ⟨kept, resized, keptLength, keeps⟩ :=
    ziplistResize_block fresh bytes tail len (keep ++ more) (show 11 ≤ size by omega) word
  rw [← length, Nat.add_sub_cancel, List.take_left] at keeps
  rw [resized, keeps.eq_of_length (by omega)]

/-- A size that wraps below four bytes leaves no room for the header. -/
theorem ziplistResize_wraps (fresh : Nat → UInt8) (zl : List UInt8) {size : Nat}
    (wraps : size % 2 ^ 32 < 4)
    : ziplistResize fresh zl size = .error .outOfBounds := by
  have failed : writeBytes (resizeBytes fresh zl (size % 2 ^ 32)) 0 (leBytes 4 size)
      = .error .outOfBounds := by
    rw [writeBytes, if_neg]
    simp only [length_leBytes, length_resizeBytes]
    omega
  rw [ziplistResize, failed]
  rfl

end Headers

end Redis
