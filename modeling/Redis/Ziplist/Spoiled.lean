import Redis.Ziplist.Encoding

/-! Ziplists whose last byte has been overwritten by the end byte. -/

namespace Redis

open Redis.Library

variable {encoding : UInt8} {value : ZipValue} {size : Nat}

/-- The last byte of the last entry is overwritten by the end byte. -/
def spoilLast : List ZipNode → List ZipNode
  | [] => []
  | [node] => [{ node with body := node.body.dropLast ++ [zipEnd] }]
  | node :: next :: rest => node :: spoilLast (next :: rest)

section Spoiled

variable {nodes before : List ZipNode} {node : ZipNode} {len : Nat}

theorem rawLength_spoil (some : node.body ≠ [])
    : ZipNode.rawLength { node with body := node.body.dropLast ++ [zipEnd] } = node.rawLength := by
  have positive := List.length_pos_of_ne_nil some
  simp only [ZipNode.rawLength, List.length_append, List.length_dropLast, List.length_singleton]
  omega

@[simp] theorem length_spoilLast (nodes : List ZipNode) : (spoilLast nodes).length
    = nodes.length := by
  induction nodes with
  | nil => rfl
  | cons node rest ih =>
      cases rest with
      | nil => rfl
      | cons next others => simp only [spoilLast, List.length_cons, ih]

theorem spoilLast_append (before : List ZipNode) (some : nodes ≠ [])
    : spoilLast (before ++ nodes) = before ++ spoilLast nodes := by
  induction before with
  | nil => rfl
  | cons node rest ih =>
      obtain ⟨next, others, same⟩ :=
        List.exists_cons_of_ne_nil (List.append_ne_nil_of_right_ne_nil rest some)
      rw [List.cons_append, same, spoilLast, ← same, ih, List.cons_append]

theorem dropLast_spoilLast (nodes : List ZipNode)
    : (spoilLast nodes).dropLast = nodes.dropLast := by
  induction nodes with
  | nil => rfl
  | cons node rest ih =>
      cases rest with
      | nil => rfl
      | cons next others =>
          have nonempty : spoilLast (next :: others) ≠ [] := by
            intro none
            have length := congrArg List.length none
            simp at length
          rw [spoilLast, List.dropLast_cons_of_ne_nil nonempty, ih, List.dropLast_cons_cons]

theorem chainSize_spoilLast (bodies : ∀ node ∈ nodes, node.body ≠ [])
    : chainSize (spoilLast nodes) = chainSize nodes := by
  induction nodes with
  | nil => rfl
  | cons node rest ih =>
      cases rest with
      | nil => simp only [spoilLast, chainSize, rawLength_spoil (bodies node (by simp))]
      | cons next others =>
          rw [spoilLast, chainSize, chainSize, ih fun other member =>
            bodies other (by simp [member])]

theorem chainBytes_spoilLast {prev : Nat} (some : nodes ≠ [])
    (bodies : ∀ node ∈ nodes, node.body ≠ [])
    : chainBytes prev (spoilLast nodes) = (chainBytes prev nodes).dropLast ++ [zipEnd] := by
  induction nodes generalizing prev with
  | nil => exact absurd rfl some
  | cons node rest ih =>
      cases rest with
      | nil =>
          have body := bodies node (by simp)
          simp only [spoilLast, chainBytes, List.append_nil]
          rw [List.dropLast_append_of_ne_nil body, List.append_assoc]
      | cons next others =>
          have nonempty : chainBytes node.rawLength (next :: others) ≠ [] := by
            intro none
            have length := congrArg List.length none
            have positive := next.rawLength_pos
            rw [length_chainBytes, chainSize] at length
            simp only [List.length_nil] at length
            omega
          rw [spoilLast, chainBytes, ih (by simp) fun other member =>
            bodies other (by simp [member]),
            chainBytes.eq_2 prev node, List.dropLast_append_of_ne_nil nonempty]
          simp

theorem Linked.spoilLast {prev : Nat} (linked : Linked prev nodes)
    : Linked prev (spoilLast nodes) := by
  induction nodes generalizing prev with
  | nil => trivial
  | cons node rest ih =>
      cases rest with
      | nil => exact linked
      | cons next others => exact ⟨linked.1, ih linked.2⟩

theorem resize_spoils (fresh : Nat → UInt8) (len : Nat) (before : List ZipNode) (some : nodes ≠ [])
    (bodies : ∀ node ∈ nodes, node.body ≠ []) (word : size < 2 ^ 32)
    (shrinks : 11 + chainSize (before ++ nodes) = size + 1)
    : ∃ stuff,
        ziplistResize fresh (nodesBlock len (before ++ nodes)) size
          = .ok (ziplistBlock size (10 + chainSize (before ++ nodes).dropLast) len
              (stuff ++ [zipEnd]))
        ∧ stuff.length + 11 = size
        ∧ chainBytes 0 before ++ chainBytes (lastLength 0 before) (spoilLast nodes)
          = stuff ++ [zipEnd] := by
  obtain ⟨bytes, bytesEq⟩ : ∃ bytes, bytes = chainBytes (lastLength 0 before) nodes := ⟨_, rfl⟩
  have nonempty : bytes ≠ [] := by
    intro none
    have length := congrArg List.length none
    have few := length_le_chainSize nodes
    have positive := List.length_pos_of_ne_nil some
    rw [bytesEq, length_chainBytes, List.length_nil] at length
    omega
  have parts
      : chainBytes 0 (before ++ nodes) ++ [zipEnd]
        = (chainBytes 0 before ++ bytes.dropLast) ++ ([bytes.getLast nonempty] ++ [zipEnd]) := by
    rw [chainBytes_append, ← bytesEq]
    conv_lhs => rw [← List.dropLast_append_getLast nonempty]
    simp
  have length : (chainBytes 0 before ++ bytes.dropLast).length + 11 = size := by
    have total : bytes.length = chainSize nodes := by rw [bytesEq, length_chainBytes]
    have positive := List.length_pos_of_ne_nil nonempty
    rw [chainSize_append] at shrinks
    rw [List.length_append, length_chainBytes, List.length_dropLast]
    omega
  refine ⟨chainBytes 0 before ++ bytes.dropLast, ?_, length, ?_⟩
  · rw [nodesBlock, parts, ziplistResize_cut fresh length word]
  · rw [chainBytes_spoilLast some bodies, ← bytesEq, List.append_assoc]

end Spoiled

section Fields

variable {first : UInt8} {rest : List UInt8}

theorem decode_short (short : zipEntryEncoding first = 0)
    : zipDecodeLength (first :: rest) 0 = .ok (0, 1, (first &&& 0x3F).toNat) := by
  have read : readByte (first :: rest) 0 = .ok first := rfl
  rw [zipDecodeLength, read, ok_andThen]
  dsimp only
  rw [short, if_pos (by decide), if_pos rfl]
  rfl

theorem decode_middle {second : UInt8} (middle : zipEntryEncoding first = 0x40)
    : zipDecodeLength (first :: second :: rest) 0
      = .ok (0x40, 2, (first &&& 0x3F).toNat * 256 + second.toNat) := by
  have read : readByte (first :: second :: rest) 0 = .ok first := rfl
  have read' : readByte (first :: second :: rest) (0 + 1) = .ok second := rfl
  rw [zipDecodeLength, read, ok_andThen]
  dsimp only
  rw [middle, if_pos (by decide), if_neg (by decide), if_pos rfl, read']
  rfl

theorem decode_long {field : List UInt8} (four : field.length = 4)
    (long : zipEntryEncoding first = 0x80)
    : zipDecodeLength (first :: (field ++ rest)) 0 = .ok (0x80, 5, leValue field.reverse) := by
  have read : readByte (first :: (field ++ rest)) 0 = .ok first := rfl
  have bytes : readBytes (first :: (field ++ rest)) (0 + 1) 4 = .ok field :=
    readBytes_split (show _ = [first] ++ field ++ rest by simp) rfl four
  rw [zipDecodeLength, read, ok_andThen]
  dsimp only
  rw [long, if_pos (by decide), if_neg (by decide), if_neg (by decide), if_pos rfl, bytes]
  rfl

theorem decode_integer (integer : ¬ zipEntryEncoding first < 0xC0)
    : zipDecodeLength (first :: rest) 0
      = .ok (zipEntryEncoding first, 1, zipIntSize (zipEntryEncoding first)) := by
  have read : readByte (first :: rest) 0 = .ok first := rfl
  rw [zipDecodeLength, read, ok_andThen]
  dsimp only
  rw [if_neg integer]
  rfl

theorem zipDecodeLength_cases {body : List UInt8} {result : UInt8 × Nat × Nat}
    (decoded : zipDecodeLength body 0 = .ok result)
    : ∃ first rest,
        body = first :: rest
        ∧ (zipEntryEncoding first = 0
          ∨ (zipEntryEncoding first = 0x40 ∧ ∃ second rest', rest = second :: rest')
          ∨ (zipEntryEncoding first = 0x80 ∧ ∃ field rest', rest = field ++ rest'
            ∧ field.length = 4)
          ∨ ¬ zipEntryEncoding first < 0xC0) := by
  cases body with
  | nil => cases decoded
  | cons first rest =>
      refine ⟨first, rest, rfl, ?_⟩
      have read : readByte (first :: rest) 0 = .ok first := rfl
      rw [zipDecodeLength, read, ok_andThen] at decoded
      dsimp only at decoded
      split at decoded
      · split at decoded
        · exact Or.inl (by assumption)
        split at decoded
        · refine Or.inr (Or.inl ⟨by assumption, ?_⟩)
          cases rest with
          | nil => cases decoded
          | cons second rest' => exact ⟨second, rest', rfl⟩
        split at decoded
        · refine Or.inr (Or.inr (Or.inl ⟨by assumption, rest.take 4, rest.drop 4, ?_, ?_⟩))
          · rw [List.take_append_drop]
          · obtain ⟨field, bytes, _⟩ := andThen_ok_iff.mp decoded
            have inside := inside_of_readBytes bytes
            rw [List.length_cons] at inside
            rw [List.length_take]
            omega
        cases decoded
      · exact Or.inr (Or.inr (Or.inr (by assumption)))

end Fields

-- Values

theorem signedValue_bounds (bytes : List UInt8)
    : -(256 ^ bytes.length : Nat) ≤ signedValue bytes * 2
      ∧ signedValue bytes * 2 < (256 ^ bytes.length : Nat) := by
  have positive : 0 < 256 ^ bytes.length := Nat.pow_pos (by decide)
  have low := Int.le_bmod (x := leValue bytes) positive
  have high := Int.bmod_lt (x := leValue bytes) positive
  rw [signedValue]
  constructor
  · omega
  · omega

theorem signedValue_injective {bytes other : List UInt8} (length : bytes.length = other.length)
    (same : signedValue bytes = signedValue other)
    : bytes = other := by
  have bound := leValue_lt bytes
  have bound' := leValue_lt other
  rw [signedValue, signedValue, length] at same
  have residues := congrArg (· % ((256 ^ other.length : Nat) : Int)) same
  simp only [Int.bmod_emod] at residues
  rw [length] at bound
  rw [Int.emod_eq_of_lt (by omega) (by omega), Int.emod_eq_of_lt (by omega) (by omega)] at residues
  rw [← leBytes_leValue bytes, ← leBytes_leValue other, length]
  congr 1
  omega

theorem decimalText_injective {bytes other : List UInt8} (few : bytes.length ≤ 8)
    (few' : other.length ≤ 8)
    (same : decimalText (signedValue bytes) = decimalText (signedValue other))
    : signedValue bytes = signedValue other := by
  have word {bytes : List UInt8} (few : bytes.length ≤ 8)
      : -2 ^ 63 ≤ signedValue bytes ∧ signedValue bytes < 2 ^ 63 := by
    have bounds := signedValue_bounds bytes
    have most : 256 ^ bytes.length ≤ 256 ^ 8 := Nat.pow_le_pow_right (by decide) few
    omega
  have read := string2ll_decimalText (word few).1 (word few).2
  rw [same, string2ll_decimalText (word few').1 (word few').2] at read
  exact (Option.some.inj read).symm

theorem zipIntSize_le (encoding : UInt8) : zipIntSize encoding ≤ 8 := by
  unfold zipIntSize
  split
  · decide
  split
  · decide
  split
  · decide
  split
  · decide
  split
  · decide
  · decide

theorem zipLoadInteger_eq {header data : List UInt8} {value : Int}
    (loaded : zipLoadInteger (header ++ data) header.length encoding = .ok value)
    (length : data.length = zipIntSize encoding) (some : data ≠ [])
    : value = signedValue data := by
  have read {size : Nat} (all : data.length = size)
      : readBytes (header ++ data) header.length size = .ok data :=
    readBytes_split (show _ = header ++ data ++ [] by simp) rfl all
  have positive := List.length_pos_of_ne_nil some
  unfold zipLoadInteger at loaded
  unfold zipIntSize at length
  split at length
  · rename_i encoded
    subst encoded
    rw [if_pos rfl, read length] at loaded
    cases loaded
    rfl
  split at length
  · rename_i encoded
    subst encoded
    rw [if_neg (by decide), if_pos rfl, read length] at loaded
    cases loaded
    rfl
  split at length
  · rename_i encoded
    subst encoded
    rw [if_neg (by decide), if_neg (by decide), if_neg (by decide), if_pos rfl,
      read length] at loaded
    cases loaded
    exact signedValue_shift data length
  split at length
  · rename_i encoded
    subst encoded
    rw [if_neg (by decide), if_neg (by decide), if_pos rfl, read length] at loaded
    cases loaded
    rfl
  split at length
  · rename_i encoded
    subst encoded
    rw [if_neg (by decide), if_neg (by decide), if_neg (by decide), if_neg (by decide), if_pos rfl,
      read length] at loaded
    cases loaded
    rfl
  · omega

theorem text_of_data {header data : List UInt8}
    (decoded : zipDecodeLength (header ++ data) 0 = .ok (encoding, header.length, size))
    (integer : ¬ zipIsStr encoding = true → size = zipIntSize encoding) (some : data ≠ [])
    (valued : zipValue (header ++ data) = Option.some value)
    : size = data.length
      ∧ value.text
        = if zipIsStr encoding = true then data else decimalText (signedValue data) := by
  rw [zipValue, decoded] at valued
  dsimp only at valued
  split at valued
  · rename_i total
    have length : size = data.length := by
      rw [List.length_append] at total
      omega
    refine ⟨length, ?_⟩
    split at valued
    · rename_i str
      cases valued
      rw [if_pos str, ZipValue.text, List.drop_left]
    · rename_i notStr
      split at valued
      · rename_i loaded
        cases valued
        rw [if_neg notStr, ZipValue.text,
          zipLoadInteger_eq loaded (length.symm.trans (integer notStr)) some]
      · cases valued
  · cases valued

/-- What becomes of an entry whose last byte is overwritten: it can be read or runs past the
end of the block, and its text is another one.
-/
def SpoilsTo (body spoiled : List UInt8) : Prop :=
  (ZipNode.Reads ⟨false, spoiled⟩ ∨ ZipNode.Overruns ⟨false, spoiled⟩)
  ∧ ∀ value other, zipValue body = some value → zipValue spoiled = some other
    → other.text = value.text → spoiled = body

theorem spoiled_data (header : List UInt8) {data : List UInt8}
    (decodes : ∀ data, zipDecodeLength (header ++ data) 0 = .ok (encoding, header.length, size))
    (integer : ¬ zipIsStr encoding = true → size = zipIntSize encoding) (some : data ≠ [])
    (valued : zipValue (header ++ data) = Option.some value)
    : SpoilsTo (header ++ data) ((header ++ data).dropLast ++ [zipEnd]) := by
  have positive := List.length_pos_of_ne_nil some
  rw [List.dropLast_append_of_ne_nil some, List.append_assoc]
  obtain ⟨spoiled, spoiledEq⟩ : ∃ spoiled, spoiled = data.dropLast ++ [zipEnd] := ⟨_, rfl⟩
  have lengths : spoiled.length = data.length := by
    simp only [spoiledEq, List.length_append, List.length_dropLast, List.length_singleton]
    omega
  rw [← spoiledEq]
  obtain ⟨length, text⟩ := text_of_data (decodes data) integer some valued
  refine ⟨Or.inl ⟨encoding, header.length, size, decodes spoiled, ?_⟩, ?_⟩
  · rw [length, ← lengths, List.length_append]
  · intro value' other first second same
    cases valued.symm.trans first
    obtain ⟨_, text'⟩ := text_of_data (decodes spoiled) integer (by simp [spoiledEq]) second
    rw [text, text'] at same
    split at same
    · rw [same]
    · rename_i notStr
      have few := zipIntSize_le encoding
      rw [← integer notStr] at few
      have numbers := decimalText_injective (by omega) (by omega) same
      rw [signedValue_injective lengths numbers]

theorem spoiled_single (byte : UInt8) : SpoilsTo [byte] ([byte].dropLast ++ [zipEnd]) := by
  have none : zipValue [zipEnd] = none := by decide
  refine ⟨Or.inl ⟨zipEnd, 1, 0, rfl, rfl⟩, fun value other _ read _ => ?_⟩
  have bytes : [byte].dropLast ++ [zipEnd] = [zipEnd] := rfl
  rw [bytes, none] at read
  cases read

theorem spoiled_field {header spoiled : List UInt8}
    (decoded : zipDecodeLength spoiled 0 = .ok (encoding, spoiled.length, size))
    (positive : 0 < size) (bound : spoiled.length + size + 5 < 2 ^ 32)
    : SpoilsTo header spoiled := by
  have total : ¬ spoiled.length + size = spoiled.length := by omega
  refine ⟨Or.inr ⟨_, ⟨encoding, spoiled.length, size, decoded, rfl⟩, ?_, bound⟩,
    fun value other _ read _ => ?_⟩
  · dsimp only
    omega
  · rw [zipValue, decoded] at read
    dsimp only at read
    rw [if_neg total] at read
    cases read

theorem spoiled_middle {first second : UInt8} (middle : zipEntryEncoding first = 0x40)
    : SpoilsTo [first, second] ([first, second].dropLast ++ [zipEnd]) := by
  have high := (first &&& 0x3F).toNat_lt
  have low : zipEnd.toNat = 255 := rfl
  have decoded
      : zipDecodeLength [first, zipEnd] 0
        = .ok (0x40, 2, (first &&& 0x3F).toNat * 256 + zipEnd.toNat) := decode_middle middle
  refine spoiled_field decoded ?_ ?_
  · omega
  · simp only [List.dropLast_cons_cons, List.dropLast_singleton, List.length_append,
      List.length_singleton]
    omega

theorem spoiled_long {first : UInt8} {field : List UInt8}
    (four : field.length = 4) (long : zipEntryEncoding first = 0x80)
    (valued : zipValue (first :: field) = some value)
    : SpoilsTo (first :: field) ((first :: field).dropLast ++ [zipEnd]) := by
  have nonempty : field ≠ [] := by
    intro empty
    simp [empty] at four
  have decoded {field : List UInt8} (four : field.length = 4)
      : zipDecodeLength (first :: field) 0 = .ok (0x80, 5, leValue field.reverse) := by
    have whole : first :: field = first :: (field ++ []) := by simp
    rw [whole, decode_long four long]
  have zero : leValue field.reverse = 0 := by
    rw [zipValue, decoded four] at valued
    dsimp only at valued
    split at valued
    · rename_i total
      rw [List.length_cons] at total
      omega
    · cases valued
  have upper : leValue field.dropLast.reverse = 0 := by
    rw [← List.dropLast_append_getLast nonempty, List.reverse_append, List.reverse_singleton,
      List.singleton_append, leValue] at zero
    omega
  have length : (field.dropLast ++ [zipEnd]).length = 4 := by
    simp [four]
  have number : leValue (field.dropLast ++ [zipEnd]).reverse = 255 := by
    rw [List.reverse_append, List.reverse_singleton, List.singleton_append, leValue, upper]
    rfl
  have decoded' := decoded length
  rw [number] at decoded'
  rw [List.dropLast_cons_of_ne_nil nonempty, List.cons_append]
  have total : (first :: (field.dropLast ++ [zipEnd])).length = 5 := by
    rw [List.length_cons, length]
  rw [← total] at decoded'
  refine spoiled_field decoded' (by decide) ?_
  rw [total]
  decide

theorem spoilsTo_of_value {body : List UInt8} (valued : zipValue body = some value)
    : SpoilsTo body (body.dropLast ++ [zipEnd]) := by
  have reads : ZipNode.Reads ⟨false, body⟩ := reads_of_value (by rw [valued]; rfl)
  obtain ⟨encoding, lensize, size, decoded, _⟩ := reads
  obtain ⟨first, rest, rfl, short | ⟨middle, second, data, rfl⟩ | ⟨long, field, data, rfl, four⟩
    | integer⟩ := zipDecodeLength_cases decoded
  · rcases eq_or_ne rest [] with rfl | some
    · exact spoiled_single first
    · have str : zipIsStr 0 = true := by decide
      exact spoiled_data [first] (fun _ => decode_short short)
        (fun notStr => absurd str notStr) some valued
  · rcases eq_or_ne data [] with rfl | some
    · exact spoiled_middle middle
    · have str : zipIsStr 0x40 = true := by decide
      exact spoiled_data [first, second] (fun _ => decode_middle middle)
        (fun notStr => absurd str notStr) some valued
  · rcases eq_or_ne data [] with rfl | some
    · rw [List.append_nil] at valued ⊢
      exact spoiled_long four long valued
    · have str : zipIsStr 0x80 = true := by decide
      have decodes (data : List UInt8)
          : zipDecodeLength ((first :: field) ++ data) 0
            = .ok (0x80, (first :: field).length, leValue field.reverse) := by
        rw [List.length_cons, four]
        exact decode_long four long
      exact spoiled_data (first :: field) decodes (fun notStr => absurd str notStr) some
        valued
  · rcases eq_or_ne rest [] with rfl | some
    · exact spoiled_single first
    · exact spoiled_data [first] (fun _ => decode_integer integer) (fun _ => rfl) some
        valued

section Lists

variable {nodes : List ZipNode}

theorem spoilLast_cons {node : ZipNode} (some : node.body ≠ []) (rest : List ZipNode)
    : ∃ first more,
        spoilLast (node :: rest) = first :: more
        ∧ first.wide = node.wide
        ∧ first.rawLength = node.rawLength := by
  cases rest with
  | nil => exact ⟨_, _, rfl, rfl, rawLength_spoil some⟩
  | cons next others => exact ⟨_, _, rfl, rfl, rfl⟩

theorem body_ne_nil (valued : ∀ node ∈ nodes, (zipValue node.body).isSome = true)
    : ∀ node ∈ nodes, node.body ≠ [] := by
  intro node member empty
  have value := valued node member
  rw [empty] at value
  cases value

theorem readable_spoilLast (valued : ∀ node ∈ nodes, (zipValue node.body).isSome = true)
    : Readable (spoilLast nodes) := by
  induction nodes with
  | nil => trivial
  | cons node rest ih =>
      have first := valued node (by simp)
      cases rest with
      | nil =>
          obtain ⟨value, read⟩ := Option.isSome_iff_exists.mp first
          exact (spoilsTo_of_value read).1
      | cons next others =>
          have readable := ih fun other member => valued other (by simp [member])
          obtain ⟨head, more, same, _⟩ := spoilLast_cons (body_ne_nil valued next (by simp)) others
          rw [spoilLast, same]
          rw [same] at readable
          exact ⟨reads_of_value first, readable⟩

theorem widen_spoilLast (bodies : ∀ node ∈ nodes, node.body ≠ []) (prev : Nat)
    : widen prev (spoilLast nodes) = spoilLast (widen prev nodes) := by
  induction nodes generalizing prev with
  | nil => rfl
  | cons node rest ih =>
      cases rest with
      | nil => rfl
      | cons next others =>
          rw [spoilLast, widen, ih fun other member => bodies other (by simp [member])]
          rfl

theorem relink_spoilLast (bodies : ∀ node ∈ nodes, node.body ≠ []) (prev : Nat)
    : relink prev (spoilLast nodes) = spoilLast (relink prev nodes) := by
  cases nodes with
  | nil => rfl
  | cons node rest =>
      cases rest with
      | nil => rfl
      | cons next others =>
          rw [spoilLast, relink, widen_spoilLast fun other member =>
            bodies other (by simp [member])]
          rfl

/-- The end byte that spoils no text is the byte that was there. -/
theorem spoilLast_of_texts (valued : ∀ node ∈ nodes, (zipValue node.body).isSome = true)
    (same : (spoilLast nodes).map ZipNode.text = nodes.map ZipNode.text)
    : spoilLast nodes = nodes := by
  induction nodes with
  | nil => rfl
  | cons node rest ih =>
      cases rest with
      | nil =>
          obtain ⟨value, read⟩ := Option.isSome_iff_exists.mp (valued node (by simp))
          simp only [spoilLast, List.map_cons, List.map_nil, List.cons.injEq, and_true,
            ZipNode.text, read, Option.map_some] at same
          obtain ⟨other, read', text⟩ := Option.map_eq_some_iff.mp same
          rw [spoilLast, (spoilsTo_of_value read).2 value other read read' text]
      | cons next others =>
          rw [spoilLast, List.map_cons, List.map_cons, List.cons.injEq] at same
          rw [spoilLast, ih (fun other member => valued other (by simp [member])) same.2]

theorem spoilLast_eq_self (bodies : ∀ node ∈ nodes, node.body ≠ []) {prev : Nat}
    (last : (chainBytes prev nodes).getLast? = some zipEnd)
    : spoilLast nodes = nodes := by
  induction nodes generalizing prev with
  | nil => rfl
  | cons node rest ih =>
      cases rest with
      | nil =>
          have body := bodies node (by simp)
          rw [chainBytes, chainBytes, List.append_nil,
            List.getLast?_append_of_ne_nil _ body] at last
          rw [spoilLast, List.dropLast_append_getLast? zipEnd last]
      | cons next others =>
          have nonempty : chainBytes node.rawLength (next :: others) ≠ [] := by
            rw [chainBytes]
            simp [bodies next]
          rw [chainBytes, List.getLast?_append_of_ne_nil _ nonempty] at last
          rw [spoilLast, ih (fun other member => bodies other (by simp [member])) last]

end Lists

end Redis
