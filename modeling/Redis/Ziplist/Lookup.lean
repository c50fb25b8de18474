import Redis.Ziplist.Traversal

/-! Stepping back in a ziplist, comparing an entry with a string and searching for one. -/

namespace Redis

open Redis.Library

def ziplistPrev (zl : List UInt8) (p : Nat) : Except Fault (Option Nat) := do
  if (← readByte zl p) = zipEnd then do
    let p ← ziplistTailOffset zl
    if (← readByte zl p) = zipEnd then pure none else pure (some p)
  else if p = ziplistHeaderSize then pure none
  else do
    let (_, prevlen) ← zipDecodePrevLen zl p
    if prevlen > 0 then pure (some (p - prevlen)) else .error .assertion

def ziplistCompare (zl : List UInt8) (p : Nat) (sstr : List UInt8) : Except Fault Bool := do
  if (← readByte zl p) = zipEnd then pure false
  else do
    let entry ← zipEntry zl p
    if zipIsStr entry.encoding then
      if entry.len = sstr.length then do
        let bytes ← readBytes zl (p + entry.headersize) sstr.length
        pure (bytes = sstr)
      else pure false
    else
      match zipTryEncoding sstr with
      | some (sval, _) => do
          let zval ← zipLoadInteger zl (p + entry.headersize) entry.encoding
          pure (zval = sval)
      | none => pure false

/-- The encoding of the string that is searched for, found when the first integer is met;
`UCHAR_MAX` stands for none.
-/
def ziplistFindEncoding (vstr : List UInt8) (vencoding : UInt8) (vll : Int) : UInt8 × Int :=
  if vencoding = 0 then
    match zipTryEncoding vstr with
    | some (value, encoding) => (encoding, value)
    | none => (0xFF, vll)
  else (vencoding, vll)

/-- The loop of `ziplistFind`. -/
def ziplistFindLoop (zl vstr : List UInt8) (skip : UInt32)
    : (rounds : Nat) → (p : Nat) → (skipcnt : Int32) → (vencoding : UInt8) → (vll : Int)
    → Except Fault (Option Nat)
  | 0, _, _, _, _ => .error .diverged
  | rounds + 1, p, skipcnt, vencoding, vll => do
      if (← readByte zl p) ≠ zipEnd then do
        let prevlensize ← zipDecodePrevLenSize zl p
        let (encoding, lensize, len) ← zipDecodeLength zl (p + prevlensize)
        let q := p + prevlensize + lensize
        if skipcnt = 0 then
          if zipIsStr encoding then do
            let same ← (if len = vstr.length then do
              let bytes ← readBytes zl q vstr.length
              pure (decide (bytes = vstr)) else pure false)
            if same then pure (some p)
            else ziplistFindLoop zl vstr skip rounds (q + len) skip.toInt32 vencoding vll
          else
            let (vencoding, vll) := ziplistFindEncoding vstr vencoding vll
            if vencoding = 0 then .error .assertion
            else do
              let same ← (if vencoding ≠ 0xFF then do
                let ll ← zipLoadInteger zl q encoding
                pure (decide (ll = vll)) else pure false)
              if same then pure (some p)
              else ziplistFindLoop zl vstr skip rounds (q + len) skip.toInt32 vencoding vll
        else ziplistFindLoop zl vstr skip rounds (q + len) (skipcnt - 1) vencoding vll
      else pure none

def ziplistFind (zl : List UInt8) (p : Nat) (vstr : List UInt8) (skip : UInt32)
    : Except Fault (Option Nat) :=
  ziplistFindLoop zl vstr skip zl.length p 0 0 0

section Integers

variable {zl s : List UInt8} {p : Nat} {value : Int} {encoding : UInt8}

theorem signedValue_word {bytes : List UInt8} {size : Nat} (length : bytes.length = size)
    (few : size ≤ 8)
    : -2 ^ 63 ≤ signedValue bytes ∧ signedValue bytes < 2 ^ 63 := by
  have bounds := signedValue_bounds bytes
  have most : 256 ^ bytes.length ≤ 256 ^ 8 := Nat.pow_le_pow_right (by decide) (length.trans_le few)
  omega

theorem zipLoadInteger_word (run : zipLoadInteger zl p encoding = .ok value)
    : -2 ^ 63 ≤ value ∧ value < 2 ^ 63 := by
  have load {size : Nat} (few : size ≤ 8)
      (run : (do let bytes ← readBytes zl p size; pure (signedValue bytes)) = Except.ok value)
      : -2 ^ 63 ≤ value ∧ value < 2 ^ 63 := by
    obtain ⟨bytes, read, result⟩ := andThen_ok_iff.mp run
    cases result
    exact signedValue_word (length_of_readBytes read) few
  unfold zipLoadInteger at run
  split at run
  · exact load (by decide) run
  split at run
  · exact load (by decide) run
  split at run
  · exact load (by decide) run
  split at run
  · obtain ⟨bytes, read, result⟩ := andThen_ok_iff.mp run
    cases result
    have bounds := @signedValue_word (0 :: bytes) 4 (congrArg Nat.succ (length_of_readBytes read))
      (by decide)
    omega
  split at run
  · exact load (by decide) run
  split at run
  · cases run
    have bound := (encoding &&& 0x0F).toNat_lt
    omega
  · cases run

theorem zipTryEncoding_decimalText (low : -2 ^ 63 ≤ value) (high : value < 2 ^ 63)
    : ∃ encoding, zipTryEncoding (decimalText value) = some (value, encoding) := by
  have digits : (naturalText value.natAbs).length ≤ 19 :=
    (length_naturalText_le (by decide)).mpr (by omega)
  have positive := length_naturalText_pos value.natAbs
  have length : ¬ ((decimalText value).length ≥ 32 ∨ (decimalText value).length = 0) := by
    unfold decimalText
    split
    · rw [List.length_cons]
      omega
    · omega
  rw [zipTryEncoding, if_neg length, string2ll_decimalText low high]
  dsimp only
  split
  · exact ⟨_, rfl⟩
  split
  · exact ⟨_, rfl⟩
  split
  · exact ⟨_, rfl⟩
  split
  · exact ⟨_, rfl⟩
  split
  · exact ⟨_, rfl⟩
  · exact ⟨_, rfl⟩

theorem encoded_as_iff (low : -2 ^ 63 ≤ value) (high : value < 2 ^ 63)
    : decimalText value = s ↔ ∃ encoding, zipTryEncoding s = some (value, encoding) := by
  constructor
  · rintro rfl
    exact zipTryEncoding_decimalText low high
  · rintro ⟨encoding, encoded⟩
    exact (zipTryEncoding_cases encoded).1.symm

theorem encoding_ne (encoded : zipTryEncoding s = some (value, encoding))
    : encoding ≠ 0 ∧ encoding ≠ 0xFF := by
  obtain ⟨_, ⟨n, _, small, rfl⟩ | ⟨rfl, _⟩ | ⟨rfl, _⟩ | ⟨rfl, _⟩ | ⟨rfl, _⟩ | ⟨rfl, _⟩⟩ :=
    zipTryEncoding_cases encoded
  · interval_cases n <;> decide
  all_goals decide

end Integers

-- One entry

/-- What the code reads of an entry at `p`: its header, and the string or the integer behind it,
whose text is the entry's.
-/
structure EntryRead (zl : List UInt8) (p : Nat) (node : ZipNode) (text : List UInt8)
    (encoding : UInt8) (lensize len : Nat)
    : Prop where
  prevlensize : zipDecodePrevLenSize zl p = .ok (prevSize node.wide)
  header : zipDecodeLength zl (p + prevSize node.wide) = .ok (encoding, lensize, len)
  entry : ∃ prevrawlen,
    zipEntry zl p
      = .ok {
          prevrawlensize := prevSize node.wide
          prevrawlen
          lensize
          len
          headersize := prevSize node.wide + lensize
          encoding
          p }
  size : prevSize node.wide + lensize + len = node.rawLength
  str : zipIsStr encoding = true →
    readBytes zl (p + prevSize node.wide + lensize) len = .ok text ∧ text.length = len
  int : ¬ zipIsStr encoding = true →
    ∃ value, zipLoadInteger zl (p + prevSize node.wide + lensize) encoding = .ok value
      ∧ text = decimalText value

section Entries

variable {zl v : List UInt8} {nodes before rest : List ZipNode} {node : ZipNode}
  {text : List UInt8} {encoding : UInt8} {lensize len p : Nat}

theorem entryRead_of_text (wellFormed : ZiplistOf zl (before ++ node :: rest))
    (textEq : node.text = some text)
    : ∃ encoding lensize len,
        EntryRead zl (10 + chainSize before) node text encoding lensize len := by
  obtain ⟨count, rfl, _⟩ := wellFormed.block
  obtain ⟨pre, preEq⟩ : ∃ pre,
      pre = ziplistBlock (11 + chainSize (before ++ node :: rest))
        (10 + chainSize (before ++ node :: rest).dropLast) count (chainBytes 0 before) := ⟨_, rfl⟩
  obtain ⟨post, postEq⟩ : ∃ post, post = chainBytes node.rawLength rest ++ [zipEnd] := ⟨_, rfl⟩
  have start : pre.length = 10 + chainSize before := by simp [preEq]
  have links := (linked_append.mp wellFormed.linked).2.1
  have split : nodesBlock count (before ++ node :: rest)
      = pre ++ (prevField node.wide (lastLength 0 before) ++ node.body) ++ post := by
    rw [preEq, postEq]
    exact nodesBlock_split count before rest node
  have bodySplit : nodesBlock count (before ++ node :: rest)
      = pre ++ prevField node.wide (lastLength 0 before) ++ node.body ++ post := by
    rw [split]
    simp
  have place : (pre ++ prevField node.wide (lastLength 0 before)).length
      = 10 + chainSize before + prevSize node.wide := by simp [start]
  obtain ⟨value, valued, rfl⟩ := Option.map_eq_some_iff.mp textEq
  unfold zipValue at valued
  split at valued
  · cases valued
  rename_i encoding lensize len decoded
  split at valued
  · rename_i exact
    refine ⟨encoding, lensize, len, ?_, ?_,
      ⟨_, zipEntry_eq split start links wellFormed.lastWord decoded⟩, ?_,
      fun str => ?_, fun notStr => ?_⟩
    · exact zipDecodePrevLenSize_ok (bodySplit.trans (List.append_assoc ..)) start links
    · rw [bodySplit, ← place]
      exact zipDecodeLength_within decoded _ post
    · rw [ZipNode.rawLength, ← exact, Nat.add_assoc]
    · rw [if_pos str] at valued
      cases valued
      have data := readBytes_drop exact
      refine ⟨?_, length_of_readBytes data⟩
      rw [bodySplit, ← place]
      exact readBytes_within data _ post
    · rw [if_neg notStr] at valued
      split at valued
      · rename_i number loaded
        cases valued
        refine ⟨number, ?_, rfl⟩
        rw [bodySplit, ← place]
        exact zipLoadInteger_within loaded _ post
      · cases valued
  · cases valued

theorem ziplistCompare_ok (wellFormed : ZiplistOf zl (before ++ node :: rest))
    (textEq : node.text = some text)
    : ziplistCompare zl (10 + chainSize before) v = .ok (decide (text = v)) := by
  obtain ⟨first, read, last⟩ := wellFormed.readByte_after
  obtain ⟨encoding, lensize, len, entry⟩ := entryRead_of_text wellFormed textEq
  obtain ⟨prevrawlen, decoded⟩ := entry.entry
  rw [ziplistCompare, read, ok_andThen, if_neg (by simp [last]), decoded, ok_andThen]
  dsimp only
  rw [← Nat.add_assoc]
  by_cases str : zipIsStr encoding = true
  · obtain ⟨data, length⟩ := entry.str str
    rw [if_pos str]
    split
    · rename_i same
      rw [← same, data, ok_andThen]
      rfl
    · rename_i other
      refine congrArg Except.ok (decide_eq_false fun same => other ?_).symm
      rw [← length, same]
  · obtain ⟨value, loaded, rfl⟩ := entry.int str
    obtain ⟨low, high⟩ := zipLoadInteger_word loaded
    rw [if_neg str]
    cases encoded : zipTryEncoding v with
    | none =>
        refine congrArg Except.ok (decide_eq_false fun same => ?_).symm
        obtain ⟨_, found⟩ := (encoded_as_iff low high).mp same
        cases encoded.symm.trans found
    | some result =>
        obtain ⟨sval, sencoding⟩ := result
        dsimp only
        rw [loaded, ok_andThen]
        refine congrArg Except.ok (decide_eq_decide.mpr ?_)
        rw [encoded_as_iff low high, encoded]
        simp [eq_comm]

theorem ziplistTailOffset_ok (wellFormed : ZiplistOf zl nodes)
    : ziplistTailOffset zl = .ok (10 + chainSize nodes.dropLast) := by
  obtain ⟨len, rfl, _⟩ := wellFormed.block
  refine ziplistTailOffset_block ?_
  have word := wellFormed.word
  rcases List.eq_nil_or_concat nodes with rfl | ⟨before, last, rfl⟩
  · decide
  · have shorter := chainSize_dropLast_lt
      (show before.concat last ≠ [] by rw [List.concat_eq_append]; simp)
    omega

theorem ziplistPrev_ok (wellFormed : ZiplistOf zl (before ++ node :: rest))
    : ziplistPrev zl (10 + chainSize (before ++ [node])) = .ok (some (10 + chainSize before)) := by
  have shifted : ZiplistOf zl ((before ++ [node]) ++ rest) := by simpa using wellFormed
  obtain ⟨first, read, last⟩ := shifted.readByte_after
  obtain ⟨second, readNode, inside⟩ := wellFormed.readByte_after
  rw [ziplistPrev, read, ok_andThen]
  cases rest with
  | nil =>
      have tail := ziplistTailOffset_ok wellFormed
      rw [List.dropLast_concat] at tail
      rw [if_pos (last.mpr rfl), tail, ok_andThen, readNode, ok_andThen, if_neg (by simp [inside])]
      rfl
  | cons next rest =>
      have positive := node.rawLength_pos
      have place : 10 + chainSize (before ++ [node]) = 10 + chainSize before + node.rawLength := by
        simp only [chainSize_append, chainSize]
        omega
      have prevlen : lastLength 0 (before ++ [node]) = node.rawLength := by
        rw [lastLength_append]
        rfl
      have word : node.rawLength < 2 ^ 32 := by
        have word := wellFormed.word
        simp only [chainSize_append, chainSize] at word
        omega
      obtain ⟨count, rfl, _⟩ := shifted.block
      have decoded := zipDecodePrevLen_ok (p := 10 + chainSize (before ++ [node]))
        (nodesBlock_field count (before ++ [node]) rest next) (by simp)
        (linked_append.mp shifted.linked).2.1 (prevlen ▸ word)
      rw [if_neg (by simp [last]), if_neg (by rw [place, ziplistHeaderSize]; omega), decoded,
        ok_andThen]
      dsimp only
      rw [prevlen, if_pos positive, place, Nat.add_sub_cancel]
      rfl

theorem ziplistPrev_head (wellFormed : ZiplistOf zl nodes)
    : ziplistPrev zl ziplistHeaderSize = .ok none := by
  have shape : ZiplistOf zl ([] ++ nodes) := wellFormed
  obtain ⟨first, read, last⟩ := shape.readByte_after
  have place : 10 + chainSize [] = ziplistHeaderSize := rfl
  rw [place] at read
  rw [ziplistPrev, read, ok_andThen]
  split
  · rename_i atEnd
    obtain rfl := last.mp atEnd
    have tail : ziplistTailOffset zl = .ok ziplistHeaderSize := ziplistTailOffset_ok wellFormed
    rw [tail, ok_andThen, read, ok_andThen, if_pos atEnd]
    rfl
  · rw [if_pos rfl]
    rfl

end Entries

-- Searching

/-- The first of the values at `distance`, `distance + skip + 1` and so on that equals a string. -/
def findEvery (v : List UInt8) (skip : Nat)
    : (distance : Nat) → (values : List (List UInt8)) → Option Nat
  | _, [] => none
  | 0, s :: rest => if s = v then some 0 else (findEvery v skip skip rest).map Nat.succ
  | distance + 1, _ :: rest => (findEvery v skip distance rest).map Nat.succ

inductive FirstOf (v : List UInt8) (step start : Nat) (values : List (List UInt8))
    : Option Nat → Prop
  | absent (others : ∀ j, values[start + j * step]? ≠ some v) : FirstOf v step start values none
  | found (j : Nat) (equal : values[start + j * step]? = some v)
    (others : ∀ i < j, values[start + i * step]? ≠ some v)
    : FirstOf v step start values (some (start + j * step))

section Searching

variable {zl v s : List UInt8} {values : List (List UInt8)} {nodes before rest : List ZipNode}
  {skip step start : Nat} {result : Option Nat}

theorem FirstOf.succ (first : FirstOf v step start values result)
    : FirstOf v step (start + 1) (s :: values) (result.map Nat.succ) := by
  have shifted (j : Nat) : (s :: values)[start + 1 + j * step]? = values[start + j * step]? := by
    rw [Nat.add_right_comm, List.getElem?_cons_succ]
  cases first with
  | absent others => exact .absent fun j => by rw [shifted]; exact others j
  | found j equal others =>
      have place : Nat.succ (start + j * step) = start + 1 + j * step := by omega
      rw [Option.map_some, place]
      exact .found j ((shifted j).trans equal) fun i before => by
        rw [shifted]; exact others i before

theorem FirstOf.pass (different : values[start]? ≠ some v)
    (first : FirstOf v step (start + step) values result)
    : FirstOf v step start values result := by
  have shifted (j : Nat) : start + (j + 1) * step = start + step + j * step := by
    rw [Nat.add_mul, Nat.one_mul, Nat.add_assoc, Nat.add_comm step]
  cases first with
  | absent others =>
      refine .absent fun j => ?_
      cases j with
      | zero => simpa using different
      | succ j =>
          rw [shifted]
          exact others j
  | found j equal others =>
      rw [← shifted]
      refine .found (j + 1) (by rwa [shifted]) fun i before => ?_
      cases i with
      | zero => simpa using different
      | succ i =>
          rw [shifted]
          exact others i (Nat.lt_of_succ_lt_succ before)

theorem findEvery_first (v : List UInt8) (skip distance : Nat) (values : List (List UInt8))
    : FirstOf v (skip + 1) distance values (findEvery v skip distance values) := by
  induction values generalizing distance with
  | nil => exact .absent fun j => by simp
  | cons s rest ih =>
      cases distance with
      | zero =>
          rw [findEvery]
          split
          · rename_i same
            have here : (s :: rest)[0 + 0 * (skip + 1)]? = some v := by simp [same]
            simpa using FirstOf.found 0 here fun i before => absurd before (Nat.not_lt_zero i)
          · rename_i different
            refine FirstOf.pass (by simpa using different) ?_
            rw [Nat.zero_add]
            exact (ih skip).succ
      | succ distance => exact (ih distance).succ

/-- What is known of the encoding of the string that is searched for. -/
def Cached (v : List UInt8) (vencoding : UInt8) (vll : Int) : Prop :=
  vencoding ≠ 0 →
    match zipTryEncoding v with
    | some (value, encoding) => vencoding = encoding ∧ vll = value
    | none => vencoding = 0xFF

theorem cached_findEncoding {vencoding : UInt8} {vll : Int} (cached : Cached v vencoding vll)
    : (ziplistFindEncoding v vencoding vll).1 ≠ 0
      ∧ Cached v (ziplistFindEncoding v vencoding vll).1
        (ziplistFindEncoding v vencoding vll).2 := by
  unfold ziplistFindEncoding
  split
  · cases encoded : zipTryEncoding v with
    | none => exact ⟨(by decide : (0xFF : UInt8) ≠ 0), fun _ => by rw [encoded]⟩
    | some result =>
        obtain ⟨value, encoding⟩ := result
        exact ⟨(encoding_ne encoded).1, fun _ => by rw [encoded]; exact ⟨rfl, rfl⟩⟩
  · rename_i known
    exact ⟨known, cached⟩

theorem cached_compare {vencoding encoding : UInt8} {vll value : Int} {q : Nat}
    (cached : Cached v vencoding vll) (known : vencoding ≠ 0)
    (loaded : zipLoadInteger zl q encoding = .ok value)
    : (if vencoding ≠ 0xFF then do
        let ll ← zipLoadInteger zl q encoding
        pure (decide (ll = vll)) else pure false)
      = (.ok (decide (decimalText value = v)) : Except Fault Bool) := by
  obtain ⟨low, high⟩ := zipLoadInteger_word loaded
  have fact := cached known
  have same := @encoded_as_iff v value low high
  cases encoded : zipTryEncoding v with
  | none =>
      rw [encoded] at fact same
      rw [if_neg (by simp [fact])]
      refine congrArg Except.ok (decide_eq_false fun equal => ?_).symm
      obtain ⟨_, found⟩ := same.mp equal
      cases found
  | some result =>
      obtain ⟨number, other⟩ := result
      rw [encoded] at fact same
      obtain ⟨rfl, rfl⟩ := fact
      rw [if_pos (encoding_ne encoded).2, loaded, ok_andThen]
      refine congrArg Except.ok (decide_eq_decide.mpr ?_)
      rw [same]
      simp [eq_comm]

theorem toNat_sub_one {skipcnt : Int32} (more : skipcnt ≠ 0)
    : skipcnt.toUInt32.toNat = (skipcnt - 1).toUInt32.toNat + 1 := by
  have positive : skipcnt.toUInt32.toNat ≠ 0 := by
    intro zero
    have same : skipcnt.toUInt32 = 0 := UInt32.toNat_inj.mp zero
    exact more (congrArg Int32.ofUInt32 same)
  have bound := skipcnt.toUInt32.toNat_lt
  have one : (1 : Int32).toUInt32.toNat = 1 := rfl
  rw [Int32.toUInt32_sub, UInt32.toNat_sub, one]
  omega

theorem ziplistFindLoop_ok (rounds : Nat) {skip : UInt32} {skipcnt : Int32} {vencoding : UInt8}
    {vll : Int}
    (wellFormed : ZiplistOf zl (before ++ rest)) (texts : rest.map ZipNode.text = values.map some)
    (enough : rest.length < rounds) (cached : Cached v vencoding vll)
    : ziplistFindLoop zl v skip rounds (10 + chainSize before) skipcnt vencoding vll
      = .ok ((findEvery v skip.toNat skipcnt.toUInt32.toNat values).map fun k =>
          entryOffset (before ++ rest) (before.length + k)) := by
  induction rounds generalizing before rest values skipcnt vencoding vll with
  | zero => exact absurd enough (Nat.not_lt_zero _)
  | succ rounds ih =>
      obtain ⟨first, read, last⟩ := wellFormed.readByte_after
      rw [ziplistFindLoop, read, ok_andThen]
      cases rest with
      | nil =>
          obtain rfl : values = [] := by simpa using texts.symm
          rw [if_neg (by simp [last.mpr rfl]), findEvery]
          rfl
      | cons node rest =>
          obtain ⟨s, values, rfl⟩ : ∃ s more, values = s :: more :=
            List.exists_cons_of_ne_nil (by rintro rfl; simp at texts)
          rw [List.map_cons, List.map_cons, List.cons.injEq] at texts
          obtain ⟨encoding, lensize, len, entry⟩ := entryRead_of_text wellFormed texts.1
          have shifted : ZiplistOf zl ((before ++ [node]) ++ rest) := by simpa using wellFormed
          have place : 10 + chainSize before + prevSize node.wide + lensize + len
              = 10 + chainSize (before ++ [node]) := by
            have size := entry.size
            simp only [chainSize_append, chainSize]
            omega
          have shift (result : Option Nat)
              : (result.map Nat.succ).map
                (fun k => entryOffset (before ++ node :: rest) (before.length + k))
                = result.map fun k =>
                    entryOffset ((before ++ [node]) ++ rest) ((before ++ [node]).length + k) := by
            cases result with
            | none => rfl
            | some k =>
                rw [Option.map_some, Option.map_some, Option.map_some, List.append_assoc,
                  List.singleton_append, List.length_append, List.length_singleton]
                congr 2
                omega
          have here : entryOffset (before ++ node :: rest) (before.length + 0)
              = 10 + chainSize before := by
            rw [entryOffset, Nat.add_zero, List.take_left]
          have next {skipcnt : Int32} {vencoding : UInt8} {vll : Int}
              (cached : Cached v vencoding vll)
              : ziplistFindLoop zl v skip rounds (10 + chainSize (before ++ [node])) skipcnt
                vencoding vll
                = .ok ((findEvery v skip.toNat skipcnt.toUInt32.toNat values).map fun k =>
                    entryOffset ((before ++ [node]) ++ rest) ((before ++ [node]).length + k)) :=
            ih shifted texts.2 (Nat.lt_of_succ_lt_succ enough) cached
          have zero : (0 : Int32).toUInt32.toNat = 0 := rfl
          have restart : skip.toInt32.toUInt32 = skip := rfl
          rw [if_pos (by simp [last]), entry.prevlensize, ok_andThen, entry.header, ok_andThen]
          dsimp only
          rw [place]
          split
          · rename_i candidate
            subst candidate
            rw [zero, findEvery]
            split
            · rename_i str
              obtain ⟨data, length⟩ := entry.str str
              have compared : (if len = v.length then do
                  let bytes ← readBytes zl (10 + chainSize before + prevSize node.wide + lensize)
                    v.length
                  pure (decide (bytes = v)) else pure false)
                  = (.ok (decide (s = v)) : Except Fault Bool) := by
                split
                · rename_i same
                  rw [← same, data, ok_andThen]
                  rfl
                · rename_i other
                  refine congrArg Except.ok (decide_eq_false fun same => other ?_).symm
                  rw [← length, same]
              rw [compared, ok_andThen]
              by_cases same : s = v
              · rw [if_pos same, if_pos (decide_eq_true same), Option.map_some, here]
                rfl
              · rw [if_neg same, if_neg (by simp [same]), next cached, restart, shift]
            · rename_i notStr
              obtain ⟨value, loaded, rfl⟩ := entry.int notStr
              obtain ⟨known, cachedNext⟩ := cached_findEncoding cached
              rw [if_neg known, cached_compare cachedNext known loaded, ok_andThen]
              by_cases same : decimalText value = v
              · rw [if_pos same, if_pos (decide_eq_true same), Option.map_some, here]
                rfl
              · rw [if_neg same, if_neg (by simp [same]), next cachedNext, restart, shift]
          · rename_i more
            rw [next cached, toNat_sub_one more, findEvery, shift]

theorem FirstOf.of_drop (first : FirstOf v step 0 (values.drop start) result)
    : FirstOf v step start values (result.map (start + ·)) := by
  have shifted (j : Nat) : (values.drop start)[0 + j * step]? = values[start + j * step]? := by
    rw [List.getElem?_drop, Nat.zero_add]
  cases first with
  | absent others => exact .absent fun j => by rw [← shifted]; exact others j
  | found j equal others =>
      rw [Option.map_some, Nat.zero_add]
      exact .found j ((shifted j).symm.trans equal) fun i before => by
        rw [← shifted]; exact others i before

end Searching

-- Agreement

/-- What is asked of indices, steps, the count, comparisons and searches on a ziplist. -/
structure TraversalAgrees (zl : List UInt8) (nodes : List ZipNode) (values : List (List UInt8))
    : Prop where
  index : ∀ i < nodes.length,
    ziplistIndex zl (Int32.ofNat i) = .ok (some (entryOffset nodes i))
    ∧ ziplistIndex zl (Int32.ofInt (i - nodes.length)) = .ok (some (entryOffset nodes i))
  outside : ∀ index : Int32,
    index ≠ Int32.minValue → index.toInt < -nodes.length ∨ nodes.length ≤ index.toInt →
      ziplistIndex zl index = .ok none
  next : ∀ i ≤ nodes.length,
    ziplistNext zl (entryOffset nodes i)
      = .ok (if i + 1 < nodes.length then some (entryOffset nodes (i + 1)) else none)
  prev : ∀ i ≤ nodes.length,
    ziplistPrev zl (entryOffset nodes i)
      = .ok (if 0 < i then some (entryOffset nodes (i - 1)) else none)
  len : ∃ rewritten again,
    ziplistLen zl = .ok (nodes.length, rewritten)
    ∧ ZiplistHolds rewritten nodes values
    ∧ ziplistLen rewritten = .ok (nodes.length, again)
  compare : ∀ i s v,
    values[i]? = some s → ziplistCompare zl (entryOffset nodes i) v = .ok (decide (s = v))
  find : ∀ i ≤ nodes.length, ∀ v (skip : UInt32), ∃ found,
    FirstOf v (skip.toNat + 1) i values found
    ∧ ziplistFind zl (entryOffset nodes i) v skip = .ok (found.map (entryOffset nodes))

section Agreement

variable {zl : List UInt8} {nodes : List ZipNode} {values : List (List UInt8)}

theorem ZiplistOf.count_lt (wellFormed : ZiplistOf zl nodes) : nodes.length < 2 ^ 31 := by
  have few := two_mul_length_le wellFormed.reads
  have word := wellFormed.word
  omega

theorem entryOffset_length_before (before rest : List ZipNode)
    : entryOffset (before ++ rest) before.length = 10 + chainSize before := by
  rw [entryOffset, List.take_left]

theorem ZiplistOf.next (wellFormed : ZiplistOf zl nodes) {i : Nat} (inside : i ≤ nodes.length)
    : ziplistNext zl (entryOffset nodes i)
      = .ok (if i + 1 < nodes.length then some (entryOffset nodes (i + 1)) else none) := by
  rcases Nat.lt_or_eq_of_le inside with entry | rfl
  · obtain ⟨before, node, rest, rfl, rfl, _⟩ := entry_at entry
    have behind : entryOffset (before ++ node :: rest) (before.length + 1)
        = 10 + chainSize (before ++ [node]) := by
      have place := entryOffset_length_before (before ++ [node]) rest
      simpa using place
    rw [entryOffset_length_before, ziplistNext_ok wellFormed, behind]
    cases rest with
    | nil => simp
    | cons other rest => simp
  · have shape : ZiplistOf zl (nodes ++ []) := by simpa using wellFormed
    obtain ⟨first, read, last⟩ := shape.readByte_after
    rw [entryOffset, List.take_length, ziplistNext, read, ok_andThen, if_pos (last.mpr rfl),
      if_neg (by omega)]
    rfl

theorem ZiplistOf.prev (wellFormed : ZiplistOf zl nodes) {i : Nat} (inside : i ≤ nodes.length)
    : ziplistPrev zl (entryOffset nodes i)
      = .ok (if 0 < i then some (entryOffset nodes (i - 1)) else none) := by
  cases i with
  | zero => exact ziplistPrev_head wellFormed
  | succ i =>
      obtain ⟨before, node, rest, rfl, rfl, _⟩ := entry_at inside
      have behind : entryOffset (before ++ node :: rest) (before.length + 1)
          = 10 + chainSize (before ++ [node]) := by
        have place := entryOffset_length_before (before ++ [node]) rest
        simpa using place
      rw [behind, ziplistPrev_ok wellFormed, if_pos (Nat.succ_pos _), Nat.add_sub_cancel,
        entryOffset_length_before]

theorem ZiplistHolds.find (holds : ZiplistHolds zl nodes values) {i : Nat}
    (inside : i ≤ nodes.length) (v : List UInt8) (skip : UInt32)
    : ∃ found,
        FirstOf v (skip.toNat + 1) i values found
        ∧ ziplistFind zl (entryOffset nodes i) v skip = .ok (found.map (entryOffset nodes)) := by
  have split : nodes.take i ++ nodes.drop i = nodes := List.take_append_drop i nodes
  have length : (nodes.take i).length = i := by
    rw [List.length_take]
    omega
  have shape : ZiplistOf zl (nodes.take i ++ nodes.drop i) := split.symm ▸ holds.entries
  have texts : (nodes.drop i).map ZipNode.text = (values.drop i).map some := by
    rw [List.map_drop, List.map_drop, holds.texts]
  have enough : (nodes.drop i).length < zl.length := by
    have few := holds.entries.length_lt
    rw [List.length_drop]
    omega
  have searched
      : ziplistFindLoop zl v skip zl.length (10 + chainSize (nodes.take i)) 0 0 0
        = .ok ((findEvery v skip.toNat 0 (values.drop i)).map fun k =>
            entryOffset (nodes.take i ++ nodes.drop i) ((nodes.take i).length + k)) :=
    ziplistFindLoop_ok zl.length shape texts enough fun known => absurd rfl known
  refine ⟨_, (findEvery_first v skip.toNat 0 (values.drop i)).of_drop, ?_⟩
  rw [ziplistFind, entryOffset, searched, split, length, Option.map_map]
  rfl

/-- On every well-formed ziplist, stepping forward and backward agree and lookups are exact. -/
theorem ziplist_traversal_agrees (holds : ZiplistHolds zl nodes values)
    : TraversalAgrees zl nodes values where
  index i inside := by
    have few := holds.entries.count_lt
    have forward : (Int32.ofNat i).toInt = i := Int32.toInt_ofNat_of_lt (by omega)
    have backward : (Int32.ofInt (i - nodes.length)).toInt = i - nodes.length :=
      Int32.toInt_ofInt_of_le (by omega) (by omega)
    constructor
    · rw [ziplistIndex_ok holds.entries, forward, positionOf, if_pos (by omega), if_pos (by omega)]
      rfl
    · rw [ziplistIndex_ok holds.entries, backward, positionOf, if_neg (by omega), if_pos (by omega),
        show (nodes.length : Int) + (i - nodes.length) = i by omega]
      rfl
  outside index _ away := by
    rw [ziplistIndex_ok holds.entries, positionOf]
    rcases away with low | high
    · rw [if_neg (by omega), if_neg (by omega)]
      rfl
    · rw [if_pos (by omega), if_neg (by omega)]
      rfl
  next i inside := holds.entries.next inside
  prev i inside := holds.entries.prev inside
  len := by
    have count : values.length = nodes.length := by
      have lengths := congrArg List.length holds.texts
      simpa using lengths.symm
    obtain ⟨rewritten, counted, kept⟩ := ziplistLen_ok holds
    obtain ⟨again, recounted, _⟩ := ziplistLen_ok kept
    rw [count] at counted recounted
    exact ⟨rewritten, again, counted, kept, recounted⟩
  compare i s v found := by
    have textAt : (nodes.map ZipNode.text)[i]? = some (some s) := by
      rw [holds.texts, List.getElem?_map, found]
      rfl
    rw [List.getElem?_map] at textAt
    obtain ⟨node, atNode, text⟩ := Option.map_eq_some_iff.mp textAt
    obtain ⟨inside, _⟩ := List.getElem?_eq_some_iff.mp atNode
    obtain ⟨before, other, rest, rfl, rfl, _⟩ := entry_at inside
    obtain rfl : other = node := by simpa using atNode
    rw [entryOffset_length_before]
    exact ziplistCompare_ok holds.entries text
  find i inside v skip := holds.find inside v skip

theorem ziplist_traversal_agrees_shrunk
    : TraversalAgrees (nodesBlock 2 shrunkNodes) shrunkNodes [List.replicate 250 0x61, [0x35]] :=
  ziplist_traversal_agrees shrunkNodes_holds

end Agreement

end Redis
