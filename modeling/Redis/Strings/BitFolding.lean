import Redis.Keyspace.TimeoutExactness
import Redis.Strings.BitOperations

/-! The words of the fast path and the bytes behind it are the operation, byte by byte. -/

namespace Redis.Strings

open Redis.Library
open Redis.Keyspace (Sds Db ObjectDb Value)

-- Bytes of the result

/-- The strings of the sources. A source that is not there is the empty string. -/
def sourceTexts (src : List Source) : List Sds := src.map (·.getD [])

/-- The operation folded over a byte of each string. The strings have zeros behind their ends. -/
def bitopByte (op : BitOp) (texts : List Sds) (j : Nat) : UInt8 :=
  texts.tail.foldl (fun output text => op.byte output (text.getD j 0))
    (op.first ((texts.headD []).getD j 0))

theorem BitOp.bytewise (op : BitOp) : Bytewise op.word op.byte := by
  cases op with
  | and => exact bytewise_and
  | or => exact bytewise_or
  | xor => exact bytewise_xor
  | not => exact ⟨rfl, fun _ _ _ _ => rfl⟩

section FastPath

variable {op : BitOp} {src : List Source} {res : Sds} {j minlen limit : Nat}

theorem fourWords_ok {body : Sds → Nat → Except Fault Sds} {f : UInt8 → Nat → UInt8}
    (word : ∀ block offset, offset + wordSize ≤ j + wordSize * 4 → block.length = res.length
      → ∃ next, body block offset = .ok next
        ∧ Changed block next offset (offset + wordSize) fun i => f (block.getD i 0) i)
    : ∃ next, (List.range 4).foldlM (fun block k => body block (j + k * wordSize)) res = .ok next
      ∧ Changed res next j (j + wordSize * 4) fun i => f (res.getD i 0) i := by
  have loop : ∃ next, (List.range 4).foldlM (fun block k => body block (j + k * wordSize)) res
      = .ok next
      ∧ Changed res next j (j + 4 * wordSize) fun i => f (res.getD i 0) i := by
    refine @foldlM_range_ok _ _ _
      (fun k block => Changed res block j (j + k * wordSize) fun i => f (res.getD i 0) i) _ _ ?_
      fun k block small changed => ?_
    · rw [Nat.zero_mul, Nat.add_zero]
      exact .refl ..
    · obtain ⟨next, ran, more⟩ :=
        word block (j + k * wordSize) (by unfold wordSize; omega) changed.length
      refine ⟨next, ran, ?_⟩
      rw [Nat.succ_mul, ← Nat.add_assoc]
      refine changed.append (more.congr fun i low _ => ?_) ⟨by omega, by omega⟩
      rw [changed.bytes, if_neg (by omega)]
  rwa [Nat.mul_comm 4] at loop

theorem fastCombine_ok (op : BitOp) {text : Sds} (inside : j + wordSize * 4 ≤ res.length)
    (within : j + wordSize * 4 ≤ text.length)
    : ∃ next, fastCombine op j res (some text) = .ok next
      ∧ Changed res next j (j + wordSize * 4) fun i => op.byte (res.getD i 0) (text.getD i 0) :=
  fourWords_ok (f := fun output i => op.byte output (text.getD i 0)) fun _ _ small length =>
    combineWord_ok op.bytewise (by omega) (by omega)

theorem fastComplement_ok (inside : j + wordSize * 4 ≤ res.length)
    : ∃ next, fastComplement j res = .ok next
      ∧ Changed res next j (j + wordSize * 4) fun i => ~~~res.getD i 0 :=
  fourWords_ok (f := fun output _ => ~~~output) fun _ _ small length =>
    complementWord_ok (by omega)

/-- The sources are there and have as many bytes as the fast path goes. -/
def Reach (src : List Source) (limit : Nat) : Prop :=
  ∀ source ∈ src, ∃ text, source = some text ∧ limit ≤ text.length

theorem fastStep_ok (op : BitOp) (single : op = .not → src.tail = []) (reach : Reach src.tail limit)
    (below : j + wordSize * 4 ≤ limit) (inside : j + wordSize * 4 ≤ res.length)
    : ∃ next, fastStep op src j res = .ok next
      ∧ Changed res next j (j + wordSize * 4) fun i =>
          (sourceTexts src.tail).foldl (fun output text => op.byte output (text.getD i 0))
            (op.first (res.getD i 0)) := by
  unfold fastStep
  by_cases complement : op = .not
  · obtain ⟨next, ran, changed⟩ := fastComplement_ok inside
    rw [if_pos complement, single complement]
    refine ⟨next, ran, changed.congr fun i _ _ => ?_⟩
    rw [BitOp.first, if_pos complement]
    rfl
  · rw [if_neg complement]
    refine @foldlM_mem_ok _ _ _ _
      (fun done block => Changed res block j (j + wordSize * 4) fun i =>
        (sourceTexts done).foldl (fun output text => op.byte output (text.getD i 0))
          (op.first (res.getD i 0))) _ _ ?_ ?_
    · refine ⟨rfl, fun i => ?_⟩
      rw [BitOp.first, if_neg complement]
      split <;> rfl
    · intro done source block member changed
      obtain ⟨text, rfl, long⟩ := reach source member
      have room : j + wordSize * 4 ≤ block.length := by rwa [changed.length]
      obtain ⟨next, ran, more⟩ := fastCombine_ok op room (Nat.le_trans below long)
      refine ⟨next, ran, changed.trans (more.congr fun i low high => ?_)⟩
      rw [changed.bytes, if_pos ⟨low, high⟩, sourceTexts, sourceTexts, List.map_append,
        List.foldl_append]
      rfl

/-- The bytes before `j` are done, and those up to the limit are a copy of the first source. -/
structure FastDone (op : BitOp) (src : List Source) (limit j : Nat) (res : Sds) : Prop where
  inside : limit ≤ res.length
  done : ∀ i < j, res.getD i 0 = bitopByte op (sourceTexts src) i
  copied : ∀ i, j ≤ i → i < limit → res.getD i 0 = ((sourceTexts src).headD []).getD i 0

theorem FastDone.step {next : Sds} (done : FastDone op src limit j res)
    (below : j + wordSize * 4 ≤ limit)
    (changed : Changed res next j (j + wordSize * 4) fun i =>
      (sourceTexts src.tail).foldl (fun output text => op.byte output (text.getD i 0))
        (op.first (res.getD i 0)))
    : FastDone op src limit (j + wordSize * 4) next := by
  have tail : (sourceTexts src).tail = sourceTexts src.tail := List.map_tail.symm
  refine ⟨by rw [changed.length]; exact done.inside, fun i small => ?_, fun i low high => ?_⟩
  · rw [changed.bytes]
    by_cases before : i < j
    · rw [if_neg (by omega), done.done i before]
    · rw [if_pos ⟨by omega, small⟩, done.copied i (by omega) (by omega), bitopByte, tail]
  · rw [changed.bytes, if_neg (by omega), done.copied i (by omega) high]

theorem fastLoop_ok (single : op = .not → src.tail = []) (reach : Reach src limit)
    (done : FastDone op src limit j res) (rest : j + minlen = limit)
    : ∃ final next, fastLoop op src res j minlen = .ok (final, next) ∧ next ≤ limit
      ∧ final.length = res.length ∧ ∀ i < next,
        final.getD i 0 = bitopByte op (sourceTexts src) i := by
  induction minlen using Nat.strong_induction_on generalizing res j with
  | _ minlen ih =>
      rw [fastLoop]
      split
      · rename_i enough
        have tailReach : Reach src.tail limit := fun source member =>
          reach source (List.mem_of_mem_tail member)
        obtain ⟨next, ran, changed⟩ := fastStep_ok op single tailReach
          (show j + wordSize * 4 ≤ limit by omega) (Nat.le_trans (by omega) done.inside)
        have positive : 0 < wordSize * 4 := by decide
        obtain ⟨final, last, looped, within, length, bytes⟩ :=
          ih (minlen - wordSize * 4) (by omega) (done.step (by omega) changed) (by omega)
        refine ⟨final, last, ?_, within, length.trans changed.length, bytes⟩
        rw [ran, ok_andThen, looped]
      · exact ⟨res, j, rfl, by omega, rfl, done.done⟩

end FastPath

section Bytes

variable {op : BitOp} {src : List Source} {res : Sds} {j maxlen minlen : Nat}

theorem sourceByte_ok (source : Source) (j : Nat)
    : sourceByte source j = .ok ((source.getD []).getD j 0) := by
  unfold sourceByte
  split
  · rename_i past
    cases source with
    | none => rfl
    | some text =>
        rw [Option.getD_some, List.getD_eq_getElem?_getD, List.getElem?_eq_none past]
        rfl
  · rename_i inside
    cases source with
    | none => exact absurd (Nat.zero_le j) inside
    | some text =>
        have small : j < text.length := Nat.lt_of_not_le inside
        simp [Source.bytes, readByte, List.getElem?_eq_getElem small]

theorem foldBytes_ok (op : BitOp) (src : List Source) (j : Nat) (output : UInt8)
    : src.foldlM (fun output source => do
        let byte ← sourceByte source j
        pure (op.byte output byte)) output
      = (.ok ((sourceTexts src).foldl (fun output text => op.byte output (text.getD j 0)) output)
          : Except Fault UInt8) := by
  induction src generalizing output with
  | nil => rfl
  | cons source rest ih =>
      rw [List.foldlM_cons, sourceByte_ok, ok_andThen]
      exact ih (op.byte output ((source.getD []).getD j 0))

theorem byteStep_ok (op : BitOp) (nonempty : src ≠ []) (inside : j < res.length)
    : ∃ next, byteStep op src res j = .ok next
      ∧ Changed res next j (j + 1) fun _ => bitopByte op (sourceTexts src) j := by
  obtain ⟨source, rest, rfl⟩ := List.exists_cons_of_ne_nil nonempty
  have room : j + [bitopByte op (sourceTexts (source :: rest)) j].length ≤ res.length := inside
  obtain ⟨next, written, changed⟩ := writeBytes_getD room
  refine ⟨next, ?_, changed.congr fun i low high => ?_⟩
  · rw [byteStep, sourceAt, List.getElem?_cons_zero, ok_andThen, sourceByte_ok, ok_andThen,
      List.tail_cons, foldBytes_ok, ok_andThen]
    exact written
  · obtain rfl : i = j := by
      rw [List.length_singleton] at high
      omega
    simp

theorem reach_of_len (least : ∀ source ∈ src, minlen ≤ source.len) (positive : 0 < minlen)
    : Reach src minlen := by
  intro source member
  have long := least source member
  cases source with
  | none => exact absurd (Nat.lt_of_lt_of_le positive long) (Nat.lt_irrefl 0)
  | some text => exact ⟨text, rfl, long⟩

theorem fastPath_ok (single : op = .not → src.tail = [])
    (longest : ∀ source ∈ src, source.len ≤ maxlen)
    (least : ∀ source ∈ src, minlen ≤ source.len) (nonempty : src ≠ [])
    : ∃ res next, fastPath op src (List.replicate maxlen 0) minlen = .ok (res, next)
      ∧ next ≤ maxlen ∧ res.length = maxlen
      ∧ ∀ i < next, res.getD i 0 = bitopByte op (sourceTexts src) i := by
  unfold fastPath
  split
  · rename_i enough
    have reach := reach_of_len least (Nat.lt_of_lt_of_le (by decide) enough.1)
    obtain ⟨source, rest, rfl⟩ := List.exists_cons_of_ne_nil nonempty
    obtain ⟨text, rfl, long⟩ := reach source List.mem_cons_self
    have fits : minlen ≤ maxlen := Nat.le_trans long (longest _ List.mem_cons_self)
    obtain ⟨copy, read, size, bytes⟩ := readBytes_getD (show 0 + minlen ≤ text.length by omega)
    obtain ⟨start, written, changed⟩ := writeBytes_getD
      (show 0 + copy.length ≤ (List.replicate maxlen (0 : UInt8)).length by
        rw [List.length_replicate]
        omega)
    have length : start.length = maxlen := changed.length.trans List.length_replicate
    have copied : FastDone op (some text :: rest) minlen 0 start := by
      refine ⟨by omega, fun i none => absurd none (Nat.not_lt_zero i), fun i _ small => ?_⟩
      rw [changed.bytes, if_pos (by omega), Nat.sub_zero, bytes i small, Nat.zero_add]
      rfl
    obtain ⟨final, next, looped, within, same, done⟩ :=
      fastLoop_ok single reach copied (Nat.zero_add minlen)
    refine ⟨final, next, ?_, Nat.le_trans within fits, same.trans length, done⟩
    rw [sourceAt, List.getElem?_cons_zero, ok_andThen, Source.bytes, ok_andThen, read, ok_andThen,
      written, ok_andThen, looped]
  · exact ⟨_, 0, rfl, Nat.zero_le maxlen, List.length_replicate, fun i none =>
      absurd none (Nat.not_lt_zero i)⟩

theorem bitopResult_ok (single : op = .not → src.tail = [])
    (longest : ∀ source ∈ src, source.len ≤ maxlen)
    (least : ∀ source ∈ src, minlen ≤ source.len) (nonempty : src ≠ [])
    : ∃ res, bitopResult op src maxlen minlen = .ok res ∧ res.length = maxlen
      ∧ ∀ i < maxlen, res.getD i 0 = bitopByte op (sourceTexts src) i := by
  obtain ⟨start, next, ran, within, length, done⟩ := fastPath_ok single longest least nonempty
  obtain ⟨res, looped, whole⟩ := @foldlM_range'_ok _ _ (byteStep op src)
    (fun i res => res.length = maxlen ∧ ∀ k < i, res.getD k 0 = bitopByte op (sourceTexts src) k)
    next (maxlen - next) start ⟨length, done⟩ fun i res low high kept => by
      obtain ⟨after, stepped, changed⟩ := byteStep_ok op nonempty (show i < res.length by omega)
      refine ⟨after, stepped, changed.length.trans kept.1, fun k small => ?_⟩
      rw [changed.bytes]
      by_cases last : k = i
      · rw [if_pos (by omega), last]
      · rw [if_neg (by omega), kept.2 k (by omega)]
  rw [Nat.add_sub_cancel' within] at whole
  exact ⟨res, by rw [bitopResult, ran, ok_andThen]; exact looped, whole⟩

end Bytes

-- Sources

variable {F : Type} {sources : BitSources}

/-- The source of a key, unless it holds something that is no string. -/
def bitSource (db : Db F) (now : Int) (key : Sds) : Option Source :=
  match (db.lookupKey now key).dict key with
  | none => some none
  | some (.string text) => some (some text)
  | some _ => none

/-- The arrays have the longest and at most the shortest length. -/
structure BitSources.Measured (sources : BitSources) : Prop where
  longest : ∀ source ∈ sources.src, source.len ≤ sources.maxlen
  reached : sources.maxlen = 0 ∨ ∃ source ∈ sources.src, source.len = sources.maxlen
  least : ∀ source ∈ sources.src, sources.minlen ≤ source.len

theorem BitSources.Measured.add (measured : sources.Measured) (text : Sds)
    : (sources.add text).Measured := by
  have longer : sources.maxlen ≤ (sources.add text).maxlen
      ∧ text.length ≤ (sources.add text).maxlen := by
    simp only [BitSources.add]
    split <;> omega
  have shorter : (sources.add text).minlen ≤ text.length
      ∧ (sources.src ≠ [] → (sources.add text).minlen ≤ sources.minlen) := by
    simp only [BitSources.add, List.length_eq_zero_iff]
    split
    · rename_i less
      exact ⟨le_rfl, fun some => le_of_lt (less.resolve_left some)⟩
    · rename_i more
      exact ⟨Nat.le_of_not_lt fun less => more (Or.inr less), fun _ => le_rfl⟩
  have members : ∀ source ∈ (sources.add text).src, source ∈ sources.src ∨ source = some text := by
    simp [BitSources.add]
  refine ⟨fun source member => ?_, ?_, fun source member => ?_⟩
  · rcases members source member with old | rfl
    · exact Nat.le_trans (measured.longest source old) longer.1
    · exact longer.2
  · by_cases exceeds : text.length > sources.maxlen
    · exact Or.inr
        ⟨some text, by simp [BitSources.add], by simp [BitSources.add, exceeds, Source.len]⟩
    · have same : (sources.add text).maxlen = sources.maxlen := by simp [BitSources.add, exceeds]
      rw [same]
      refine measured.reached.imp_right fun ⟨source, old, length⟩ => ⟨source, ?_, length⟩
      simp [BitSources.add, old]
  · rcases members source member with old | rfl
    · exact Nat.le_trans (shorter.2 (List.ne_nil_of_mem old)) (measured.least source old)
    · exact shorter.1

theorem BitSources.Measured.addAbsent (measured : sources.Measured)
    : sources.addAbsent.Measured where
  longest source member := by
    rcases List.mem_append.mp member with old | absent
    · exact measured.longest source old
    · rw [List.mem_singleton.mp absent]
      exact Nat.zero_le _
  reached := measured.reached.imp_right fun ⟨source, old, length⟩ =>
    ⟨source, List.mem_append_left _ old, length⟩
  least _ _ := Nat.zero_le _

theorem bitSource_lookupKey (db : Db F) (now : Int) (key other : Sds)
    : bitSource (db.lookupKey now other) now key = bitSource db now key := by
  rw [bitSource, bitSource, Keyspace.lookupKey_lookupKey]

theorem mapM_cons_some {α β : Type} {f : α → Option β} {item : α} {items : List α}
    {results : List β}
    (run : (item :: items).mapM f = some results)
    : ∃ first rest, f item = some first ∧ items.mapM f = some rest ∧ results = first :: rest := by
  rw [List.mapM_cons] at run
  obtain ⟨first, here, run⟩ := Option.bind_eq_some_iff.mp run
  obtain ⟨rest, behind, run⟩ := Option.bind_eq_some_iff.mp run
  exact ⟨first, rest, here, behind, (Option.some.inj run).symm⟩

theorem length_of_mapM {α β : Type} {f : α → Option β} {items : List α} {results : List β}
    (run : items.mapM f = some results)
    : results.length = items.length := by
  induction items generalizing results with
  | nil =>
      cases run
      rfl
  | cons item items ih =>
      obtain ⟨first, rest, -, behind, rfl⟩ := mapM_cons_some run
      rw [List.length_cons, List.length_cons, ih behind]

theorem lookupSources_ok (now : Int) {keys : List Sds} {db : Db F}
    {src : List Source} (strings : keys.mapM (bitSource db now) = some src)
    (measured : sources.Measured)
    : ∃ found, lookupSources now keys sources db
          = (some found, keys.foldl (fun db key => db.lookupKey now key) db)
      ∧ found.Measured ∧ found.src = sources.src ++ src := by
  induction keys generalizing sources db src with
  | nil =>
      cases strings
      exact ⟨sources, rfl, measured, (List.append_nil _).symm⟩
  | cons key keys ih =>
      obtain ⟨source, rest, first, others, rfl⟩ := mapM_cons_some strings
      have same : keys.mapM (bitSource (db.lookupKey now key) now) = some rest := by
        rw [← others]
        exact congrArg (fun f => keys.mapM f)
          (funext fun other => bitSource_lookupKey db now other key)
      have next : ∀ more : BitSources, more.Measured → more.src = sources.src ++ [source] →
          ∃ found, lookupSources now keys more (db.lookupKey now key)
              = (some found, (key :: keys).foldl (fun db key => db.lookupKey now key) db)
            ∧ found.Measured ∧ found.src = sources.src ++ source :: rest := by
        intro more measured arrays
        obtain ⟨found, ran, kept, collected⟩ := ih same measured
        exact ⟨found, ran,
          kept, by rw [collected, arrays, List.append_assoc, List.singleton_append]⟩
      unfold lookupSources
      dsimp only
      unfold bitSource at first
      cases held : (db.lookupKey now key).dict key with
      | none =>
          rw [held] at first
          cases first
          exact next _ measured.addAbsent rfl
      | some value =>
          rw [held] at first
          cases value with
          | string text =>
              cases first
              exact next _ (measured.add text) rfl
          | _ => cases first

-- The command

/-- The databases behind the lookups of the keys. -/
def lookedUpAll (db : Db F) (now : Int) (keys : List Sds) : Db F :=
  keys.foldl (fun db key => db.lookupKey now key) db

def longestLen (src : List Source) : Nat := (src.map Source.len).foldr max 0

theorem longestLen_le_iff {src : List Source} {m : Nat}
    : longestLen src ≤ m ↔ ∀ source ∈ src, source.len ≤ m := by
  induction src with
  | nil => simp [longestLen]
  | cons source rest ih =>
      rw [List.forall_mem_cons, ← ih]
      exact max_le_iff

theorem BitSources.Measured.maxlen_eq (measured : sources.Measured)
    : sources.maxlen = longestLen sources.src := by
  refine Nat.le_antisymm ?_ (longestLen_le_iff.mpr measured.longest)
  rcases measured.reached with zero | ⟨source, member, length⟩
  · rw [zero]
    exact Nat.zero_le _
  · rw [← length]
    exact longestLen_le_iff.mp le_rfl source member

/-- `BITOP` of strings deletes the target when all of them are empty. Otherwise it stores a string
as long as the longest, each byte of which is the operation folded over that byte of the sources.
-/
theorem bitop_folds_bytes (db : Db F) (now : Int) (targetkey : Sds) {opname : Sds} {keys : List Sds}
    {op : BitOp} {src : List Source} (parsed : BitOp.parse opname = some op)
    (single : op = .not → keys.length = 1) (strings : keys.mapM (bitSource db now) = some src)
    : (longestLen src = 0 →
        bitopCommand db now opname targetkey keys
          = .ok (.length 0, (lookedUpAll db now keys).dbDelete targetkey))
      ∧ (longestLen src ≠ 0 → ∃ res,
          bitopCommand db now opname targetkey keys
            = .ok (.length (longestLen src),
                ((lookedUpAll db now keys).lookupKey now targetkey).setKey targetkey (.string res))
          ∧ res.length = longestLen src
          ∧ ∀ j < res.length, res.getD j 0 = bitopByte op (sourceTexts src) j) := by
  have none : (⟨[], 0, 0⟩ : BitSources).Measured :=
    ⟨fun _ member => (List.not_mem_nil member).elim, Or.inl rfl, fun _ _ => Nat.zero_le _⟩
  obtain ⟨found, looked, measured, collected⟩ := lookupSources_ok now strings none
  rw [List.nil_append] at collected
  have longest : found.maxlen = longestLen src := by rw [measured.maxlen_eq, collected]
  have count : src.length = keys.length := length_of_mapM strings
  have run : bitopCommand db now opname targetkey keys
      = if found.maxlen = 0 then .ok (.length 0, (lookedUpAll db now keys).dbDelete targetkey)
        else bitopResult op found.src found.maxlen found.minlen >>= fun res =>
          .ok (.length found.maxlen,
            ((lookedUpAll db now keys).lookupKey now targetkey).setKey targetkey
              (.string res)) := by
    rw [bitopCommand, parsed]
    dsimp only
    rw [if_neg fun wrong => wrong.2 (single wrong.1), looked]
    rfl
  rw [run, longest]
  refine ⟨fun empty => if_pos empty, fun some => ?_⟩
  have nonempty : found.src ≠ [] := by
    rw [collected]
    rintro rfl
    exact some rfl
  have alone : op = .not → found.src.tail = [] := by
    intro complement
    rw [← List.length_eq_zero_iff, List.length_tail, collected, count, single complement]
  obtain ⟨res, ran, length, bytes⟩ := bitopResult_ok alone measured.longest measured.least nonempty
  rw [longest] at ran length bytes
  refine ⟨res, ?_, length, fun j small => ?_⟩
  · rw [if_neg some, ran, ok_andThen]
  · rw [bytes j (by omega), collected]

/-- Strings of 33 and 40 bytes: 32 bytes of the result are folded in words. -/
def twoStrings : Db Unit :=
  ((ObjectDb.empty).store [0x61] (.string (List.replicate 33 0xF0))).store [0x62]
    (.string (List.replicate 40 0x0F))

def twoSources : List Source := [some (List.replicate 33 0xF0), some (List.replicate 40 0x0F)]

/-- `BITOP OR t a b`. -/
theorem bitop_folds_bytes_or
    : ∃ res,
        bitopCommand twoStrings 0 [0x6F, 0x72] [0x74] [[0x61], [0x62]]
          = .ok (.length 40,
              ((lookedUpAll twoStrings 0 [[0x61], [0x62]]).lookupKey 0 [0x74]).setKey [0x74]
                (.string res))
        ∧ res.length = 40
        ∧ ∀ j < res.length, res.getD j 0 = bitopByte .or (sourceTexts twoSources) j := by
  have parsed : BitOp.parse [0x6F, 0x72] = some .or := by decide
  have found : [[0x61], [0x62]].mapM (bitSource twoStrings 0) = some twoSources := rfl
  have single : BitOp.or = .not → [[(0x61 : UInt8)], [0x62]].length = 1 := by decide
  exact (bitop_folds_bytes twoStrings 0 [0x74] parsed single found).2 (by decide)

end Redis.Strings
