import Redis.Keyspace.Model
import Redis.Library.PackedCounters
import Redis.Replication.Encoding

/-! HyperLogLog values and the commands on them, on the bytes of the strings that hold them.
A read or a write of an opcode or a register that is not inside the value or inside the array of
registers is a fault.
-/

namespace Redis.Hyperloglog

open Redis.Library
open Redis.Keyspace (Sds)

-- The hash of an element

/-- `1 << HLL_P`. -/
def hllRegisters : Nat := 16384

def hllPMask : UInt64 := 16383

/-- `m` of `MurmurHash64A`. -/
def murmurFactor : UInt64 := 0xc6a4a7935bd1e995

/-- Bytes as a number, the first one lowest. -/
def littleEndian (data : List UInt8) : UInt64 :=
  data.foldr (fun byte high => high <<< 8 ||| byte.toUInt64) 0

/-- The loop over the blocks of eight bytes, and the bytes after them. -/
def murmurBlocks (h : UInt64) : List UInt8 → UInt64 × List UInt8
  | d0 :: d1 :: d2 :: d3 :: d4 :: d5 :: d6 :: d7 :: data =>
      let k := littleEndian [d0, d1, d2, d3, d4, d5, d6, d7] * murmurFactor
      let k := (k ^^^ (k >>> 47)) * murmurFactor
      murmurBlocks ((h ^^^ k) * murmurFactor) data
  | data => (h, data)

/-- `MurmurHash64A` of a key whose length an `int` takes; `hllAdd` has the others. -/
def murmurHash64A (key : Sds) (seed : UInt64) : UInt64 :=
  let (h, data) := murmurBlocks (seed ^^^ (UInt64.ofNat key.length * murmurFactor)) key
  let h := if data = [] then h else (h ^^^ littleEndian data) * murmurFactor
  let h := (h ^^^ (h >>> 47)) * murmurFactor
  h ^^^ (h >>> 47)

/-- The loop of `hllPatLen` that counts zeroes, of at most `rounds` tests. -/
def patLenLoop (hash : UInt64) : (rounds : Nat) → (bit : UInt64) → (count : Nat) → Nat
  | 0, _, count => count
  | rounds + 1, bit, count =>
      if hash &&& bit = 0 then patLenLoop hash rounds (bit <<< 1) (count + 1) else count

/-- `regp` of `hllPatLen`: the register of an element. -/
def hllRegister (ele : Sds) : Nat := (murmurHash64A ele 0xadc83b19 &&& hllPMask).toNat

/-- `hllPatLen`: the length of the pattern `000..1` of an element shorter than `2 ^ 31` bytes. -/
def hllPatLen (ele : Sds) : Nat :=
  patLenLoop (murmurHash64A ele 0xadc83b19 ||| ((1 : UInt64) <<< 63)) 50
    (UInt64.ofNat hllRegisters) 1

-- Values

def hllHdrSize : Nat := 16

/-- The size of the registers of a dense value. -/
def denseBytes : Nat := 12288

/-- `hdr->encoding`. -/
def encoding (s : Sds) : UInt8 := s.getD 4 0

/-- `hdr->registers`. -/
def registers (s : Sds) : List UInt8 := s.drop hllHdrSize

/-- The header of a value with other data behind it. -/
def withRegisters (s : Sds) (data : List UInt8) : Sds := s.take hllHdrSize ++ data

/-- `HLL_INVALIDATE_CACHE`. -/
def invalidateCache (s : Sds) : Sds := s.set 15 (s.getD 15 0 ||| 0x80)

/-- `HLL_VALID_CACHE`. -/
def validCache (s : Sds) : Bool := s.getD 15 0 &&& 0x80 == 0

/-- `hdr->card`. -/
def card (s : Sds) : UInt64 := littleEndian ((s.drop 8).take 8)

/-- The stores to `hdr->card`. -/
def setCard (s : Sds) (card : UInt64) : Sds :=
  s.take 8 ++ (List.range 8).map (fun i => (card >>> UInt64.ofNat (8 * i)).toUInt8) ++ s.drop 16

/-- `HLL_DENSE_GET_REGISTER`. -/
def denseGetRegister (p : List UInt8) (regnum : Nat) : Nat := packedGet 6 p regnum

/-- `HLL_DENSE_SET_REGISTER`. -/
def denseSetRegister (p : List UInt8) (regnum val : Nat) : List UInt8 := packedSet 6 p regnum val

/-- `HLL_SPARSE_IS_ZERO`. -/
def isZero (p : UInt8) : Bool := p &&& 0xC0 == 0

/-- `HLL_SPARSE_IS_XZERO`. -/
def isXzero (p : UInt8) : Bool := p &&& 0xC0 == 0x40

/-- `HLL_SPARSE_IS_VAL`. -/
def isVal (p : UInt8) : Bool := p &&& 0x80 != 0

/-- `HLL_SPARSE_ZERO_LEN`. -/
def zeroLen (p : UInt8) : Nat := (p &&& 0x3F).toNat + 1

/-- `HLL_SPARSE_XZERO_LEN`. -/
def xzeroLen (p next : UInt8) : Nat := ((p &&& 0x3F).toNat <<< 8 ||| next.toNat) + 1

/-- `HLL_SPARSE_VAL_VALUE`. -/
def valValue (p : UInt8) : Nat := ((p >>> 2) &&& 0x1F).toNat + 1

/-- `HLL_SPARSE_VAL_LEN`. -/
def valLen (p : UInt8) : Nat := (p &&& 0x03).toNat + 1

/-- `HLL_SPARSE_VAL_SET`. -/
def valSet (val len : Nat) : UInt8 := UInt8.ofNat (((val - 1) <<< 2 ||| (len - 1)) ||| 0x80)

/-- `HLL_SPARSE_ZERO_SET`. -/
def zeroSet (len : Nat) : UInt8 := UInt8.ofNat (len - 1)

/-- `HLL_SPARSE_XZERO_SET`. -/
def xzeroSet (len : Nat) : List UInt8 :=
  [UInt8.ofNat ((len - 1) >>> 8 ||| 0x40), UInt8.ofNat ((len - 1) &&& 0xFF)]

/-- An opcode of the sparse representation. -/
inductive Opcode where
  | zero (len : Nat)
  | xzero (len : Nat)
  | val (value len : Nat)
deriving DecidableEq, Repr

-- The dense representation

/-- `hllDenseAdd`: whether the register grew, and the registers. -/
def hllDenseAdd (registers : List UInt8) (ele : Sds) : Bool × List UInt8 :=
  let count := hllPatLen ele
  let index := hllRegister ele
  let oldcount := denseGetRegister registers index
  if count > oldcount then (true, denseSetRegister registers index count) else (false, registers)

-- Walks over the opcodes

/-- A loop `while (p < end)` that takes one opcode a round. -/
def walkOpcodes {σ : Type} (round : σ → Opcode → Except Fault σ) (state : σ)
    : List UInt8 → Except Fault σ
  | [] => .ok state
  | p :: rest =>
      if isZero p then do
        let state ← round state (.zero (zeroLen p))
        walkOpcodes round state rest
      else if isXzero p then
        match rest with
        | next :: rest => do
            let state ← round state (.xzero (xzeroLen p next))
            walkOpcodes round state rest
        -- the second byte of the opcode is read at `end`
        | [] => .error .outOfBounds
      else do
        let state ← round state (.val (valValue p) (valLen p))
        walkOpcodes round state rest

/-- An `int` that indexes registers, and the registers. -/
structure Filling (R : Type) where
  idx : BitVec 32
  registers : R

section Filling

variable {R : Type} (store : R → Nat → Nat → R)

/-- The loop `while (runlen--)` over the registers of a `VAL` opcode. -/
def fillRun (regval : Nat) : (runlen : Nat) → Filling R → Except Fault (Filling R)
  | 0, state => .ok state
  | runlen + 1, state =>
      if state.idx.toNat < hllRegisters then
        fillRun regval runlen
          { idx := state.idx + 1, registers := store state.registers state.idx.toNat regval }
      else .error .outOfBounds

/-- One opcode in `hllSparseToDense` and in `hllMerge`. -/
def fillOpcode (state : Filling R) : Opcode → Except Fault (Filling R)
  | .zero runlen => .ok { state with idx := state.idx + BitVec.ofNat 32 runlen }
  | .xzero runlen => .ok { state with idx := state.idx + BitVec.ofNat 32 runlen }
  | .val regval runlen => fillRun store regval runlen state

/-- The whole walk; nothing when it does not end at `HLL_REGISTERS`. -/
def fillRegisters (empty : R) (data : List UInt8) : Except Fault (Option R) := do
  let state ← walkOpcodes (fillOpcode store) { idx := 0, registers := empty } data
  pure (if state.idx = BitVec.ofNat 32 hllRegisters then some state.registers else none)

end Filling

/-- `hllSparseToDense`; nothing when it returns `REDIS_ERR`. -/
def hllSparseToDense (s : Sds) : Except Fault (Option Sds) :=
  if encoding s = 0 then .ok (some s)
  else do
    let dense ← fillRegisters denseSetRegister (List.replicate denseBytes 0) (registers s)
    pure (dense.map (withRegisters (s.set 4 0)))

/-- `if (val > max[i]) max[i] = val`. -/
def raiseRegister (max : List Nat) (i val : Nat) : List Nat :=
  if val > max.getD i 0 then max.set i val else max

/-- `hllMerge`; nothing when it returns `REDIS_ERR`. -/
def hllMerge (max : List Nat) (s : Sds) : Except Fault (Option (List Nat)) :=
  if encoding s = 0 then
    .ok (some ((List.range hllRegisters).foldl
      (fun max i => raiseRegister max i (denseGetRegister (registers s) i)) max))
  else fillRegisters raiseRegister max (registers s)

-- Adding to the sparse representation

/-- The opcode that covers a register: the bytes up to `prev`, the bytes of `prev`, the opcode with
its own bytes, the bytes from `next` on, and the first register that it covers.
-/
structure Located where
  before : List UInt8
  prev : List UInt8
  opcode : Opcode
  code : List UInt8
  next : List UInt8
  first : Nat

/-- The loop of step 1 of `hllSparseAdd`. When no opcode covers the register, the code goes on to
look at the opcode at `end`.
-/
def locate (index : Nat) (before prev : List UInt8) (first : Nat)
    : List UInt8 → Except Fault Located
  | [] => .error .outOfBounds
  | p :: rest =>
      if isZero p then
        if index ≤ first + zeroLen p - 1 then .ok
          ⟨before, prev, .zero (zeroLen p), [p], rest, first⟩
        else locate index (before ++ prev) [p] (first + zeroLen p) rest
      else if isVal p then
        if index ≤ first + valLen p - 1 then
          .ok ⟨before, prev, .val (valValue p) (valLen p), [p], rest, first⟩
        else locate index (before ++ prev) [p] (first + valLen p) rest
      else
        match rest with
        | second :: rest =>
            if index ≤ first + xzeroLen p second - 1 then
              .ok ⟨before, prev, .xzero (xzeroLen p second), [p, second], rest, first⟩
            else locate index (before ++ prev) [p, second] (first + xzeroLen p second) rest
        | [] => .error .outOfBounds

/-- A run of zeroes, as `XZERO` when it is too long for `ZERO`; nothing for no register. -/
def zeroSeq (len : Nat) : List UInt8 :=
  if len = 0 then [] else if len > 64 then xzeroSet len else [zeroSet len]

/-- A run of a value; nothing for no register. -/
def valSeq (curval len : Nat) : List UInt8 := if len = 0 then [] else [valSet curval len]

/-- The sequence `seq` that takes the place of an opcode: the registers before `index`, the new
value, the registers behind it.
-/
def splitSeq (index count first : Nat) : Opcode → List UInt8
  | .zero span => zeroSeq (index - first) ++ [valSet count 1] ++ zeroSeq (first + span - 1 - index)
  | .xzero span => zeroSeq (index - first) ++ [valSet count 1] ++ zeroSeq (first + span - 1 - index)
  | .val curval span =>
      valSeq curval (index - first) ++ [valSet count 1] ++ valSeq curval (first + span - 1 - index)

/-- Step 4 of `hllSparseAdd`: the merge of adjacent values, of at most `scanlen` rounds. -/
def mergeVals : (scanlen : Nat) → List UInt8 → List UInt8
  | 0, p => p
  | _ + 1, [] => []
  | scanlen + 1, p :: rest =>
      if isXzero p then
        match rest with
        | second :: rest => p :: second :: mergeVals scanlen rest
        | [] => [p]
      else if isZero p then p :: mergeVals scanlen rest
      else
        match rest with
        | q :: after =>
            if isVal q ∧ valValue p = valValue q ∧ valLen p + valLen q ≤ 4 then
              mergeVals scanlen (valSet (valValue p) (valLen p + valLen q) :: after)
            else p :: mergeVals scanlen rest
        | [] => [p]

/-- What `hllSparseAdd` does at the opcode that it finds. -/
inductive SparseStep where
  /-- The register is large enough. -/
  | unchanged
  /-- New bytes in the place of the opcode. -/
  | replace (seq : List UInt8)
  | promote

/-- The general case of `hllSparseAdd`, for a value of `len` bytes. -/
def generalStep (maxBytes len index count : Nat) (found : Located) : SparseStep :=
  let seq := splitSeq index count found.first found.opcode
  if seq.length > found.code.length ∧ len + (seq.length - found.code.length) > maxBytes then
    .promote
  else .replace seq

/-- Steps 2 and 3 of `hllSparseAdd`. -/
def sparseStep (maxBytes len index count : Nat) (found : Located) : SparseStep :=
  match found.opcode with
  | .val oldcount runlen =>
      if oldcount ≥ count then .unchanged
      else if runlen = 1 then .replace [valSet count 1]
      else generalStep maxBytes len index count found
  | .zero runlen =>
      if runlen = 1 then .replace [valSet count 1] else generalStep maxBytes len index count found
  | .xzero _ => generalStep maxBytes len index count found

/-- The label `promote` of `hllSparseAdd`. -/
def promoteAdd (s ele : Sds) : Except Fault (Int × Sds) := do
  match ← hllSparseToDense s with
  | none => pure (-1, s)
  | some dense =>
      let added := hllDenseAdd (registers dense) ele
      if added.1 then pure (1, withRegisters dense added.2) else .error .assertion

/-- `hllSparseAdd` of an element that was hashed: what it returns, and the value. -/
def hllSparseAdd (maxBytes : Nat) (s ele : Sds) : Except Fault (Int × Sds) :=
  let count := hllPatLen ele
  let index := hllRegister ele
  if count > 32 then promoteAdd s ele
  else if registers s = [] then .ok (-1, s)
  else do
    let found ← locate index [] [] 0 (registers s)
    match sparseStep maxBytes s.length index count found with
    | .unchanged => pure (0, s)
    | .replace seq =>
        let data := found.before ++ mergeVals 5 (found.prev ++ seq ++ found.next)
        pure (1, invalidateCache (withRegisters s data))
    | .promote => promoteAdd s ele

/-- `hllAdd`. Both representations hash the element first: with `2 ^ 31` bytes or more
`(int)elesize` is negative, and the loop of `MurmurHash64A` runs off the element.
-/
def hllAdd (maxBytes : Nat) (s ele : Sds) : Except Fault (Int × Sds) :=
  if encoding s ≤ 1 ∧ 2 ^ 31 ≤ ele.length then .error .outOfBounds
  else if encoding s = 0 then
    let added := hllDenseAdd (registers s) ele
    .ok (if added.1 then 1 else 0, withRegisters s added.2)
  else if encoding s = 1 then hllSparseAdd maxBytes s ele
  else .ok (-1, s)

-- The cardinality

/-- The summands of a cardinality: register values and how many registers have them. -/
abbrev Terms := List (Nat × Nat)

/-- The look-ups of the summands in the table `PE` of 64 entries. -/
def lookupPowers (terms : Terms) : Except Fault Terms :=
  if terms.all fun term => term.1 < 64 then .ok terms else .error .outOfBounds

/-- The summands of `hllDenseSum`. -/
def hllDenseSum (registers : List UInt8) : Terms :=
  (List.range hllRegisters).map fun j => (denseGetRegister registers j, 1)

/-- One opcode in `hllSparseSum`. -/
def sumOpcode (state : BitVec 32 × Terms) : Opcode → Except Fault (BitVec 32 × Terms)
  | .zero runlen => .ok (state.1 + BitVec.ofNat 32 runlen, state.2 ++ [(0, runlen)])
  | .xzero runlen => .ok (state.1 + BitVec.ofNat 32 runlen, state.2 ++ [(0, runlen)])
  | .val regval runlen => .ok (state.1 + BitVec.ofNat 32 runlen, state.2 ++ [(regval, runlen)])

/-- `hllSparseSum`: the summands, and whether the value is valid. -/
def hllSparseSum (sparse : List UInt8) : Except Fault (Terms × Bool) := do
  let (idx, terms) ← walkOpcodes sumOpcode (0, []) sparse
  pure (terms, idx = BitVec.ofNat 32 hllRegisters)

/-- The opcodes that `hllCount` hands to `hllSparseSum`, with their number as an `int`: a negative
number ends the loop at once.
-/
def countedOpcodes (s : Sds) : List UInt8 :=
  if (registers s).length < 2 ^ 31 then registers s else []

/-- `hllCount` of a value; nothing when it is invalid. The floating point formula is `estimate`. -/
def hllCount (estimate : Terms → UInt64) (s : Sds) : Except Fault (Option UInt64) :=
  if encoding s = 0 then do
    let terms ← lookupPowers (hllDenseSum (registers s))
    pure (some (estimate terms))
  else do
    let (terms, valid) ← hllSparseSum (countedOpcodes s)
    let terms ← lookupPowers terms
    pure (if valid then some (estimate terms) else none)

/-- `hllCount` of the registers of a union. -/
def hllRawCount (estimate : Terms → UInt64) (max : List Nat) : Except Fault UInt64 := do
  let terms ← lookupPowers (max.map fun reg => (reg, 1))
  pure (estimate terms)

-- Commands

inductive Value where
  | string (o : StringObject)
  /-- A value of another type. -/
  | other

inductive Reply where
  /-- `shared.wrongtypeerr`. -/
  | wrongType
  /-- `-WRONGTYPE Key is not a valid HyperLogLog string value.` -/
  | notHyperloglog
  /-- `invalid_hll_err`. -/
  | invalidHll
  | cone
  | czero
  | ok
  | number (n : UInt64)
deriving DecidableEq, Repr

structure Server (K : Type) where
  db : K → Option Value
  dirty : Nat
  /-- The keys given to `signalModifiedKey`. -/
  modified : List K

section Commands

variable {K : Type} [DecidableEq K] (maxBytes : Nat) (estimate : Terms → UInt64)

def Server.store (server : Server K) (key : K) (s : Sds) : Server K :=
  { server with db := Function.update server.db key (some (.string (.sds s))) }

/-- `signalModifiedKey` and `server.dirty++`. -/
def Server.signal (server : Server K) (key : K) : Server K :=
  { server with dirty := server.dirty + 1, modified := server.modified ++ [key] }

def createHLLObject : Sds :=
  [0x48, 0x59, 0x4C, 0x4C, 1] ++ List.replicate 11 0 ++ xzeroSet hllRegisters

/-- `isHLLObjectOrReply`: the error that is replied, or the value. -/
def isHLLObjectOrReply : Value → Except Fault (Except Reply Sds)
  | .other => pure (.error .wrongType)
  | .string o => do
      let len ← stringObjectLen o
      if len < hllHdrSize then pure (.error .notHyperloglog)
      else
        match o with
        -- the header is read at the address that is the number
        | .int _ => .error .outOfBounds
        | .sds s =>
            if s.take 4 ≠ [0x48, 0x59, 0x4C, 0x4C] then pure (.error .notHyperloglog)
            else if encoding s > 1 then pure (.error .notHyperloglog)
            else if encoding s = 0 ∧ len ≠ hllHdrSize + denseBytes then
              pure (.error .notHyperloglog)
            else pure (.ok s)

/-- The loop of `pfaddCommand` over the elements: how often a register grew, or nothing when the
value is found to be invalid, and the value.
-/
def addElements (updated : Nat) (s : Sds) : List Sds → Except Fault (Option Nat × Sds)
  | [] => .ok (some updated, s)
  | ele :: rest => do
      let (retval, s) ← hllAdd maxBytes s ele
      if retval = -1 then pure (none, s)
      else addElements (if retval = 1 then updated + 1 else updated) s rest

/-- `pfaddCommand` from the loop on. -/
def pfaddTo (server : Server K) (key : K) (updated : Nat) (s : Sds) (elements : List Sds)
    : Except Fault (Reply × Server K) := do
  match ← addElements maxBytes updated s elements with
  | (none, s) => pure (.invalidHll, server.store key s)
  | (some updated, s) =>
      if updated = 0 then pure (.czero, server.store key s)
      else pure (.cone, (server.store key (invalidateCache s)).signal key)

def pfaddCommand (server : Server K) (key : K) (elements : List Sds)
    : Except Fault (Reply × Server K) :=
  match server.db key with
  | none => pfaddTo maxBytes server key 1 createHLLObject elements
  | some o => do
      match ← isHLLObjectOrReply o with
      | .error reply => pure (reply, server)
      | .ok s => pfaddTo maxBytes server key 0 s elements

/-- The loop of `pfcountCommand` and `pfmergeCommand` over the keys: the maximum of every register,
or the error that is replied.
-/
def mergeKeys (db : K → Option Value) (max : List Nat)
    : List K → Except Fault (Except Reply (List Nat))
  | [] => pure (.ok max)
  | key :: rest =>
      match db key with
      | none => mergeKeys db max rest
      | some o => do
          match ← isHLLObjectOrReply o with
          | .error reply => pure (.error reply)
          | .ok s => do
              match ← hllMerge max s with
              | none => pure (.error .invalidHll)
              | some max => mergeKeys db max rest

/-- The array `max` of zeroes. -/
def zeroRegisters : List Nat := List.replicate hllRegisters 0

/-- `pfcountCommand` of one key. -/
def pfcountOne (server : Server K) (key : K) : Except Fault (Reply × Server K) :=
  match server.db key with
  | none => pure (.czero, server)
  | some o => do
      match ← isHLLObjectOrReply o with
      | .error reply => pure (reply, server)
      | .ok s =>
          if validCache s then pure (.number (card s), server.store key s)
          else do
            match ← hllCount estimate s with
            | none => pure (.invalidHll, server.store key s)
            | some card => pure (.number card, (server.store key (setCard s card)).signal key)

def pfcountCommand (server : Server K) (key : K) (others : List K)
    : Except Fault (Reply × Server K) :=
  if others = [] then pfcountOne estimate server key
  else do
    match ← mergeKeys server.db zeroRegisters (key :: others) with
    | .error reply => pure (reply, server)
    | .ok max => do
        let card ← hllRawCount estimate max
        pure (.number card, server)

/-- The registers of `max` in the dense representation. -/
def storeRegisters (data : List UInt8) (max : List Nat) : List UInt8 :=
  (List.range hllRegisters).foldl (fun data j => denseSetRegister data j (max.getD j 0)) data

/-- `pfmergeCommand` from the look-up of the destination on. -/
def pfmergeTo (server : Server K) (key : K) (s : Sds) (max : List Nat)
    : Except Fault (Reply × Server K) := do
  match ← hllSparseToDense s with
  | none => pure (.invalidHll, server.store key s)
  | some dense =>
      let merged := withRegisters dense (storeRegisters (registers dense) max)
      pure (.ok, (server.store key (invalidateCache merged)).signal key)

def pfmergeCommand (server : Server K) (key : K) (sources : List K)
    : Except Fault (Reply × Server K) := do
  match ← mergeKeys server.db zeroRegisters (key :: sources) with
  | .error reply => pure (reply, server)
  | .ok max =>
      match server.db key with
      | none => pfmergeTo server key createHLLObject max
      | some (.string (.sds s)) => pfmergeTo server key s max
      -- not reached: the loop has refused the destination
      | some _ => .error .assertion

inductive Command (K : Type) where
  | pfadd (key : K) (elements : List Sds)
  | pfcount (key : K) (others : List K)
  | pfmerge (key : K) (sources : List K)

def runCommand (server : Server K) : Command K → Except Fault (Reply × Server K)
  | .pfadd key elements => pfaddCommand maxBytes server key elements
  | .pfcount key others => pfcountCommand estimate server key others
  | .pfmerge key sources => pfmergeCommand server key sources

/-- Commands, one after the other, each with the setting `hll_sparse_max_bytes` of its time. -/
def runCommands (server : Server K) : List (Nat × Command K) → Except Fault (Server K)
  | [] => pure server
  | (maxBytes, command) :: rest => do
      let result ← runCommand maxBytes estimate server command
      runCommands result.2 rest

end Commands

end Redis.Hyperloglog
