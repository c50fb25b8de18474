import Redis.Keyspace.Timeouts
import Redis.Library.Words

/-! `BITOP`: words of the sources are combined as far as all of them reach, and bytes behind that.
-/

namespace Redis.Strings

open Redis.Library
open Redis.Keyspace (Sds Db Value wrongType)

-- Operations

inductive BitOp where
  | and
  | or
  | xor
  | not
deriving DecidableEq, Repr

/-- `sizeof(PORT_ULONG)`. -/
def wordSize : Nat := 8

namespace BitOp

/-- The first letter and the rest of a name are compared without case. -/
def named (opname : Sds) (letter : UInt8) (name : List UInt8) : Bool :=
  (opname.head? = some letter || opname.head? = some (letter - 0x20))
    && strcaseEqual (Keyspace.cString opname) name

/-- `Parse the operation name`. -/
def parse (opname : Sds) : Option BitOp :=
  if named opname 0x61 [0x61, 0x6E, 0x64] then some and
  else if named opname 0x6F [0x6F, 0x72] then some or
  else if named opname 0x78 [0x78, 0x6F, 0x72] then some xor
  else if named opname 0x6E [0x6E, 0x6F, 0x74] then some not
  else none

/-- The operation on words; `NOT` has none with two operands. -/
def word : BitOp → Nat → Nat → Nat
  | and => (· &&& ·)
  | or => (· ||| ·)
  | xor => (· ^^^ ·)
  | not => fun value _ => value

/-- The `switch` of the byte loop, which has no case for `NOT`. -/
def byte : BitOp → UInt8 → UInt8 → UInt8
  | and => (· &&& ·)
  | or => (· ||| ·)
  | xor => (· ^^^ ·)
  | not => fun output _ => output

/-- What is made of the byte of the first source. -/
def first (op : BitOp) (output : UInt8) : UInt8 := if op = not then ~~~output else output

end BitOp

-- The result

/-- A source string; a key that is not there has a null pointer and the length 0. -/
abbrev Source := Option Sds

def Source.len (source : Source) : Nat := (source.map List.length).getD 0

def Source.bytes (source : Source) : Except Fault Sds :=
  match source with
  | none => .error .nullPointer
  | some bytes => .ok bytes

section Loops

variable (op : BitOp) (src : List Source)

/-- The source at an index of the arrays. -/
def sourceAt (i : Nat) : Except Fault Source :=
  match src[i]? with
  | none => .error .outOfBounds
  | some source => .ok source

/-- The four words of a step at `j` are combined with those of a source. -/
def fastCombine (j : Nat) (res : Sds) (source : Source) : Except Fault Sds := do
  let bytes ← source.bytes
  (List.range 4).foldlM (fun res k => combineWord op.word wordSize res bytes (j + k * wordSize)) res

/-- The four words of a step at `j` are complemented. -/
def fastComplement (j : Nat) (res : Sds) : Except Fault Sds :=
  (List.range 4).foldlM (fun res k => complementWord wordSize res (j + k * wordSize)) res

def fastStep (j : Nat) (res : Sds) : Except Fault Sds :=
  if op = .not then fastComplement j res else src.tail.foldlM (fastCombine op j) res

/-- The loop of the fast path, with the index of the next byte. -/
def fastLoop (res : Sds) (j minlen : Nat) : Except Fault (Sds × Nat) :=
  if wordSize * 4 ≤ minlen then do
    let res ← fastStep op src j res
    fastLoop res (j + wordSize * 4) (minlen - wordSize * 4)
  else .ok (res, j)
termination_by minlen
decreasing_by
  unfold wordSize at *
  omega

/-- `memcpy(res,src[0],minlen)` and the loop, when there is enough data in few keys. -/
def fastPath (res : Sds) (minlen : Nat) : Except Fault (Sds × Nat) :=
  if wordSize * 4 ≤ minlen ∧ src.length ≤ 16 then do
    let bytes ← (← sourceAt src 0).bytes
    let copy ← readBytes bytes 0 minlen
    let res ← writeBytes res 0 copy
    fastLoop op src res 0 minlen
  else .ok (res, 0)

/-- `(len[i] <= j) ? 0 : src[i][j]`. -/
def sourceByte (source : Source) (j : Nat) : Except Fault UInt8 :=
  if source.len ≤ j then .ok 0
  else do
    let bytes ← source.bytes
    readByte bytes j

def byteStep (res : Sds) (j : Nat) : Except Fault Sds := do
  let output ← sourceByte (← sourceAt src 0) j
  let output ← src.tail.foldlM (fun output source => do
    let byte ← sourceByte source j
    pure (op.byte output byte)) (op.first output)
  writeBytes res j [output]

/-- `res`, of `maxlen` bytes that are zero at first. -/
def bitopResult (maxlen minlen : Nat) : Except Fault Sds := do
  let (res, j) ← fastPath op src (List.replicate maxlen 0) minlen
  (List.range' j (maxlen - j)).foldlM (byteStep op src) res

end Loops

-- The command

/-- The arrays of `bitopCommand`, as far as they are filled. -/
structure BitSources where
  src : List Source
  maxlen : Nat
  minlen : Nat

def BitSources.add (sources : BitSources) (text : Sds) : BitSources where
  src := sources.src ++ [some text]
  maxlen := if text.length > sources.maxlen then text.length else sources.maxlen
  minlen :=
    if sources.src.length = 0 ∨ text.length < sources.minlen then text.length else sources.minlen

def BitSources.addAbsent (sources : BitSources) : BitSources where
  src := sources.src ++ [none]
  maxlen := sources.maxlen
  minlen := 0

inductive BitReply where
  | error (text : String)
  | length (n : Nat)
deriving DecidableEq, Repr

variable {F : Type}

/-- The loop that looks the keys up. It stops at a key that holds no string. -/
def lookupSources (now : Int) : List Sds → BitSources → Db F → Option BitSources × Db F
  | [], sources, db => (some sources, db)
  | key :: keys, sources, db =>
      let db := db.lookupKey now key
      match db.dict key with
      | none => lookupSources now keys sources.addAbsent db
      | some (.string text) => lookupSources now keys (sources.add text) db
      | some _ => (none, db)

def bitopCommand (db : Db F) (now : Int) (opname targetkey : Sds) (keys : List Sds)
    : Except Fault (BitReply × Db F) :=
  match BitOp.parse opname with
  | none => .ok (.error "ERR syntax error", db)
  | some op =>
      if op = .not ∧ keys.length ≠ 1 then
        .ok (.error "ERR BITOP NOT must be called with a single source key.", db)
      else
        match lookupSources now keys ⟨[], 0, 0⟩ db with
        | (none, db) => .ok (.error wrongType, db)
        | (some sources, db) =>
            if sources.maxlen = 0 then .ok (.length 0, db.dbDelete targetkey)
            else do
              let res ← bitopResult op sources.src sources.maxlen sources.minlen
              pure (.length sources.maxlen, (db.lookupKey now targetkey).setKey targetkey
                (.string res))

end Redis.Strings
