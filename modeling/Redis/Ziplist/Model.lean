import Redis.Library.Block
import Redis.Util.Decimal

/-! The compressed list of `ziplist.c`: a header with the size, the offset of the last entry
and the number of entries, the entries, and an end byte, in one block of bytes. An entry is
the length of the entry before it, in one byte or in five, an encoding of its own length, and
its data. A pointer into the block is an offset from its start. Multi-byte numbers of the
header are little endian in memory on every host (`intrev32ifbe`).
-/

namespace Redis

open Redis.Library

def zipEnd : UInt8 := 255

def zipBigLen : Nat := 254

def ziplistHeaderSize : Nat := 10

def ziplistBytes (zl : List UInt8) : Except Fault Nat := do
  let field ← readBytes zl 0 4
  pure (leValue field)

def ziplistTailOffset (zl : List UInt8) : Except Fault Nat := do
  let field ← readBytes zl 4 4
  pure (leValue field)

/-- Storing `ZIPLIST_TAIL_OFFSET`; the sum is a `uint32_t`. -/
def setTailOffset (zl : List UInt8) (offset : Int) : Except Fault (List UInt8) :=
  writeBytes zl 4 (leBytes 4 (offset % 2 ^ 32).toNat)

def ziplistIncrLength (zl : List UInt8) (incr : Int) : Except Fault (List UInt8) := do
  let field ← readBytes zl 8 2
  if leValue field < 2 ^ 16 - 1 then
    writeBytes zl 8 (leBytes 2 ((leValue field + incr) % 2 ^ 16).toNat)
  else pure zl

-- Lengths

/-- `zipPrevEncodeLength(NULL, len)`. -/
def zipPrevEncodeSize (len : Nat) : Nat := if len < zipBigLen then 1 else 5

def zipPrevEncodeLength (zl : List UInt8) (p len : Nat) : Except Fault (List UInt8) :=
  if len < zipBigLen then writeBytes zl p [UInt8.ofNat len]
  else writeBytes zl p (UInt8.ofNat zipBigLen :: leBytes 4 len)

def zipPrevEncodeLengthForceLarge (zl : List UInt8) (p len : Nat) : Except Fault (List UInt8) :=
  writeBytes zl p (UInt8.ofNat zipBigLen :: leBytes 4 len)

def zipDecodePrevLenSize (zl : List UInt8) (p : Nat) : Except Fault Nat := do
  let first ← readByte zl p
  pure (if first.toNat < zipBigLen then 1 else 5)

/-- `ZIP_DECODE_PREVLEN`: the size of the field and the length in it. -/
def zipDecodePrevLen (zl : List UInt8) (p : Nat) : Except Fault (Nat × Nat) := do
  let first ← readByte zl p
  if first.toNat < zipBigLen then pure (1, first.toNat)
  else do
    let field ← readBytes zl (p + 1) 4
    pure (5, leValue field)

def zipPrevLenByteDiff (zl : List UInt8) (p len : Nat) : Except Fault Int := do
  let prevlensize ← zipDecodePrevLenSize zl p
  pure ((zipPrevEncodeSize len : Int) - prevlensize)

def zipIntSize (encoding : UInt8) : Nat :=
  if encoding = 0xFE then 1
  else if encoding = 0xC0 then 2
  else if encoding = 0xF0 then 3
  else if encoding = 0xD0 then 4
  else if encoding = 0xE0 then 8
  else 0

def zipIsStr (encoding : UInt8) : Bool := encoding &&& 0xC0 < 0xC0

/-- The bytes that `zipEncodeLength` writes. -/
def zipLengthField (encoding : UInt8) (rawlen : Nat) : List UInt8 :=
  if zipIsStr encoding then
    if rawlen ≤ 0x3F then [UInt8.ofNat rawlen]
    else if rawlen ≤ 0x3FFF then [0x40 ||| UInt8.ofNat (rawlen / 256), UInt8.ofNat rawlen]
    else 0x80 :: (leBytes 4 rawlen).reverse
  else [encoding]

def zipEntryEncoding (first : UInt8) : UInt8 := if first < 0xC0 then first &&& 0xC0 else first

/-- `ZIP_DECODE_LENGTH`: the encoding, the size of the length field and the length. -/
def zipDecodeLength (zl : List UInt8) (p : Nat) : Except Fault (UInt8 × Nat × Nat) := do
  let first ← readByte zl p
  let encoding := zipEntryEncoding first
  if encoding < 0xC0 then
    if encoding = 0x00 then pure (encoding, 1, (first &&& 0x3F).toNat)
    else if encoding = 0x40 then do
      let second ← readByte zl (p + 1)
      pure (encoding, 2, (first &&& 0x3F).toNat * 256 + second.toNat)
    else if encoding = 0x80 then do
      let field ← readBytes zl (p + 1) 4
      pure (encoding, 5, leValue field.reverse)
    else .error .assertion
  else pure (encoding, 1, zipIntSize encoding)

def zipRawEntryLength (zl : List UInt8) (p : Nat) : Except Fault Nat := do
  let prevlensize ← zipDecodePrevLenSize zl p
  let (_, lensize, len) ← zipDecodeLength zl (p + prevlensize)
  pure ((prevlensize + lensize + len) % 2 ^ 32)

structure ZlEntry where
  prevrawlensize : Nat
  prevrawlen : Nat
  lensize : Nat
  len : Nat
  headersize : Nat
  encoding : UInt8
  p : Nat
deriving DecidableEq, Repr

def zipEntry (zl : List UInt8) (p : Nat) : Except Fault ZlEntry := do
  let (prevrawlensize, prevrawlen) ← zipDecodePrevLen zl p
  let (encoding, lensize, len) ← zipDecodeLength zl (p + prevrawlensize)
  let headersize := prevrawlensize + lensize
  pure { prevrawlensize, prevrawlen, lensize, len, headersize, encoding, p }

/-- `headersize + len` of an entry, an `unsigned int`. -/
def ZlEntry.rawlen (entry : ZlEntry) : Nat := (entry.headersize + entry.len) % 2 ^ 32

-- Integers

/-- `zipTryEncoding`: the integer that a string spells and the encoding for it. -/
def zipTryEncoding (entry : List UInt8) : Option (Int × UInt8) :=
  if entry.length ≥ 32 ∨ entry.length = 0 then none
  else
    match string2ll entry with
    | none => none
    | some value =>
        if 0 ≤ value ∧ value ≤ 12 then some (value, UInt8.ofNat (0xF1 + value.toNat))
        else if -2 ^ 7 ≤ value ∧ value < 2 ^ 7 then some (value, 0xFE)
        else if -2 ^ 15 ≤ value ∧ value < 2 ^ 15 then some (value, 0xC0)
        else if -2 ^ 23 ≤ value ∧ value < 2 ^ 23 then some (value, 0xF0)
        else if -2 ^ 31 ≤ value ∧ value < 2 ^ 31 then some (value, 0xD0)
        else some (value, 0xE0)

/-- `zipSaveInteger`; 24 bits are the upper bytes of the shifted value. -/
def zipSaveInteger (zl : List UInt8) (p : Nat) (value : Int) (encoding : UInt8)
    : Except Fault (List UInt8) :=
  if encoding = 0xFE then writeBytes zl p (signedBytes 1 value)
  else if encoding = 0xC0 then writeBytes zl p (signedBytes 2 value)
  else if encoding = 0xF0 then writeBytes zl p ((signedBytes 4 (value * 256)).drop 1)
  else if encoding = 0xD0 then writeBytes zl p (signedBytes 4 value)
  else if encoding = 0xE0 then writeBytes zl p (signedBytes 8 value)
  else if 0xF1 ≤ encoding ∧ encoding ≤ 0xFD then .ok zl
  else .error .assertion

def zipLoadInteger (zl : List UInt8) (p : Nat) (encoding : UInt8) : Except Fault Int :=
  if encoding = 0xFE then do
    let bytes ← readBytes zl p 1
    pure (signedValue bytes)
  else if encoding = 0xC0 then do
    let bytes ← readBytes zl p 2
    pure (signedValue bytes)
  else if encoding = 0xD0 then do
    let bytes ← readBytes zl p 4
    pure (signedValue bytes)
  else if encoding = 0xF0 then do
    let bytes ← readBytes zl p 3
    pure (signedValue (0 :: bytes) / 256)
  else if encoding = 0xE0 then do
    let bytes ← readBytes zl p 8
    pure (signedValue bytes)
  else if 0xF1 ≤ encoding ∧ encoding ≤ 0xFD then .ok ((encoding &&& 0x0F).toNat - 1)
  else .error .assertion

-- Changing the list

def ziplistNew : List UInt8 :=
  leBytes 4 (ziplistHeaderSize + 1) ++ leBytes 4 ziplistHeaderSize ++ leBytes 2 0 ++ [zipEnd]

/-- `ziplistResize`; the length is an `unsigned int`. -/
def ziplistResize (fresh : Nat → UInt8) (zl : List UInt8) (len : Nat)
    : Except Fault (List UInt8) := do
  let zl := resizeBytes fresh zl (len % 2 ^ 32)
  let zl ← writeBytes zl 0 (leBytes 4 len)
  writeBytes zl (len % 2 ^ 32 - 1) [zipEnd]

/-- The loop of `__ziplistCascadeUpdate`. -/
def ziplistCascadeLoop (fresh : Nat → UInt8)
    : (rounds : Nat) → (zl : List UInt8) → (curlen p : Nat) → Except Fault (List UInt8)
  | 0, _, _, _ => .error .diverged
  | rounds + 1, zl, curlen, p => do
      if (← readByte zl p) = zipEnd then pure zl
      else do
        let cur ← zipEntry zl p
        let rawlen := cur.rawlen
        let rawlensize := zipPrevEncodeSize rawlen
        if (← readByte zl (p + rawlen)) = zipEnd then pure zl
        else do
          let next ← zipEntry zl (p + rawlen)
          if next.prevrawlen = rawlen then pure zl
          else if next.prevrawlensize < rawlensize then do
            let extra := rawlensize - next.prevrawlensize
            let zl ← ziplistResize fresh zl (curlen + extra)
            let np := p + rawlen
            let tail ← ziplistTailOffset zl
            let zl ← (if tail ≠ np then setTailOffset zl (tail + extra) else pure zl)
            let zl ← moveBytes zl (np + rawlensize) (np + next.prevrawlensize)
              (curlen - np - next.prevrawlensize - 1)
            let zl ← zipPrevEncodeLength zl np rawlen
            ziplistCascadeLoop fresh rounds zl (curlen + extra) (p + rawlen)
          else if next.prevrawlensize > rawlensize then
            zipPrevEncodeLengthForceLarge zl (p + rawlen) rawlen
          else zipPrevEncodeLength zl (p + rawlen) rawlen

def ziplistCascadeUpdate (fresh : Nat → UInt8) (zl : List UInt8) (p : Nat)
    : Except Fault (List UInt8) := do
  let curlen ← ziplistBytes zl
  ziplistCascadeLoop fresh curlen zl curlen p

/-- The loop of `__ziplistDelete` over the entries to delete: the offset after them and their
number.
-/
def ziplistSkip (zl : List UInt8) : (num p : Nat) → Except Fault (Nat × Nat)
  | 0, p => do
      let _ ← readByte zl p
      pure (p, 0)
  | num + 1, p => do
      if (← readByte zl p) = zipEnd then pure (p, 0)
      else do
        let rawlen ← zipRawEntryLength zl p
        let (q, deleted) ← ziplistSkip zl num (p + rawlen)
        pure (q, deleted + 1)

/-- The correction of the tail offset after the entry at `p` has changed its size by
`nextdiff`: the last entry has moved unless it is that one.
-/
def ziplistAdjustTail (zl : List UInt8) (p : Nat) (nextdiff : Int) : Except Fault (List UInt8) := do
  let tail ← zipEntry zl p
  if (← readByte zl (p + tail.rawlen)) ≠ zipEnd then do
    let tailOffset ← ziplistTailOffset zl
    setTailOffset zl (tailOffset + nextdiff)
  else pure zl

/-- The part of `__ziplistDelete` that moves the entries at `q` down to `p`, with `nextdiff`. -/
def ziplistCloseGap (zl : List UInt8) (p q prevrawlen totlen : Nat)
    : Except Fault (List UInt8 × Int) := do
  if (← readByte zl q) ≠ zipEnd then do
    let nextdiff ← zipPrevLenByteDiff zl q prevrawlen
    let q := ((q : Int) - nextdiff).toNat
    let zl ← zipPrevEncodeLength zl q prevrawlen
    let tailOffset ← ziplistTailOffset zl
    let zl ← setTailOffset zl ((tailOffset : Int) - totlen)
    let zl ← ziplistAdjustTail zl q nextdiff
    let bytes ← ziplistBytes zl
    let zl ← moveBytes zl p q (bytes - q - 1)
    pure (zl, nextdiff)
  else do
    let zl ← setTailOffset zl ((p : Int) - prevrawlen)
    pure (zl, 0)

/-- `__ziplistDelete`. -/
def ziplistDeleteAt (fresh : Nat → UInt8) (zl : List UInt8) (p num : Nat)
    : Except Fault (List UInt8) := do
  let first ← zipEntry zl p
  let (q, deleted) ← ziplistSkip zl num p
  let totlen : Nat := (q - p) % 2 ^ 32
  if totlen > 0 then do
    let (zl, nextdiff) ← ziplistCloseGap zl p q first.prevrawlen totlen
    let bytes ← ziplistBytes zl
    let zl ← ziplistResize fresh zl (((bytes : Int) - totlen + nextdiff) % 2 ^ 32).toNat
    let zl ← ziplistIncrLength zl (-deleted)
    if nextdiff ≠ 0 then ziplistCascadeUpdate fresh zl p else pure zl
  else pure zl

/-- The bytes of data that `__ziplistInsert` reserves for a string. -/
def zipDataSize (s : List UInt8) : Nat :=
  match zipTryEncoding s with
  | some (_, encoding) => zipIntSize encoding
  | none => s.length

/-- The encoding that `__ziplistInsert` uses for a string; zero stands for a plain string. -/
def zipEncodingOf (s : List UInt8) : UInt8 :=
  match zipTryEncoding s with
  | some (_, encoding) => encoding
  | none => 0

/-- The data that `__ziplistInsert` writes for a string. -/
def zipWriteData (zl : List UInt8) (p : Nat) (s : List UInt8) : Except Fault (List UInt8) :=
  match zipTryEncoding s with
  | some (value, encoding) => zipSaveInteger zl p value encoding
  | none => writeBytes zl p s

/-- `reqlen` of `__ziplistInsert`. -/
def zipRequiredLength (prevlen : Nat) (s : List UInt8) : Nat :=
  zipDataSize s + zipPrevEncodeSize prevlen + (zipLengthField (zipEncodingOf s) s.length).length

/-- The length of the entry before `p`, as `__ziplistInsert` finds it. -/
def ziplistPrevLength (zl : List UInt8) (p : Nat) : Except Fault Nat := do
  if (← readByte zl p) ≠ zipEnd then do
    let (_, prevlen) ← zipDecodePrevLen zl p
    pure prevlen
  else do
    let ptail ← ziplistTailOffset zl
    if (← readByte zl ptail) ≠ zipEnd then zipRawEntryLength zl ptail else pure 0

/-- The part of `__ziplistInsert` that moves the entries at `p` up by `reqlen`. -/
def ziplistOpenGap (zl : List UInt8) (curlen p reqlen : Nat) (nextdiff : Int)
    : Except Fault (List UInt8) := do
  if (← readByte zl p) ≠ zipEnd then do
    let zl ← moveBytes zl (p + reqlen) ((p : Int) - nextdiff).toNat
      ((curlen : Int) - p - 1 + nextdiff).toNat
    let zl ← zipPrevEncodeLength zl (p + reqlen) reqlen
    let tailOffset ← ziplistTailOffset zl
    let zl ← setTailOffset zl ((tailOffset : Int) + reqlen)
    ziplistAdjustTail zl (p + reqlen) nextdiff
  else setTailOffset zl p

/-- The part of `__ziplistInsert` that writes the new entry. -/
def ziplistWriteEntry (zl : List UInt8) (p prevlen : Nat) (s : List UInt8)
    : Except Fault (List UInt8) := do
  let zl ← zipPrevEncodeLength zl p prevlen
  let p := p + zipPrevEncodeSize prevlen
  let field := zipLengthField (zipEncodingOf s) s.length
  let zl ← writeBytes zl p field
  zipWriteData zl (p + field.length) s

/-- `__ziplistInsert`. -/
def ziplistInsertAt (fresh : Nat → UInt8) (zl : List UInt8) (p : Nat) (s : List UInt8)
    : Except Fault (List UInt8) := do
  let curlen ← ziplistBytes zl
  let prevlen ← ziplistPrevLength zl p
  let reqlen := zipRequiredLength prevlen s
  let nextdiff ← (do
    if (← readByte zl p) ≠ zipEnd then zipPrevLenByteDiff zl p reqlen else pure 0)
  let zl ← ziplistResize fresh zl ((curlen : Int) + reqlen + nextdiff).toNat
  let zl ← ziplistOpenGap zl curlen p reqlen nextdiff
  let zl ← (if nextdiff ≠ 0 then ziplistCascadeUpdate fresh zl (p + reqlen) else pure zl)
  let zl ← ziplistWriteEntry zl p prevlen s
  ziplistIncrLength zl 1

-- The interface

/-- `ziplistPush` at the head or at the tail. -/
def ziplistPush (fresh : Nat → UInt8) (zl s : List UInt8) (atHead : Bool)
    : Except Fault (List UInt8) := do
  let bytes ← ziplistBytes zl
  ziplistInsertAt fresh zl (if atHead then ziplistHeaderSize else bytes - 1) s

def ziplistInsert (fresh : Nat → UInt8) (zl : List UInt8) (p : Nat) (s : List UInt8)
    : Except Fault (List UInt8) :=
  ziplistInsertAt fresh zl p s

/-- `ziplistDelete` with the updated `*p`. -/
def ziplistDelete (fresh : Nat → UInt8) (zl : List UInt8) (p : Nat)
    : Except Fault (List UInt8 × Nat) := do
  let zl ← ziplistDeleteAt fresh zl p 1
  pure (zl, p)

/-- The loop of `ziplistIndex` from the head: the offset and the count that is left. -/
def ziplistIndexForward (zl : List UInt8)
    : (rounds : Nat) → (p : Nat) → (index : Int) → Except Fault (Nat × Int)
  | 0, _, _ => .error .diverged
  | rounds + 1, p, index => do
      if (← readByte zl p) ≠ zipEnd then
        if index ≠ 0 then do
          let rawlen ← zipRawEntryLength zl p
          ziplistIndexForward zl rounds (p + rawlen) (index - 1)
        else pure (p, index - 1)
      else pure (p, index)

/-- The loop of `ziplistIndex` from the tail. -/
def ziplistIndexBackward (zl : List UInt8)
    : (rounds : Nat) → (p prevlen : Nat) → (index : Int) → Except Fault (Nat × Int)
  | 0, _, _, _ => .error .diverged
  | rounds + 1, p, prevlen, index =>
      if prevlen > 0 then
        if index ≠ 0 then do
          let p := p - prevlen
          let (_, prevlen) ← zipDecodePrevLen zl p
          ziplistIndexBackward zl rounds p prevlen (index - 1)
        else pure (p, index - 1)
      else pure (p, index)

/-- `ziplistIndex`; `-INT_MIN` is `INT_MIN` again and one less than it is `INT_MAX`. -/
def ziplistIndex (zl : List UInt8) (index : Int32) : Except Fault (Option Nat) := do
  let bytes ← ziplistBytes zl
  let (p, index) ← (do
    if index < 0 then do
      let index := -index - 1
      let p ← ziplistTailOffset zl
      if (← readByte zl p) ≠ zipEnd then do
        let (_, prevlen) ← zipDecodePrevLen zl p
        ziplistIndexBackward zl bytes p prevlen index.toInt
      else pure (p, index.toInt)
    else ziplistIndexForward zl bytes ziplistHeaderSize index.toInt)
  if (← readByte zl p) = zipEnd ∨ index > 0 then pure none else pure (some p)

/-- What `ziplistGet` returns through its pointers. -/
inductive ZipValue where
  | str (bytes : List UInt8)
  | int (value : Int)
deriving DecidableEq, Repr

def ziplistGet (zl : List UInt8) (p : Nat) : Except Fault (Option ZipValue) := do
  if (← readByte zl p) = zipEnd then pure none
  else do
    let entry ← zipEntry zl p
    if zipIsStr entry.encoding then do
      let bytes ← readBytes zl (p + entry.headersize) entry.len
      pure (some (.str bytes))
    else do
      let value ← zipLoadInteger zl (p + entry.headersize) entry.encoding
      pure (some (.int value))

/-- `ziplistDeleteRange`; the index becomes an `int`. -/
def ziplistDeleteRange (fresh : Nat → UInt8) (zl : List UInt8) (index num : UInt32)
    : Except Fault (List UInt8) := do
  match ← ziplistIndex zl index.toInt32 with
  | none => pure zl
  | some p => ziplistDeleteAt fresh zl p num.toNat

end Redis
