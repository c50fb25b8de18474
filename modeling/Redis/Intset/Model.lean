import Redis.Library.Block

/-! The integer set of `intset.c`: a sorted array of integers in the narrowest encoding that
holds all of them, in a block of bytes. Multi-byte values are little endian in memory on
every host (`intrev32ifbe`), and `contents` is the block without its header. Lengths and
positions stay below `2 ^ 31` and do not wrap; sizes in bytes can.
-/

namespace Redis

open Redis.Library

/-- `INTSET_ENC_INT16`, `INTSET_ENC_INT32` and `INTSET_ENC_INT64`. -/
inductive IntsetEncoding where
  | int16
  | int32
  | int64
deriving DecidableEq, Repr

/-- The encoding constants are the sizes of their integers. -/
def IntsetEncoding.size : IntsetEncoding → Nat
  | .int16 => 2
  | .int32 => 4
  | .int64 => 8

structure Intset where
  encoding : IntsetEncoding
  length : Nat
  contents : List UInt8
deriving DecidableEq, Repr

def intsetValueEncoding (v : Int) : IntsetEncoding :=
  if v < -2 ^ 31 ∨ v > 2 ^ 31 - 1 then .int64
  else if v < -2 ^ 15 ∨ v > 2 ^ 15 - 1 then .int32
  else .int16

def intsetGetEncoded (contents : List UInt8) (pos : Nat) (enc : IntsetEncoding)
    : Except Fault Int := do
  let bytes ← readBytes contents (pos * enc.size) enc.size
  pure (signedValue bytes)

/-- `_intsetGet`. -/
def intsetGetAt (is : Intset) (pos : Nat) : Except Fault Int :=
  intsetGetEncoded is.contents pos is.encoding

/-- `_intsetSet` on the contents; the cast to the element type keeps the low bytes. -/
def intsetSet (contents : List UInt8) (enc : IntsetEncoding) (pos : Nat) (value : Int)
    : Except Fault (List UInt8) :=
  writeBytes contents (pos * enc.size) (signedBytes enc.size value)

def intsetNew : Intset := { encoding := .int16, length := 0, contents := [] }

/-- `intsetResize`: the size in bytes is computed in 32 bits. -/
def intsetResize (fresh : Nat → UInt8) (is : Intset) (len : Nat) : Intset :=
  let size := len * is.encoding.size % 2 ^ 32
  { is with contents := resizeBytes fresh is.contents size }

-- Searching

/-- The loop of `intsetSearch` over the bounds `min` and `max`, with the values of `mid` and
`cur` that the code after the loop looks at.
-/
def intsetSearchLoop (is : Intset) (value : Int)
    : (rounds : Nat) → (min max mid cur : Int) → Except Fault (Int × Int × Int)
  | 0, _, _, _, _ => .error .diverged
  | rounds + 1, min, max, mid, cur =>
      if max ≥ min then do
        let mid := (min + max) / 2
        let cur ← intsetGetAt is mid.toNat
        if value > cur then intsetSearchLoop is value rounds (mid + 1) max mid cur
        else if value < cur then intsetSearchLoop is value rounds min (mid - 1) mid cur
        else pure (min, mid, cur)
      else pure (min, mid, cur)

/-- `intsetSearch`: whether the value is present, and its position or where to insert it. -/
def intsetSearch (is : Intset) (value : Int) : Except Fault (Bool × Nat) :=
  if is.length = 0 then .ok (false, 0)
  else do
    let last ← intsetGetAt is (is.length - 1)
    if value > last then pure (false, is.length)
    else do
      let first ← intsetGetAt is 0
      if value < first then pure (false, 0)
      else do
        let (min, mid, cur) ←
          intsetSearchLoop is value (is.length + 1) 0 (is.length - 1) (-1) (-1)
        if value = cur then pure (true, mid.toNat) else pure (false, min.toNat)

-- Changing the set

/-- The loop of `intsetUpgradeAndAdd`, which re-encodes in place from the last element. -/
def intsetUpgradeLoop (curenc newenc : IntsetEncoding) (prepend : Nat)
    : (length : Nat) → List UInt8 → Except Fault (List UInt8)
  | 0, contents => .ok contents
  | length + 1, contents => do
      let value ← intsetGetEncoded contents length curenc
      let contents ← intsetSet contents newenc (length + prepend) value
      intsetUpgradeLoop curenc newenc prepend length contents

def intsetUpgradeAndAdd (fresh : Nat → UInt8) (is : Intset) (value : Int)
    : Except Fault Intset := do
  let newenc := intsetValueEncoding value
  let prepend := if value < 0 then 1 else 0
  let resized := intsetResize fresh { is with encoding := newenc } (is.length + 1)
  let contents ← intsetUpgradeLoop is.encoding newenc prepend is.length resized.contents
  let contents ← intsetSet contents newenc (if prepend = 1 then 0 else is.length) value
  pure { encoding := newenc, length := is.length + 1, contents }

/-- `intsetMoveTail`: the byte count is computed in 32 bits. -/
def intsetMoveTail (is : Intset) (source target : Nat) : Except Fault Intset := do
  let bytes := (is.length - source) * is.encoding.size % 2 ^ 32
  let contents ← moveBytes is.contents (target * is.encoding.size) (source * is.encoding.size) bytes
  pure { is with contents }

/-- `intsetAdd` with its `success` flag. -/
def intsetAdd (fresh : Nat → UInt8) (is : Intset) (value : Int)
    : Except Fault (Bool × Intset) :=
  if (intsetValueEncoding value).size > is.encoding.size then do
    let is ← intsetUpgradeAndAdd fresh is value
    pure (true, is)
  else do
    let (found, pos) ← intsetSearch is value
    if found then pure (false, is)
    else do
      let is := intsetResize fresh is (is.length + 1)
      let is ← (if pos < is.length then intsetMoveTail is pos (pos + 1) else pure is)
      let contents ← intsetSet is.contents is.encoding pos value
      pure (true, { is with length := is.length + 1, contents })

/-- `intsetRemove` with its `success` flag. -/
def intsetRemove (fresh : Nat → UInt8) (is : Intset) (value : Int)
    : Except Fault (Bool × Intset) :=
  if (intsetValueEncoding value).size ≤ is.encoding.size then do
    let (found, pos) ← intsetSearch is value
    if found then do
      let len := is.length
      let is ← (if pos < len - 1 then intsetMoveTail is (pos + 1) pos else pure is)
      let is := intsetResize fresh is (len - 1)
      pure (true, { is with length := len - 1 })
    else pure (false, is)
  else .ok (false, is)

def intsetFind (is : Intset) (value : Int) : Except Fault Bool :=
  if (intsetValueEncoding value).size ≤ is.encoding.size then do
    let (found, _) ← intsetSearch is value
    pure found
  else .ok false

/-- The elements decoded at the encoding of the header. -/
def Intset.elements (is : Intset) : Except Fault (List Int) :=
  (List.range is.length).mapM (intsetGetAt is)

end Redis
