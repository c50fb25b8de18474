import Redis.Dict.Table

/-! The operations of `dict.c` on a dictionary of two tables.
A pointer to an entry is the table, the bucket and the place in the chain where it is.
-/

namespace Redis

open Redis.Library

variable {K V : Type}

def dictHtInitialSize : Nat := 4

def dictForceResizeRatio : Nat := 5

def portLongMax : Nat := 2 ^ 63 - 1

/-- A `dict`; `rehashidx` is `none` where the source has `-1`. -/
structure Dict (K V : Type) where
  ht0 : Dictht K V
  ht1 : Dictht K V
  rehashidx : Option Nat
  iterators : Nat
deriving DecidableEq, Repr

def Dict.isRehashing (d : Dict K V) : Bool := d.rehashidx.isSome

def Dict.size (d : Dict K V) : Nat := d.ht0.used + d.ht1.used

/-- All entries, those of `ht[0]` first. -/
def Dict.entries (d : Dict K V) : List (DictEntry K V) := d.ht0.entries ++ d.ht1.entries

def dictCreate : Dict K V :=
  { ht0 := dictReset, ht1 := dictReset, rehashidx := none, iterators := 0 }

-- Resizing

/-- The doubling loop of `_dictNextPower`; `fuel` bounds the doublings. -/
def dictNextPowerLoop (size : Nat) : (fuel i : Nat) → Nat
  | 0, i => i
  | fuel + 1, i => if i ≥ size then i else dictNextPowerLoop size fuel (i * 2)

/-- `_dictNextPower`. A size below `PORT_LONG_MAX` needs at most 61 doublings of 4. -/
def dictNextPower (size : Nat) : Nat :=
  if size ≥ portLongMax then portLongMax else dictNextPowerLoop size 61 dictHtInitialSize

/-- No process can use more than half of a 64-bit address space. A request that goes beyond
it is not served, and the allocator ends the process.
-/
def addressSpace : Nat := 2 ^ 63

/-- `zcalloc(realsize*sizeof(dictEntry*))`. The product is a `size_t`: for `2 ^ 61` to
`2 ^ 63` buckets it wraps to zero, and the call returns an array without a bucket. The allocator
knows the sizes of its blocks (`HAVE_MALLOC_SIZE`), so that `PREFIX_SIZE` is 0.
-/
def zcallocTable (realsize : Nat) : Except Fault (List (List (DictEntry K V))) :=
  let size := realsize * 8 % 2 ^ 64
  if size < addressSpace then .ok (List.replicate (size / 8) []) else .error .outOfMemory

/-- `dictExpand`; the status is `true` for `DICT_OK`. -/
def dictExpand (d : Dict K V) (size : Nat) : Except Fault (Bool × Dict K V) :=
  let realsize := dictNextPower size
  if d.isRehashing ∨ d.ht0.used > size then .ok (false, d)
  else if realsize = d.ht0.size then .ok (false, d)
  else do
    let table ← zcallocTable realsize
    let n : Dictht K V := { table, size := realsize, sizemask := realsize - 1, used := 0 }
    -- A size of zero stands for the NULL bucket array of a table never allocated.
    if d.ht0.size = 0 then pure (true, { d with ht0 := n })
    else pure (true, { d with ht1 := n, rehashidx := some 0 })

/-- The conversion of an unsigned 64-bit value to `int`. -/
def castInt (n : Nat) : Int :=
  let m : Nat := n % 2 ^ 32
  if m < 2 ^ 31 then m else (m : Int) - 2 ^ 32

/-- `dictResize`, reading the global `dict_can_resize`. -/
def dictResize (canResize : Bool) (d : Dict K V) : Except Fault (Bool × Dict K V) :=
  if !canResize || d.isRehashing then .ok (false, d)
  else
    let minimal := castInt d.ht0.used
    let minimal := if minimal < dictHtInitialSize then (dictHtInitialSize : Int) else minimal
    dictExpand d minimal.toNat

-- Incremental rehashing

/-- How the scan for a non-empty bucket ends. -/
inductive SkipResult (K V : Type) where
  /-- The bucket at `rehashidx` holds a chain. -/
  | found (rehashidx : Nat) (chain : List (DictEntry K V)) (emptyVisits : Nat)
  /-- The budget of empty buckets is spent. -/
  | exhausted (rehashidx : Nat)

/-- `while(d->ht[0].table[d->rehashidx] == NULL)` over the buckets from `rehashidx` on. -/
def skipEmpty
    : List (List (DictEntry K V)) → (rehashidx emptyVisits : Nat)
      → Except Fault (SkipResult K V)
  | [], _, _ => .error .outOfBounds
  | [] :: rest, rehashidx, emptyVisits =>
      if emptyVisits - 1 = 0 then .ok (.exhausted (rehashidx + 1))
      else skipEmpty rest (rehashidx + 1) (emptyVisits - 1)
  | (entry :: chain) :: _, rehashidx, emptyVisits =>
      .ok (.found rehashidx (entry :: chain) emptyVisits)

/-- Moving the cells of one chain to `ht[1]`, in chain order. -/
def moveChain (type : DictType K V)
    : List (DictEntry K V) → Dictht K V → Except Fault (Dictht K V)
  | [], ht1 => .ok ht1
  | de :: nextde, ht1 => do
      let ht1 ← ht1.link (dictHashKey type de.key &&& ht1.sizemask) de
      moveChain type nextde ht1

/-- The outer loop of `dictRehash`. The flag is `true` when the loop ended by itself and
`false` when the function returned 1 from inside it.
-/
def rehashLoop (type : DictType K V)
    : (n emptyVisits rehashidx : Nat) → Dict K V → Except Fault (Bool × Dict K V)
  | 0, _, _, d => .ok (true, d)
  | n + 1, emptyVisits, rehashidx, d =>
      if d.ht0.used = 0 then .ok (true, d)
      else if d.ht0.size > rehashidx then do
        match ← skipEmpty (d.ht0.table.drop rehashidx) rehashidx emptyVisits with
        | .exhausted rehashidx => pure (false, { d with rehashidx := some rehashidx })
        | .found rehashidx chain emptyVisits =>
            let ht1 ← moveChain type chain d.ht1
            let ht0 := { d.ht0 with
              table := d.ht0.table.set rehashidx []
              used := d.ht0.used - chain.length }
            rehashLoop type n emptyVisits (rehashidx + 1)
              { d with ht0, ht1, rehashidx := some (rehashidx + 1) }
      else .error .assertion

/-- `dictRehash` for a count `n ≥ 0`; the result is 1 while there is more to move. -/
def dictRehash (type : DictType K V) (d : Dict K V) (n : Nat)
    : Except Fault (Nat × Dict K V) :=
  match d.rehashidx with
  | none => .ok (0, d)
  | some rehashidx => do
      let (ended, d) ← rehashLoop type n (n * 10) rehashidx d
      if ended && d.ht0.used == 0 then
        pure (0, { d with ht0 := d.ht1, ht1 := dictReset, rehashidx := none })
      else pure (1, d)

def dictRehashStep (type : DictType K V) (d : Dict K V) : Except Fault (Dict K V) :=
  if d.iterators = 0 then do
    let (_, d) ← dictRehash type d 1
    pure d
  else .ok d

/-- `if (dictIsRehashing(d)) _dictRehashStep(d)`, the opening of every operation. -/
def rehashIfNeeded (type : DictType K V) (d : Dict K V) : Except Fault (Dict K V) :=
  if d.isRehashing then dictRehashStep type d else .ok d

-- Lookup

/-- A `dictEntry` pointer: which table, which bucket, which cell of the chain. -/
structure EntryRef where
  second : Bool
  idx : Nat
  pos : Nat
deriving DecidableEq, Repr

def Dict.table (d : Dict K V) (second : Bool) : Dictht K V := if second then d.ht1 else d.ht0

section Keys

variable [DecidableEq K] (type : DictType K V)

def findInTable (ht : Dictht K V) (key : K) : Except Fault (Nat × Option Nat) := do
  let idx := dictHashKey type key &&& ht.sizemask
  let chain ← ht.bucket idx
  pure (idx, chain.findIdx? (fun he => dictCompareKeys type key he.key))

/-- The search loop over both tables that all operations share. -/
def findInTables (d : Dict K V) (key : K) : Except Fault (Option EntryRef) := do
  match ← findInTable type d.ht0 key with
  | (idx, some pos) => pure (some { second := false, idx, pos })
  | (_, none) =>
      if !d.isRehashing then pure none
      else
        match ← findInTable type d.ht1 key with
        | (idx, some pos) => pure (some { second := true, idx, pos })
        | (_, none) => pure none

def dictFind (d : Dict K V) (key : K) : Except Fault (Option EntryRef × Dict K V) :=
  if d.ht0.size = 0 then .ok (none, d)
  else do
    let d ← rehashIfNeeded type d
    let found ← findInTables type d key
    pure (found, d)

omit [DecidableEq K] in
def Dict.entryAt (d : Dict K V) (ref : EntryRef) : Except Fault (DictEntry K V) := do
  let chain ← (d.table ref.second).bucket ref.idx
  match chain[ref.pos]? with
  | some entry => pure entry
  | none => .error .outOfBounds

def dictFetchValue (d : Dict K V) (key : K) : Except Fault (Option V × Dict K V) := do
  match ← dictFind type d key with
  | (some ref, d) => do
      let entry ← d.entryAt ref
      pure (some entry.val, d)
  | (none, d) => pure (none, d)

-- Insertion and deletion

omit [DecidableEq K] in
def dictExpandIfNeeded (canResize : Bool) (d : Dict K V) : Except Fault (Bool × Dict K V) :=
  if d.isRehashing then .ok (true, d)
  else if d.ht0.size = 0 then dictExpand d dictHtInitialSize
  else if d.ht0.used ≥ d.ht0.size
      ∧ (canResize ∨ d.ht0.used / d.ht0.size > dictForceResizeRatio) then
    dictExpand d (d.ht0.used * 2)
  else .ok (true, d)

def Dict.insertTable (d : Dict K V) : Dictht K V := if d.isRehashing then d.ht1 else d.ht0

/-- `_dictKeyIndex`. The bucket number is an `unsigned int` that is returned as an `int`,
with `-1` for a key that is present or a table that could not be expanded.
-/
def dictKeyIndex (canResize : Bool) (d : Dict K V) (key : K)
    : Except Fault (Int × Dict K V) := do
  match ← dictExpandIfNeeded canResize d with
  | (false, d) => pure (-1, d)
  | (true, d) => do
      match ← findInTables type d key with
      | some _ => pure (-1, d)
      | none => pure (castInt (dictHashKey type key &&& d.insertTable.sizemask), d)

omit [DecidableEq K] in
/-- `zmalloc(sizeof(*entry))` for one more cell of 24 bytes. -/
def Dict.zmallocEntry (d : Dict K V) : Except Fault Unit :=
  if 24 * (d.size + 1) < addressSpace then .ok () else .error .outOfMemory

/-- `dictAddRaw` with the value its caller stores in the new cell; `true` when a cell was
added and `false` for `NULL`.
-/
def dictAddRaw (canResize : Bool) (d : Dict K V) (key : K) (val : V)
    : Except Fault (Bool × Dict K V) := do
  let d ← rehashIfNeeded type d
  let (index, d) ← dictKeyIndex type canResize d key
  if index = -1 then pure (false, d)
  else do
    d.zmallocEntry
    if index < 0 then .error .outOfBounds
    else
      let entry : DictEntry K V := { key := storedKey type key, val }
      if d.isRehashing then
        let ht1 ← d.ht1.link index.toNat entry
        pure (true, { d with ht1 })
      else
        let ht0 ← d.ht0.link index.toNat entry
        pure (true, { d with ht0 })

/-- `dictAdd`; the status is `true` for `DICT_OK`. -/
def dictAdd (canResize : Bool) (d : Dict K V) (key : K) (val : V)
    : Except Fault (Bool × Dict K V) :=
  dictAddRaw type canResize d key (storedVal type val)

omit [DecidableEq K] in
def Dict.setChain (d : Dict K V) (second : Bool) (idx used : Nat)
    (chain : List (DictEntry K V))
    : Dict K V :=
  if second then { d with ht1 := { d.ht1 with table := d.ht1.table.set idx chain, used } }
  else { d with ht0 := { d.ht0 with table := d.ht0.table.set idx chain, used } }

/-- `dictReplace`; the result is `true` when the key was new. -/
def dictReplace (canResize : Bool) (d : Dict K V) (key : K) (val : V)
    : Except Fault (Bool × Dict K V) := do
  match ← dictAdd type canResize d key val with
  | (true, d) => pure (true, d)
  | (false, d) =>
      match ← dictFind type d key with
      | (none, _) => .error .nullPointer
      | (some ref, d) => do
          let entry ← d.entryAt ref
          let chain ← (d.table ref.second).bucket ref.idx
          let entry := { entry with val := storedVal type val }
          pure (false,
            d.setChain ref.second ref.idx (d.table ref.second).used (chain.set ref.pos entry))

/-- `dictDelete`; the status is `true` when an entry was removed. -/
def dictDelete (d : Dict K V) (key : K) : Except Fault (Bool × Dict K V) :=
  if d.ht0.size = 0 then .ok (false, d)
  else do
    let d ← rehashIfNeeded type d
    match ← findInTables type d key with
    | none => pure (false, d)
    | some ref => do
        let chain ← (d.table ref.second).bucket ref.idx
        pure (true,
          d.setChain ref.second ref.idx ((d.table ref.second).used - 1)
            (chain.eraseIdx ref.pos))

end Keys

end Redis
