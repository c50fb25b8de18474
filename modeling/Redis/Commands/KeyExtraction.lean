import Redis.Keyspace.Model
import Redis.Replication.Acknowledgement

/-! The keys of `ZUNIONSTORE`, `EVAL` and `SORT`: the functions of `db.c` that find them among the
arguments, and how the commands read the same arguments.
-/

namespace Redis

open Redis.Library
open Redis.Keyspace (Sds getLongLongFromObject)

-- Words

/-- The option words of `SORT`. -/
def ascText : List UInt8 := [0x61, 0x73, 0x63]
def descText : List UInt8 := [0x64, 0x65, 0x73, 0x63]
def alphaText : List UInt8 := [0x61, 0x6C, 0x70, 0x68, 0x61]
def limitText : List UInt8 := [0x6C, 0x69, 0x6D, 0x69, 0x74]
def storeText : List UInt8 := [0x73, 0x74, 0x6F, 0x72, 0x65]
def byText : List UInt8 := [0x62, 0x79]
def getText : List UInt8 := [0x67, 0x65, 0x74]

/-- `argv[i]->ptr`. -/
def argvAt (argv : List Sds) (i : Nat) : Except Fault Sds :=
  match argv[i]? with
  | some arg => .ok arg
  | none => .error .outOfBounds

-- Finding the keys

/-- The array of key positions, with the cells that are not written, and `*numkeys`. -/
structure ExtractedKeys where
  keys : List (Option Nat)
  numkeys : Int
deriving DecidableEq, Repr

/-- `zmalloc(sizeof(int)*count)`. As a `size_t`, the size of a negative count is one that no
allocator serves.
-/
def zmallocInts (count : Int) : Except Fault (List (Option Nat)) :=
  if count < 0 then .error .outOfMemory else .ok (List.replicate count.toNat none)

/-- `keys[i] = position`. -/
def setKeyAt (keys : List (Option Nat)) (i : Int) (position : Nat)
    : Except Fault (List (Option Nat)) :=
  if 0 ≤ i ∧ i < keys.length then .ok (keys.set i.toNat (some position)) else .error .outOfBounds

/-- The loop that adds the positions of the arguments from the fourth on. -/
def addKeysFrom3 (keys : List (Option Nat)) (num : Int) : Except Fault (List (Option Nat)) :=
  (List.range num.toNat).foldlM (fun keys (i : Nat) => setKeyAt keys i (3 + i)) keys

def zunionInterGetKeys (argv : List Sds) : Except Fault ExtractedKeys := do
  let num := atoi (← argvAt argv 2)
  if num > argv.length - 3 then pure ⟨[], 0⟩
  else do
    let keys ← zmallocInts (num + 1)
    let keys ← addKeysFrom3 keys num
    let keys ← setKeyAt keys num 1
    pure ⟨keys, num + 1⟩

def evalGetKeys (argv : List Sds) : Except Fault ExtractedKeys := do
  let num := atoi (← argvAt argv 2)
  if num > argv.length - 3 then pure ⟨[], 0⟩
  else do
    let keys ← zmallocInts num
    let keys ← addKeysFrom3 keys num
    pure ⟨keys, num⟩

/-- `skiplist` of `sortGetKeys`. -/
def sortSkiplist : List (List UInt8 × Nat) := [(limitText, 2), (getText, 1), (byText, 1)]

/-- What the inner loop of `sortGetKeys` takes an argument for. -/
inductive SortGlance where
  /-- An option, whose arguments are passed. -/
  | skips (count : Nat)
  /-- `STORE`, with an argument behind it. -/
  | store
  | plain
deriving DecidableEq, Repr

/-- The inner loop of `sortGetKeys`; `more` is `i+1 < argc`. -/
def sortGlance (arg : Sds) (more : Bool) : List (List UInt8 × Nat) → SortGlance
  | [] => .plain
  | (name, skip) :: skiplist =>
      if isOption arg name then .skips skip
      else if isOption arg storeText && more then .store
      else sortGlance arg more skiplist

/-- The outer loop of `sortGetKeys`, with the arguments from `i` on and how many of these are still
to be passed.
-/
def sortKeysLoop (num : Int)
    : (skip i : Nat) → List Sds → List (Option Nat) → Nat → Except Fault (List (Option Nat) × Nat)
  | _, _, [], keys, foundStore => pure (keys, foundStore)
  | skip + 1, i, _ :: args, keys, foundStore => sortKeysLoop num skip (i + 1) args keys foundStore
  | 0, i, arg :: args, keys, foundStore =>
      match sortGlance arg (!args.isEmpty) sortSkiplist with
      | .skips skip => sortKeysLoop num skip (i + 1) args keys foundStore
      | .store => do
          let keys ← setKeyAt keys num (i + 1)
          sortKeysLoop num 0 (i + 1) args keys 1
      | .plain => sortKeysLoop num 0 (i + 1) args keys foundStore

def sortGetKeys (argv : List Sds) : Except Fault ExtractedKeys := do
  let keys ← zmallocInts 2
  let keys ← setKeyAt keys 0 1
  let (keys, foundStore) ← sortKeysLoop 1 0 2 (argv.drop 2) keys 0
  pure ⟨keys, 1 + foundStore⟩

-- How the commands read their arguments

/-- The errors that end the reading of arguments. -/
inductive ArgumentError where
  | notAnInteger
  | noInputKey
  | tooManyKeys
  | negativeKeys
  | byDenied
  | getDenied
  | syntaxError
deriving DecidableEq, Repr

def ArgumentError.text : ArgumentError → String
  | .notAnInteger => "ERR value is not an integer or out of range"
  | .noInputKey => "ERR at least 1 input key is needed for ZUNIONSTORE/ZINTERSTORE"
  | .tooManyKeys => "ERR Number of keys can't be greater than number of args"
  | .negativeKeys => "ERR Number of keys can't be negative"
  | .byDenied => "ERR BY option of SORT denied in Cluster mode."
  | .getDenied => "ERR GET option of SORT denied in Cluster mode."
  | .syntaxError => "ERR syntax error"

/-- The start of `zunionInterGenericCommand`: `setnum`. -/
def zunionInterSetnum (argv : List Sds) : Except ArgumentError Nat :=
  match getLongLongFromObject (argv.getD 2 []) with
  | none => .error .notAnInteger
  | some setnum =>
      if setnum < 1 then .error .noInputKey
      else if setnum > argv.length - 3 then .error .syntaxError
      else .ok setnum.toNat

/-- The start of `evalGenericCommand`: `numkeys`. -/
def evalNumkeys (argv : List Sds) : Except ArgumentError Nat :=
  match getLongLongFromObject (argv.getD 2 []) with
  | none => .error .notAnInteger
  | some numkeys =>
      if numkeys > argv.length - 3 then .error .tooManyKeys
      else if numkeys < 0 then .error .negativeKeys
      else .ok numkeys.toNat

/-- What `sortCommand` reads from its options; keys and patterns are positions. -/
structure SortArguments where
  desc : Bool
  alpha : Bool
  limitStart : Int
  limitCount : Int
  storekey : Option Nat
  sortby : Option Nat
  dontsort : Bool
  operations : List Nat
deriving DecidableEq, Repr

/-- The values of the variables in front of the loop. -/
def SortArguments.initial : SortArguments := ⟨false, false, 0, -1, none, none, false, []⟩

/-- One round of the loop of `sortCommand`, at position `j`: how many arguments the option has, and
what is read so far.
-/
def sortOption (clusterEnabled : Bool) (j : Nat) (word : Sds) (args : List Sds)
    (read : SortArguments)
    : Except ArgumentError (Nat × SortArguments) :=
  if isOption word ascText then .ok (0, { read with desc := false })
  else if isOption word descText then .ok (0, { read with desc := true })
  else if isOption word alphaText then .ok (0, { read with alpha := true })
  else if isOption word limitText ∧ 2 ≤ args.length then
    match getLongLongFromObject (args.getD 0 []), getLongLongFromObject (args.getD 1 []) with
    | some start, some count => .ok (2, { read with limitStart := start, limitCount := count })
    | _, _ => .error .notAnInteger
  else if isOption word storeText ∧ 1 ≤ args.length then
    .ok (1, { read with storekey := some (j + 1) })
  else if isOption word byText ∧ 1 ≤ args.length then
    if 0x2A ∉ Keyspace.cString (args.getD 0 []) then
      .ok (1, { read with sortby := some (j + 1), dontsort := true })
    else if clusterEnabled then .error .byDenied
    else .ok (1, { read with sortby := some (j + 1) })
  else if isOption word getText ∧ 1 ≤ args.length then
    if clusterEnabled then .error .getDenied
    else .ok (1, { read with operations := read.operations ++ [j + 1] })
  else .error .syntaxError

/-- The loop of `sortCommand`, with the arguments from `j` on and how many of these belong to the
option in front.
-/
def sortOptions (clusterEnabled : Bool)
    : (skip j : Nat) → List Sds → SortArguments → Except ArgumentError SortArguments
  | _, _, [], read => pure read
  | skip + 1, j, _ :: args, read => sortOptions clusterEnabled skip (j + 1) args read
  | 0, j, word :: args, read => do
      let (skip, read) ← sortOption clusterEnabled j word args read
      sortOptions clusterEnabled skip (j + 1) args read

-- The commands of the table with a `getkeys_proc`

inductive GetKeysProc where
  | zunionInter
  | eval
  | sort
deriving DecidableEq, Repr

/-- The least number of arguments that the arity in the command table allows. -/
def GetKeysProc.arity : GetKeysProc → Nat
  | .zunionInter => 4
  | .eval => 3
  | .sort => 2

def getKeysFromCommand : GetKeysProc → List Sds → Except Fault ExtractedKeys
  | .zunionInter => zunionInterGetKeys
  | .eval => evalGetKeys
  | .sort => sortGetKeys

def commandKeys (clusterEnabled : Bool) (argv : List Sds)
    : GetKeysProc → Except ArgumentError (List Nat)
  | .zunionInter => do pure (1 :: List.range' 3 (← zunionInterSetnum argv))
  | .eval => do pure (List.range' 3 (← evalNumkeys argv))
  | .sort => do
      let read ← sortOptions clusterEnabled 0 2 (argv.drop 2) .initial
      pure (1 :: read.storekey.toList)

end Redis
