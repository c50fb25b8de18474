import Redis.Commands.KeyExtraction
import Redis.Sets.Commands
import Redis.Sort.SortedWindow
import Redis.SortedSet.Skiplist

/-! `sortCommand`: the options, the window, the vector with its weights and the output. `libc` gives
`strtod`, `strcoll` and `qsort`; a score is a `double` that is not a NaN.
-/

namespace Redis.Keyspace

open Redis.Library

/-- A string object, or an entry of a ziplist: bytes or a number. -/
inductive Element where
  | bytes (text : Sds)
  | integer (v : Int)
deriving DecidableEq, Repr

def Element.text : Element → Sds
  | .bytes text => text
  | .integer v => decimalText v

end Redis.Keyspace

namespace Redis.Sort

open Redis.Keyspace (Sds ObjectDb Element longLong)
open Redis.Library
open Redis.Sets (Qsort)
open Redis.SideIndexes (Moment)

-- Objects

/-- A sorted set: its members in the order of the skiplist, and as the iterator of the dictionary
has them.
-/
structure ZsetObject where
  byScore : List Element
  byHash : List Element
  perm : byHash.Perm byScore

/-- `robj`; the elements are in the order of the iterator, `hashTypeGetObject` reads a hash. -/
inductive Robj where
  | string (value : Element)
  | list (items : List Element)
  | set (members : List Element)
  | zset (zset : ZsetObject)
  | hash (field : Sds → Option Element)

/-- What `strtod` returns: no number is a NaN; `whole` is `eptr[0] == '\0'`, and `range` that it
sets `ERANGE`.
-/
structure Strtod (F : Type) where
  value : Option F
  whole : Bool
  range : Bool

/-- The library, `server.cluster_enabled`, the flag of a script client and the address of the
vector.
-/
structure Env (F : Type) where
  strtod : Sds → Strtod F
  ofLong : Int → F
  strcoll : Sds → Sds → Int
  qsort : Qsort
  clusterEnabled : Bool
  luaClient : Bool
  vectorAddress : Nat

def ERANGE : Nat := 34

/-- `sizeof(redisSortObject)`. -/
def sortObjectSize : Nat := 16

/-- `redisSortObject`. Both members of the union are 0 before they are set. -/
structure SortObject (F : Type) where
  obj : Element
  score : F
  cmpobj : Option Sds

inductive SortReply where
  | wrongType
  | error (text : String)
  /-- The length that is announced, and the bulks behind it. -/
  | multiBulk (outputlen : Nat) (values : List (Option Sds))
  | integer (n : Nat)
deriving DecidableEq, Repr

structure Outcome where
  reply : SortReply
  db : ObjectDb Robj
  errno : Nat

-- Patterns

/-- `strchr(spat,'*')`: what is before the first star and behind it. -/
def splitStar : Sds → Option (Sds × Sds)
  | [] => none
  | c :: rest =>
      if c = 0 then none
      else if c = 0x2A then some ([], rest)
      else (splitStar rest).map fun (before, behind) => (c :: before, behind)

/-- `strstr(p+1, "->")`. -/
def splitArrow : Sds → Option (Sds × Sds)
  | 0x2D :: 0x3E :: rest => some ([], rest)
  | c :: rest =>
      if c = 0 then none else (splitArrow rest).map fun (before, behind) => (c :: before, behind)
  | [] => none

/-- What is behind the star in the name of the key, and the field of a hash. -/
def splitField (behind : Sds) : Sds × Option Sds :=
  match splitArrow behind with
  | some (postfix', field) => if field.headD 0 = 0 then (behind, none) else (postfix', some field)
  | none => (behind, none)

/-- What `lookupKeyByPattern` takes from the value that it looked up. -/
def patternField (field : Option Sds) (o : Option Robj) : Option Element :=
  match field, o with
  | some field, some (.hash value) => value field
  | none, some (.string value) => some value
  | _, _ => none

def lookupKeyByPattern (db : ObjectDb Robj) (moment : Moment) (pattern : Sds) (subst : Element)
    : ObjectDb Robj × Option Element :=
  if Keyspace.cString pattern = [0x23] then (db, some subst)
  else
    match splitStar pattern with
    | none => (db, none)
    | some (prefix', behind) =>
        let (postfix', field) := splitField behind
        let (db, o) := db.lookupKeyWrite moment (prefix' ++ subst.text ++ postfix')
        (db, patternField field o)

-- The options and the window

/-- `errno` behind the loop over the options: reading a number for `LIMIT` resets it. -/
def sortOptionsErrno (clusterEnabled : Bool) : (skip j : Nat) → List Sds → SortArguments → Nat → Nat
  | _, _, [], _, errno => errno
  | skip + 1, j, _ :: args, read, errno => sortOptionsErrno clusterEnabled skip
      (j + 1) args read errno
  | 0, j, word :: args, read, errno =>
      match sortOption clusterEnabled j word args read with
      | .error _ => errno
      | .ok (skip, next) =>
          sortOptionsErrno clusterEnabled skip (j + 1) args next
            (if isOption word limitText then 0 else errno)

/-- What is to be done: the options, with their arguments. -/
structure Plan where
  desc : Bool
  alpha : Bool
  dontsort : Bool
  limitStart : Int
  limitCount : Int
  sortby : Option Sds
  storekey : Option Sds
  operations : List Sds

/-- The options as they are after a set without an order was made to be sorted. -/
def planOf (argv : List Sds) (read : SortArguments) (isSet luaClient : Bool) : Plan :=
  let argAt (i : Nat) := argv.getD i []
  let forced := read.dontsort && isSet && (read.storekey.isSome || luaClient)
  { desc := read.desc
    alpha := read.alpha || forced
    dontsort := read.dontsort && !forced
    limitStart := read.limitStart
    limitCount := read.limitCount
    sortby := if forced then none else read.sortby.map argAt
    storekey := read.storekey.map argAt
    operations := read.operations.map argAt }

/-- `start` and `end`. -/
structure Window where
  start : Int
  last : Int
deriving DecidableEq, Repr

/-- The checks of `LIMIT`. -/
def limitWindow (limitStart limitCount vectorlen : Int) : Window :=
  let start := if limitStart < 0 then 0 else limitStart
  let last := if limitCount < 0 then vectorlen - 1 else longLong (start + limitCount - 1)
  let w : Window := if start ≥ vectorlen then ⟨vectorlen - 1, vectorlen - 2⟩ else ⟨start, last⟩
  { w with last := if w.last ≥ vectorlen then vectorlen - 1 else w.last }

/-- The window is not the whole vector. -/
def Window.partial' (w : Window) (vectorlen : Int) : Bool := w.start ≠ 0 || w.last ≠ vectorlen - 1

-- The vector

def fillVector (items : List Element) (vectorlen : Int) : Except Fault (List Element) :=
  if vectorlen < 0 then .error .outOfMemory
  else if vectorlen < items.length then .error .outOfBounds
  else if items.length = vectorlen then .ok items
  else .error .assertion

/-- The nodes of a skiplist from `start` on, in the direction `native`; there must be enough of
them.
-/
def loadRange (native : List Element) (start vectorlen : Int) : Except Fault (List Element) :=
  if vectorlen < 0 then .error .outOfMemory
  else if (native.drop start.toNat).length < vectorlen then .error .assertion
  else .ok ((native.drop start.toNat).take vectorlen.toNat)

def nativeOrder (desc : Bool) (zset : ZsetObject) : List Element :=
  if desc then zset.byScore.reverse else zset.byScore

/-- The elements of a value, and whether it is one that can be sorted. -/
def sortable : Robj → Option (List Element)
  | .list items => some items
  | .set members => some members
  | .zset zset => some zset.byHash
  | _ => none

def loadVector (plan : Plan) (sortval : Robj) (items : List Element)
    : Except Fault (List Element × Window) :=
  let vectorlen := int32 items.length
  let w := limitWindow plan.limitStart plan.limitCount vectorlen
  match sortval, plan.dontsort with
  | .zset zset, true => do
      let vectorlen := if w.partial' vectorlen then int32 (w.last - w.start + 1) else vectorlen
      let vector ← loadRange (nativeOrder plan.desc zset) w.start vectorlen
      pure (vector, ⟨0, w.last - w.start⟩)
  | _, _ => do pure (← fillVector items vectorlen, w)

section Sorting

variable {F : Type} [LinearOrder F] [Zero F] (env : Env F) (moment : Moment) (plan : Plan)

/-- What the loop over the vector changes. -/
structure Weighing where
  db : ObjectDb Robj
  errno : Nat
  intConvertionError : Bool

/-- The conversion of a value to a score; the test reads `errno` also when `strtod` did not set it.
-/
def convertScore (byval : Element) (s : Weighing) : F × Weighing :=
  match byval with
  | .bytes text =>
      let result := env.strtod (Keyspace.cString text)
      let errno := if result.range then ERANGE else s.errno
      let failed := !result.whole || errno = ERANGE || result.value.isNone
      (result.value.getD 0, { s with errno, intConvertionError := s.intConvertionError || failed })
  | .integer v => (env.ofLong v, s)

def byValue (s : Weighing) (obj : Element) : ObjectDb Robj × Option Element :=
  match plan.sortby with
  | some pattern => lookupKeyByPattern s.db moment pattern obj
  | none => (s.db, some obj)

def weigh (s : Weighing) (obj : Element) : SortObject F × Weighing :=
  let (db, byval) := byValue moment plan s obj
  let s := { s with db }
  match byval with
  | none => (⟨obj, 0, none⟩, s)
  | some byval =>
      if plan.alpha then (⟨obj, 0, if plan.sortby.isSome then some byval.text else none⟩, s)
      else
        let (score, s) := convertScore env byval s
        (⟨obj, score, none⟩, s)

def weighAll (s : Weighing) : List Element → List (SortObject F) × Weighing
  | [] => ([], s)
  | obj :: rest =>
      let (first, s) := weigh env moment plan s obj
      let (others, s) := weighAll s rest
      (first :: others, s)

-- Sorting

/-- `sortCompare`, before `sort_desc`. -/
def compareAscending (a b : SortObject F) : Int :=
  if !plan.alpha then
    if a.score > b.score then 1
    else if a.score < b.score then -1
    else compareStringObjects a.obj.text b.obj.text
  else if plan.sortby.isSome then
    compareOption
      (fun x y =>
        if plan.storekey.isSome then compareStringObjects x y
        else env.strcoll (Keyspace.cString x) (Keyspace.cString y))
      a.cmpobj b.cmpobj
  else if plan.storekey.isSome then compareStringObjects a.obj.text b.obj.text
  else env.strcoll (Keyspace.cString a.obj.text) (Keyspace.cString b.obj.text)

def sortCompare (a b : SortObject F) : Int :=
  if plan.desc then -compareAscending env plan a b else compareAscending env plan a b

/-- `pqsort` of the vector. -/
def pqsortVector (w : Window) (vector : List (SortObject F)) : List (SortObject F) :=
  match vector with
  | [] => []
  | first :: _ =>
      (List.range vector.length).map <|
        pqsort (sortCompare env plan) env.vectorAddress vector.length sortObjectSize w.start w.last
          fun i => vector.getD i first

def sortVector (w : Window) (vector : List (SortObject F)) : List (SortObject F) :=
  if plan.sortby.isSome && w.partial' vector.length then pqsortVector env plan w vector
  else env.qsort.sort (sortCompare env plan) vector

-- The output

/-- The `GET` patterns of one element, or the element. -/
def outputElement (db : ObjectDb Robj) (obj : Element)
    : List Sds → ObjectDb Robj × List (Option Element)
  | [] => (db, [])
  | pattern :: rest =>
      let (db, val) := lookupKeyByPattern db moment pattern obj
      let (db, others) := outputElement db obj rest
      (db, val :: others)

/-- The loop from `j` to `end`. -/
def outputLoop (vector : List Element) : (count : Nat) → (j : Int) → ObjectDb Robj →
    Except Fault (ObjectDb Robj × List (Option Element))
  | 0, _, db => pure (db, [])
  | count + 1, j, db =>
      match if j < 0 then none else vector[j.toNat]? with
      | none => .error .outOfBounds
      | some obj => do
          let (db, values) :=
            if plan.operations = [] then (db, [some obj])
              else outputElement moment db obj plan.operations
          let (db, others) ← outputLoop vector count (j + 1) db
          pure (db, values ++ others)

/-- `outputlen`, an `unsigned int`. -/
def outputLength (w : Window) : Nat :=
  ((if plan.operations = [] then w.last - w.start + 1
    else plan.operations.length * (w.last - w.start + 1)) % 2 ^ 32).toNat

/-- The end of a `SORT` with `STORE`: `setKey` or `dbDelete`. -/
def storeOutput (db : ObjectDb Robj) (storekey : Sds) (outputlen : Nat) (values : List Element)
    : ObjectDb Robj :=
  if outputlen ≠ 0 then (db.dbDelete storekey).store storekey (.list values)
    else db.dbDelete storekey

def sortOutput (w : Window) (vector : List Element) (s : Weighing) : Except Fault Outcome :=
  let outputlen := outputLength plan w
  if s.intConvertionError then
    pure ⟨.error "One or more scores can't be converted into double", s.db, s.errno⟩
  else do
    let (db, values) ← outputLoop moment plan vector (w.last - w.start + 1).toNat w.start s.db
    match plan.storekey with
    | none => pure ⟨.multiBulk outputlen (values.map (·.map Element.text)), db, s.errno⟩
    | some storekey =>
        let stored := values.map fun val => val.getD (.bytes [])
        pure ⟨.integer outputlen, storeOutput db storekey outputlen stored, s.errno⟩

/-- The part of `sortCommand` behind the options. -/
def sortValue (sortval : Robj) (items : List Element) (db : ObjectDb Robj) (errno : Nat)
    : Except Fault Outcome := do
  let (vector, w) ← loadVector plan sortval items
  if plan.dontsort then sortOutput moment plan w vector ⟨db, errno, false⟩
  else
    let (weighed, s) := weighAll env moment plan ⟨db, errno, false⟩ vector
    sortOutput moment plan w ((sortVector env plan w weighed).map SortObject.obj) s

/-- `sortCommand`; a key that is not there is an empty list. Two ways to set `errno` in between are
left out: `zsetConvert`, when a score in a ziplist underflows, and a number of `LIMIT` that is
refused.
-/
def sortCommand (argv : List Sds) (db : ObjectDb Robj) (errno : Nat) : Except Fault Outcome :=
  let (db, found) := db.lookupKeyWrite moment (argv.getD 1 [])
  let sortval := found.getD (.list [])
  match sortable sortval with
  | none => pure ⟨.wrongType, db, errno⟩
  | some items =>
      let behind := sortOptionsErrno env.clusterEnabled 0 2 (argv.drop 2) .initial errno
      match sortOptions env.clusterEnabled 0 2 (argv.drop 2) .initial with
      | .error err => pure ⟨.error err.text, db, behind⟩
      | .ok read =>
          let isSet := match sortval with
            | .set _ => true
            | _ => false
          sortValue env moment (planOf argv read isSet env.luaClient) sortval items db behind

end Sorting

end Redis.Sort
