import Redis.Intset.Model
import Redis.Util.IntegerEncoding
import Redis.Ziplist.Traversal

/-! Sets and hashes in their encodings, and their conversion to hash tables. -/

namespace Redis.Rdb

open Redis.Library

-- Objects

/-- A set in its encodings. The members in a hash table are in the order of its iterator. -/
inductive SetObject where
  | intset (is : Intset)
  | ht (members : List StringObject)

inductive HashObject where
  | ziplist (zl : List UInt8)
  | ht (dict : List (StringObject × StringObject))

-- Conversions

/-- The object that is made of an entry of a ziplist. -/
def entryObject : ZipValue → StringObject
  | .str bytes => .sds bytes
  | .int value => createStringObjectFromLongLong (Int64.ofInt value)

/-- The entries of a ziplist two by two; every second one is asserted. -/
def entryPairs : List ZipValue → Except Fault (List (ZipValue × ZipValue))
  | [] => .ok []
  | [_] => .error .assertion
  | first :: second :: rest => do
      let pairs ← entryPairs rest
      pure ((first, second) :: pairs)

/-- `dictFind`: keys are the same when their texts are. -/
def dictFind (keys : List StringObject) (key : StringObject) : Bool :=
  keys.any fun other => other.text = key.text

/-- `dictAdd`, nothing for `DICT_ERR`; the place of the new entry in the order does not matter. -/
def dictAdd {α : Type} (dict : List (StringObject × α)) (key : StringObject) (value : α)
    : Option (List (StringObject × α)) :=
  if dictFind (dict.map Prod.fst) key then none else some (dict ++ [(key, value)])

/-- `dictAdd` to a set, where entries have no value. -/
def dictAddMember (members : List StringObject) (ele : StringObject) : Option (List StringObject) :=
  if dictFind members ele then none else some (members ++ [ele])

/-- `redisAssert(ret == DICT_OK)`. -/
def assertAdded {δ : Type} : Option δ → Except Fault δ
  | some dict => .ok dict
  | none => .error .assertion

/-- `setTypeConvert` to a hash table. -/
def setTypeConvert (is : Intset) : Except Fault (List StringObject) := do
  let elements ← is.elements
  elements.foldlM
    (fun members value =>
      assertAdded (dictAddMember members (createStringObjectFromLongLong (Int64.ofInt value))))
    []

/-- `hashTypeConvert` to a hash table. -/
def hashTypeConvert (zl : List UInt8) : Except Fault (List (StringObject × StringObject)) := do
  let values ← ziplistValues zl
  let pairs ← entryPairs values
  pairs.foldlM
    (fun dict (field, value) =>
      assertAdded (dictAdd dict (tryObjectEncoding 1 (entryObject field))
        (tryObjectEncoding 1 (entryObject value))))
    []

end Redis.Rdb
