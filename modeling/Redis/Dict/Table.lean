import Redis.Library.Faults

/-! The data model of `dict.h` and the operations of `dict.c` on one hash table.
A chain of `dictEntry` cells is a list, the bucket array is a list of chains, and a
`NULL` bucket array is the empty list. Table sizes and counters are 64-bit in the source and
naturals here; a size that makes the byte count of a bucket array wrap is seen where the
array is allocated.
-/

namespace Redis

open Redis.Library

/-- One `dictEntry`; its `next` pointer is the rest of the chain that holds it. -/
structure DictEntry (K V : Type) where
  key : K
  val : V
deriving DecidableEq, Repr

/-- The functions of a `dictType`. The destructors release memory and are left out. -/
structure DictType (K V : Type) where
  hashFunction : K → UInt32
  keyDup : Option (K → K)
  valDup : Option (V → V)
  keyCompare : Option (K → K → Bool)

variable {K V : Type}

section Macros

variable [DecidableEq K] (type : DictType K V)

/-- `dictCompareKeys`: without a compare function keys are compared as pointers. -/
def dictCompareKeys (key1 key2 : K) : Bool :=
  match type.keyCompare with
  | some compare => compare key1 key2
  | none => decide (key1 = key2)

omit [DecidableEq K]

/-- `dictHashKey`, an `unsigned int`. -/
def dictHashKey (key : K) : Nat := (type.hashFunction key).toNat

/-- The key that `dictSetKey` stores. -/
def storedKey (key : K) : K :=
  match type.keyDup with
  | some dup => dup key
  | none => key

/-- The value that `dictSetVal` stores. -/
def storedVal (val : V) : V :=
  match type.valDup with
  | some dup => dup val
  | none => val

end Macros

/-- What `dict.c` relies on from a `dictType`: keys are compared by an equivalence,
equated keys have equal hashes, and a duplicated key is equated with its original.
-/
structure DictType.Lawful [DecidableEq K] (type : DictType K V) : Prop where
  refl : ∀ a, dictCompareKeys type a a = true
  symm : ∀ {a b}, dictCompareKeys type a b = true → dictCompareKeys type b a = true
  trans
    : ∀ {a b c},
        dictCompareKeys type a b = true
        → dictCompareKeys type b c = true
        → dictCompareKeys type a c = true
  hash
    : ∀ {a b}, dictCompareKeys type a b = true → dictHashKey type a = dictHashKey type b
  dup : ∀ a, dictCompareKeys type a (storedKey type a) = true

/-- A `dictht`: the bucket array, its size and mask, and the count of its entries. -/
structure Dictht (K V : Type) where
  table : List (List (DictEntry K V))
  size : Nat
  sizemask : Nat
  used : Nat
deriving DecidableEq, Repr

def dictReset : Dictht K V := { table := [], size := 0, sizemask := 0, used := 0 }

def Dictht.entries (ht : Dictht K V) : List (DictEntry K V) := ht.table.flatten

/-- Reading `ht->table[idx]`. -/
def Dictht.bucket (ht : Dictht K V) (idx : Nat) : Except Fault (List (DictEntry K V)) :=
  match ht.table[idx]? with
  | some chain => .ok chain
  | none => .error .outOfBounds

/-- Linking a new cell in front of the chain of bucket `idx`. -/
def Dictht.link (ht : Dictht K V) (idx : Nat) (entry : DictEntry K V)
    : Except Fault (Dictht K V) := do
  let chain ← ht.bucket idx
  pure { ht with table := ht.table.set idx (entry :: chain), used := ht.used + 1 }

-- Well-formed tables

/-- A table is its size's worth of chains, a power of two of them, each entry lies in the
chain its hash selects, and `used` counts the entries. The empty table is `dictReset`.
-/
structure Dictht.WellFormed (type : DictType K V) (ht : Dictht K V) : Prop where
  length : ht.table.length = ht.size
  mask : ht.sizemask = ht.size - 1
  power : ht.size = 0 ∨ ∃ bits ≤ 60, ht.size = 2 ^ bits
  used : ht.used = ht.entries.length
  placed
    : ∀ {idx chain entry},
        ht.table[idx]? = some chain
        → entry ∈ chain
        → dictHashKey type entry.key &&& ht.sizemask = idx

theorem wellFormed_dictReset (type : DictType K V)
    : (dictReset : Dictht K V).WellFormed type where
  length := rfl
  mask := rfl
  power := Or.inl rfl
  used := rfl
  placed := by
    intro idx chain entry found
    simp [dictReset] at found

theorem flatten_set_perm {table : List (List (DictEntry K V))} {idx : Nat}
    {chain : List (DictEntry K V)} (found : table[idx]? = some chain)
    (next : List (DictEntry K V))
    : (chain ++ (table.set idx next).flatten).Perm (next ++ table.flatten) := by
  induction table generalizing idx with
  | nil => simp at found
  | cons head rest ih =>
      cases idx with
      | zero =>
          obtain rfl : head = chain := by simpa using found
          simp only [List.set_cons_zero, List.flatten_cons]
          exact List.perm_append_comm_assoc head next rest.flatten
      | succ idx =>
          have tail := ih (show rest[idx]? = some chain by simpa using found)
          simp only [List.set_cons_succ, List.flatten_cons]
          calc
            (chain ++ (head ++ (rest.set idx next).flatten)).Perm
                (head ++ (chain ++ (rest.set idx next).flatten)) :=
              List.perm_append_comm_assoc chain head _
            (head ++ (chain ++ (rest.set idx next).flatten)).Perm
                (head ++ (next ++ rest.flatten)) := tail.append_left head
            (head ++ (next ++ rest.flatten)).Perm (next ++ (head ++ rest.flatten)) :=
              List.perm_append_comm_assoc head next _

section Located

variable {type : DictType K V} {ht : Dictht K V} (wf : ht.WellFormed type)
include wf

theorem Dictht.WellFormed.index_lt (nonempty : ht.size ≠ 0) (hash : Nat)
    : hash &&& ht.sizemask < ht.size := by
  rw [wf.mask]
  calc
    hash &&& (ht.size - 1) ≤ ht.size - 1 := Nat.and_le_right
    ht.size - 1 < ht.size := by omega

theorem Dictht.WellFormed.bucket_ok (nonempty : ht.size ≠ 0) (hash : Nat)
    : ∃ chain,
        ht.bucket (hash &&& ht.sizemask) = .ok chain
        ∧ ht.table[hash &&& ht.sizemask]? = some chain := by
  have inside : hash &&& ht.sizemask < ht.table.length :=
    wf.length ▸ wf.index_lt nonempty hash
  refine ⟨ht.table[hash &&& ht.sizemask], ?_, List.getElem?_eq_getElem inside⟩
  simp [Dictht.bucket, List.getElem?_eq_getElem inside]

theorem Dictht.WellFormed.mem_chain {entry : DictEntry K V} (member : entry ∈ ht.entries)
    : ∃ chain,
        ht.table[dictHashKey type entry.key &&& ht.sizemask]? = some chain
        ∧ entry ∈ chain := by
  obtain ⟨chain, inTable, inChain⟩ := List.mem_flatten.mp member
  obtain ⟨idx, found⟩ := List.mem_iff_getElem?.mp inTable
  have here := wf.placed found inChain
  exact ⟨chain, here ▸ found, inChain⟩

/-- A chain may be replaced by one of keys that belong to its bucket. -/
theorem Dictht.WellFormed.setChain {idx : Nat} {chain : List (DictEntry K V)}
    (next : List (DictEntry K V)) (used : Nat)
    (found : ht.table[idx]? = some chain)
    (placed : ∀ entry ∈ next, dictHashKey type entry.key &&& ht.sizemask = idx)
    (counted : chain.length + used = next.length + ht.used)
    : ({ ht with table := ht.table.set idx next, used } : Dictht K V).WellFormed type where
  length := by simpa using wf.length
  mask := wf.mask
  power := wf.power
  used := by
    have perm := (flatten_set_perm found next).length_eq
    have old := wf.used
    simp only [Dictht.entries, List.length_append] at perm old ⊢
    omega
  placed := by
    intro other chain' entry found' member
    by_cases same : idx = other
    · subst other
      have inside : idx < ht.table.length := (List.getElem?_eq_some_iff.mp found).1
      obtain rfl : next = chain' := by simpa [inside] using found'
      exact placed entry member
    · exact wf.placed (by simpa [List.getElem?_set, same] using found') member

theorem Dictht.WellFormed.link_ok (nonempty : ht.size ≠ 0) (entry : DictEntry K V)
    : ∃ next : Dictht K V,
        ht.link (dictHashKey type entry.key &&& ht.sizemask) entry = .ok next
        ∧ next.WellFormed type
        ∧ next.size = ht.size
        ∧ next.entries.Perm (entry :: ht.entries) := by
  obtain ⟨chain, read, found⟩ := wf.bucket_ok nonempty (dictHashKey type entry.key)
  refine ⟨_, ?_, wf.setChain (entry :: chain) (ht.used + 1) found ?_ ?_,
    rfl, ?_⟩
  · simp [Dictht.link, read]
  · intro other member
    rcases List.mem_cons.mp member with rfl | old
    · rfl
    · exact wf.placed found old
  · simp only [List.length_cons]
    omega
  · have perm := flatten_set_perm found (entry :: chain)
    refine List.perm_append_left_iff chain |>.mp ?_
    exact perm.trans (List.perm_middle.symm)

end Located

end Redis
