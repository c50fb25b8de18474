import Redis.Library.Towers
import Redis.SortedSet.Skiplist

/-! The entries of a skiplist, and how its nodes represent them. -/

namespace Redis

open Redis.Library

/-- A node of the list at level 0: where it is, what it holds and how many levels it has. -/
structure ZslEntry (σ : Type) where
  ptr : Nat
  score : σ
  obj : List UInt8
  height : Nat
deriving DecidableEq, Repr

section Representation

variable {σ : Type}

/-- Everything in a node but the contents of its levels. -/
def zslShape (zsl : Zskiplist σ) (x : Nat) : Option (Option (List UInt8) × σ × Option Nat × Nat) :=
  (zsl.heap x).map fun node => (node.obj, node.score, node.backward, node.level.length)

/-- The last of some entries from the start, or none at the header. -/
def lastPtr (before : List (ZslEntry σ)) : Option Nat := before.getLast?.map ZslEntry.ptr

/-- The node after some entries from the start. -/
def pointerAt (header : Nat) (before : List (ZslEntry σ)) : Nat := (lastPtr before).getD header

/-- What a level holds when these entries follow. -/
def cellFor (i : Nat) (after : List (ZslEntry σ)) : ZskiplistLevel :=
  ⟨(nextTaller ZslEntry.height i after).1.map ZslEntry.ptr,
    UInt32.ofNat (nextTaller ZslEntry.height i after).2⟩

/-- On level `i` every node points to the next that has this level, with the distance modulo
`2 ^ 32` as the span.
-/
def LevelLinked (zsl : Zskiplist σ) (i : Nat) (entries : List (ZslEntry σ)) : Prop :=
  ∀ before after,
    entries = before ++ after
    → EndsTaller ZslEntry.height i before
    → zslLevelAt zsl (pointerAt zsl.header before) i = .ok (cellFor i after)

/-- The nodes are at different addresses and have the shapes that the entries say. -/
structure NodesAt (zsl : Zskiplist σ) (entries : List (ZslEntry σ)) : Prop where
  nodup : (zsl.header :: entries.map ZslEntry.ptr).Nodup
  allocated : ∀ x ∈ zsl.header :: entries.map ZslEntry.ptr, x < zsl.unused
  header : ∃ score, zslShape zsl zsl.header = some (none, score, none, zskiplistMaxLevel)
  nodes : ∀ before entry after,
    entries = before ++ entry :: after
    → zslShape zsl entry.ptr = some (some entry.obj, entry.score, lastPtr before, entry.height)

/-- A skiplist represents a list of entries. -/
structure ZslRepresents (zsl : Zskiplist σ) (entries : List (ZslEntry σ)) : Prop
    extends NodesAt zsl entries where
  heights : ∀ entry ∈ entries, 0 < entry.height ∧ entry.height ≤ zsl.level
  level_le : zsl.level ≤ zskiplistMaxLevel
  level_used : zsl.level = 1 ∨ ∃ entry ∈ entries, entry.height = zsl.level
  linked : ∀ i, i < zsl.level → LevelLinked zsl i entries
  above : ∀ i,
    zsl.level ≤ i
    → i < zskiplistMaxLevel
    → ∃ span, zslLevelAt zsl zsl.header i = .ok ⟨none, span⟩
  tail : zsl.tail = lastPtr entries
  length : zsl.length = entries.length

end Representation

section Nodes

variable {σ : Type} {zsl : Zskiplist σ} {entries before before' after : List (ZslEntry σ)}
  {x i : Nat}

@[simp] theorem lastPtr_nil : lastPtr ([] : List (ZslEntry σ)) = none := rfl

@[simp] theorem lastPtr_concat (before : List (ZslEntry σ)) (entry : ZslEntry σ)
    : lastPtr (before ++ [entry]) = some entry.ptr := by
  simp [lastPtr]

@[simp] theorem pointerAt_nil (header : Nat) : pointerAt header ([] : List (ZslEntry σ)) = header :=
    rfl

@[simp] theorem pointerAt_concat (header : Nat) (before : List (ZslEntry σ)) (entry : ZslEntry σ)
    : pointerAt header (before ++ [entry]) = entry.ptr := by
  simp [pointerAt]

theorem getElem?_pointerAt (header : Nat) (split : entries = before ++ after)
    : (header :: entries.map ZslEntry.ptr)[before.length]? = some (pointerAt header before) := by
  rcases List.eq_nil_or_concat before with rfl | ⟨init, last, rfl⟩
  · rfl
  · rw [List.concat_eq_append] at split ⊢
    rw [pointerAt_concat, split]
    simp

theorem pointerAt_injective {header : Nat}
    (nodup : (header :: entries.map ZslEntry.ptr).Nodup) (here : before <+: entries)
    (there : before' <+: entries) (same : pointerAt header before = pointerAt header before')
    : before = before' := by
  obtain ⟨after, split⟩ := here
  obtain ⟨after', split'⟩ := there
  have first := getElem?_pointerAt header split.symm
  have second := getElem?_pointerAt header split'.symm
  have inside : before.length < (header :: entries.map ZslEntry.ptr).length := by
    simp [← split]
  have lengths : before.length = before'.length :=
    (List.getElem?_inj inside nodup).mp (by rw [first, second, same])
  exact (List.append_inj (split.trans split'.symm) lengths).1

theorem pointerAt_mem (header : Nat) (here : before <+: entries)
    : pointerAt header before ∈ header :: entries.map ZslEntry.ptr := by
  obtain ⟨after, split⟩ := here
  exact List.mem_of_getElem? (getElem?_pointerAt header split.symm)

theorem heap_of_zslNode {node : ZskiplistNode σ} (read : zslNode zsl x = .ok node)
    : zsl.heap x = some node := by
  rw [zslNode] at read
  split at read
  · rename_i found
    cases read
    exact found
  · cases read

theorem zslNode_of_shape {obj : Option (List UInt8)} {score : σ} {backward : Option Nat}
    {levels : Nat} (shape : zslShape zsl x = some (obj, score, backward, levels))
    : ∃ node,
        zslNode zsl x = .ok node
        ∧ node.obj = obj
        ∧ node.score = score
        ∧ node.backward = backward
        ∧ node.level.length = levels := by
  obtain ⟨node, there, fields⟩ := Option.map_eq_some_iff.mp shape
  simp only [Prod.mk.injEq] at fields
  exact ⟨node, by rw [zslNode, there], fields⟩

/-- A change of one level of one node. -/
structure LevelSet (zsl next : Zskiplist σ) (x i : Nat) (cell : ZskiplistLevel) : Prop where
  fields : next = { zsl with heap := next.heap }
  shapes : ∀ y, zslShape next y = zslShape zsl y
  cell : zslLevelAt next x i = .ok cell
  others : ∀ y j, ¬ (y = x ∧ j = i) → zslLevelAt next y j = zslLevelAt zsl y j

theorem zslSetLevelAt_ok {old : ZskiplistLevel} (there : zslLevelAt zsl x i = .ok old)
    (cell : ZskiplistLevel)
    : ∃ next, zslSetLevelAt zsl x i cell = .ok next ∧ LevelSet zsl next x i cell := by
  rw [zslLevelAt] at there
  obtain ⟨node, read, there⟩ := andThen_ok_iff.mp there
  have inside : i < node.level.length := by
    by_contra outside
    rw [List.getElem?_eq_none (Nat.not_lt.mp outside)] at there
    cases there
  have atX := heap_of_zslNode read
  refine ⟨zslSetNode zsl x { node with level := node.level.set i cell }, ?_, rfl, ?_, ?_, ?_⟩
  · rw [zslSetLevelAt, read, ok_andThen, if_pos inside]
    rfl
  · intro y
    rcases eq_or_ne y x with rfl | other
    · simp [zslShape, zslSetNode, atX]
    · simp [zslShape, zslSetNode, Function.update_of_ne other]
  · simp [zslLevelAt, zslNode, zslSetNode, List.getElem?_set_self inside]
  · intro y j differ
    rcases eq_or_ne y x with rfl | other
    · have level : i ≠ j := fun same => differ ⟨rfl, same.symm⟩
      simp [zslLevelAt, zslNode, zslSetNode, atX, List.getElem?_set_ne level]
    · simp [zslLevelAt, zslNode, zslSetNode, Function.update_of_ne other]

theorem zslSetBackward_ok {obj : Option (List UInt8)} {score : σ} {old : Option Nat}
    {levels : Nat} (there : zslShape zsl x = some (obj, score, old, levels))
    (backward : Option Nat)
    : ∃ next,
        zslSetBackward zsl x backward = .ok next
        ∧ next = { zsl with heap := next.heap }
        ∧ (∀ y j, zslLevelAt next y j = zslLevelAt zsl y j)
        ∧ zslShape next x = some (obj, score, backward, levels)
        ∧ ∀ y, y ≠ x → zslShape next y = zslShape zsl y := by
  obtain ⟨node, read, rfl, rfl, _, rfl⟩ := zslNode_of_shape there
  have atX := heap_of_zslNode read
  refine ⟨zslSetNode zsl x { node with backward }, ?_, rfl, ?_, ?_, ?_⟩
  · rw [zslSetBackward, read]
    rfl
  · intro y j
    rcases eq_or_ne y x with rfl | other
    · simp [zslLevelAt, zslNode, zslSetNode, atX]
    · simp [zslLevelAt, zslNode, zslSetNode, Function.update_of_ne other]
  · simp [zslShape, zslSetNode]
  · intro y other
    simp [zslShape, zslSetNode, Function.update_of_ne other]

/-- `zslCreate` represents no entries. -/
theorem zslCreate_represents [Zero σ] : ZslRepresents (zslCreate : Zskiplist σ) [] where
  nodup := by simp
  allocated := by simp [zslCreate]
  header := ⟨0, by simp [zslShape, zslCreate, zslCreateNode]⟩
  nodes before entry after split := by simp at split
  heights entry member := nomatch member
  level_le := show 1 ≤ zskiplistMaxLevel by decide
  level_used := .inl rfl
  linked i below before after split _ := by
    obtain ⟨rfl, rfl⟩ := List.append_eq_nil_iff.mp split.symm
    obtain rfl : i = 0 := Nat.lt_one_iff.mp below
    rfl
  above i _ inside := by
    refine ⟨0, ?_⟩
    have cell
        : (List.replicate zskiplistMaxLevel (⟨none, 0⟩ : ZskiplistLevel))[i]? = some ⟨none, 0⟩ := by
      rw [List.getElem?_replicate, if_pos inside]
    simp only [zslLevelAt, zslNode, zslCreate, Function.update_self, zslCreateNode, ok_andThen,
      cell]
  tail := rfl
  length := rfl

end Nodes

end Redis
