import Mathlib.Logic.Function.Basic
import Redis.Library.ByteStrings
import Redis.Library.Faults

/-! The skiplist of `t_zset.c`: nodes in a heap, with `unsigned int` spans. -/

namespace Redis

open Redis.Library

def zskiplistMaxLevel : Nat := 32

/-- `struct zskiplistLevel`. -/
structure ZskiplistLevel where
  forward : Option Nat
  span : UInt32
deriving DecidableEq, Repr

/-- `zskiplistNode`; the header has no object. -/
structure ZskiplistNode (σ : Type) where
  obj : Option (List UInt8)
  score : σ
  backward : Option Nat
  level : List ZskiplistLevel
deriving DecidableEq, Repr

/-- `zskiplist`, with the heap that its nodes are in and the next address that is not used. -/
structure Zskiplist (σ : Type) where
  heap : Nat → Option (ZskiplistNode σ)
  unused : Nat
  header : Nat
  tail : Option Nat
  length : Nat
  level : Nat

/-- `compareStringObjects`, on the bytes of the two strings. -/
def compareStringObjects (a b : List UInt8) : Int := compareBytes a b

def equalStringObjects (a b : List UInt8) : Bool := compareStringObjects a b = 0

section Nodes

variable {σ : Type}

def zslNode (zsl : Zskiplist σ) (x : Nat) : Except Fault (ZskiplistNode σ) :=
  match zsl.heap x with
  | some node => .ok node
  | none => .error .outOfBounds

/-- `x->obj`, where the source compares it. -/
def zslObj (node : ZskiplistNode σ) : Except Fault (List UInt8) :=
  match node.obj with
  | some obj => .ok obj
  | none => .error .nullPointer

/-- `x->level[i]`. -/
def zslLevelAt (zsl : Zskiplist σ) (x i : Nat) : Except Fault ZskiplistLevel := do
  let node ← zslNode zsl x
  match node.level[i]? with
  | some level => .ok level
  | none => .error .outOfBounds

def zslSetNode (zsl : Zskiplist σ) (x : Nat) (node : ZskiplistNode σ) : Zskiplist σ :=
  { zsl with heap := Function.update zsl.heap x (some node) }

/-- Assigning `x->level[i]`. -/
def zslSetLevelAt (zsl : Zskiplist σ) (x i : Nat) (level : ZskiplistLevel)
    : Except Fault (Zskiplist σ) := do
  let node ← zslNode zsl x
  if i < node.level.length then
    pure (zslSetNode zsl x { node with level := node.level.set i level })
  else .error .outOfBounds

/-- Assigning `x->backward`. -/
def zslSetBackward (zsl : Zskiplist σ) (x : Nat) (backward : Option Nat)
    : Except Fault (Zskiplist σ) := do
  let node ← zslNode zsl x
  pure (zslSetNode zsl x { node with backward })

/-- `zslCreateNode`; the source sets the levels and `backward` of the node before it reads them. -/
def zslCreateNode (level : Nat) (score : σ) (obj : Option (List UInt8)) : ZskiplistNode σ :=
  ⟨obj, score, none, List.replicate level ⟨none, 0⟩⟩

def zslCreate [Zero σ] : Zskiplist σ where
  heap := Function.update (fun _ => none) 0 (some (zslCreateNode zskiplistMaxLevel 0 none))
  unused := 1
  header := 0
  tail := none
  length := 0
  level := 1

end Nodes

section Walking

variable {σ : Type}

/-- The inner loop of every search: along level `i` while the next node is to be passed. The
test is given the number of nodes up to the next one and that node.
-/
def zslWalk (ahead : Nat → ZskiplistNode σ → Except Fault Bool) (zsl : Zskiplist σ) (i : Nat)
    : (rounds x traversed : Nat) → Except Fault (Nat × Nat)
  | 0, _, _ => .error .diverged
  | rounds + 1, x, traversed => do
      let level ← zslLevelAt zsl x i
      match level.forward with
      | none => pure (x, traversed)
      | some next => do
          let node ← zslNode zsl next
          if ← ahead (traversed + level.span.toNat) node then
            zslWalk ahead zsl i rounds next (traversed + level.span.toNat)
          else pure (x, traversed)

/-- The outer loop of the searches that fill `update`: for each level below `levels`, the node
at which the walk ended and the number of nodes up to it.
-/
def zslDescend (ahead : Nat → ZskiplistNode σ → Except Fault Bool) (zsl : Zskiplist σ)
    : (levels x traversed : Nat) → Except Fault (List (Nat × Nat))
  | 0, _, _ => pure []
  | i + 1, x, traversed => do
      let (x, traversed) ← zslWalk ahead zsl i (zsl.length + 1) x traversed
      let below ← zslDescend ahead zsl i x traversed
      pure (below ++ [(x, traversed)])

/-- `update[i]` and the number of nodes up to it. -/
def updateAt (update : List (Nat × Nat)) (i : Nat) : Except Fault (Nat × Nat) :=
  match update[i]? with
  | some found => .ok found
  | none => .error .outOfBounds

end Walking

section Insertion

variable {σ : Type} [LinearOrder σ]

/-- The node comes before a score and an object. -/
def zslComesBefore (node : ZskiplistNode σ) (score : σ) (obj : List UInt8)
    : Except Fault Bool :=
  if node.score < score then pure true
  else if node.score = score then do
    pure (compareStringObjects (← zslObj node) obj < 0)
  else pure false

/-- The part of `zslInsert` for a node that is taller than all others. -/
def zslRaiseLevel (zsl : Zskiplist σ) (level : Nat) (update : List (Nat × Nat))
    : Except Fault (Zskiplist σ × List (Nat × Nat)) :=
  if level > zsl.level then do
    let raised ← (List.range' zsl.level (level - zsl.level)).foldlM
      (fun zsl i => do
        let cell ← zslLevelAt zsl zsl.header i
        zslSetLevelAt zsl zsl.header i { cell with span := UInt32.ofNat zsl.length })
      zsl
    pure ({ raised with level },
      update ++ List.replicate (level - zsl.level) (zsl.header, 0))
  else pure (zsl, update)

/-- One round of the loop of `zslInsert` over the levels of the new node `x`. -/
def zslLinkLevel (x rank : Nat) (update : List (Nat × Nat)) (zsl : Zskiplist σ) (i : Nat)
    : Except Fault (Zskiplist σ) := do
  let (u, ranki) ← updateAt update i
  let cell ← zslLevelAt zsl u i
  -- `rank` is an array of `unsigned int`.
  let skipped := UInt32.ofNat rank - UInt32.ofNat ranki
  let zsl ← zslSetLevelAt zsl x i ⟨cell.forward, cell.span - skipped⟩
  zslSetLevelAt zsl u i ⟨some x, skipped + 1⟩

/-- One round of the loop of `zslInsert` over the levels above the new node. -/
def zslCountLevel (update : List (Nat × Nat)) (zsl : Zskiplist σ) (i : Nat)
    : Except Fault (Zskiplist σ) := do
  let (u, _) ← updateAt update i
  let cell ← zslLevelAt zsl u i
  zslSetLevelAt zsl u i { cell with span := cell.span + 1 }

/-- The end of `zslInsert`: the backward pointers, the tail and the length. -/
def zslLinkBack (zsl : Zskiplist σ) (x : Nat) (update : List (Nat × Nat))
    : Except Fault (Zskiplist σ) := do
  let (u, _) ← updateAt update 0
  let zsl ← zslSetBackward zsl x (if u = zsl.header then none else some u)
  let cell ← zslLevelAt zsl x 0
  match cell.forward with
  | some next => do
      let zsl ← zslSetBackward zsl next (some x)
      pure { zsl with length := zsl.length + 1 }
  | none => pure { zsl with tail := some x, length := zsl.length + 1 }

/-- `zslInsert`, with the level that `zslRandomLevel` returns. -/
def zslInsert (zsl : Zskiplist σ) (level : Nat) (score : σ) (obj : List UInt8)
    : Except Fault (Zskiplist σ) := do
  let update ← zslDescend (fun _ node => zslComesBefore node score obj) zsl zsl.level zsl.header 0
  let (zsl, update) ← zslRaiseLevel zsl level update
  let x := zsl.unused
  let zsl := { zslSetNode zsl x (zslCreateNode level score (some obj)) with unused := x + 1 }
  let (_, rank) ← updateAt update 0
  let zsl ← (List.range level).foldlM (zslLinkLevel x rank update) zsl
  let zsl ← (List.range' level (zsl.level - level)).foldlM (zslCountLevel update) zsl
  zslLinkBack zsl x update

end Insertion

end Redis
