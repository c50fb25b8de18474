import Redis.Ziplist.Deletion

/-! `__ziplistCascadeUpdate` makes a well-formed ziplist of one in which the entry behind `p` has a
stale length.
-/

namespace Redis

open Redis.Library

/-- A well-formed ziplist, but for the length `old` that the entry behind `cur` has of `cur`. -/
structure CascadeStart (zl : List UInt8) (before : List ZipNode) (cur : ZipNode) (old : Nat)
    (rest : List ZipNode)
    : Prop where
  block : ∃ len,
    zl = staleBlock (11 + chainSize (before ++ cur :: rest))
      (10 + chainSize (before ++ cur :: rest).dropLast)
      len (chainBytes 0 before) (lastLength 0 before) cur old rest
    ∧ (len = (before ++ cur :: rest).length ∨ len = 2 ^ 16 - 1) ∧ len ≤ 2 ^ 16 - 1
  linked : Linked 0 (before ++ [cur])
  stale : Linked old rest
  oldWord : old < 2 ^ 32
  word : 11 + chainSize (before ++ cur :: rest) < 2 ^ 32
  valued : ∀ node ∈ before ++ cur :: rest, (zipValue node.body).isSome = true

/-- A well-formed ziplist with the same values, in which some of the fields behind `cur` were
widened by 4 bytes and none was narrowed.
-/
structure Cascaded (result : List UInt8) (before : List ZipNode) (cur : ZipNode)
    (rest next : List ZipNode)
    : Prop where
  entries : ZiplistOf result (before ++ cur :: next)
  bodies : next.map ZipNode.body = rest.map ZipNode.body
  widened : List.Forall₂ (fun node new : ZipNode => node.wide = true → new.wide = true) rest next
  size : chainSize next + 4 * rest.countP ZipNode.wide
    = chainSize rest + 4 * next.countP ZipNode.wide

section Cascades

variable {zl : List UInt8} {before rest next : List ZipNode} {cur : ZipNode} {old : Nat}

theorem forall₂_widen (prev : Nat) (nodes : List ZipNode)
    : List.Forall₂ (fun node new : ZipNode => node.wide = true → new.wide = true) nodes
        (widen prev nodes) := by
  induction nodes generalizing prev with
  | nil => exact .nil
  | cons node rest ih =>
      refine .cons (fun wide => ?_) (ih _)
      simp [wide]

theorem chainSize_eq (nodes : List ZipNode)
    : chainSize nodes
      = 4 * nodes.countP ZipNode.wide + ((nodes.map ZipNode.body).map fun body =>
        body.length + 1).sum := by
  induction nodes with
  | nil => rfl
  | cons node rest ih =>
      rw [chainSize, ih, List.countP_cons, List.map_cons, List.map_cons, List.sum_cons,
        ZipNode.rawLength]
      cases node.wide <;> simp [prevSize] <;> omega

theorem CascadeStart.to_stale (start : CascadeStart zl before cur old rest)
    : Stale (11 + chainSize (before ++ cur :: rest))
      (10 + chainSize (before ++ cur :: rest).dropLast)
        (chainBytes 0 before) (lastLength 0 before) cur old rest where
  sized := by
    rw [length_chainBytes, chainSize_append]
    omega
  word := start.word
  tailed := by
    rw [length_chainBytes, dropLast_append_cons, chainSize_append]
    omega
  fits := (linked_append.mp start.linked).2.1
  prevWord := by
    have small := lastLength_le 0 before
    have word := start.word
    rw [chainSize_append] at word
    omega
  linked := start.stale
  oldWord := start.oldWord
  readable := .of_reads fun node inside =>
    reads_of_value (start.valued node (List.mem_append_right _ inside))

theorem CascadeStart.cascaded (start : CascadeStart zl before cur old rest) (fresh : Nat → UInt8)
    (word : 11 + chainSize (before ++ cur :: widen cur.rawLength rest) < 2 ^ 32)
    : ∃ result, ziplistCascadeUpdate fresh zl (10 + chainSize before) = .ok result
        ∧ Cascaded result before cur rest (widen cur.rawLength rest) := by
  obtain ⟨len, rfl, counted, small⟩ := start.block
  have ends := @cascadeUpdate_ends _ _ len _ _ _ _ _ fresh start.to_stale
  unfold CascadeEnds at ends
  rw [length_chainBytes] at ends
  rcases ends with ⟨-, ran⟩ | ⟨-, large | ⟨node, inside, bad⟩⟩
  · have bodies := map_body_widen cur.rawLength rest
    refine ⟨_, ran, ⟨⟨⟨len, ?_, ?_, small⟩, ?_, word, ?_⟩, bodies, forall₂_widen _ _, ?_⟩⟩
    · refine staleBlock_eq_nodesBlock ?_ ?_
      · rw [chainSize_append, Nat.add_assoc]
      · rw [dropLast_append_cons, chainSize_append, Nat.add_assoc]
    · simpa using counted
    · have linked := linked_append.mp start.linked
      exact linked_append.mpr ⟨linked.1, linked.2.1, linked_widen _ _⟩
    · intro node inside
      have same : (before ++ cur :: widen cur.rawLength rest).map ZipNode.body
          = (before ++ cur :: rest).map ZipNode.body := by
        simp [bodies]
      have member := List.mem_map_of_mem (f := ZipNode.body) inside
      rw [same] at member
      obtain ⟨other, among, body⟩ := List.mem_map.mp member
      rw [← body]
      exact start.valued other among
    · rw [chainSize_eq (widen cur.rawLength rest), chainSize_eq rest, bodies]
      omega
  · rw [chainSize_append] at word
    omega
  · exact absurd (reads_of_value (start.valued node (List.mem_append_right _ inside))) bad

theorem CascadeStart.word_of_ran (start : CascadeStart zl before cur old rest) {fresh : Nat → UInt8}
    {result : List UInt8} (ran : ziplistCascadeUpdate fresh zl (10 + chainSize before) = .ok result)
    : 11 + chainSize (before ++ cur :: widen cur.rawLength rest) < 2 ^ 32 := by
  obtain ⟨len, rfl, -⟩ := start.block
  have ends := @cascadeUpdate_ends _ _ len _ _ _ _ _ fresh start.to_stale
  unfold CascadeEnds at ends
  rw [length_chainBytes, ran] at ends
  rcases ends with ⟨word, -⟩ | ⟨⟨fault, failed⟩, -⟩
  · rw [chainSize_append]
    omega
  · cases failed

/-- The chain is restored exactly when the block with the widened fields has a size of 32 bits. -/
theorem cascade_restores_iff (start : CascadeStart zl before cur old rest) (fresh : Nat → UInt8)
    : (∃ result next, ziplistCascadeUpdate fresh zl (10 + chainSize before) = .ok result
        ∧ Cascaded result before cur rest next)
      ↔ 11 + chainSize (before ++ cur :: widen cur.rawLength rest) < 2 ^ 32 := by
  constructor
  · rintro ⟨result, next, ran, -⟩
    exact start.word_of_ran ran
  · intro word
    obtain ⟨result, ran, cascaded⟩ := start.cascaded fresh word
    exact ⟨result, _, ran, cascaded⟩

end Cascades

-- Entries of 253 bytes

/-- An entry of 303 bytes whose successor has the length 6 of it, and many of 253 bytes. -/
def longEntry : ZipNode := ⟨false, zipBody (List.replicate 300 0x61)⟩

def shortEntries (count : Nat) : List ZipNode :=
  List.replicate count ⟨false, zipBody (List.replicate 250 0x61)⟩

def staleEntries (count : Nat) : List UInt8 :=
  staleBlock (11 + chainSize (longEntry :: shortEntries count))
    (10 + chainSize (longEntry :: shortEntries count).dropLast) (2 ^ 16 - 1) [] 0 longEntry 6
    (shortEntries count)

theorem rawLength_text {n : Nat} (least : 64 ≤ n) (most : n ≤ 0x3FFF)
    : ZipNode.rawLength ⟨false, zipBody (List.replicate n 0x61)⟩ = n + 3 := by
  rw [ZipNode.rawLength, length_zipBody (by rwa [List.length_replicate])
    (by rwa [List.length_replicate]), List.length_replicate]
  exact Nat.add_comm 1 (n + 2)

theorem staleEntries_sizes (count : Nat)
    : chainSize (longEntry :: shortEntries count) = 303 + count * 253
      ∧ Linked 6 (shortEntries count)
      ∧ chainSize (longEntry :: widen longEntry.rawLength (shortEntries count))
        = 303 + count * 257 := by
  have long : longEntry.rawLength = 303 := rawLength_text (by decide) (by decide)
  have short : ZipNode.rawLength ⟨false, zipBody (List.replicate 250 0x61)⟩ = 253 :=
    rawLength_text (by decide) (by decide)
  obtain ⟨size, linked, -⟩ := cascade_replicate (n := count) 6 rfl short
  obtain ⟨-, -, widened⟩ := cascade_replicate (n := count) 303 rfl short
  refine ⟨?_, linked (by decide), ?_⟩
  · rw [chainSize, long, shortEntries, size]
  · rw [chainSize, long, shortEntries, widened (by decide)]

theorem staleEntries_start (count : Nat) (word : 314 + count * 253 < 2 ^ 32)
    : CascadeStart (staleEntries count) [] longEntry 6 (shortEntries count) := by
  obtain ⟨size, linked, -⟩ := staleEntries_sizes count
  refine ⟨⟨2 ^ 16 - 1, rfl, .inr rfl, Nat.le_refl _⟩, ⟨fun _ => by decide, trivial⟩,
    linked, by decide, ?_, ?_⟩
  · rw [List.nil_append, size]
    omega
  · have valued (n : Nat) (small : n < 2 ^ 32)
        : (zipValue (zipBody (List.replicate n 0x61))).isSome = true := by
      have short : (List.replicate n (0x61 : UInt8)).length < 2 ^ 32 := by
        rwa [List.length_replicate]
      obtain ⟨value, read, -⟩ := Option.map_eq_some_iff.mp (zipValue_zipBody short)
      rw [read, Option.isSome_some]
    intro node inside
    rcases List.mem_cons.mp inside with rfl | inside
    · exact valued 300 (by decide)
    · rw [List.eq_of_mem_replicate inside]
      exact valued 250 (by decide)

/-- One field is widened. -/
theorem cascade_restores_one
    : ∃ result next, ziplistCascadeUpdate (fun _ => 0) (staleEntries 1) 10 = .ok result
        ∧ Cascaded result [] longEntry (shortEntries 1) next := by
  refine (cascade_restores_iff (staleEntries_start 1 (by decide)) fun _ => 0).mpr ?_
  rw [List.nil_append, (staleEntries_sizes 1).2.2]
  decide

/-- The block would outgrow 32 bits. -/
theorem cascade_outgrows_block
    : CascadeStart (staleEntries 16900000) [] longEntry 6 (shortEntries 16900000)
      ∧ ¬ ∃ result next, ziplistCascadeUpdate (fun _ => 0) (staleEntries 16900000) 10 = .ok result
        ∧ Cascaded result [] longEntry (shortEntries 16900000) next := by
  have start := staleEntries_start 16900000 (by decide)
  refine ⟨start, ?_⟩
  rintro ⟨result, next, ran, -⟩
  have word := start.word_of_ran ran
  rw [List.nil_append, (staleEntries_sizes 16900000).2.2] at word
  exact absurd word (by decide)

end Redis
