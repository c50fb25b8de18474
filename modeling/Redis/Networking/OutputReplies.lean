import Redis.Networking.OutputInvariant

/-! What the reply functions append. -/

namespace Redis.OutputBuffer

open Redis.Library Redis.Util

namespace Client

variable {c c' : Client} {o : ObjRef} {unset : NodeRef → List UInt8} {s text : List UInt8}

section References

variable {heap : CountedHeap Robj} {held : ObjRef → Nat}

theorem Consistent.rehold (consistent : Consistent c)
    (counts : heap.Counts fun o => held o + (c.reply.map (·.value)).count o)
    (nodes : ∀ node ∈ c.reply, heap.value node.value = c.heap.value node.value)
    (heldValue
      : ∀ o, 0 < held o → ∃ v, heap.value o = some v ∧ v ≠ .null ∧ v.text.length < 2 ^ 32)
    (alone
      : ∀ node ∈ c.reply,
          c.heap.value node.value = some .null → held node.value = c.held node.value)
    (shared
      : ∀ o ≤ sharedBulkhdrLen,
          0 < c.held o → 0 < held o ∧ heap.value o = c.heap.value o)
    : Consistent { c with heap, held } where
  counts := counts
  heldValue := heldValue
  nodeValue node mem n := by
    rw [nodes node mem]
    exact consistent.nodeValue node mem n
  deferredOnce node mem null := by
    have before := (nodes node mem).symm.trans null
    have same := alone node mem before
    have once := consistent.deferredOnce node mem before
    simpa only [refs, same] using once
  nodesOnce := consistent.nodesOnce
  nodesOld := consistent.nodesOld
  room := consistent.room
  sent := by
    refine consistent.sent.imp id (And.imp id (Or.imp id ?_))
    rintro ⟨head, tail, list, string, sent⟩
    have same := nodes head (by simp [list])
    exact ⟨head, tail, list, by rwa [same], by simpa only [textOf, same] using sent⟩
  sharedCrlf := by
    obtain ⟨some, found⟩ := consistent.sharedCrlf
    obtain ⟨some', same⟩ := shared Redis.OutputBuffer.sharedCrlf (Nat.zero_le _) some
    exact ⟨some', same.trans found⟩
  sharedBulkhdr len short := by
    obtain ⟨some, found⟩ := consistent.sharedBulkhdr len short
    obtain ⟨some', same⟩ := shared (Redis.OutputBuffer.sharedBulkhdr len) short some
    exact ⟨some', same.trans found⟩

theorem replied_rehold
    (nodes : ∀ node ∈ c.reply, heap.value node.value = c.heap.value node.value)
    : ({ c with heap, held } : Client).replied unset = c.replied unset := by
  have list
      : c.reply.flatMap (({ c with heap, held } : Client).nodeText unset)
        = c.reply.flatMap (c.nodeText unset) := by
    refine List.flatMap_congr fun node mem => ?_
    simp only [nodeText, textOf, nodes node mem]
  simp only [replied, buffered, list]

theorem Consistent.next_unheld (consistent : Consistent c) : c.held c.heap.next = 0 := by
  have free := consistent.counts.next_free
  unfold refs at free
  omega

theorem Consistent.ne_next (consistent : Consistent c) (referred : 0 < c.refs o)
    : o ≠ c.heap.next := by
  rintro rfl
  exact absurd consistent.counts.next_free (by omega)

theorem create_ok (consistent : Consistent c) {value : Robj} (string : value ≠ .null)
    (short : value.text.length < 2 ^ 32)
    : Consistent (c.create value) ∧ ∀ unset, (c.create value).replied unset = c.replied unset := by
  have nodes : ∀ node ∈ c.reply, (c.heap.alloc value).value node.value = c.heap.value node.value :=
    fun node mem => CountedHeap.value_alloc_other (consistent.ne_next (refs_pos_of_mem mem))
  refine ⟨?_, fun unset => replied_rehold nodes⟩
  refine consistent.rehold ?_ nodes (fun x held => ?_) (fun node mem null => ?_) fun x _ held => ?_
  · refine (consistent.counts.alloc value).congr fun x => ?_
    by_cases same : x = c.heap.next
    · have free := consistent.counts.next_free
      unfold refs at free
      rw [same, Function.update_self, Function.update_self]
      omega
    · rw [Function.update_of_ne same, Function.update_of_ne same, ← refs]
  · by_cases same : x = c.heap.next
    · exact ⟨value, by rw [same, CountedHeap.value_alloc_next], string, short⟩
    · rw [Function.update_of_ne same] at held
      rw [CountedHeap.value_alloc_other same]
      exact consistent.heldValue x held
  · exact Function.update_of_ne (consistent.ne_next (refs_pos_of_mem mem)) _ _
  · have other := consistent.ne_next (refs_pos_of_held held)
    rw [Function.update_of_ne other, CountedHeap.value_alloc_other other]
    exact ⟨held, rfl⟩

theorem Consistent.deferred_ne (consistent : Consistent c) (held : 0 < c.held o) {node : ReplyNode}
    (null : c.heap.value node.value = some .null)
    : node.value ≠ o := by
  rintro rfl
  obtain ⟨v, found, string, _⟩ := consistent.heldValue node.value held
  rw [null] at found
  exact string (Option.some.inj found).symm

theorem incrRefCount_ok (consistent : Consistent c) (held : 0 < c.held o)
    : Consistent (c.incrRefCount o)
      ∧ ∀ unset, (c.incrRefCount o).replied unset = c.replied unset := by
  have nodes : ∀ node ∈ c.reply, (c.heap.incr o).value node.value = c.heap.value node.value :=
    fun _ _ => CountedHeap.value_incr
  refine ⟨?_, fun unset => replied_rehold nodes⟩
  refine consistent.rehold ?_ nodes (fun x held' => ?_) (fun node mem null => ?_) fun x _ held' =>
    ?_
  · refine (consistent.counts.incr (refs_pos_of_held held)).congr fun x => ?_
    by_cases same : x = o
    · rw [same, Function.update_self, Function.update_self, refs, Nat.add_right_comm]
    · rw [Function.update_of_ne same, Function.update_of_ne same, ← refs]
  · rw [CountedHeap.value_incr]
    by_cases same : x = o
    · rw [same]
      exact consistent.heldValue o held
    · rw [Function.update_of_ne same] at held'
      exact consistent.heldValue x held'
  · exact Function.update_of_ne (consistent.deferred_ne held null) _ _
  · refine ⟨?_, CountedHeap.value_incr⟩
    by_cases same : x = o
    · rw [same, Function.update_self]
      exact Nat.succ_pos _
    · rwa [Function.update_of_ne same]

theorem decrRefCount_ok (consistent : Consistent c) (held : 0 < c.held o)
    (unshared : sharedBulkhdrLen < o)
    : Consistent (c.decrRefCount o)
      ∧ ∀ unset, (c.decrRefCount o).replied unset = c.replied unset := by
  have kept : ∀ {x}, 0 < Function.update c.held o (c.held o - 1) x + (c.reply.map (·.value)).count x
      → (c.heap.decr o).value x = c.heap.value x := by
    intro x referred
    apply CountedHeap.value_decr consistent.counts
    by_cases same : x = o
    · subst same
      rw [Function.update_self] at referred ⊢
      unfold refs
      omega
    · rw [Function.update_of_ne same] at referred ⊢
      exact referred
  have nodes : ∀ node ∈ c.reply, (c.heap.decr o).value node.value = c.heap.value node.value := by
    intro node mem
    apply kept
    have listed : 0 < (c.reply.map (·.value)).count node.value :=
      List.count_pos_iff.mpr (List.mem_map_of_mem mem)
    omega
  refine ⟨?_, fun unset => replied_rehold nodes⟩
  refine consistent.rehold ?_ nodes (fun x held' => ?_) (fun node mem null => ?_) fun x short
    held' => ?_
  · refine (consistent.counts.decr (refs_pos_of_held held)).congr fun x => ?_
    by_cases same : x = o
    · rw [same, Function.update_self, Function.update_self, refs]
      omega
    · rw [Function.update_of_ne same, Function.update_of_ne same, ← refs]
  · rw [kept (by omega)]
    by_cases same : x = o
    · rw [same]
      exact consistent.heldValue o held
    · rw [Function.update_of_ne same] at held'
      exact consistent.heldValue x held'
  · exact Function.update_of_ne (consistent.deferred_ne held null) _ _
  · have other : x ≠ o := by omega
    rw [Function.update_of_ne other, CountedHeap.value_decr_other other]
    exact ⟨held', rfl⟩

theorem modify_ok (consistent : Consistent c) (held : c.held o = 1) (own : c.heap.refcount o = 1)
    (unshared : sharedBulkhdrLen < o) (short : s.length < 2 ^ 32)
    : Consistent (c.modify o s) ∧ ∀ unset, (c.modify o s).replied unset = c.replied unset := by
  rw [consistent.counts.count] at own
  have others : ∀ node ∈ c.reply, node.value ≠ o := by
    intro node mem same
    have listed : 0 < (c.reply.map (·.value)).count node.value :=
      List.count_pos_iff.mpr (List.mem_map_of_mem mem)
    rw [same] at listed
    unfold refs at own
    omega
  have nodes : ∀ node ∈ c.reply,
      (c.heap.store o (.raw s)).value node.value = c.heap.value node.value :=
    fun node mem => CountedHeap.value_store_other (others node mem)
  obtain ⟨v, found, _⟩ := consistent.heldValue o (by omega)
  refine ⟨?_, fun unset => replied_rehold nodes⟩
  refine consistent.rehold (consistent.counts.store o _) nodes (fun x held' => ?_)
    (fun _ _ _ => rfl) fun x below held' => ⟨held', CountedHeap.value_store_other (by omega)⟩
  by_cases same : x = o
  · rw [same]
    exact ⟨.raw s, CountedHeap.value_store_self found, by simp, short⟩
  · rw [CountedHeap.value_store_other same]
    exact consistent.heldValue x held'

end References

-- Replies

theorem Robj.text_of_sds {v : Robj} (read : v.sds = .ok s) : v.text = s := by
  cases v with
  | raw t | embstr t => exact Except.ok.inj read
  | null | int _ => cases read

theorem addReplyEncoded_ok (consistent : Consistent c) (held : 0 < c.held o) {v : Robj}
    (there : c.heap.value o = some v) (read : v.sds = .ok s)
    : ∃ c', c.addReplyEncoded o s = .ok c' ∧ Appends c c' s := by
  unfold addReplyEncoded
  cases buffer : c.addReplyToBuffer s with
  | some c' => exact ⟨c', rfl, addReplyToBuffer_ok consistent buffer⟩
  | none =>
      have listable : ∀ n, v ≠ .int n := by
        rintro n rfl
        cases read
      have string : v ≠ .null := by
        rintro rfl
        cases read
      have pushed := (pushed_incr consistent held v there listable).appends consistent string
      rw [Robj.text_of_sds read] at pushed
      let addNode (c : Client) : Client := { c with heap := c.heap.incr o }.listAddNodeTail o
      have added : Appends c (addNode c) s := pushed
      obtain ⟨c', ran, appends⟩ := addToList_ok consistent added
      refine ⟨c', ?_, appends⟩
      dsimp only
      rw [addReplyObjectToList, object_of_value there, ok_andThen, read, ok_andThen]
      exact ran

theorem createStringObject_sds (short : s.length < 2 ^ 32)
    : (Robj.createStringObject s).sds = .ok s := by
  rw [Robj.createStringObject, sdsnewlen_of_lt short]
  split <;> rfl

theorem addReplyDecoded_ok (consistent : Consistent c) (short : text.length < 2 ^ 32)
    : ∃ c', c.addReplyDecoded text = .ok c' ∧ Appends c c' text := by
  have read := createStringObject_sds short
  have string : Robj.createStringObject text ≠ .null := by
    intro null
    rw [null] at read
    cases read
  have length : (Robj.createStringObject text).text.length < 2 ^ 32 := by
    rwa [Robj.text_of_sds read]
  obtain ⟨created, same⟩ := create_ok consistent string length
  have own : (c.create (.createStringObject text)).held c.heap.next = 1 := by simp [create]
  obtain ⟨c', ran, appends⟩ := addReplyEncoded_ok (o := c.heap.next) created (by omega)
    CountedHeap.value_alloc_next read
  have held' : c'.held = Function.update c.held c.heap.next 1 := appends.held
  have unshared : sharedBulkhdrLen < c.heap.next := by
    by_contra small
    have unheld := consistent.next_unheld
    rcases Nat.eq_zero_or_pos c.heap.next with zero | positive
    · have crlf := consistent.sharedCrlf.1
      rw [zero] at unheld
      exact absurd unheld (by simpa [sharedCrlf] using crlf.ne')
    · obtain ⟨len, next⟩ := Nat.exists_eq_succ_of_ne_zero positive.ne'
      have header := (consistent.sharedBulkhdr len (by omega)).1
      rw [sharedBulkhdr, ← Nat.succ_eq_add_one, ← next] at header
      omega
  obtain ⟨released, same'⟩ :=
    decrRefCount_ok (o := c.heap.next) appends.consistent (by simp [held']) unshared
  refine ⟨c'.decrRefCount c.heap.next, by rw [addReplyDecoded, ran, ok_andThen]; rfl, ?_⟩
  refine ⟨released, ?_, fun x held => ?_, fun unset => ?_⟩
  · funext x
    by_cases here : x = c.heap.next
    · simp [decrRefCount, held', here, consistent.next_unheld]
    · simp [decrRefCount, held', Function.update_of_ne here]
  · have other := consistent.ne_next (refs_pos_of_held held)
    have kept : c'.heap.value x = (c.heap.alloc (.createStringObject text)).value x :=
      appends.values x (by simpa [create, Function.update_of_ne other] using held)
    rw [decrRefCount, CountedHeap.value_decr_other other, kept,
      CountedHeap.value_alloc_other other]
  · rw [same', appends.replied, same]

theorem addReply_ok (consistent : Consistent c) (held : 0 < c.held o)
    : ∃ c', c.addReply o = .ok c' ∧ Appends c c' (c.textOf o) := by
  obtain ⟨v, found, string, _⟩ := consistent.heldValue o held
  unfold addReply
  rw [object_of_value found, ok_andThen, textOf_of_value found]
  cases v with
  | null => exact absurd rfl string
  | raw t => exact addReplyEncoded_ok consistent held found rfl
  | embstr t => exact addReplyEncoded_ok consistent held found rfl
  | int n =>
      have text : (Robj.int n).text = decimalText n.toInt := rfl
      have short : (decimalText n.toInt).length ≤ 20 :=
        length_decimalText_le n.le_toInt n.toInt_lt
      have decoded :=
        addReplyDecoded_ok consistent (show (decimalText n.toInt).length < 2 ^ 32 by omega)
      dsimp only
      rw [ll2text_int64 n (by decide), ok_andThen, text]
      split
      · split
        · next c' buffer => exact ⟨c', rfl, addReplyToBuffer_ok consistent buffer⟩
        · exact decoded
      · exact decoded

theorem addReplySds_ok (consistent : Consistent c) (s : List UInt8)
    : ∃ c', c.addReplySds s = .ok c' ∧ Appends c c' s := by
  unfold addReplySds
  cases buffer : c.addReplyToBuffer s with
  | some c' => exact ⟨c', rfl, addReplyToBuffer_ok consistent buffer⟩
  | none =>
      have pushed := pushed_alloc consistent (.raw s) (by simp)
      exact addToList_ok consistent (pushed.appends consistent (by simp))

theorem addReplyString_ok (consistent : Consistent c) (short : s.length < 2 ^ 32)
    : ∃ c', c.addReplyString s = .ok c' ∧ Appends c c' s := by
  unfold addReplyString
  cases buffer : c.addReplyToBuffer s with
  | some c' => exact ⟨c', rfl, addReplyToBuffer_ok consistent buffer⟩
  | none =>
      have read := createStringObject_sds short
      have listable : ∀ n, Robj.createStringObject s ≠ .int n := by
        intro n int
        rw [int] at read
        cases read
      have string : Robj.createStringObject s ≠ .null := by
        intro null
        rw [null] at read
        cases read
      have pushed := (pushed_alloc consistent _ listable).appends consistent string
      rw [Robj.text_of_sds read] at pushed
      exact addToList_ok consistent pushed

theorem addReplyBulkLen_ok (consistent : Consistent c) (held : 0 < c.held o)
    : ∃ c',
        c.addReplyBulkLen o = .ok c'
        ∧ Appends c c' (0x24 :: decimalText (c.textOf o).length ++ crlf) := by
  obtain ⟨v, found, _, short⟩ := consistent.heldValue o held
  have length : bulkLen v.stringObject = .ok v.text.length := bulkLen_eq _
  unfold addReplyBulkLen
  rw [object_of_value found, ok_andThen, length, ok_andThen, textOf_of_value found]
  have header : ∀ len < sharedBulkhdrLen,
      ∃ c', c.addReply (sharedBulkhdr len) = .ok c'
        ∧ Appends c c' (0x24 :: decimalText len ++ crlf) := by
    intro len below
    obtain ⟨held, there⟩ := consistent.sharedBulkhdr len below
    obtain ⟨c', ran, appends⟩ := addReply_ok consistent held
    rw [textOf_of_value there] at appends
    exact ⟨c', ran, appends⟩
  by_cases below : v.text.length < sharedBulkhdrLen
  · rw [if_pos below]
    exact header _ below
  · have digits := length_decimalText_natCast (show v.text.length < 2 ^ 63 by omega)
    rw [if_neg below, addReplyLongLongWithPrefix, if_neg below,
      ll2text_ok (by rw [Int.natAbs_natCast]; omega) (by omega), ok_andThen]
    refine addReplyString_ok consistent ?_
    simp only [List.length_append, List.length_cons, crlf, List.length_nil]
    omega

/-- A bulk is its length line, its bytes and the end of the line. -/
theorem addReplyBulk_ok (consistent : Consistent c) (held : 0 < c.held o)
    : ∃ c', c.addReplyBulk o = .ok c' ∧ Appends c c' (bulk (c.textOf o)) := by
  obtain ⟨c₁, first, header⟩ := addReplyBulkLen_ok consistent held
  have held₁ : 0 < c₁.held o := by rwa [header.held]
  obtain ⟨c₂, second, body⟩ := addReply_ok header.consistent held₁
  have same : c₁.textOf o = c.textOf o := by rw [textOf, textOf, header.values o held]
  obtain ⟨heldCrlf, crlf'⟩ := body.consistent.sharedCrlf
  obtain ⟨c₃, third, tail⟩ := addReply_ok body.consistent heldCrlf
  rw [textOf_of_value crlf'] at tail
  rw [same] at body
  refine ⟨c₃, ?_, (header.trans body).trans tail⟩
  rw [addReplyBulk, first, ok_andThen, second, ok_andThen, third]

end Client

end Redis.OutputBuffer
