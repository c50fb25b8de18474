import Redis.Networking.OutputBuffer

/-! What holds of the output buffers between calls, and how a call may change the reply list. -/

namespace Redis.OutputBuffer

open Redis.Library Redis.Util

namespace Client

variable {c c' : Client} {o : ObjRef} {unset : NodeRef → List UInt8}

def refs (c : Client) (o : ObjRef) : Nat := c.held o + (c.reply.map (·.value)).count o

/-- How far the first object of the list was sent, if anything of it was. -/
def SentHead (c : Client) : Prop :=
  c.sentlen = 0
  ∨ ∃ head tail, c.reply = head :: tail ∧ c.heap.value head.value ≠ some .null
      ∧ c.sentlen < (c.textOf head.value).length

structure Consistent (c : Client) : Prop where
  counts : c.heap.Counts c.refs
  /-- Others hold strings and integers. -/
  heldValue
    : ∀ o, 0 < c.held o → ∃ v, c.heap.value o = some v ∧ v ≠ .null ∧ v.text.length < 2 ^ 32
  /-- The list holds strings and deferred lengths. -/
  nodeValue : ∀ node ∈ c.reply, ∀ n, c.heap.value node.value ≠ some (.int n)
  /-- A deferred length is not shared. -/
  deferredOnce : ∀ node ∈ c.reply, c.heap.value node.value = some .null → c.refs node.value = 1
  nodesOnce : (c.reply.map (·.ref)).Nodup
  nodesOld : ∀ node ∈ c.reply, node.ref < c.nextNode
  room : c.buf.length ≤ replyChunkBytes
  sent : c.buf ≠ [] ∧ c.sentlen < c.buf.length ∨ c.buf = [] ∧ c.SentHead
  sharedCrlf : 0 < c.held sharedCrlf ∧ c.heap.value sharedCrlf = some (.raw crlf)
  sharedBulkhdr
    : ∀ len < sharedBulkhdrLen,
        0 < c.held (sharedBulkhdr len)
        ∧ c.heap.value (sharedBulkhdr len) = some (.raw (0x24 :: decimalText len ++ crlf))

section Reading

theorem refs_pos_of_held (held : 0 < c.held o) : 0 < c.refs o := by
  unfold refs
  omega

theorem refs_pos_of_mem {node : ReplyNode} (mem : node ∈ c.reply) : 0 < c.refs node.value := by
  have counted : 0 < (c.reply.map (·.value)).count node.value :=
    List.count_pos_iff.mpr (List.mem_map_of_mem mem)
  unfold refs
  omega

theorem object_of_value {v : Robj} (there : c.heap.value o = some v) : c.object o = .ok v := by
  rw [object, there]

theorem textOf_of_value {v : Robj} (there : c.heap.value o = some v) : c.textOf o = v.text := by
  rw [textOf, there]
  rfl

theorem nodeText_of_value {node : ReplyNode} {v : Robj}
    (there : c.heap.value node.value = some v) (string : v ≠ .null)
    : c.nodeText unset node = v.text := by
  rw [nodeText, if_neg (by simpa [there] using string), textOf_of_value there]

theorem nodeText_of_null {node : ReplyNode} (null : c.heap.value node.value = some .null)
    : c.nodeText unset node = unset node.ref := if_pos null

theorem Consistent.node (consistent : Consistent c) {node : ReplyNode} (mem : node ∈ c.reply)
    : c.heap.value node.value = some .null
      ∨ ∃ v s, c.heap.value node.value = some v ∧ v ≠ .null ∧ v.sds = .ok s ∧ v.text = s := by
  obtain ⟨v, found⟩ := consistent.counts.value_isSome (refs_pos_of_mem mem)
  cases v with
  | null => exact .inl found
  | raw s => exact .inr ⟨.raw s, s, found, by simp, rfl, rfl⟩
  | embstr s => exact .inr ⟨.embstr s, s, found, by simp, rfl, rfl⟩
  | int n => exact absurd found (consistent.nodeValue node mem n)

theorem Consistent.sentlen_le (consistent : Consistent c) (unset : NodeRef → List UInt8)
    : c.sentlen ≤ (c.buf ++ c.reply.flatMap (c.nodeText unset)).length := by
  rw [List.length_append]
  obtain ⟨_, sent⟩ | ⟨_, none | ⟨head, tail, list, string, sent⟩⟩ := consistent.sent
  · omega
  · omega
  · have first : c.nodeText unset head = c.textOf head.value := if_neg string
    rw [list, List.flatMap_cons, List.length_append, first]
    omega

end Reading

-- Replies that are appended

/-- Everything that was ever replied: what was written, and what is buffered. -/
def replied (c : Client) (unset : NodeRef → List UInt8) : List UInt8 :=
  c.written ++ c.buffered unset

/-- A call appends bytes, and changes no object that others can see. -/
structure Appends (c c' : Client) (s : List UInt8) : Prop where
  consistent : Consistent c'
  held : c'.held = c.held
  values : ∀ o, 0 < c.held o → c'.heap.value o = c.heap.value o
  replied : ∀ unset, c'.replied unset = c.replied unset ++ s

theorem Appends.trans {c'' : Client} {s t : List UInt8} (first : Appends c c' s)
    (second : Appends c' c'' t)
    : Appends c c'' (s ++ t) where
  consistent := second.consistent
  held := second.held.trans first.held
  values o held := (second.values o (by rwa [first.held])).trans (first.values o held)
  replied unset := by rw [second.replied, first.replied, List.append_assoc]

theorem Consistent.replied_append (consistent : Consistent c) {s : List UInt8}
    (written : c'.written = c.written) (sentlen : c'.sentlen = c.sentlen)
    (buffers
      : c'.buf ++ c'.reply.flatMap (c'.nodeText unset)
        = c.buf ++ c.reply.flatMap (c.nodeText unset) ++ s)
    : c'.replied unset = c.replied unset ++ s := by
  rw [Client.replied, Client.replied, buffered, buffered, written, sentlen, buffers,
    List.drop_append_of_le_length (consistent.sentlen_le unset), List.append_assoc]

theorem addReplyToBuffer_ok (consistent : Consistent c) {s : List UInt8}
    (taken : c.addReplyToBuffer s = some c')
    : Appends c c' s := by
  unfold addReplyToBuffer at taken
  split at taken
  · cases taken
  · next empty =>
      split at taken
      · cases taken
      · next room =>
          obtain rfl : { c with buf := c.buf ++ s } = c' := Option.some.inj taken
          have list : c.reply = [] := not_not.mp empty
          have unsent : c.buf = [] → c.sentlen = 0 := by
            intro none
            obtain ⟨some, _⟩ | ⟨_, unsent | ⟨head, tail, mem, _⟩⟩ := consistent.sent
            · exact absurd none some
            · exact unsent
            · rw [list] at mem
              cases mem
          refine ⟨?_, rfl, fun _ _ => rfl, fun unset => ?_⟩
          · refine {
              consistent with
              room := ?_
              sent := ?_
            }
            · have before := consistent.room
              simp only [List.length_append]
              omega
            · by_cases none : c.buf = []
              · have zero := unsent none
                by_cases nothing : s = []
                · exact .inr ⟨by simp [none, nothing], .inl zero⟩
                · refine .inl ⟨by simp [none, nothing], ?_⟩
                  simpa [none, zero] using List.length_pos_iff.mpr nothing
              · refine .inl ⟨by simp [none], ?_⟩
                obtain ⟨_, sent⟩ | ⟨empty, _⟩ := consistent.sent
                · simp only [List.length_append]
                  omega
                · exact absurd empty none
          · have buffers
                : c.buf ++ s ++ c.reply.flatMap (c.nodeText unset)
                  = c.buf ++ c.reply.flatMap (c.nodeText unset) ++ s := by
              simp [list]
            exact consistent.replied_append rfl rfl buffers

section NewNodes

variable {heap : CountedHeap Robj} {v : Robj}

/-- The list with one more node, on a heap where nothing else changed. -/
structure Pushed (c : Client) (heap : CountedHeap Robj) (o : ObjRef) (v : Robj) : Prop where
  counts : heap.Counts fun x => c.refs x + if x = o then 1 else 0
  values : ∀ x, 0 < c.refs x → heap.value x = c.heap.value x
  here : heap.value o = some v
  listable : ∀ n, v ≠ .int n
  /-- A deferred length is a new object. -/
  alone : v = .null → c.refs o = 0

theorem Pushed.nodeText (pushed : Pushed c heap o v) {node : ReplyNode} (mem : node ∈ c.reply)
    : ({ c with heap }.listAddNodeTail o).nodeText unset node = c.nodeText unset node := by
  have same := pushed.values node.value (refs_pos_of_mem mem)
  simp only [Client.nodeText, textOf, listAddNodeTail, same]

theorem Pushed.consistent (pushed : Pushed c heap o v) (consistent : Consistent c)
    : Consistent ({ c with heap }.listAddNodeTail o) := by
  have refs : ∀ x,
      ({ c with heap }.listAddNodeTail o).refs x = c.refs x + if x = o then 1 else 0 := by
    intro x
    by_cases same : x = o
    · simp [Client.refs, listAddNodeTail, same, Nat.add_assoc]
    · simp [Client.refs, listAddNodeTail, same, Ne.symm same]
  have kept : ∀ {x}, 0 < c.refs x → heap.value x = c.heap.value x := fun referred =>
    pushed.values _ referred
  refine {
    counts := pushed.counts.congr refs
    heldValue := fun x held => by
      obtain ⟨w, found, rest⟩ := consistent.heldValue x held
      exact ⟨w, (kept (refs_pos_of_held held)).trans found, rest⟩
    nodeValue := fun node mem n => ?_
    deferredOnce := fun node mem null => ?_
    nodesOnce := ?_
    nodesOld := fun node mem => ?_
    room := consistent.room
    sent := ?_
    sharedCrlf := by
      obtain ⟨held, found⟩ := consistent.sharedCrlf
      exact ⟨held, (kept (refs_pos_of_held held)).trans found⟩
    sharedBulkhdr := fun len short => by
      obtain ⟨held, found⟩ := consistent.sharedBulkhdr len short
      exact ⟨held, (kept (refs_pos_of_held held)).trans found⟩
  }
  · rcases List.mem_append.mp mem with old | new
    · intro int
      exact consistent.nodeValue node old n ((kept (refs_pos_of_mem old)).symm.trans int)
    · obtain rfl := List.mem_singleton.mp new
      intro int
      exact pushed.listable n (Option.some.inj (pushed.here.symm.trans int))
  · rw [refs]
    rcases List.mem_append.mp mem with old | new
    · have before : c.heap.value node.value = some .null :=
        (kept (refs_pos_of_mem old)).symm.trans null
      have once := consistent.deferredOnce node old before
      by_cases same : node.value = o
      · have string : v = .null := Option.some.inj (pushed.here.symm.trans (same ▸ null))
        have free := pushed.alone string
        rw [← same] at free
        omega
      · rw [if_neg same, once]
    · obtain rfl := List.mem_singleton.mp new
      have string : v = .null := Option.some.inj (pushed.here.symm.trans null)
      simp [pushed.alone string]
  · simp only [listAddNodeTail, List.map_append, List.map_cons, List.map_nil]
    refine List.nodup_append.mpr ⟨consistent.nodesOnce, List.nodup_singleton _, ?_⟩
    intro ref mem other single same
    obtain ⟨node, old, rfl⟩ := List.mem_map.mp mem
    have below := consistent.nodesOld node old
    rw [same, List.mem_singleton.mp single] at below
    exact absurd below (lt_irrefl _)
  · rcases List.mem_append.mp mem with old | new
    · exact Nat.lt_succ_of_lt (consistent.nodesOld node old)
    · obtain rfl := List.mem_singleton.mp new
      exact Nat.lt_succ_self _
  · refine consistent.sent.imp id (And.imp id (Or.imp id ?_))
    rintro ⟨head, tail, list, string, sent⟩
    have mem : head ∈ c.reply := by simp [list]
    have same := kept (refs_pos_of_mem mem)
    refine ⟨head, tail ++ [⟨c.nextNode, o⟩], by simp [listAddNodeTail, list], ?_, ?_⟩
    · simpa only [listAddNodeTail, same] using string
    · simpa only [listAddNodeTail, textOf, same] using sent

theorem Pushed.replied (pushed : Pushed c heap o v) (consistent : Consistent c)
    : ({ c with heap }.listAddNodeTail o).replied unset
      = c.replied unset
        ++ ({ c with heap }.listAddNodeTail o).nodeText unset ⟨c.nextNode, o⟩ := by
  refine consistent.replied_append rfl rfl ?_
  have old
      : c.reply.flatMap (({ c with heap }.listAddNodeTail o).nodeText unset)
        = c.reply.flatMap (c.nodeText unset) :=
    List.flatMap_congr fun node mem => pushed.nodeText mem
  have list : ({ c with heap }.listAddNodeTail o).reply = c.reply ++ [⟨c.nextNode, o⟩] := rfl
  have buf : ({ c with heap }.listAddNodeTail o).buf = c.buf := rfl
  rw [list, buf, List.flatMap_append, old, List.flatMap_singleton, List.append_assoc]

theorem Pushed.appends (pushed : Pushed c heap o v) (consistent : Consistent c)
    (string : v ≠ .null)
    : Appends c ({ c with heap }.listAddNodeTail o) v.text where
  consistent := pushed.consistent consistent
  held := rfl
  values x held := pushed.values x (refs_pos_of_held held)
  replied unset := by
    rw [pushed.replied consistent]
    congr 1
    exact nodeText_of_value pushed.here string

theorem pushed_alloc (consistent : Consistent c) (v : Robj) (listable : ∀ n, v ≠ .int n)
    : Pushed c (c.heap.alloc v) c.heap.next v where
  counts := by
    refine (consistent.counts.alloc v).congr fun x => ?_
    by_cases same : x = c.heap.next
    · rw [same, consistent.counts.next_free, if_pos rfl, Function.update_self]
    · rw [if_neg same, Function.update_of_ne same, Nat.add_zero]
  values x referred := by
    apply CountedHeap.value_alloc_other
    rintro rfl
    exact absurd consistent.counts.next_free (by omega)
  here := CountedHeap.value_alloc_next
  listable := listable
  alone _ := consistent.counts.next_free

theorem pushed_incr (consistent : Consistent c) (held : 0 < c.held o) (v : Robj)
    (there : c.heap.value o = some v) (listable : ∀ n, v ≠ .int n)
    : Pushed c (c.heap.incr o) o v where
  counts := by
    refine (consistent.counts.incr (refs_pos_of_held held)).congr fun x => ?_
    by_cases same : x = o
    · rw [same, if_pos rfl, Function.update_self]
    · rw [if_neg same, Function.update_of_ne same, Nat.add_zero]
  values x _ := CountedHeap.value_incr
  here := CountedHeap.value_incr.trans there
  listable := listable
  alone null := by
    obtain ⟨w, found, string, _⟩ := consistent.heldValue o held
    rw [there, null] at found
    exact absurd (Option.some.inj found).symm string

end NewNodes

section LastObject

variable {heap : CountedHeap Robj} {front : List ReplyNode} {last : ReplyNode}
  {s w : List UInt8} {tail : ObjRef}

/-- The last node has an object of its own with a new string, and nothing else changed. -/
structure Extended (c : Client) (heap : CountedHeap Robj) (front : List ReplyNode)
    (last : ReplyNode)
    (tail : ObjRef) (w : List UInt8)
    : Prop where
  counts : heap.Counts ({ c with heap, reply := front ++ [⟨last.ref, tail⟩] } : Client).refs
  values
    : ∀ x ≠ tail,
        0 < ({ c with heap, reply := front ++ [⟨last.ref, tail⟩] } : Client).refs x
        → heap.value x = c.heap.value x
  here : heap.value tail = some (.raw w)
  notHeld : c.held tail = 0
  notListed : ∀ node ∈ front, node.value ≠ tail

/-- Extending the last object appends its new bytes. -/
theorem Extended.appends (extended : Extended c heap front last tail (w ++ s))
    (consistent : Consistent c) (list : c.reply = front ++ [last])
    (before : c.heap.value last.value = some (.raw w))
    : Appends c { c with heap, reply := front ++ [⟨last.ref, tail⟩] } s := by
  have listed : ∀ {node}, node ∈ front → node ∈ c.reply := fun mem => by simp [list, mem]
  have heldKept : ∀ {x}, 0 < c.held x → heap.value x = c.heap.value x := by
    intro x held
    refine extended.values x ?_ ?_
    · rintro rfl
      rw [extended.notHeld] at held
      exact absurd held (lt_irrefl 0)
    · exact refs_pos_of_held held
  have frontKept : ∀ {node}, node ∈ front → heap.value node.value = c.heap.value node.value := by
    intro node mem
    refine extended.values node.value (extended.notListed node mem) (refs_pos_of_mem ?_)
    exact List.mem_append_left _ mem
  refine ⟨?_, rfl, fun x held => heldKept held, fun unset => ?_⟩
  · refine {
      counts := extended.counts
      heldValue := fun x held => by
        obtain ⟨v, found, rest⟩ := consistent.heldValue x held
        exact ⟨v, (heldKept held).trans found, rest⟩
      nodeValue := fun node mem n => ?_
      deferredOnce := fun node mem null => ?_
      nodesOnce := ?_
      nodesOld := fun node mem => ?_
      room := consistent.room
      sent := ?_
      sharedCrlf := by
        obtain ⟨held, found⟩ := consistent.sharedCrlf
        exact ⟨held, (heldKept held).trans found⟩
      sharedBulkhdr := fun len short => by
        obtain ⟨held, found⟩ := consistent.sharedBulkhdr len short
        exact ⟨held, (heldKept held).trans found⟩
    }
    · rcases List.mem_append.mp mem with old | new
      · rw [frontKept old]
        exact consistent.nodeValue node (listed old) n
      · obtain rfl := List.mem_singleton.mp new
        simp [extended.here]
    · rcases List.mem_append.mp mem with old | new
      · have null' : c.heap.value node.value = some .null := (frontKept old).symm.trans null
        have once := consistent.deferredOnce node (listed old) null'
        have notLast : last.value ≠ node.value := by
          intro same
          rw [← same, before] at null'
          cases null'
        have notTail : tail ≠ node.value := (extended.notListed node old).symm
        simpa [refs, list, notLast, notTail] using once
      · obtain rfl := List.mem_singleton.mp new
        rw [extended.here] at null
        cases null
    · have once := consistent.nodesOnce
      simpa [list] using once
    · rcases List.mem_append.mp mem with old | new
      · exact consistent.nodesOld node (listed old)
      · obtain rfl := List.mem_singleton.mp new
        exact consistent.nodesOld last (by simp [list])
    · refine consistent.sent.imp id (And.imp id (Or.imp id ?_))
      rintro ⟨head, rest, list', string, sent⟩
      cases front with
      | nil =>
          obtain ⟨rfl, rfl⟩ : last = head ∧ [] = rest := by simpa [list] using list'
          refine ⟨⟨last.ref, tail⟩, [], rfl, by simp [extended.here], ?_⟩
          rw [textOf_of_value before] at sent
          rw [textOf_of_value extended.here]
          exact lt_of_lt_of_le sent (by simp [Robj.text, Robj.stringObject, StringObject.text])
      | cons first others =>
          obtain ⟨rfl, rfl⟩ : first = head ∧ others ++ [last] = rest := by simpa [list] using list'
          have same := frontKept (List.mem_cons_self : first ∈ first :: others)
          refine ⟨first, others ++ [⟨last.ref, tail⟩], rfl, ?_, ?_⟩
          · rwa [same]
          · simpa only [textOf, same] using sent
  · have old
        : front.flatMap
            (({ c with heap, reply := front ++ [⟨last.ref, tail⟩] } : Client).nodeText unset)
          = front.flatMap (c.nodeText unset) := by
      refine List.flatMap_congr fun node mem => ?_
      simp only [nodeText, textOf, frontKept mem]
    have longer
        : ({ c with heap, reply := front ++ [⟨last.ref, tail⟩] } : Client).nodeText unset
            ⟨last.ref, tail⟩
          = c.nodeText unset last ++ s := by
      rw [nodeText_of_value (v := .raw (w ++ s)) extended.here (by simp),
        nodeText_of_value before (by simp)]
      rfl
    refine consistent.replied_append rfl rfl ?_
    rw [List.flatMap_append, old, List.flatMap_singleton, longer, list, List.flatMap_append,
      List.flatMap_singleton, List.append_assoc, List.append_assoc]

theorem extended_own (consistent : Consistent c) (list : c.reply = front ++ [last])
    (before : c.heap.value last.value = some (.raw w)) (own : c.refs last.value ≤ 1)
    (s : List UInt8)
    : Extended c (c.heap.store last.value (.raw (w ++ s))) front last last.value (w ++ s) := by
  have same
      : ({ c with
            heap := c.heap.store last.value (.raw (w ++ s)),
            reply := front ++ [⟨last.ref, last.value⟩] } : Client).refs
        = c.refs := by
    funext x
    rw [refs, refs, list]
  have one : c.held last.value = 0 ∧ last.value ∉ front.map (·.value) := by
    rw [refs, list, List.map_append, List.count_append] at own
    simp only [List.map_cons, List.map_nil, List.count_singleton_self] at own
    exact ⟨by omega, List.count_eq_zero.mp (by omega)⟩
  refine ⟨?_, fun x other _ => CountedHeap.value_store_other other,
    CountedHeap.value_store_self before, one.1, fun node mem equal => ?_⟩
  · rw [same]
    exact consistent.counts.store _ _
  · exact one.2 (equal ▸ List.mem_map_of_mem mem)

theorem extended_copy (consistent : Consistent c) (list : c.reply = front ++ [last])
    (shared : 1 < c.refs last.value) (w s : List UInt8)
    : Extended c
        (((c.heap.alloc (.raw w)).decr last.value).store c.heap.next (.raw (w ++ s)))
        front last c.heap.next (w ++ s) := by
  have free := consistent.counts.next_free
  have differs : last.value ≠ c.heap.next := by
    intro same
    rw [same] at shared
    omega
  have allocated := consistent.counts.alloc (.raw w)
  have referred : 1 < Function.update c.refs c.heap.next 1 last.value := by
    rwa [Function.update_of_ne differs]
  have unlisted : ∀ node ∈ front, node.value ≠ c.heap.next := by
    intro node mem same
    have some : 0 < c.refs node.value := refs_pos_of_mem (by simp [list, mem])
    rw [same] at some
    omega
  have unheld : c.held c.heap.next = 0 := by
    unfold refs at free
    omega
  have refs : ∀ x,
      ({ c with
          heap := ((c.heap.alloc (.raw w)).decr last.value).store c.heap.next (.raw (w ++ s)),
          reply := front ++ [⟨last.ref, c.heap.next⟩] } : Client).refs x
        = Function.update (Function.update c.refs c.heap.next 1) last.value
          (Function.update c.refs c.heap.next 1 last.value - 1) x := by
    intro x
    by_cases tail : x = c.heap.next
    · subst tail
      have absent : (front.map (·.value)).count c.heap.next = 0 := by
        refine List.count_eq_zero.mpr fun mem => ?_
        obtain ⟨node, mem, same⟩ := List.mem_map.mp mem
        exact unlisted node mem same
      rw [Function.update_of_ne differs.symm, Function.update_self, Client.refs, unheld,
        List.map_append, List.count_append, absent]
      simp
    · by_cases old : x = last.value
      · subst old
        simp [Client.refs, list, differs, differs.symm, ← Nat.add_assoc]
      · simp [Client.refs, list, Ne.symm tail, Ne.symm old, tail, old]
  have copied : ((c.heap.alloc (.raw w)).decr last.value).value c.heap.next = some (.raw w) := by
    rw [CountedHeap.value_decr_other differs.symm, CountedHeap.value_alloc_next]
  refine ⟨?_, fun x other referred' => ?_, CountedHeap.value_store_self copied, unheld, unlisted⟩
  · exact ((allocated.decr (by omega)).store _ _).congr refs
  · rw [CountedHeap.value_store_other other]
    by_cases old : x = last.value
    · rw [old, CountedHeap.value_decr_shared allocated referred,
        CountedHeap.value_alloc_other differs]
    · rw [CountedHeap.value_decr_other old, CountedHeap.value_alloc_other other]

theorem addToList_ok (consistent : Consistent c) {addNode : Client → Client}
    (added : Appends c (addNode c) s)
    : ∃ c', c.addToList s addNode = .ok c' ∧ Appends c c' s := by
  unfold addToList
  cases end' : c.reply.getLast? with
  | none => exact ⟨_, rfl, added⟩
  | some last =>
      have list : c.reply = c.reply.dropLast ++ [last] :=
        (List.dropLast_append_getLast? last end').symm
      obtain ⟨v, found⟩ : ∃ v, c.heap.value last.value = some v :=
        consistent.counts.value_isSome (refs_pos_of_mem (List.mem_of_getLast? end'))
      dsimp only
      rw [object_of_value found, ok_andThen]
      cases v with
      | null | embstr _ | int _ => exact ⟨_, rfl, added⟩
      | raw t =>
          dsimp only
          by_cases fits : t.length + s.length ≤ replyChunkBytes
          · have short : t.length + s.length < 2 ^ 32 := lt_of_le_of_lt fits (by decide)
            rw [if_pos fits, sdscatlen_of_lt short, dupLastObjectIfNeeded, object_of_value found,
              ok_andThen, consistent.counts.count]
            by_cases shared : c.refs last.value > 1
            · rw [if_pos shared]
              exact ⟨_, rfl, (extended_copy consistent list shared t s).appends consistent list
                found⟩
            · rw [if_neg shared]
              have own := extended_own consistent list found (not_lt.mp shared) s
              have kept : c.reply.dropLast ++ [⟨last.ref, last.value⟩] = c.reply := list.symm
              have appends := own.appends consistent list found
              rw [kept] at appends
              exact ⟨_, rfl, appends⟩
          · rw [if_neg fits]
            exact ⟨_, rfl, added⟩

end LastObject

end Client

end Redis.OutputBuffer
