import Mathlib.Data.List.TakeWhile
import Redis.Networking.OutputReplies

/-! The bytes that a client is sent are its replies in the order of the calls. -/

namespace Redis.OutputBuffer

open Redis.Library Redis.Util

namespace Client

variable {c c' : Client} {unset : NodeRef → List UInt8} {s w : List UInt8}
  {front back : List ReplyNode} {node : ReplyNode}

-- Objects that one node owns

theorem unique_node (mem : node ∈ c.reply) (own : c.refs node.value = 1)
    : c.held node.value = 0 ∧ ∀ other ∈ c.reply, other.value = node.value → other = node := by
  have listed : 0 < (c.reply.map (·.value)).count node.value :=
    List.count_pos_iff.mpr (List.mem_map_of_mem mem)
  unfold refs at own
  refine ⟨by omega, fun other mem' same => ?_⟩
  have single : (c.reply.filter fun n => n.value = node.value).length = 1 := by
    have counted : (c.reply.map (·.value)).count node.value
        = (c.reply.filter fun n => n.value = node.value).length := by
      rw [List.count, List.countP_map, List.countP_eq_length_filter]
      rfl
    omega
  obtain ⟨one, list⟩ := List.length_eq_one_iff.mp single
  have first : other ∈ [one] := by
    rw [← list]
    exact List.mem_filter.mpr ⟨mem', by simpa using same⟩
  have second : node ∈ [one] := by
    rw [← list]
    exact List.mem_filter.mpr ⟨mem, by simp⟩
  rw [List.mem_singleton.mp first, List.mem_singleton.mp second]

theorem store_ok (consistent : Consistent c) (mem : node ∈ c.reply)
    (own : c.refs node.value = 1)
    (grows : c.heap.value node.value = some .null ∨ (c.textOf node.value).length ≤ w.length)
    : Consistent { c with heap := c.heap.store node.value (.raw w) }
      ∧ ∀ other ∈ c.reply, ∀ unset,
        ({ c with heap := c.heap.store node.value (.raw w) } : Client).nodeText unset other
        = if other = node then w else c.nodeText unset other := by
  obtain ⟨unheld, unique⟩ := unique_node mem own
  obtain ⟨v, found⟩ := consistent.counts.value_isSome (refs_pos_of_mem mem)
  have here := CountedHeap.value_store_self (v := .raw w) found
  have heldKept : ∀ {x}, 0 < c.held x
      → (c.heap.store node.value (.raw w)).value x = c.heap.value x := by
    intro x held
    apply CountedHeap.value_store_other
    rintro rfl
    omega
  have nodeKept : ∀ {other}, other ∈ c.reply → other ≠ node
      → (c.heap.store node.value (.raw w)).value other.value = c.heap.value other.value :=
    fun mem' differs => CountedHeap.value_store_other fun same => differs (unique _ mem' same)
  constructor
  · refine {
      counts := consistent.counts.store _ _
      heldValue := fun x held => by
        obtain ⟨u, there, rest⟩ := consistent.heldValue x held
        exact ⟨u, (heldKept held).trans there, rest⟩
      nodeValue := fun other mem' n => ?_
      deferredOnce := fun other mem' null => ?_
      nodesOnce := consistent.nodesOnce
      nodesOld := consistent.nodesOld
      room := consistent.room
      sent := ?_
      sharedCrlf := by
        obtain ⟨held, there⟩ := consistent.sharedCrlf
        exact ⟨held, (heldKept held).trans there⟩
      sharedBulkhdr := fun len short => by
        obtain ⟨held, there⟩ := consistent.sharedBulkhdr len short
        exact ⟨held, (heldKept held).trans there⟩
    }
    · by_cases same : other = node
      · rw [same, here]
        simp
      · rw [nodeKept mem' same]
        exact consistent.nodeValue other mem' n
    · by_cases same : other = node
      · rw [same, here] at null
        cases null
      · rw [nodeKept mem' same] at null
        exact consistent.deferredOnce other mem' null
    · refine consistent.sent.imp id (And.imp id (Or.imp id ?_))
      rintro ⟨head, tail, list, string, sent⟩
      have first : head ∈ c.reply := by simp [list]
      by_cases same : head = node
      · subst same
        refine ⟨head, tail, list, by rw [here]; simp, ?_⟩
        rw [textOf_of_value here]
        exact lt_of_lt_of_le sent (grows.resolve_left string)
      · refine ⟨head, tail, list, by rwa [nodeKept first same], ?_⟩
        simpa only [textOf, nodeKept first same] using sent
  · intro other mem' unset
    by_cases same : other = node
    · have there : ({ c with heap := c.heap.store node.value (.raw w) } : Client).heap.value
          node.value = some (.raw w) := here
      rw [if_pos same, same, nodeText_of_value there (by simp)]
      rfl
    · rw [if_neg same]
      simp only [nodeText, textOf, nodeKept mem' same]

-- Nodes that are deleted

theorem listDelNode_ok (written : List UInt8) (consistent : Consistent c)
    (list : c.reply = front ++ node :: back) {sentlen : Nat}
    (sent
      : c.buf ≠ [] ∧ sentlen < c.buf.length
        ∨ c.buf = []
          ∧ (sentlen = 0
            ∨ ∃ head tail, front = head :: tail ∧ c.heap.value head.value ≠ some .null
                ∧ sentlen < (c.textOf head.value).length))
    : Consistent { c.listDelNode front node back with sentlen, written }
      ∧ ∀ other ∈ front ++ back, ∀ unset,
        ({ c.listDelNode front node back with sentlen, written } : Client).nodeText unset other
        = c.nodeText unset other := by
  have counted : ∀ x,
      Function.update c.refs node.value (c.refs node.value - 1) x
        = c.held x + ((front ++ back).map (·.value)).count x := by
    intro x
    by_cases same : x = node.value
    · subst same
      simp [refs, list, ← Nat.add_assoc]
    · simp [refs, list, Function.update_of_ne same, Ne.symm same]
  have kept : ∀ {x}, 0 < c.held x + ((front ++ back).map (·.value)).count x
      → (c.heap.decr node.value).value x = c.heap.value x := by
    intro x referred
    rw [← counted] at referred
    exact CountedHeap.value_decr consistent.counts referred
  have heldKept : ∀ {x}, 0 < c.held x → (c.heap.decr node.value).value x = c.heap.value x :=
    fun held => kept (by omega)
  have nodeKept : ∀ {other}, other ∈ front ++ back
      → (c.heap.decr node.value).value other.value = c.heap.value other.value := by
    intro other mem
    have listed : 0 < ((front ++ back).map (·.value)).count other.value :=
      List.count_pos_iff.mpr (List.mem_map_of_mem mem)
    exact kept (by omega)
  have old : ∀ {other}, other ∈ front ++ back → other ∈ c.reply := by
    intro other mem
    rw [list]
    rcases List.mem_append.mp mem with mem | mem
    · exact List.mem_append_left _ mem
    · exact List.mem_append_right _ (List.mem_cons_of_mem _ mem)
  have sublist : (front ++ back).Sublist c.reply := by
    rw [list]
    exact (List.Sublist.refl front).append (List.sublist_cons_self node back)
  constructor
  · refine {
      counts := ?_
      heldValue := fun x held => by
        obtain ⟨u, there, rest⟩ := consistent.heldValue x held
        exact ⟨u, (heldKept held).trans there, rest⟩
      nodeValue := fun other mem n => by
        rw [listDelNode, nodeKept mem]
        exact consistent.nodeValue other (old mem) n
      deferredOnce := fun other mem null => ?_
      nodesOnce := (sublist.map _).nodup consistent.nodesOnce
      nodesOld := fun other mem => consistent.nodesOld other (old mem)
      room := consistent.room
      sent := ?_
      sharedCrlf := by
        obtain ⟨held, there⟩ := consistent.sharedCrlf
        exact ⟨held, (heldKept held).trans there⟩
      sharedBulkhdr := fun len short => by
        obtain ⟨held, there⟩ := consistent.sharedBulkhdr len short
        exact ⟨held, (heldKept held).trans there⟩
    }
    · have referred : 0 < c.refs node.value := refs_pos_of_mem (by simp [list])
      exact (consistent.counts.decr referred).congr fun x => (counted x).symm
    · have null' : c.heap.value other.value = some .null := (nodeKept mem).symm.trans null
      have once := consistent.deferredOnce other (old mem) null'
      have fewer : ((front ++ back).map (·.value)).count other.value
          ≤ (c.reply.map (·.value)).count other.value := (sublist.map _).count_le _
      have listed : 0 < ((front ++ back).map (·.value)).count other.value :=
        List.count_pos_iff.mpr (List.mem_map_of_mem mem)
      simp only [refs, listDelNode] at once ⊢
      omega
    · refine sent.imp id (And.imp id (Or.imp id ?_))
      rintro ⟨head, tail, first, string, sent⟩
      have mem : head ∈ front ++ back := by simp [first]
      have same := nodeKept mem
      refine ⟨head, tail ++ back, by simp [listDelNode, first], by rwa [listDelNode, same], ?_⟩
      simpa only [textOf, listDelNode, same] using sent
  · intro other mem unset
    simp only [nodeText, textOf, listDelNode, nodeKept mem]

-- Deferred lengths

theorem deferred_node (consistent : Consistent c) {ref : NodeRef} (mem : ref ∈ c.deferred)
    : ∃ front node back,
        c.reply.takeWhile (·.ref ≠ ref) = front
        ∧ c.reply.dropWhile (·.ref ≠ ref) = node :: back
        ∧ c.reply = front ++ node :: back
        ∧ node.ref = ref ∧ c.heap.value node.value = some .null := by
  obtain ⟨node, there, same⟩ := List.mem_map.mp mem
  obtain ⟨listed, null⟩ := List.mem_filter.mp there
  have null : c.heap.value node.value = some .null := by simpa using null
  have split : c.reply.takeWhile (·.ref ≠ ref) ++ c.reply.dropWhile (·.ref ≠ ref) = c.reply :=
    List.takeWhile_append_dropWhile
  cases rest : c.reply.dropWhile (·.ref ≠ ref) with
  | nil =>
      have passed := List.dropWhile_eq_nil_iff.mp rest node listed
      simp [same] at passed
  | cons found back =>
      have some : c.reply.dropWhile (·.ref ≠ ref) ≠ [] := by
        rw [rest]
        exact List.cons_ne_nil _ _
      have stops := List.head_dropWhile_not (fun n : ReplyNode => decide (n.ref ≠ ref)) some
      simp only [rest, List.head_cons, decide_eq_false_iff_not, not_not] at stops
      rw [rest] at split
      have member : found ∈ c.reply := by rw [← split]; simp
      have one : found = node :=
        List.inj_on_of_nodup_map consistent.nodesOnce member listed (stops.trans same.symm)
      exact ⟨_, found, back, rfl, rfl, split.symm, stops, by rw [one, null]⟩

theorem setHeader_ok (consistent : Consistent c) (mem : node ∈ c.reply)
    (null : c.heap.value node.value = some .null) (header : List UInt8)
    : Consistent { c with heap := c.heap.store node.value (.raw header) }
      ∧ ∀ unset,
        ({ c with heap := c.heap.store node.value (.raw header) } : Client).replied unset
        = c.replied (Function.update unset node.ref header) := by
  obtain ⟨kept, texts⟩ :=
    store_ok (w := header) consistent mem (consistent.deferredOnce node mem null) (.inl null)
  refine ⟨kept, fun unset => ?_⟩
  have list
      : c.reply.flatMap
          (({ c with heap := c.heap.store node.value (.raw header) } : Client).nodeText unset)
        = c.reply.flatMap (c.nodeText (Function.update unset node.ref header)) := by
    refine List.flatMap_congr fun other mem' => ?_
    rw [texts other mem']
    by_cases same : other = node
    · rw [if_pos same, same, nodeText_of_null null, Function.update_self]
    · have differs : other.ref ≠ node.ref := fun refs =>
        same (List.inj_on_of_nodup_map consistent.nodesOnce mem' mem refs)
      rw [if_neg same]
      simp only [nodeText, Function.update_of_ne differs]
  simp only [replied, buffered, list]

theorem glue_ok (consistent : Consistent c) (list : c.reply = front ++ node :: back)
    (own : c.refs node.value = 1) {header : List UInt8}
    (there : c.heap.value node.value = some (.raw header))
    (fits : ∀ next ∈ back.head?, header.length + (c.textOf next.value).length < 2 ^ 32)
    : ∃ c',
        c.glue front node header back = .ok c'
        ∧ Consistent c' ∧ ∀ unset, c'.replied unset = c.replied unset := by
  cases back with
  | nil => exact ⟨c, rfl, consistent, fun _ => rfl⟩
  | cons next back =>
      have nodeMem : node ∈ c.reply := by simp [list]
      have nextMem : next ∈ c.reply := by simp [list]
      have differs : next ≠ node := by
        have once := consistent.nodesOnce
        rw [list, List.map_append, List.map_cons, List.map_cons] at once
        have apart := (List.nodup_cons.mp (List.nodup_append.mp once).2.1).1
        rintro rfl
        exact apart List.mem_cons_self
      unfold glue
      dsimp only
      rcases consistent.node nextMem with null | ⟨v, s, found, string, read, text⟩
      · rw [object_of_value null, ok_andThen]
        exact ⟨c, rfl, consistent, fun _ => rfl⟩
      · have nodeText : c.textOf node.value = header := textOf_of_value there
        obtain ⟨stored, texts⟩ := store_ok (w := header ++ s) consistent nodeMem own
          (.inr (by rw [nodeText, List.length_append]; omega))
        let c₁ : Client := { c with heap := c.heap.store node.value (.raw (header ++ s)) }
        have list₁ : c₁.reply = (front ++ [node]) ++ next :: back := by simp [c₁, list]
        have sent₁
            : c₁.buf ≠ [] ∧ c₁.sentlen < c₁.buf.length
              ∨ c₁.buf = []
                ∧ (c₁.sentlen = 0
                  ∨ ∃ head tail, front ++ [node] = head :: tail
                      ∧ c₁.heap.value head.value ≠ some .null
                      ∧ c₁.sentlen < (c₁.textOf head.value).length) := by
          refine stored.sent.imp id (And.imp id (Or.imp id ?_))
          rintro ⟨head, tail, first, rest⟩
          rw [list₁] at first
          cases front with
          | nil =>
              obtain ⟨rfl, _⟩ := List.cons.inj first
              exact ⟨node, [], rfl, rest⟩
          | cons one others =>
              obtain ⟨rfl, _⟩ := List.cons.inj first
              exact ⟨one, others ++ [node], rfl, rest⟩
        obtain ⟨deleted, kept⟩ := listDelNode_ok c₁.written stored list₁ sent₁
        refine ⟨c₁.listDelNode (front ++ [node]) next back, ?_, deleted, fun unset => ?_⟩
        · have short := fits next rfl
          rw [textOf_of_value found, text] at short
          rw [object_of_value found, ok_andThen]
          cases v with
          | null => exact absurd rfl string
          | raw t | embstr t | int _ =>
              dsimp only
              rw [read, ok_andThen, sdscatlen_of_lt short]
              rfl
        · have nextText : c.nodeText unset next = s := by
            rw [nodeText_of_value found string, text]
          have others : ∀ other ∈ front ++ back, other ≠ node := by
            intro other mem same
            have once := consistent.nodesOnce
            rw [list, List.map_append, List.map_cons, List.nodup_append] at once
            rw [same] at mem
            rcases List.mem_append.mp mem with mem | mem
            · exact once.2.2 _ (List.mem_map_of_mem mem) _ List.mem_cons_self rfl
            · exact (List.nodup_cons.mp once.2.1).1
                (List.mem_map_of_mem (List.mem_cons_of_mem _ mem))
          have same : ∀ other ∈ front ++ back,
              (c₁.listDelNode (front ++ [node]) next back).nodeText unset other
                = c.nodeText unset other := by
            intro other mem
            have listed : other ∈ c.reply := by
              rw [list]
              rcases List.mem_append.mp mem with mem | mem <;> simp [mem]
            have still : other ∈ (front ++ [node]) ++ back := by
              rcases List.mem_append.mp mem with mem | mem <;> simp [mem]
            have first := texts other listed unset
            rw [if_neg (others other mem)] at first
            exact (kept other still unset).trans first
          have glued
              : (c₁.listDelNode (front ++ [node]) next back).nodeText unset node
                = c.nodeText unset node ++ s := by
            rw [nodeText_of_value there (by simp)]
            have still : node ∈ (front ++ [node]) ++ back := by simp
            exact (kept node still unset).trans ((texts node nodeMem unset).trans (if_pos rfl))
          have lists
              : ((front ++ [node]) ++ back).flatMap
                  ((c₁.listDelNode (front ++ [node]) next back).nodeText unset)
                = c.reply.flatMap (c.nodeText unset) := by
            rw [list, List.flatMap_append, List.flatMap_append, List.flatMap_append,
              List.flatMap_singleton, List.flatMap_cons, List.flatMap_cons, glued, nextText,
              List.flatMap_congr fun other mem => same other (List.mem_append_left _ mem),
              List.flatMap_congr fun other mem => same other (List.mem_append_right _ mem)]
            simp only [List.append_assoc]
          simp only [replied, buffered]
          rw [show (c₁.listDelNode (front ++ [node]) next back).reply
            = (front ++ [node]) ++ back from rfl, lists]
          rfl

/-- The length goes where it was deferred. -/
theorem setDeferredMultiBulkLength_ok (consistent : Consistent c) {ref : NodeRef}
    (mem : ref ∈ c.deferred) (length : Int64)
    (fits : (deferredHeader length).length + (c.glued ref).length < 2 ^ 32)
    : ∃ c',
        c.setDeferredMultiBulkLength ref length = .ok c'
        ∧ Consistent c'
        ∧ ∀ unset,
          c'.replied unset = c.replied (Function.update unset ref (deferredHeader length)) := by
  obtain ⟨front, node, back, taken, dropped, list, rfl, null⟩ := deferred_node consistent mem
  have listed : node ∈ c.reply := by simp [list]
  obtain ⟨stored, replied⟩ := setHeader_ok consistent listed null (deferredHeader length)
  have there
      : (c.heap.store node.value (.raw (deferredHeader length))).value node.value
        = some (.raw (deferredHeader length)) :=
    CountedHeap.value_store_self null
  have once := consistent.deferredOnce node listed null
  have behind : ∀ next ∈ back.head?, (deferredHeader length).length
      + (Client.textOf { c with
          heap := c.heap.store node.value (.raw (deferredHeader length)) } next.value).length
        < 2 ^ 32 := by
    intro next first
    obtain ⟨others, rfl⟩ := List.head?_eq_some_iff.mp first
    have apart : next.value ≠ node.value := by
      intro same
      rw [refs, list, List.map_append, List.count_append] at once
      simp only [List.map_cons, List.count_cons, same, beq_self_eq_true, if_true] at once
      omega
    rw [glued, dropped] at fits
    rw [textOf, CountedHeap.value_store_other apart]
    exact fits
  obtain ⟨c', ran, kept, same⟩ := glue_ok stored list once there behind
  refine ⟨c', ?_, kept, fun unset => (same unset).trans (replied unset)⟩
  rw [setDeferredMultiBulkLength, dropped]
  dsimp only
  rw [taken, ran]

-- Sending

/-- The list holds strings, each so short that an `int` takes its length. -/
def Short (c : Client) : Prop :=
  ∀ node ∈ c.reply,
    c.heap.value node.value ≠ some .null ∧ (c.textOf node.value).length < 2 ^ 31

structure Sends (c c' : Client) : Prop where
  consistent : Consistent c'
  short : Short c'
  replied : ∀ unset, c'.replied unset = c.replied unset

theorem Sends.trans {c'' : Client} (first : Sends c c') (second : Sends c' c'') : Sends c c'' where
  consistent := second.consistent
  short := second.short
  replied unset := (second.replied unset).trans (first.replied unset)

theorem objlen_of_short (short : s.length < 2 ^ 31) : objlen s = s.length := by
  unfold objlen
  exact Int.bmod_eq_of_le (by omega) (by omega)

theorem written_drop {α : Type} (all : List α) (k n : Nat)
    : (all.drop k).take n ++ all.drop (k + n) = all.drop k := by
  rw [← List.drop_drop, List.take_append_drop]

theorem take_drop_append {first rest : List UInt8} {k n : Nat} (within : k + n ≤ first.length)
    : ((first ++ rest).drop k).take n = (first.drop k).take n := by
  rw [List.drop_append_of_le_length (by omega),
    List.take_append_of_le_length (by rw [List.length_drop]; omega)]

section Sending

variable {head : ReplyNode} {tail : List ReplyNode} {n : Nat}

theorem short_head (short : Short c) (list : c.reply = head :: tail)
    (consistent : Consistent c)
    : ∃ v s, c.heap.value head.value = some v ∧ v ≠ .null ∧ v.sds = .ok s
        ∧ c.textOf head.value = s ∧ s.length < 2 ^ 31 := by
  have mem : head ∈ c.reply := by simp [list]
  obtain ⟨string, length⟩ := short head mem
  obtain ⟨v, s, found, differs, read, text⟩ := (consistent.node mem).resolve_left string
  rw [textOf_of_value found, text] at length
  exact ⟨v, s, found, differs, read, (textOf_of_value found).trans text, length⟩

theorem popHead_ok (consistent : Consistent c) (short : Short c)
    (list : c.reply = head :: tail) (empty : c.buf = [])
    (sent : c.sentlen ≤ (c.textOf head.value).length)
    : Sends c
        { c.listDelNode [] head tail with
          sentlen := 0, written := c.written ++ (c.textOf head.value).drop c.sentlen } := by
  have list' : c.reply = [] ++ head :: tail := list
  obtain ⟨deleted, texts⟩ :=
    listDelNode_ok (c.written ++ (c.textOf head.value).drop c.sentlen) consistent list'
      (.inr ⟨empty, .inl rfl⟩)
  have mem : head ∈ c.reply := by simp [list]
  refine ⟨deleted, fun node there => ?_, fun unset => ?_⟩
  · have old : node ∈ c.reply := by
      rw [list]
      exact List.mem_cons_of_mem _ there
    have referred : 0 < Function.update c.refs head.value (c.refs head.value - 1) node.value := by
      have listed : 0 < (tail.map (·.value)).count node.value :=
        List.count_pos_iff.mpr (List.mem_map_of_mem there)
      by_cases same : node.value = head.value
      · rw [same] at listed
        rw [same, Function.update_self, refs, list, List.map_cons, List.count_cons_self]
        omega
      · rw [Function.update_of_ne same]
        exact refs_pos_of_mem old
    have same := CountedHeap.value_decr consistent.counts referred
    simpa only [textOf, listDelNode, same] using short node old
  · have text : c.nodeText unset head = c.textOf head.value := if_neg (short head mem).1
    have rest
        : tail.flatMap
            (({ c.listDelNode [] head tail with
                  sentlen := 0,
                  written := c.written ++ (c.textOf head.value).drop c.sentlen } : Client).nodeText
              unset)
          = tail.flatMap (c.nodeText unset) :=
      List.flatMap_congr fun node there => texts node there unset
    simp only [replied, buffered, listDelNode, List.nil_append, empty, list, List.flatMap_cons,
      text, List.drop_zero, List.drop_append_of_le_length sent] at rest ⊢
    rw [rest, List.append_assoc]

theorem dropEmptyObjects_ok (consistent : Consistent c) (short : Short c)
    : ∃ c',
        dropEmptyObjects c.reply c = .ok c' ∧ Sends c c'
        ∧ (c'.buf = [] → ∀ head tail, c'.reply = head :: tail → c'.textOf head.value ≠ []) := by
  obtain ⟨list, same⟩ : ∃ list, list = c.reply := ⟨_, rfl⟩
  rw [← same]
  induction list generalizing c with
  | nil =>
      refine ⟨c, rfl, ⟨consistent, short, fun _ => rfl⟩, fun _ head tail there => ?_⟩
      rw [← same] at there
      cases there
  | cons head tail ih =>
      unfold dropEmptyObjects
      by_cases buffer : c.buf = []
      · obtain ⟨v, s, found, _, read, text, length⟩ := short_head short same.symm consistent
        rw [if_neg (not_not.mpr buffer), object_of_value found, ok_andThen, read, ok_andThen,
          objlen_of_short length]
        by_cases none : s = []
        · have unsent : c.sentlen = 0 := by
            obtain ⟨some, _⟩ | ⟨_, zero | ⟨first, rest, list, _, sent⟩⟩ := consistent.sent
            · exact absurd buffer some
            · exact zero
            · rw [← same] at list
              obtain ⟨rfl, _⟩ := List.cons.inj list
              rw [text, none] at sent
              exact absurd sent (Nat.not_lt_zero _)
          have popped := popHead_ok consistent short same.symm buffer (by omega)
          have plain
              : ({ c.listDelNode [] head tail with
                    sentlen := 0,
                    written := c.written ++ (c.textOf head.value).drop c.sentlen } : Client)
                = c.listDelNode [] head tail := by
            simp [text, none, listDelNode, unsent]
          rw [plain] at popped
          rw [if_pos (by simp [none])]
          obtain ⟨c', ran, sends, nonempty⟩ := ih popped.consistent popped.short rfl
          exact ⟨c', ran, popped.trans sends, nonempty⟩
        · rw [if_neg (by simpa using none)]
          refine ⟨c, rfl, ⟨consistent, short, fun _ => rfl⟩, fun _ first rest list => ?_⟩
          rw [← same] at list
          obtain ⟨rfl, _⟩ := List.cons.inj list
          rwa [text]
      · rw [if_pos buffer]
        exact ⟨c, rfl, ⟨consistent, short, fun _ => rfl⟩, fun empty => absurd empty buffer⟩

theorem sentFromBuffer_ok (consistent : Consistent c) (short : Short c) (some : c.buf ≠ [])
    (within : c.sentlen + n ≤ c.buf.length)
    : Sends c (c.sentFromBuffer n) := by
  unfold sentFromBuffer
  by_cases all : c.sentlen + n = c.buf.length
  · rw [if_pos all]
    refine ⟨{ consistent with room := Nat.zero_le _, sent := .inr ⟨rfl, .inl rfl⟩ }, short,
      fun unset => ?_⟩
    have taken : (c.buf.drop c.sentlen).take n = c.buf.drop c.sentlen :=
      List.take_of_length_le (by rw [List.length_drop]; omega)
    simp only [replied, buffered, taken, List.drop_zero, List.nil_append, List.append_assoc]
    rw [List.drop_append_of_le_length (by omega)]
    rfl
  · rw [if_neg all]
    refine ⟨{ consistent with sent := .inl ⟨some, by simp only; omega⟩ }, short, fun unset => ?_⟩
    have same : ∀ k written,
        ({ c with sentlen := k, written } : Client).replied unset
          = written ++ (c.buf ++ c.reply.flatMap (c.nodeText unset)).drop k :=
      fun _ _ => rfl
    have before := same c.sentlen c.written
    rw [same, List.append_assoc, ← take_drop_append within, written_drop]
    exact before.symm

theorem sentFromList_ok (consistent : Consistent c) (short : Short c)
    (list : c.reply = head :: tail) (empty : c.buf = [])
    (within : c.sentlen + n ≤ (c.textOf head.value).length)
    : Sends c (c.sentFromList n (c.textOf head.value) head tail) := by
  have mem : head ∈ c.reply := by simp [list]
  obtain ⟨string, length⟩ := short head mem
  unfold sentFromList
  rw [objlen_of_short length]
  by_cases all : c.sentlen + n = (c.textOf head.value).length
  · rw [if_pos (by exact_mod_cast all)]
    have taken
        : ((c.textOf head.value).drop c.sentlen).take n = (c.textOf head.value).drop c.sentlen :=
      List.take_of_length_le (by rw [List.length_drop]; omega)
    have popped := popHead_ok consistent short list empty (by omega)
    rw [taken]
    exact popped
  · rw [if_neg (by exact_mod_cast all)]
    refine ⟨?_, short, fun unset => ?_⟩
    · refine { consistent with sent := .inr ⟨empty, .inr ⟨head, tail, list, string, ?_⟩⟩ }
      exact lt_of_le_of_ne within all
    · have text : c.nodeText unset head = c.textOf head.value := if_neg string
      have first
          : c.buf ++ c.reply.flatMap (c.nodeText unset)
            = c.textOf head.value ++ tail.flatMap (c.nodeText unset) := by
        rw [empty, list, List.flatMap_cons, text, List.nil_append]
      have same : ∀ k written,
          ({ c with sentlen := k, written } : Client).replied unset
            = written ++ (c.textOf head.value ++ tail.flatMap (c.nodeText unset)).drop k :=
        fun k written => congrArg (written ++ List.drop k ·) first
      have before := same c.sentlen c.written
      rw [same, List.append_assoc, ← take_drop_append within, written_drop]
      exact before.symm

theorem sendLoop_ok (consistent : Consistent c) (short : Short c) (writes : List Write)
    (totwritten : Nat)
    : ∃ c', sendLoop writes totwritten c = .ok c' ∧ Sends c c' := by
  induction writes generalizing c totwritten with
  | nil =>
      obtain ⟨c', ran, sends, _⟩ := dropEmptyObjects_ok consistent short
      exact ⟨c', ran, sends⟩
  | cons w writes ih =>
      obtain ⟨c₁, ran, dropped, nonempty⟩ := dropEmptyObjects_ok consistent short
      unfold sendLoop
      rw [ran, ok_andThen]
      have continued : ∀ {c₂ : Client} (n : Nat), Sends c₁ c₂ →
          ∃ c',
            (if totwritten + n > maxWritePerEvent ∧ w.belowMaxmemory = true then pure c₂
              else sendLoop writes (totwritten + n) c₂) = Except.ok c'
            ∧ Sends c c' := by
        intro c₂ n sends
        split
        · exact ⟨c₂, rfl, dropped.trans sends⟩
        · obtain ⟨c', ran, rest⟩ := ih sends.consistent sends.short (totwritten + n)
          exact ⟨c', ran, (dropped.trans sends).trans rest⟩
      by_cases buffer : c₁.buf = []
      · rw [if_neg (not_not.mpr buffer)]
        cases list : c₁.reply with
        | nil => exact ⟨c₁, rfl, dropped⟩
        | cons head tail =>
            obtain ⟨v, s, found, _, read, text, length⟩ :=
              short_head dropped.short list dropped.consistent
            have sent : c₁.sentlen < s.length := by
              have some := List.length_pos_iff.mpr (nonempty buffer head tail list)
              obtain ⟨other, _⟩ | ⟨_, zero | ⟨first, rest, same, _, sent⟩⟩ :=
                dropped.consistent.sent
              · exact absurd buffer other
              · rw [text] at some
                omega
              · rw [list] at same
                obtain ⟨rfl, _⟩ := List.cons.inj same
                rwa [text] at sent
            dsimp only
            rw [object_of_value found, ok_andThen, read, ok_andThen, objlen_of_short length,
              if_neg (by omega)]
            split
            · exact ⟨c₁, rfl, dropped⟩
            · rw [← text]
              exact continued _ (sentFromList_ok dropped.consistent dropped.short list buffer
                (by rw [text]; omega))
      · rw [if_pos buffer]
        dsimp only
        split
        · exact ⟨c₁, rfl, dropped⟩
        · have sent : c₁.sentlen ≤ c₁.buf.length := by
            obtain ⟨_, sent⟩ | ⟨empty, _⟩ := dropped.consistent.sent
            · exact sent.le
            · exact absurd empty buffer
          exact continued _ (sentFromBuffer_ok dropped.consistent dropped.short buffer (by omega))

/-- What is sent leaves the buffers in order. -/
theorem sendReplyToClient_ok (consistent : Consistent c) (short : Short c)
    (writes : List Write)
    : ∃ c', c.sendReplyToClient writes = .ok c' ∧ Sends c c' := by
  obtain ⟨c', ran, sends⟩ := sendLoop_ok consistent short writes 0
  unfold sendReplyToClient
  rw [ran, ok_andThen]
  split
  · next done =>
      have sent : c'.sentlen = 0 := by
        obtain ⟨some, _⟩ | ⟨_, zero | ⟨head, tail, list, _⟩⟩ := sends.consistent.sent
        · exact absurd done.1 some
        · exact zero
        · rw [done.2] at list
          cases list
      have same : { c' with sentlen := 0 } = c' := by rw [← sent]
      exact ⟨c', by rw [same]; rfl, sends⟩
  · exact ⟨c', rfl, sends⟩

end Sending

end Client

end Redis.OutputBuffer
