import Redis.Networking.OutputOrder

/-! Runs of replies and of the socket: the bytes arrive in the order of the calls. -/

namespace Redis.OutputBuffer

open Redis.Library

variable {c : Client} {s s' : Conversation} {event : Event} {unset : NodeRef → List UInt8}

-- Replies

theorem concatenation_append (replies : List Piece) (piece : Piece)
    : concatenation unset (replies ++ [piece])
      = concatenation unset replies ++ concatenation unset [piece] :=
  List.flatMap_append

theorem concatenation_set (node : NodeRef) (header : List UInt8) (replies : List Piece)
    : concatenation unset (replies.map (Piece.set node header))
      = concatenation (Function.update unset node header) replies := by
  rw [concatenation, concatenation, List.flatMap_map]
  refine List.flatMap_congr fun piece _ => ?_
  cases piece with
  | bytes t => rfl
  | header other =>
      by_cases same : other = node
      · simp [Piece.set, same]
      · simp [Piece.set, same]

-- One event

/-- The objects that are sent are shorter than `2 ^ 31` bytes, so that an `int` takes their length,
and the strings that are made of other bytes are shorter than `2 ^ 32`.
-/
def Event.fits (c : Client) : Event → Bool
  | .addReplyString s => s.length < 2 ^ 32
  | .setDeferredMultiBulkLength node length =>
      (Client.deferredHeader length).length + (c.glued node).length < 2 ^ 32
  | .sendReplyToClient _ => c.reply.all fun node => (c.textOf node.value).length < 2 ^ 31
  | _ => true

/-- The output is the replies in the order of the calls. -/
structure Conversation.InOrder (s : Conversation) : Prop where
  consistent : s.client.Consistent
  replied : ∀ unset, s.client.replied unset = concatenation unset s.replies

open Client in
theorem init_consistent : Client.Consistent .init where
  counts := by
    refine ⟨fun o => ?_, fun o referred => ?_, fun o above => ?_⟩
    · by_cases crlf : o = Redis.OutputBuffer.sharedCrlf
      · subst crlf
        rfl
      · by_cases small : o ≤ sharedBulkhdrLen <;>
          simp [CountedHeap.refcount, Client.init, refs, sharedObject, crlf, small]
    · have small : o ≤ sharedBulkhdrLen := by
        by_contra large
        simp [Client.init, refs, large] at referred
      by_cases crlf : o = Redis.OutputBuffer.sharedCrlf <;>
        simp [Client.init, sharedObject, crlf, small]
    · have large : ¬ o ≤ sharedBulkhdrLen := Nat.not_le.mpr above
      have crlf : o ≠ Redis.OutputBuffer.sharedCrlf := by
        rintro rfl
        exact large (Nat.zero_le _)
      simp [Client.init, sharedObject, crlf, large]
  heldValue o held := by
    have small : o ≤ sharedBulkhdrLen := by
      by_contra large
      simp [Client.init, large] at held
    by_cases crlf : o = Redis.OutputBuffer.sharedCrlf
    · exact ⟨.raw Redis.crlf, by rw [crlf]; rfl, by simp, by decide⟩
    · have below : o ≤ 32 := small
      have word : o - 1 < 2 ^ 63 :=
        lt_of_le_of_lt (Nat.sub_le o 1) (lt_of_le_of_lt below (by decide))
      have digits := length_decimalText_natCast word
      refine ⟨.raw (0x24 :: decimalText (o - 1 : Nat) ++ Redis.crlf), ?_, by simp, ?_⟩
      · simp [CountedHeap.value, Client.init, sharedObject, crlf, small]
      · simp only [Robj.text, Robj.stringObject, StringObject.text, List.length_append,
          List.length_cons, Redis.crlf, List.length_nil]
        omega
  nodeValue _ mem := by cases mem
  deferredOnce _ mem := by cases mem
  nodesOnce := .nil
  nodesOld _ mem := by cases mem
  room := Nat.zero_le _
  sent := .inr ⟨rfl, .inl rfl⟩
  sharedCrlf := ⟨by decide, rfl⟩
  sharedBulkhdr len short := by
    have small : sharedBulkhdr len ≤ sharedBulkhdrLen := short
    have crlf : sharedBulkhdr len ≠ Redis.OutputBuffer.sharedCrlf := Nat.succ_ne_zero len
    refine ⟨?_, ?_⟩
    · simp only [Client.init, if_pos small]
      decide
    · simp only [CountedHeap.value, Client.init, sharedObject, if_neg crlf, if_pos small,
        Option.map_some]
      rfl

theorem inOrder_append {t : List UInt8} (order : s.InOrder) {c' : Client}
    (appends : Client.Appends s.client c' t)
    : Conversation.InOrder ⟨c', s.replies ++ [.bytes t]⟩ where
  consistent := appends.consistent
  replied unset := by
    rw [appends.replied, order.replied, concatenation_append]
    congr 1
    simp [concatenation]

theorem inOrder_same (order : s.InOrder) {c' : Client} (consistent : c'.Consistent)
    (same : ∀ unset, c'.replied unset = s.client.replied unset)
    : Conversation.InOrder ⟨c', s.replies⟩ :=
  ⟨consistent, fun unset => (same unset).trans (order.replied unset)⟩

theorem step_inOrder (order : s.InOrder) (fits : event.fits s.client = true)
    : ∃ s', s.step event = .ok s' ∧ s'.InOrder := by
  unfold Conversation.step Client.step
  by_cases possible : event.possible s.client = true
  · rw [if_pos possible, if_pos possible]
    have done : ∀ {c'}, s.client.execute event = .ok c'
        → Conversation.InOrder ⟨c', event.replies s.client s.replies⟩
        → ∃ s',
            (do
              let client ← s.client.execute event
              return Conversation.mk client (event.replies s.client s.replies)) = Except.ok s'
            ∧ s'.InOrder := by
      intro c' ran order'
      exact ⟨_, by rw [ran, ok_andThen]; rfl, order'⟩
    have consistent := order.consistent
    cases event with
    | create value =>
        obtain ⟨string, short⟩ : value ≠ .null ∧ value.text.length < 2 ^ 32 := by
          simpa [Event.possible] using possible
        obtain ⟨kept, same⟩ := Client.create_ok consistent string short
        exact done rfl (inOrder_same order kept same)
    | incrRefCount o =>
        obtain ⟨kept, same⟩ :=
          Client.incrRefCount_ok (o := o) consistent (by simpa [Event.possible] using possible)
        exact done rfl (inOrder_same order kept same)
    | decrRefCount o =>
        obtain ⟨held, unshared⟩ : 0 < s.client.held o ∧ sharedBulkhdrLen < o := by
          simpa [Event.possible] using possible
        obtain ⟨kept, same⟩ := Client.decrRefCount_ok consistent held unshared
        exact done rfl (inOrder_same order kept same)
    | modify o t =>
        obtain ⟨⟨⟨held, own⟩, unshared⟩, short⟩ : ((s.client.held o = 1
            ∧ s.client.heap.refcount o = 1) ∧ sharedBulkhdrLen < o) ∧ t.length < 2 ^ 32 := by
          simpa [Event.possible] using possible
        obtain ⟨kept, same⟩ := Client.modify_ok consistent held own unshared short
        exact done rfl (inOrder_same order kept same)
    | addReply o =>
        obtain ⟨c', ran, appends⟩ :=
          Client.addReply_ok (o := o) consistent (by simpa [Event.possible] using possible)
        exact done ran (inOrder_append order appends)
    | addReplySds t =>
        obtain ⟨c', ran, appends⟩ := Client.addReplySds_ok consistent t
        exact done ran (inOrder_append order appends)
    | addReplyString t =>
        obtain ⟨c', ran, appends⟩ :=
          Client.addReplyString_ok consistent (by simpa [Event.fits] using fits)
        exact done ran (inOrder_append order appends)
    | addReplyBulk o =>
        obtain ⟨c', ran, appends⟩ :=
          Client.addReplyBulk_ok (o := o) consistent (by simpa [Event.possible] using possible)
        exact done ran (inOrder_append order appends)
    | addDeferredMultiBulkLength =>
        have pushed := Client.pushed_alloc consistent .null (by simp)
        refine done rfl ⟨pushed.consistent consistent, fun unset => ?_⟩
        have header : concatenation unset [.header s.client.nextNode]
            = unset s.client.nextNode := by
          simp [concatenation]
        rw [Event.replies, concatenation_append, header, ← order.replied]
        refine (pushed.replied consistent).trans ?_
        congr 1
        exact Client.nodeText_of_null pushed.here
    | setDeferredMultiBulkLength node length =>
        obtain ⟨c', ran, kept, same⟩ := Client.setDeferredMultiBulkLength_ok consistent
          (by simpa [Event.possible] using possible) length (by simpa [Event.fits] using fits)
        refine done ran ⟨kept, fun unset => ?_⟩
        rw [same, order.replied, Event.replies, concatenation_set]
    | sendReplyToClient writes =>
        have set : s.client.deferred = [] := by simpa [Event.possible] using possible
        have short : Client.Short s.client := by
          intro node mem
          refine ⟨fun null => ?_, by simpa using List.all_eq_true.mp fits node mem⟩
          have unset : node.ref ∈ s.client.deferred :=
            List.mem_map_of_mem (List.mem_filter.mpr ⟨mem, by simpa using null⟩)
          rw [set] at unset
          cases unset
        obtain ⟨c', ran, sends⟩ := Client.sendReplyToClient_ok consistent short writes
        exact done ran (inOrder_same order sends.consistent sends.replied)
  · rw [if_neg possible, if_neg possible]
    exact ⟨s, rfl, order⟩

-- Runs

/-- Every event of a run is one whose objects fit. -/
def fittingRun : Conversation → List Event → Bool
  | _, [] => true
  | s, event :: events =>
      event.fits s.client
      && match s.step event with
        | .ok s' => fittingRun s' events
        | .error _ => true

theorem run_inOrder {events : List Event} (order : s.InOrder) (fits : fittingRun s events = true)
    : ∃ s', run s events = .ok s' ∧ s'.InOrder := by
  induction events generalizing s with
  | nil => exact ⟨s, rfl, order⟩
  | cons event events ih =>
      obtain ⟨here, later⟩ := Bool.and_eq_true_iff.mp fits
      obtain ⟨s₁, first, order₁⟩ := step_inOrder order here
      rw [first] at later
      obtain ⟨s₂, rest, order₂⟩ := ih order₁ later
      exact ⟨s₂, by rw [run, List.foldlM_cons, first, ok_andThen]; exact rest, order₂⟩

/-- As long as no object of `2 ^ 31` bytes is sent and no string of `2 ^ 32` bytes made: what was
written and what is still buffered are the replies in the order of the calls, with each header in
its place.
-/
theorem replies_leave_in_order {events : List Event} (fits : fittingRun .init events = true)
    : ∃ s,
        run .init events = .ok s
        ∧ ∀ unset,
          s.client.written ++ s.client.buffered unset = concatenation unset s.replies := by
  have start : Conversation.InOrder .init := ⟨init_consistent, fun _ => rfl⟩
  obtain ⟨s, ran, order⟩ := run_inOrder start fits
  exact ⟨s, ran, order.replied⟩

/-- Two replies that share the list with a deferred length, and one byte that is sent. -/
def smallReplies : List Event :=
  [.addDeferredMultiBulkLength, .addReplySds [0x61], .addReplyString [0x62],
    .setDeferredMultiBulkLength 0 2, .sendReplyToClient [⟨1, true⟩]]

theorem smallReplies_in_order
    : ∃ s,
        run .init smallReplies = .ok s
        ∧ ∀ unset,
          s.client.written ++ s.client.buffered unset = concatenation unset s.replies :=
  replies_leave_in_order (by decide +kernel)

-- Objects of 2 ^ 31 bytes

/-- A reply of `2 ^ 31` bytes, and a socket that takes some of it. -/
def longReply : List Event :=
  [.addReplySds (List.replicate (2 ^ 31) 0), .sendReplyToClient [⟨1, true⟩]]

theorem sendReplyToClient_long {o : ObjRef} {t : List UInt8} (buf : c.buf = [])
    (reply : c.reply = [⟨0, o⟩]) (there : c.heap.value o = some (.raw t))
    (length : t.length = 2 ^ 31) (w : Client.Write)
    : c.sendReplyToClient [w] = .error .outOfBounds := by
  have negative : Client.objlen t = -2 ^ 31 := by
    have cast : (t.length : Int) = 2147483648 := by omega
    unfold Client.objlen
    rw [cast]
    rfl
  have object := Client.object_of_value there
  have dropped : Client.dropEmptyObjects c.reply c = .ok c := by
    rw [reply, Client.dropEmptyObjects, if_neg (not_not.mpr buf), object, ok_andThen, Robj.sds,
      ok_andThen, negative, if_neg (by decide)]
    rfl
  unfold Client.sendReplyToClient Client.sendLoop
  rw [dropped, ok_andThen, if_neg (not_not.mpr buf), reply]
  dsimp only
  rw [object, ok_andThen, Robj.sds, ok_andThen, negative, if_pos (by omega)]
  rfl

/-- The reply of `2 ^ 31` bytes is not sent. -/
theorem longReply_not_sent
    : ¬ ∃ s,
        run .init longReply = .ok s
        ∧ ∀ unset,
          s.client.written ++ s.client.buffered unset = concatenation unset s.replies := by
  obtain ⟨t, same, length⟩ : ∃ t : List UInt8, List.replicate (2 ^ 31) 0 = t ∧ t.length = 2 ^ 31 :=
    ⟨_, rfl, List.length_replicate⟩
  let c : Client := Client.init.addNewObject (.raw t)
  have added : Conversation.init.step (.addReplySds t) = .ok ⟨c, [.bytes t]⟩ := by
    have full : Client.init.addReplyToBuffer t = none := by
      have large : t.length > replyChunkBytes - Client.init.buf.length := by
        rw [length]
        decide
      have empty : ¬ Client.init.reply ≠ [] := not_not.mpr rfl
      rw [Client.addReplyToBuffer, if_neg empty, if_pos large]
    have ran : Client.init.addReplySds t = .ok c := by
      rw [Client.addReplySds, full]
      rfl
    have possible : Event.possible .init (.addReplySds t) = true := by
      simp [Event.possible, length]
    have there : Conversation.init.client = .init := rfl
    rw [Conversation.step, Client.step, there, if_pos possible, if_pos possible]
    exact congrArg (· >>= fun client => pure (Conversation.mk client [.bytes t])) ran
  have there : c.heap.value (sharedBulkhdrLen + 1) = some (.raw t) :=
    CountedHeap.value_alloc_next
  have sent : Conversation.step ⟨c, [.bytes t]⟩ (.sendReplyToClient [⟨1, true⟩])
      = .error .outOfBounds := by
    have set : c.deferred = [] := by
      have list : c.reply = [⟨0, sharedBulkhdrLen + 1⟩] := rfl
      simp [Client.deferred, list, there]
    have failed : c.sendReplyToClient [⟨1, true⟩] = .error .outOfBounds :=
      sendReplyToClient_long rfl rfl there length ⟨1, true⟩
    have possible : Event.possible c (.sendReplyToClient [⟨1, true⟩]) = true := by
      simp [Event.possible, set]
    rw [Conversation.step, Client.step, if_pos possible]
    exact congrArg (· >>= fun client => pure (Conversation.mk client _)) failed
  rintro ⟨s, ran, _⟩
  rw [run, longReply, same, List.foldlM_cons, added, ok_andThen, List.foldlM_cons, sent] at ran
  cases ran

end Redis.OutputBuffer
