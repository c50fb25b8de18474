import Redis.Networking.OutputBuffer

/-! The count of the bytes in a reply list, as both builds keep it. -/

namespace Redis.ReplyBytes

open OutputBuffer

variable {Block : Type}

/-- A string object and the block of its sds, which for `embstr` is that of the object also. `null`
stands for a deferred length.
-/
inductive Robj (Block : Type) where
  | null
  | raw (s : List UInt8) (block : Block)
  | embstr (s : List UInt8) (block : Block)
  | int (n : Int64)
deriving DecidableEq

/-- `zmalloc_size` at the start of a block, and at the sds that is inside the block of an object. -/
structure Allocator (Block : Type) where
  zmallocSize : Block → UInt64
  inside : Block → UInt64

def createStringObject (s : List UInt8) (block : Block) : Robj Block :=
  if s.length ≤ 39 then .embstr s block else .raw s block

def Robj.text : Robj Block → List UInt8
  | .raw s _ | .embstr s _ => s
  | .int n => decimalText n.toInt
  | .null => []

/-- `zmalloc_size_sds(o->ptr)`. -/
def zmallocSizeSds (mem : Allocator Block) : Robj Block → UInt64
  | .raw _ block => mem.zmallocSize block
  | .embstr _ block => mem.inside block
  | _ => 0

/-- `getStringObjectSdsUsedMemory`, and nothing for a deferred length. -/
def getStringObjectSdsUsedMemory (mem : Allocator Block) : Robj Block → UInt64
  | .raw _ block => mem.zmallocSize block
  | .embstr s _ => .ofNat s.length
  | _ => 0

@[simp]
theorem used_null (mem : Allocator Block) : getStringObjectSdsUsedMemory mem .null = 0 := rfl

@[simp]
theorem used_raw (mem : Allocator Block) (s : List UInt8) (block : Block)
    : getStringObjectSdsUsedMemory mem (.raw s block) = mem.zmallocSize block := rfl

/-- A client that `prepareClientToWrite` lets reply. An object in the list is a value here: one that
others have too is copied before it is written.
-/
structure Client (Block : Type) where
  closeAfterReply : Bool
  bufpos : Nat
  sentlen : Nat
  reply : List (Robj Block)
  replyBytes : UInt64
deriving DecidableEq

namespace Client

variable (mem : Allocator Block) (c : Client Block)

/-- A new node, which is counted. -/
def addNode (o : Robj Block) : Client Block :=
  { c with
    reply := c.reply ++ [o]
    replyBytes := c.replyBytes + getStringObjectSdsUsedMemory mem o }

/-- `_addReplyObjectToList`, `_addReplySdsToList` and `_addReplyStringToList`: the string of `o` is
appended to the last object, which then is in `block`, or `o` becomes a new node.
-/
def addReplyToList (o : Robj Block) (block : Block) : Client Block :=
  if c.closeAfterReply then c
  else
    match c.reply.getLast? with
    | some (.raw t old) =>
        if t.length + o.text.length ≤ replyChunkBytes then
          { c with
            reply := c.reply.dropLast ++ [.raw (t ++ o.text) block]
            replyBytes := c.replyBytes - mem.zmallocSize old + mem.zmallocSize block }
        else c.addNode mem o
    | _ => c.addNode mem o

/-- `_addReplyToBuffer`, and the list when the static buffer does not take the string. -/
def addReplyEncoded (o : Robj Block) (block : Block) : Client Block :=
  if c.closeAfterReply then c
  else if c.reply = [] ∧ o.text.length ≤ replyChunkBytes - c.bufpos then
    { c with bufpos := c.bufpos + o.text.length }
  else c.addReplyToList mem o block

/-- `addReply`; `block` is for the object that an integer is decoded to, and for the last object
when the string is appended to it.
-/
def addReply (o : Robj Block) (block : Block) : Client Block :=
  match o with
  | .int n => c.addReplyEncoded mem (createStringObject (decimalText n.toInt) block) block
  | _ => c.addReplyEncoded mem o block

/-- `addReplySds` for an sds in the block `own`. -/
def addReplySds (s : List UInt8) (own block : Block) : Client Block :=
  c.addReplyEncoded mem (.raw s own) block

def addReplyString (s : List UInt8) (block : Block) : Client Block :=
  c.addReplyEncoded mem (createStringObject s block) block

/-- `addReplyBulk`; `shared` is for the shared objects, the others are new. -/
def addReplyBulk (o : Robj Block) (shared : ObjRef → Block) (header body trailer : Block)
    : Client Block :=
  let len := o.text.length
  let s := 0x24 :: decimalText len ++ crlf
  let c :=
    if len < sharedBulkhdrLen then c.addReply mem (.raw s (shared (sharedBulkhdr len))) header
    else c.addReplyString mem s header
  (c.addReply mem o body).addReply mem (.raw crlf (shared sharedCrlf)) trailer

def addDeferredMultiBulkLength : Client Block := { c with reply := c.reply ++ [.null] }

/-- `setDeferredMultiBulkLength` for the node after `front`: the header is in the block `own`, and
in `block` when the next string was glued to it.
-/
def setDeferredMultiBulkLength (front back : List (Robj Block)) (length : Int64)
    (own block : Block)
    : Client Block :=
  let header := OutputBuffer.Client.deferredHeader length
  let replyBytes := c.replyBytes + mem.zmallocSize own
  match back with
  | [] => { c with reply := front ++ [.raw header own], replyBytes }
  | .null :: _ => { c with reply := front ++ .raw header own :: back, replyBytes }
  | next :: back =>
      { c with
        reply := front ++ .raw (header ++ next.text) block :: back
        replyBytes :=
          replyBytes - mem.zmallocSize own - getStringObjectSdsUsedMemory mem next
            + mem.zmallocSize block }

/-- One turn of the loop of `sendReplyToClient`, where `write` takes `n` bytes. -/
def sendReplyToClient (n : Nat) : Client Block :=
  let sentlen := c.sentlen + n
  if 0 < c.bufpos then
    if sentlen = c.bufpos then { c with bufpos := 0, sentlen := 0 } else { c with sentlen }
  else
    match c.reply with
    | [] => c
    | o :: reply =>
        let objlen := OutputBuffer.Client.objlen o.text
        let replyBytes := c.replyBytes - getStringObjectSdsUsedMemory mem o
        if objlen = 0 then { c with reply, replyBytes }
        else if sentlen = objlen then { c with reply, sentlen := 0, replyBytes }
        else { c with sentlen }

/-- One turn of the loop of `sendReplyToClient` under `_WIN32`. -/
def sendReplyToClientWin32 : Client Block :=
  if c.sentlen < c.bufpos then { c with sentlen := c.bufpos }
  else
    match c.reply with
    | [] => c
    | o :: reply =>
        if OutputBuffer.Client.objlen o.text = 0 then { c with reply }
        else { c with reply, replyBytes := c.replyBytes - zmallocSizeSds mem o }

/-- `sendReplyBufferDone`; `offset` is where the part that was sent ends. -/
def sendReplyBufferDone (offset : Nat) : Client Block :=
  if c.bufpos = offset then { c with bufpos := 0, sentlen := 0 } else c

end Client

-- Runs

/-- The calls of a client. A length is set in the `i`-th node; the last three are turns of the two
loops and the end of a queued send.
-/
inductive Event (Block : Type) where
  | closeAfterReply
  | addReply (o : Robj Block) (block : Block)
  | addReplySds (s : List UInt8) (own block : Block)
  | addReplyString (s : List UInt8) (block : Block)
  | addReplyBulk (o : Robj Block) (shared : ObjRef → Block) (header body trailer : Block)
  | addDeferredMultiBulkLength
  | setDeferredMultiBulkLength (i : Nat) (length : Int64) (own block : Block)
  | sendReplyToClient (n : Nat)
  | sendReplyToClientWin32
  | sendReplyBufferDone (offset : Nat)

/-- A length that is still to be set. -/
def Robj.isNull : Robj Block → Bool
  | .null => true
  | _ => false

/-- A length is set once, and all of them before the list is sent; a call that breaks this does not
occur.
-/
def Client.step (mem : Allocator Block) (c : Client Block) : Event Block → Client Block
  | .closeAfterReply => { c with closeAfterReply := true }
  | .addReply o block => c.addReply mem o block
  | .addReplySds s own block => c.addReplySds mem s own block
  | .addReplyString s block => c.addReplyString mem s block
  | .addReplyBulk o shared header body trailer => c.addReplyBulk mem o shared header body trailer
  | .addDeferredMultiBulkLength => c.addDeferredMultiBulkLength
  | .setDeferredMultiBulkLength i length own block =>
      match c.reply.drop i with
      | .null :: back => c.setDeferredMultiBulkLength mem (c.reply.take i) back length own block
      | _ => c
  | .sendReplyToClient n => if c.reply.any Robj.isNull then c else c.sendReplyToClient mem n
  | .sendReplyToClientWin32 =>
      if c.reply.any Robj.isNull then c else c.sendReplyToClientWin32 mem
  | .sendReplyBufferDone offset => c.sendReplyBufferDone offset

def run (mem : Allocator Block) (events : List (Event Block)) : Client Block :=
  events.foldl (Client.step mem) ⟨false, 0, 0, [], 0⟩

-- Exactness

namespace Client

variable (mem : Allocator Block) {c : Client Block}

def usedMemory (reply : List (Robj Block)) : Nat :=
  (reply.map fun o => (getStringObjectSdsUsedMemory mem o).toNat).sum

/-- `replyBytes` is the used memory, as far as 64 bits can tell. -/
def Exact (c : Client Block) : Prop :=
  c.replyBytes.toNat = usedMemory mem c.reply % 2 ^ 64

/-- What a turn of the Windows loop subtracts is the used memory of the object that it removes. -/
def Settled (c : Client Block) : Prop :=
  ∀ o ∈ c.reply.head?,
    getStringObjectSdsUsedMemory mem o
      = if OutputBuffer.Client.objlen o.text = 0 then 0 else zmallocSizeSds mem o

variable {mem}

theorem Exact.addNode (exact : Exact mem c) (o : Robj Block) : Exact mem (c.addNode mem o) := by
  simp only [Exact, usedMemory, Client.addNode, UInt64.toNat_add, List.map_append, List.sum_append,
    List.map_cons, List.map_nil, List.sum_cons, List.sum_nil] at exact ⊢
  omega

/-- The old block of the last object is taken off before the new one is counted. -/
theorem Exact.addReplyToList (exact : Exact mem c) (o : Robj Block) (block : Block)
    : Exact mem (c.addReplyToList mem o block) := by
  unfold Client.addReplyToList
  split
  · exact exact
  · split
    · next t old last =>
        split
        · obtain ⟨front, list⟩ := List.getLast?_eq_some_iff.mp last
          simp only [Exact, usedMemory, list, List.dropLast_concat, UInt64.toNat_add,
            UInt64.toNat_sub, List.map_append, List.sum_append, List.map_cons, List.map_nil,
            List.sum_cons, List.sum_nil, used_raw] at exact ⊢
          have bound := (mem.zmallocSize old).toNat_lt
          omega
        · exact exact.addNode o
    · exact exact.addNode o

theorem Exact.addReplyEncoded (exact : Exact mem c) (o : Robj Block) (block : Block)
    : Exact mem (c.addReplyEncoded mem o block) := by
  unfold Client.addReplyEncoded
  split
  · exact exact
  · split
    · exact exact
    · exact exact.addReplyToList o block

theorem Exact.addReply (exact : Exact mem c) (o : Robj Block) (block : Block)
    : Exact mem (c.addReply mem o block) := by
  cases o <;> exact exact.addReplyEncoded _ block

theorem Exact.addReplyBulk (exact : Exact mem c) (o : Robj Block) (shared : ObjRef → Block)
    (header body trailer : Block)
    : Exact mem (c.addReplyBulk mem o shared header body trailer) := by
  refine Exact.addReply (Exact.addReply ?_ o body) _ trailer
  split
  · exact exact.addReply _ header
  · exact exact.addReplyEncoded _ header

/-- The header is counted, and with it the string that is glued to it instead of its own node. -/
theorem Exact.setDeferredMultiBulkLength (exact : Exact mem c) {front back : List (Robj Block)}
    (list : c.reply = front ++ .null :: back) (length : Int64) (own block : Block)
    : Exact mem (c.setDeferredMultiBulkLength mem front back length own block) := by
  unfold Client.setDeferredMultiBulkLength
  split <;>
    simp only [Exact, usedMemory, list, UInt64.toNat_add, UInt64.toNat_sub, List.map_append,
      List.sum_append, List.map_cons, List.map_nil, List.sum_cons, List.sum_nil,
      used_raw, used_null, UInt64.toNat_zero] at exact ⊢
  · omega
  · omega
  · next next _ _ =>
      have bound := (mem.zmallocSize own).toNat_lt
      have bound' := (getStringObjectSdsUsedMemory mem next).toNat_lt
      omega

/-- The head is taken off with what is subtracted when that is its used memory. -/
theorem Exact.tail_iff (exact : Exact mem c) {o : Robj Block} {reply : List (Robj Block)}
    (list : c.reply = o :: reply) (n : UInt64) (bufpos sentlen : Nat)
    : Exact mem ⟨c.closeAfterReply, bufpos, sentlen, reply, c.replyBytes - n⟩
      ↔ getStringObjectSdsUsedMemory mem o = n := by
  simp only [Exact, usedMemory, list, List.map_cons, List.sum_cons, UInt64.toNat_sub,
    ← UInt64.toNat_inj] at exact ⊢
  have bound := (getStringObjectSdsUsedMemory mem o).toNat_lt
  have bound' := n.toNat_lt
  omega

theorem Exact.sendReplyToClient (exact : Exact mem c) (n : Nat)
    : Exact mem (c.sendReplyToClient mem n) := by
  unfold Client.sendReplyToClient
  dsimp only
  split
  · split <;> exact exact
  · split
    · exact exact
    · next list =>
        have tail sentlen := (exact.tail_iff list _ c.bufpos sentlen).mpr rfl
        split
        · exact tail _
        · split
          · exact tail _
          · exact exact

theorem Exact.sendReplyToClientWin32_iff (exact : Exact mem c)
    : Exact mem (c.sendReplyToClientWin32 mem) ↔ c.bufpos ≤ c.sentlen → Settled mem c := by
  unfold Client.sendReplyToClientWin32 Settled
  split
  · next queued => exact ⟨fun _ sent => by omega, fun _ => exact⟩
  · next sent =>
      rw [forall_prop_of_true (Nat.le_of_not_lt sent)]
      split
      · next none => simp [none, exact]
      · next list =>
          simp only [list, List.head?_cons, Option.mem_def, Option.some.injEq, forall_eq']
          split
          · simpa using exact.tail_iff list 0 c.bufpos c.sentlen
          · exact exact.tail_iff list _ c.bufpos c.sentlen

/-- A turn of the Windows loop that comes to the list finds a head with the right size. -/
def SettledAt (mem : Allocator Block) (c : Client Block) : Event Block → Prop
  | .sendReplyToClientWin32 =>
      ¬c.reply.any Robj.isNull → c.bufpos ≤ c.sentlen → c.Settled mem
  | _ => True

theorem Exact.step_iff (exact : Exact mem c) (event : Event Block)
    : Exact mem (c.step mem event) ↔ SettledAt mem c event := by
  cases event with
  | sendReplyToClientWin32 =>
      rw [step, SettledAt]
      split
      · next unset => exact ⟨fun _ set => absurd unset set, fun _ => exact⟩
      · next set =>
          rw [exact.sendReplyToClientWin32_iff]
          exact ⟨fun settled _ => settled, fun settled => settled set⟩
  | closeAfterReply => exact iff_of_true exact trivial
  | addReply o block => exact iff_of_true (exact.addReply o block) trivial
  | addReplySds s own block => exact iff_of_true (exact.addReplyEncoded _ block) trivial
  | addReplyString s block => exact iff_of_true (exact.addReplyEncoded _ block) trivial
  | addReplyBulk o shared header body trailer =>
      exact iff_of_true (exact.addReplyBulk o shared header body trailer) trivial
  | addDeferredMultiBulkLength =>
      refine iff_of_true ?_ trivial
      simpa [Exact, usedMemory, step, Client.addDeferredMultiBulkLength] using exact
  | setDeferredMultiBulkLength i length own block =>
      refine iff_of_true ?_ trivial
      rw [step]
      split
      · next back rest =>
          refine exact.setDeferredMultiBulkLength ?_ length own block
          rw [← rest, List.take_append_drop]
      · exact exact
  | sendReplyToClient n =>
      refine iff_of_true ?_ trivial
      rw [step]
      split
      · exact exact
      · exact exact.sendReplyToClient n
  | sendReplyBufferDone offset =>
      refine iff_of_true ?_ trivial
      rw [step, Client.sendReplyBufferDone]
      split <;> exact exact

end Client

open Client

/-- The bytes are counted exactly all along a run if and only if no turn of the Windows loop removes
an object whose used memory is not what the loop subtracts.
-/
theorem replyBytes_exact_iff (mem : Allocator Block) (events : List (Event Block))
    : (∀ before, before <+: events → Exact mem (run mem before))
      ↔ ∀ before event, before ++ [event] <+: events → SettledAt mem (run mem before) event := by
  have next before event : run mem (before ++ [event]) = (run mem before).step mem event := by
    rw [run, List.foldl_concat]
    rfl
  constructor
  · intro exact before event part
    have now := exact before ((List.prefix_append before [event]).trans part)
    rw [← now.step_iff, ← next]
    exact exact _ part
  · intro settled before
    induction before using List.reverseRecOn with
    | nil => exact fun _ => rfl
    | append_singleton before event ih =>
        intro part
        have now := ih ((List.prefix_append before [event]).trans part)
        rw [next]
        exact (now.step_iff event).mpr (settled before event part)

/-- A header and a small string are sent on Windows, where the sds in the block of an object has the
size of that block. The empty list is left with a count below zero.
-/
theorem replyBytes_wraps :
    ¬∀ (mem : Allocator Unit) (events : List (Event Unit)), Exact mem (run mem events) := by
  intro exact
  have sent := exact ⟨fun _ => 16, fun _ => 16⟩ [.addDeferredMultiBulkLength,
    .addReply (.embstr [0x61] ()) (), .addReply (.embstr [0x62] ()) (),
    .setDeferredMultiBulkLength 0 2 () (), .sendReplyToClientWin32, .sendReplyToClientWin32]
  revert sent
  unfold Exact
  decide +kernel

end Redis.ReplyBytes
