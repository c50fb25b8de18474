import Redis.Library.RefCounts
import Redis.Replication.Encoding
import Redis.Util.Sds

/-! The output buffers of a client: a static buffer, and then a list of objects. -/

namespace Redis.OutputBuffer

open Redis.Library Redis.Util

-- Objects and clients

/-- A string object by its encoding. `null` is the object without a string that stands for a
deferred length.
-/
inductive Robj where
  | null
  | raw (s : List UInt8)
  | embstr (s : List UInt8)
  | int (n : Int64)
deriving DecidableEq, Repr

namespace Robj

def createStringObject (s : List UInt8) : Robj :=
  if s.length ≤ 39 then .embstr s else .raw (sdsnewlen s)

def sds : Robj → Except Fault (List UInt8)
  | .raw s | .embstr s => .ok s
  | .null => .error .nullPointer
  | .int _ => .error .outOfBounds

/-- What is read of an object through `getDecodedObject` and the like. -/
def stringObject : Robj → StringObject
  | .raw s | .embstr s => .sds s
  | .int n => .int n
  | .null => .sds []

def text (o : Robj) : List UInt8 := o.stringObject.text

end Robj

abbrev ObjRef := Nat

/-- The address of a node of the reply list. -/
abbrev NodeRef := Nat

structure ReplyNode where
  ref : NodeRef
  value : ObjRef
deriving DecidableEq, Repr

/-- A client that `prepareClientToWrite` lets reply and that is not closed after its reply, with the
objects that it may share with others. `buf` holds the first `bufpos` bytes of the static buffer,
`held` counts the references to an object outside the reply list, and `written` is what the calls of
`write` have taken.
-/
structure Client where
  heap : CountedHeap Robj
  held : ObjRef → Nat
  buf : List UInt8
  sentlen : Nat
  reply : List ReplyNode
  nextNode : NodeRef
  written : List UInt8

/-- `REDIS_REPLY_CHUNK_BYTES`. -/
def replyChunkBytes : Nat := 16 * 1024

/-- `REDIS_MAX_WRITE_PER_EVENT`. -/
def maxWritePerEvent : Nat := 1024 * 64

def sharedCrlf : ObjRef := 0

/-- `shared.bulkhdr[len]`. -/
def sharedBulkhdr (len : Nat) : ObjRef := len + 1

/-- The objects of `createSharedObjects` that are used here. -/
def sharedObject (o : ObjRef) : Option (Counted Robj) :=
  if o = sharedCrlf then some ⟨.raw crlf, 1⟩
  else if o ≤ sharedBulkhdrLen then some ⟨.raw (0x24 :: decimalText (o - 1 : Nat) ++ crlf), 1⟩
  else none

/-- A new client on a server that has nothing but the shared objects. -/
def Client.init : Client where
  heap := ⟨sharedObject, sharedBulkhdrLen + 1⟩
  held o := if o ≤ sharedBulkhdrLen then 1 else 0
  buf := []
  sentlen := 0
  reply := []
  nextNode := 0
  written := []

namespace Client

variable (c : Client)

def object (o : ObjRef) : Except Fault Robj :=
  match c.heap.value o with
  | some value => .ok value
  | none => .error .outOfBounds

/-- Someone makes an object, and keeps the reference. -/
def create (value : Robj) : Client :=
  { c with heap := c.heap.alloc value, held := Function.update c.held c.heap.next 1 }

def incrRefCount (o : ObjRef) : Client :=
  { c with heap := c.heap.incr o, held := Function.update c.held o (c.held o + 1) }

def decrRefCount (o : ObjRef) : Client :=
  { c with heap := c.heap.decr o, held := Function.update c.held o (c.held o - 1) }

/-- Who has the only reference to an object changes the string. -/
def modify (o : ObjRef) (s : List UInt8) : Client := { c with heap := c.heap.store o (.raw s) }

-- The reply list

def listAddNodeTail (o : ObjRef) : Client :=
  { c with reply := c.reply ++ [⟨c.nextNode, o⟩], nextNode := c.nextNode + 1 }

def addNewObject (o : Robj) : Client :=
  { c with heap := c.heap.alloc o }.listAddNodeTail c.heap.next

/-- `listDelNode` on the node after `front`. -/
def listDelNode (front : List ReplyNode) (node : ReplyNode) (back : List ReplyNode) : Client :=
  { c with heap := c.heap.decr node.value, reply := front ++ back }

/-- `dupLastObjectIfNeeded` for the last node of the list. -/
def dupLastObjectIfNeeded (last : ReplyNode) : Except Fault (Client × ObjRef) := do
  let cur ← c.object last.value
  if c.heap.refcount last.value > 1 then
    let reply := c.reply.dropLast ++ [⟨last.ref, c.heap.next⟩]
    return ({ c with heap := (c.heap.alloc cur).decr last.value, reply }, c.heap.next)
  return (c, last.value)

/-- A string is appended to the last object when that has room, and becomes a new node otherwise:
what `_addReplyObjectToList`, `_addReplySdsToList` and `_addReplyStringToList` share.
-/
def addToList (s : List UInt8) (addNode : Client → Client) : Except Fault Client :=
  match c.reply.getLast? with
  | none => .ok (addNode c)
  | some last => do
      match ← c.object last.value with
      | .raw t =>
          if t.length + s.length ≤ replyChunkBytes then
            let (c, tail) ← c.dupLastObjectIfNeeded last
            return { c with heap := c.heap.store tail (.raw (sdscatlen t s)) }
          else return addNode c
      | _ => return addNode c

def addReplyObjectToList (o : ObjRef) : Except Fault Client := do
  let s ← (← c.object o).sds
  c.addToList s fun c => { c with heap := c.heap.incr o }.listAddNodeTail o

def addReplySdsToList (s : List UInt8) : Except Fault Client :=
  c.addToList s (·.addNewObject (.raw s))

def addReplyStringToList (s : List UInt8) : Except Fault Client :=
  c.addToList s (·.addNewObject (.createStringObject s))

-- Replies

/-- `_addReplyToBuffer`; `none` is `REDIS_ERR`. -/
def addReplyToBuffer (s : List UInt8) : Option Client :=
  if c.reply ≠ [] then none
  else if s.length > replyChunkBytes - c.buf.length then none
  else some { c with buf := c.buf ++ s }

/-- The case of `addReply` for an object with a string. -/
def addReplyEncoded (o : ObjRef) (s : List UInt8) : Except Fault Client :=
  match c.addReplyToBuffer s with
  | some c => .ok c
  | none => c.addReplyObjectToList o

/-- The integer of an object is put on the heap as a string, and released when it was added. -/
def addReplyDecoded (text : List UInt8) : Except Fault Client := do
  let c' ← (c.create (.createStringObject text)).addReplyEncoded c.heap.next text
  return c'.decrRefCount c.heap.next

def addReply (o : ObjRef) : Except Fault Client := do
  match ← c.object o with
  | .int n =>
      let text ← ll2text 32 n.toInt
      if c.reply = [] ∧ replyChunkBytes - c.buf.length ≥ 32 then
        match c.addReplyToBuffer text with
        | some c => return c
        | none => c.addReplyDecoded text
      else c.addReplyDecoded text
  | value => c.addReplyEncoded o (← value.sds)

def addReplySds (s : List UInt8) : Except Fault Client :=
  match c.addReplyToBuffer s with
  | some c => .ok c
  | none => c.addReplySdsToList s

def addReplyString (s : List UInt8) : Except Fault Client :=
  match c.addReplyToBuffer s with
  | some c => .ok c
  | none => c.addReplyStringToList s

/-- `addReplyLongLongWithPrefix` with `$` as the prefix. -/
def addReplyLongLongWithPrefix (ll : Nat) : Except Fault Client :=
  if ll < sharedBulkhdrLen then c.addReply (sharedBulkhdr ll)
  else do c.addReplyString (0x24 :: (← ll2text 127 ll) ++ crlf)

def addReplyBulkLen (o : ObjRef) : Except Fault Client := do
  let len ← bulkLen (← c.object o).stringObject
  if len < sharedBulkhdrLen then c.addReply (sharedBulkhdr len)
  else c.addReplyLongLongWithPrefix len

def addReplyBulk (o : ObjRef) : Except Fault Client := do
  let c ← c.addReplyBulkLen o
  let c ← c.addReply o
  c.addReply sharedCrlf

-- Deferred lengths

/-- `addDeferredMultiBulkLength`; the result is `nextNode`. -/
def addDeferredMultiBulkLength : Client := c.addNewObject .null

/-- The line that `setDeferredMultiBulkLength` makes of a length. -/
def deferredHeader (length : Int64) : List UInt8 := 0x2A :: decimalText length.toInt ++ crlf

/-- The header is glued to the next object when that has a string. -/
def glue (front : List ReplyNode) (node : ReplyNode) (header : List UInt8)
    : List ReplyNode → Except Fault Client
  | [] => .ok c
  | next :: back => do
      match ← c.object next.value with
      | .null => return c
      | value =>
          let c :=
            { c with heap := c.heap.store node.value (.raw (sdscatlen header (← value.sds))) }
          return c.listDelNode (front ++ [node]) next back

/-- `setDeferredMultiBulkLength`; the node is followed without a check. -/
def setDeferredMultiBulkLength (ref : NodeRef) (length : Int64) : Except Fault Client :=
  match c.reply.dropWhile (·.ref ≠ ref) with
  | [] => .error .outOfBounds
  | node :: back =>
      let c' := { c with heap := c.heap.store node.value (.raw (deferredHeader length)) }
      c'.glue (c.reply.takeWhile (·.ref ≠ ref)) node (deferredHeader length) back

/-- The bytes that are glued to the header of a node. -/
def glued (ref : NodeRef) : List UInt8 :=
  match (c.reply.dropWhile (·.ref ≠ ref)).tail.head? with
  | some next => ((c.heap.value next.value).map Robj.text).getD []
  | none => []

-- Sending

/-- One call of `write`: how many bytes it takes at most, none standing for `EAGAIN` also, and
whether the memory that is used then is below `maxmemory`.
-/
structure Write where
  accepts : Nat
  belowMaxmemory : Bool

/-- What happens to the bytes that `write` took from the static buffer. -/
def sentFromBuffer (n : Nat) : Client :=
  let c :=
    { c with sentlen := c.sentlen + n, written := c.written ++ (c.buf.drop c.sentlen).take n }
  if c.sentlen = c.buf.length then { c with buf := [], sentlen := 0 } else c

/-- The `int` that takes the length of an object. -/
def objlen (s : List UInt8) : Int := (s.length : Int).bmod (2 ^ 32)

/-- What happens to the bytes that `write` took from the first object. -/
def sentFromList (n : Nat) (s : List UInt8) (head : ReplyNode) (tail : List ReplyNode) : Client :=
  let c := { c with sentlen := c.sentlen + n, written := c.written ++ (s.drop c.sentlen).take n }
  if (c.sentlen : Int) = objlen s then { c.listDelNode [] head tail with sentlen := 0 } else c

/-- The empty objects at the head of the list are deleted, when the static buffer was sent. -/
def dropEmptyObjects : List ReplyNode → Client → Except Fault Client
  | [], c => .ok c
  | head :: tail, c =>
      if c.buf ≠ [] then .ok c
      else do
        let s ← (← c.object head.value).sds
        if objlen s = 0 then
          dropEmptyObjects tail (c.listDelNode [] head tail)
        else return c

/-- The loop of `sendReplyToClient`. The writes that are not listed take nothing. -/
def sendLoop : List Write → (totwritten : Nat) → Client → Except Fault Client
  | [], _, c => dropEmptyObjects c.reply c
  | w :: writes, totwritten, c => do
      let c ← dropEmptyObjects c.reply c
      if c.buf ≠ [] then
        let n := min w.accepts (c.buf.length - c.sentlen)
        if n = 0 then return c
        let c := c.sentFromBuffer n
        if totwritten + n > maxWritePerEvent ∧ w.belowMaxmemory then return c
        sendLoop writes (totwritten + n) c
      else
        match c.reply with
        | [] => return c
        | head :: tail =>
            let s ← (← c.object head.value).sds
            -- A negative count is a huge one for `write`.
            if objlen s < c.sentlen then .error .outOfBounds
            else
              let n := min w.accepts (objlen s - c.sentlen).toNat
              if n = 0 then return c
              let c := c.sentFromList n s head tail
              if totwritten + n > maxWritePerEvent ∧ w.belowMaxmemory then return c
              sendLoop writes (totwritten + n) c

def sendReplyToClient (writes : List Write) : Except Fault Client := do
  let c ← sendLoop writes 0 c
  return if c.buf = [] ∧ c.reply = [] then { c with sentlen := 0 } else c

end Client

-- Runs

/-- What happens to the output of a client, and what others do with the objects it may share. -/
inductive Event where
  | create (value : Robj)
  | incrRefCount (o : ObjRef)
  | decrRefCount (o : ObjRef)
  | modify (o : ObjRef) (s : List UInt8)
  | addReply (o : ObjRef)
  | addReplySds (s : List UInt8)
  | addReplyString (s : List UInt8)
  | addReplyBulk (o : ObjRef)
  | addDeferredMultiBulkLength
  | setDeferredMultiBulkLength (node : NodeRef) (length : Int64)
  | sendReplyToClient (writes : List Client.Write)

/-- The nodes whose length is still to be set. -/
def Client.deferred (c : Client) : List NodeRef :=
  (c.reply.filter fun node => c.heap.value node.value = some .null).map (·.ref)

/-- Objects are replied by those who have a reference, an sds is shorter than `2 ^ 32`, every length
is set once, and all of them before the next call of `sendReplyToClient`.
-/
def Event.possible (c : Client) : Event → Bool
  | .create value => value ≠ .null && value.text.length < 2 ^ 32
  | .incrRefCount o | .addReply o | .addReplyBulk o => 0 < c.held o
  | .decrRefCount o => 0 < c.held o && sharedBulkhdrLen < o
  | .modify o s =>
      c.held o = 1 && c.heap.refcount o = 1 && sharedBulkhdrLen < o && s.length < 2 ^ 32
  | .addReplySds s => s.length < 2 ^ 32
  | .addReplyString _ | .addDeferredMultiBulkLength => true
  | .setDeferredMultiBulkLength node _ => node ∈ c.deferred
  | .sendReplyToClient _ => c.deferred = []

def Client.execute (c : Client) : Event → Except Fault Client
  | .create value => .ok (c.create value)
  | .incrRefCount o => .ok (c.incrRefCount o)
  | .decrRefCount o => .ok (c.decrRefCount o)
  | .modify o s => .ok (c.modify o s)
  | .addReply o => c.addReply o
  | .addReplySds s => c.addReplySds s
  | .addReplyString s => c.addReplyString s
  | .addReplyBulk o => c.addReplyBulk o
  | .addDeferredMultiBulkLength => .ok c.addDeferredMultiBulkLength
  | .setDeferredMultiBulkLength node length => c.setDeferredMultiBulkLength node length
  | .sendReplyToClient writes => c.sendReplyToClient writes

/-- An event that is not possible does not occur. -/
def Client.step (c : Client) (event : Event) : Except Fault Client :=
  if event.possible c then c.execute event else .ok c

-- The replies in the order of the calls

/-- A reply: its bytes, or a header whose length is still to be set. -/
inductive Piece where
  | bytes (s : List UInt8)
  | header (node : NodeRef)

/-- The bytes that an object stands for now. -/
def Client.textOf (c : Client) (o : ObjRef) : List UInt8 := ((c.heap.value o).map Robj.text).getD []

def bulk (s : List UInt8) : List UInt8 := 0x24 :: decimalText s.length ++ crlf ++ s ++ crlf

/-- A header gets its bytes where it stands. -/
def Piece.set (node : NodeRef) (s : List UInt8) : Piece → Piece
  | .bytes t => .bytes t
  | .header other => if other = node then .bytes s else .header other

/-- The replies after one more event that is possible. -/
def Event.replies (c : Client) (replies : List Piece) : Event → List Piece
  | .addReply o => replies ++ [.bytes (c.textOf o)]
  | .addReplySds s | .addReplyString s => replies ++ [.bytes s]
  | .addReplyBulk o => replies ++ [.bytes (bulk (c.textOf o))]
  | .addDeferredMultiBulkLength => replies ++ [.header c.nextNode]
  | .setDeferredMultiBulkLength node length =>
      replies.map (Piece.set node (Client.deferredHeader length))
  | _ => replies

/-- A client and what was replied to it. -/
structure Conversation where
  client : Client
  replies : List Piece

def Conversation.init : Conversation := ⟨.init, []⟩

def Conversation.step (s : Conversation) (event : Event) : Except Fault Conversation := do
  let client ← s.client.step event
  return ⟨client, if event.possible s.client then event.replies s.client s.replies else s.replies⟩

def run (s : Conversation) (events : List Event) : Except Fault Conversation :=
  events.foldlM Conversation.step s

/-- The concatenation of replies, where headers without a length are given some bytes. -/
def concatenation (unset : NodeRef → List UInt8) (replies : List Piece) : List UInt8 :=
  replies.flatMap fun
    | .bytes s => s
    | .header node => unset node

/-- What a node holds; an object without a string is given some bytes. -/
def Client.nodeText (c : Client) (unset : NodeRef → List UInt8) (node : ReplyNode) : List UInt8 :=
  if c.heap.value node.value = some .null then unset node.ref else c.textOf node.value

/-- What is still to be sent: the static buffer and then the list. The part of the first of them
that was sent is left out.
-/
def Client.buffered (c : Client) (unset : NodeRef → List UInt8) : List UInt8 :=
  (c.buf ++ c.reply.flatMap (c.nodeText unset)).drop c.sentlen

end Redis.OutputBuffer
