import Redis.Networking.QueryBuffer
import Redis.Replication.Backlog

/-! The link of a slave to its master: what the slave has read, executed and acknowledged. -/

namespace Redis

open Redis.Library

-- Commands that acknowledge

/-- `replconf`, `listening-port`, `capa`, `ack` and `getack`. -/
def replconfText : List UInt8 := [0x72, 0x65, 0x70, 0x6C, 0x63, 0x6F, 0x6E, 0x66]
def listeningPortText : List UInt8 :=
  [0x6C, 0x69, 0x73, 0x74, 0x65, 0x6E, 0x69, 0x6E, 0x67, 0x2D, 0x70, 0x6F, 0x72, 0x74]
def capaText : List UInt8 := [0x63, 0x61, 0x70, 0x61]
def ackText : List UInt8 := [0x61, 0x63, 0x6B]
def getackText : List UInt8 := [0x67, 0x65, 0x74, 0x61, 0x63, 0x6B]

/-- `getLongFromObject` succeeds: `strtoll` uses the whole text, which has no space in front. -/
def isLong (value : List UInt8) : Bool :=
  let text := value.takeWhile (· ≠ 0)
  let digits := if text.head? = some 0x2D ∨ text.head? = some 0x2B then text.tail else text
  text = [] || (digits ≠ [] && digits.all (isDigitFrom 0x30)
    && (if text.head? = some 0x2D then horner 0 digits ≤ 2 ^ 63 else horner 0 digits < 2 ^ 63))

/-- The loop of `replconfCommand` for a command of the master: how often it calls
`replicationSendAck`.
-/
def replconfOptions : List (List UInt8) → Nat
  | option :: value :: more =>
      if isOption option listeningPortText then
        if isLong value then replconfOptions more else 0
      else if isOption option capaText then replconfOptions more
      -- The master is not flagged as a slave.
      else if isOption option ackText then 0
      else if isOption option getackText then replconfOptions more + 1
      else 0
  | _ => 0

/-- How often the proc of a command calls `replicationSendAck`. -/
def commandAcks (argv : Argv) : Nat :=
  if isOption (argv.headD []) replconfText then
    if argv.length % 2 = 0 then 0 else replconfOptions argv.tail
  else 0

-- Transactions

/-- `multi`, `exec`, `discard` and `watch`. -/
def multiText : List UInt8 := [0x6D, 0x75, 0x6C, 0x74, 0x69]
def execText : List UInt8 := [0x65, 0x78, 0x65, 0x63]
def discardText : List UInt8 := [0x64, 0x69, 0x73, 0x63, 0x61, 0x72, 0x64]
def watchText : List UInt8 := [0x77, 0x61, 0x74, 0x63, 0x68]

/-- The command that an argument vector names. -/
def isCommand (argv : Argv) (name : List UInt8) : Bool := isOption (argv.headD []) name

/-- `c->mstate.commands` behind `processCommand` of a command it does not refuse; it is `none`
without `REDIS_MULTI`. Inside a transaction `MULTI` and `WATCH` end with an error.
-/
def queueBehind (queue : Option (List Argv)) (argv : Argv) : Option (List Argv) :=
  match queue with
  | none => if isCommand argv multiText then some [] else none
  | some queue =>
      if isCommand argv execText ∨ isCommand argv discardText then none
      else if isCommand argv multiText ∨ isCommand argv watchText then some queue
      else some (queue ++ [argv])

/-- The commands whose procs have run behind `processCommand`: `EXEC` runs the queue. -/
def runsWith (queue : Option (List Argv)) (argv : Argv) : List Argv :=
  match queue with
  | none => [argv]
  | some queue =>
      if isCommand argv execText then queue ++ [argv]
      else if isCommand argv discardText ∨ isCommand argv multiText ∨ isCommand argv watchText then
        [argv]
      else []

-- The link

/-- `server.master` and what the slave keeps about pauses. -/
structure SlaveLink where
  client : QueryClient
  reploff : Int
  /-- The bytes of the stream that are not read. -/
  incoming : List UInt8
  /-- The commands of the stream that are executed. -/
  executed : List Argv
  /-- The commands that wait for `EXEC`, if the client is in a transaction. -/
  queue : Option (List Argv)
  /-- The offsets of the `REPLCONF ACK`s in the output buffer. -/
  replies : List Int
  /-- The offsets handed to the socket, each with the number of commands executed by then. -/
  handed : List (Int × Nat)
  /-- The client is freed and `server.master` is null. -/
  freed : Bool
  mstime : Int
  clientsPaused : Bool
  clientsPauseEndTime : Int
  /-- How often the master stands in `server.unblocked_clients`. -/
  unblocked : Nat
  /-- `processInputBuffer` last left the buffer because of a pause. -/
  held : Bool
deriving DecidableEq, Repr

def pauseClients (finish : Int) (link : SlaveLink) : SlaveLink :=
  { link with
    clientsPauseEndTime :=
      if !link.clientsPaused || link.clientsPauseEndTime < finish then finish
      else link.clientsPauseEndTime
    clientsPaused := true }

/-- `clientsArePaused`; its result is the field `clientsPaused` that it leaves. -/
def clientsArePaused (link : SlaveLink) : SlaveLink :=
  if link.clientsPaused && link.clientsPauseEndTime < link.mstime then
    { link with clientsPaused := false, unblocked := link.unblocked + 1 }
  else link

/-- `replicationSendAck`. Nothing is added to the output of a client that is to be closed. -/
def replicationSendAck (link : SlaveLink) : SlaveLink :=
  if link.freed || link.client.closeAfterReply then link
  else { link with replies := link.replies ++ [link.reploff] }

/-- `processCommand` and `resetClient` for a command of the master. -/
def executeCommand (c : QueryClient) (link : SlaveLink) : SlaveLink :=
  { link with
    client := resetClient c
    executed := link.executed ++ runsWith link.queue c.argv
    queue := queueBehind link.queue c.argv
    replies :=
      link.replies
      ++ List.replicate ((runsWith link.queue c.argv).map commandAcks).sum link.reploff }

/-- `processInputBuffer`. A request that does not start with `*` is an inline request, which the
stream of a master does not have.
-/
def processInputBuffer : (rounds : Nat) → SlaveLink → SlaveLink
  | 0, link => link
  | rounds + 1, link =>
      if link.client.querybuf = [] then { link with held := false }
      else
        let link := clientsArePaused link
        if link.clientsPaused then { link with held := true }
        else if link.client.closeAfterReply then { link with held := false }
        else if link.client.multibulklen = 0 ∧ link.client.querybuf.head? ≠ some 0x2A then
          { link with held := false }
        else
          match processMultibulkBuffer link.client with
          | (c, false) => { link with client := c, held := false }
          | (c, true) =>
              if c.argv = [] then processInputBuffer rounds { link with client := resetClient c }
              else processInputBuffer rounds (executeCommand c link)

/-- The rounds that `processInputBuffer` needs: each takes a byte, and the last one none. -/
def processInput (link : SlaveLink) : SlaveLink :=
  processInputBuffer (link.client.querybuf.length + 1) link

/-- `REDIS_IOBUF_LEN`. -/
def iobufLen : Nat := 1024 * 16

/-- `readlen`. -/
def readLength (c : QueryClient) : Nat :=
  match c.bulklen with
  | some bulklen =>
      if c.multibulklen ≠ 0 ∧ mbulkBigArg ≤ bulklen then
        min iobufLen (bulklen + 2 - c.querybuf.length)
      else iobufLen
  | none => iobufLen

/-- `readQueryFromClient`, when `count` more bytes are at the socket. -/
def readQueryFromClient (maxQuerybufLen count : Nat) (link : SlaveLink) : SlaveLink :=
  let nread := min count (readLength link.client)
  -- `EAGAIN`.
  if count = 0 ∨ link.incoming = [] then link
  -- `read` of no bytes returns 0: the connection is taken for closed.
  else if nread = 0 then { link with freed := true }
  else
    let link :=
      { link with
        client := { link.client with querybuf := link.client.querybuf ++ link.incoming.take nread }
        reploff := link.reploff + (link.incoming.take nread).length
        incoming := link.incoming.drop nread }
    if maxQuerybufLen < link.client.querybuf.length then { link with freed := true }
    else processInput link

/-- One round of `processUnblockedClients`. -/
def processUnblockedClient (link : SlaveLink) : SlaveLink :=
  if link.unblocked = 0 then link
  else if link.client.querybuf = [] then { link with unblocked := link.unblocked - 1 }
  else processInput { link with unblocked := link.unblocked - 1 }

/-- `sendReplyToClient`, when the socket takes `count` acknowledgements. -/
def sendReplyToClient (count : Nat) (link : SlaveLink) : SlaveLink :=
  { link with
    handed := link.handed ++ (link.replies.take count).map (fun n => (n, link.executed.length))
    replies := link.replies.drop count
    freed := link.replies.length ≤ count && link.client.closeAfterReply }

/-- What happens in the event loop of the slave. -/
inductive LinkEvent where
  | read (count : Nat)
  | pause (finish : Int)
  /-- `server.mstime` is set. -/
  | tick (time : Int)
  /-- `clientsArePaused` is called by `serverCron` or for another client. -/
  | checkPaused
  /-- `replicationCron` sends an acknowledgement. -/
  | cron
  | unblocked
  | flush (count : Nat)
  /-- The connection is closed or times out. -/
  | close
deriving DecidableEq, Repr

/-- One event; once the client is freed the link is no longer there. -/
def linkStep (maxQuerybufLen : Nat) (link : SlaveLink) (event : LinkEvent) : SlaveLink :=
  if link.freed then link
  else
    match event with
    | .read count => readQueryFromClient maxQuerybufLen count link
    | .pause finish => pauseClients finish link
    | .tick time => { link with mstime := time }
    | .checkPaused => clientsArePaused link
    | .cron => replicationSendAck link
    | .unblocked => processUnblockedClient link
    | .flush count => sendReplyToClient count link
    | .close => { link with freed := true }

/-- The link behind a synchronisation that ends at an offset. -/
def startLink (offset : Int) (stream : List Argv) (mstime : Int) (clientsPaused : Bool)
    (clientsPauseEndTime : Int) : SlaveLink where
  client := ⟨[], 0, none, [], false⟩
  reploff := offset
  incoming := aofBytes stream
  executed := []
  queue := none
  replies := []
  handed := []
  freed := false
  mstime := mstime
  clientsPaused := clientsPaused
  clientsPauseEndTime := clientsPauseEndTime
  unblocked := 0
  held := false

-- The stream

/-- The stream has no `WATCH` and no `DISCARD`, and no `MULTI` between a `MULTI` and its `EXEC`: a
master propagates a transaction when it executes it. The flag is set inside a transaction.
-/
def PlainTransactions : Bool → List Argv → Prop
  | _, [] => True
  | inside, argv :: more =>
      isCommand argv watchText = false
      ∧ isCommand argv discardText = false
      ∧ (inside = true → isCommand argv multiText = false)
      ∧ PlainTransactions
          (if inside then !isCommand argv execText else isCommand argv multiText) more

/-- The commands that have gone through `processCommand`. -/
def SlaveLink.processed (link : SlaveLink) : List Argv := link.executed ++ link.queue.getD []

/-- The commands whose procs have run behind some more commands. -/
def runsWithAll : Option (List Argv) → List Argv → List Argv
  | _, [] => []
  | queue, argv :: more => runsWith queue argv ++ runsWithAll (queueBehind queue argv) more

/-- The commands at the front of a stream that end within some bytes. -/
def completed : (left : Int) → List Argv → List Argv
  | _, [] => []
  | left, argv :: more =>
      if (aofCommand argv).length ≤ left then
        argv :: completed (left - (aofCommand argv).length) more
      else []

section Transactions

variable {queue : Option (List Argv)} {argv : Argv} {more : List Argv}

theorem runsWith_queueBehind (plain : PlainTransactions queue.isSome (argv :: more))
    : runsWith queue argv ++ (queueBehind queue argv).getD [] = queue.getD [] ++ [argv]
      ∧ PlainTransactions (queueBehind queue argv).isSome more := by
  obtain ⟨watch, discard, nested, rest⟩ := plain
  cases queue with
  | none =>
      cases opens : isCommand argv multiText <;>
        simpa [runsWith, queueBehind, opens] using rest
  | some queue =>
      have multi := nested rfl
      cases closes : isCommand argv execText <;>
        simpa [runsWith, queueBehind, closes, multi, watch, discard] using rest

theorem completed_append {left : Int} {done todo : List Argv} (read : (aofBytes done).length ≤ left)
    (next : ∀ argv more, todo = argv :: more → left < (aofBytes (done ++ [argv])).length)
    : completed left (done ++ todo) = done := by
  induction done generalizing left with
  | nil =>
      cases todo with
      | nil => rfl
      | cons argv more =>
          have cut := next argv more rfl
          rw [List.nil_append, completed, if_neg]
          simpa [aofBytes] using cut
  | cons head done ih =>
      have size : (aofBytes (head :: done)).length
          = (aofCommand head).length + (aofBytes done).length := by
        simp [aofBytes]
      rw [List.cons_append, completed, if_pos (by omega), ih (by omega)]
      intro argv more same
      have cut := next argv more same
      have size' : (aofBytes (head :: done ++ [argv])).length
          = (aofCommand head).length + (aofBytes (done ++ [argv])).length := by
        simp [aofBytes]
      omega

end Transactions

-- The invariant

/-- With `count` commands executed, an acknowledgement of `n` is true: every command of the stream
whose last byte has an offset of at most `n` has been executed.
-/
def AckTrue (offset : Int) (stream : List Argv) (count : Nat) (n : Int) : Prop :=
  ∀ k < stream.length, offset + (aofBytes (stream.take (k + 1))).length ≤ n → k < count

/-- The bytes that are read and not executed, and those that are not read, are what is left of a
command and the commands behind it.
-/
inductive Positioned : (todo : List Argv) → SlaveLink → Prop
  | done {link : SlaveLink} (querybuf : link.client.querybuf = []) (incoming : link.incoming = [])
    : Positioned [] link
  | waiting {link : SlaveLink} {full : Argv} {more : List Argv} {bytes : List UInt8}
    (pending : Pending full link.client bytes)
    (content : link.client.querybuf ++ link.incoming = bytes ++ aofBytes more)
    : Positioned (full :: more) link

structure LinkInvariant (offset : Int) (stream : List Argv) (link : SlaveLink) : Prop where
  processed : ∃ todo, stream = link.processed ++ todo
    ∧ PlainTransactions link.queue.isSome todo
    ∧ (link.freed = false → link.client.closeAfterReply = false
      → Positioned todo link
        ∧ link.reploff + link.incoming.length = offset + (aofBytes stream).length
        ∧ offset + (aofBytes link.processed).length ≤ link.reploff
        ∧ (link.held = false → AckTrue offset stream link.processed.length link.reploff))
  replies : ∀ n ∈ link.replies, AckTrue offset stream link.executed.length n
  handed : ∀ ack ∈ link.handed, AckTrue offset stream ack.2 ack.1

section Invariant

variable {offset : Int} {stream todo more : List Argv} {link : SlaveLink} {full : Argv}
  {c : QueryClient} {after : SlaveLink} {done : List Argv}

theorem AckTrue.mono {count count' : Nat} {n : Int} (ack : AckTrue offset stream count n)
    (order : count ≤ count')
    : AckTrue offset stream count' n :=
  fun k inside reached => Nat.lt_of_lt_of_le (ack k inside reached) order

theorem aofBytes_append (front back : List Argv)
    : aofBytes (front ++ back) = aofBytes front ++ aofBytes back := List.flatMap_append

theorem length_aofBytes_take (stream : List Argv) {few many : Nat} (order : few ≤ many)
    : (aofBytes (stream.take few)).length ≤ (aofBytes (stream.take many)).length := by
  obtain ⟨rest, parts⟩ := List.take_prefix_take_left (l := stream) order
  rw [← parts, aofBytes_append, List.length_append]
  exact Nat.le_add_right _ _

theorem ackTrue_of_unread {processed : List Argv} {n : Int} {unread : Nat}
    (split : stream = processed ++ full :: more)
    (position : n + unread = offset + (aofBytes stream).length)
    (behind : (aofBytes more).length < unread)
    : AckTrue offset stream processed.length n := by
  intro k inside reached
  by_contra later
  have order := length_aofBytes_take stream (Nat.add_le_add_right (Nat.le_of_not_lt later) 1)
  have front : stream.take (processed.length + 1) = processed ++ [full] := by
    rw [split]
    simp [List.take_append]
  have whole : (aofBytes stream).length
      = (aofBytes (processed ++ [full])).length + (aofBytes more).length := by
    rw [split, List.append_cons, aofBytes_append, List.length_append]
  rw [front] at order
  omega

/-- The commands behind those processed that the bytes up to an offset complete. -/
def SlaveLink.completes (offset : Int) (stream : List Argv) (link : SlaveLink) (n : Int)
    : List Argv :=
  completed (n - offset - (aofBytes link.processed).length) (stream.drop link.processed.length)

/-- With the bytes up to an offset no `GETACK` runs, or no command is left in the queue. -/
def SlaveLink.Settles (offset : Int) (stream : List Argv) (link : SlaveLink) (n : Int) : Prop :=
  (∀ argv ∈ runsWithAll link.queue (link.completes offset stream n), commandAcks argv = 0)
  ∨ ((link.completes offset stream n).foldl queueBehind link.queue).getD [] = []

/-- The parser is inside a stream. -/
structure InStream (offset : Int) (stream todo : List Argv) (link : SlaveLink) : Prop where
  split : stream = link.processed ++ todo
  plain : PlainTransactions link.queue.isSome todo
  positioned : Positioned todo link
  offsets : link.reploff + link.incoming.length = offset + (aofBytes stream).length
  read : offset + (aofBytes link.processed).length ≤ link.reploff
  opened : link.client.closeAfterReply = false

theorem Pending.length_pos {bytes : List UInt8} (pending : Pending full c bytes)
    : 0 < bytes.length := by
  cases pending with
  | start => simp [aofCommand, markedLine]
  | inside left args nonempty count known =>
      cases left with
      | nil => exact absurd rfl nonempty
      | cons arg more =>
          cases c.bulklen with
          | none => simp [bulkBytes, aofArgument, markedLine]
          | some len => simp [bulkBytes, crlf]

/-- What `processInputBuffer` does when the clients are not paused: it processes the commands that
end within the bytes read.
-/
structure Processed (offset : Int) (stream done : List Argv) (before after : SlaveLink)
    : Prop where
  reploff : after.reploff = before.reploff
  incoming : after.incoming = before.incoming
  handed : after.handed = before.handed
  processed : after.processed = before.processed ++ done
  executed : after.executed = before.executed ++ runsWithAll before.queue done
  queue : after.queue = done.foldl queueBehind before.queue
  replies
    : after.replies
      = before.replies
        ++ List.replicate ((runsWithAll before.queue done).map commandAcks).sum before.reploff
  left : ∃ todo, stream = after.processed ++ todo
    ∧ PlainTransactions after.queue.isSome todo
    ∧ (after.client.closeAfterReply = false → Positioned todo after)
  read : offset + (aofBytes after.processed).length ≤ after.reploff
  caughtUp : AckTrue offset stream after.processed.length after.reploff

/-- Nothing is processed any more. -/
theorem InStream.rest (inStream : InStream offset stream todo link)
    (positioned : c.closeAfterReply = false
      → Positioned todo { link with client := c, held := false })
    (caughtUp : AckTrue offset stream link.processed.length link.reploff)
    : Processed offset stream [] link { link with client := c, held := false } where
  reploff := rfl
  incoming := rfl
  handed := rfl
  processed := (List.append_nil _).symm
  executed := (List.append_nil _).symm
  queue := rfl
  replies := (List.append_nil _).symm
  left := ⟨todo, inStream.split, inStream.plain, positioned⟩
  read := inStream.read
  caughtUp := caughtUp

theorem InStream.empty (inStream : InStream offset stream todo link)
    (empty : link.client.querybuf = [])
    : Processed offset stream [] link { link with held := false } := by
  refine inStream.rest (c := link.client) (fun _ => ?_) ?_
  · cases inStream.positioned with
    | done querybuf incoming => exact .done querybuf incoming
    | waiting pending content => exact .waiting pending content
  · have split := inStream.split
    have offsets := inStream.offsets
    cases inStream.positioned with
    | done _ incoming =>
        intro k inside _
        rwa [split, List.append_nil] at inside
    | waiting pending content =>
        have lengths := congrArg List.length content
        rw [empty, List.nil_append, List.length_append] at lengths
        have positive := pending.length_pos
        exact ackTrue_of_unread split offsets (by omega)

theorem InStream.execute (inStream : InStream offset stream (full :: more) link)
    (rest : List UInt8) (content : rest ++ link.incoming = aofBytes more)
    : InStream offset stream more (executeCommand ⟨rest, 0, none, full, false⟩ link)
      ∧ (executeCommand ⟨rest, 0, none, full, false⟩ link).processed = link.processed
        ++ [full] := by
  obtain ⟨split, plain, _, offsets, _, _⟩ := inStream
  obtain ⟨order, morePlain⟩ := runsWith_queueBehind plain
  have processed : (executeCommand ⟨rest, 0, none, full, false⟩ link).processed
      = link.processed ++ [full] := by
    simp only [SlaveLink.processed, executeCommand, List.append_assoc] at order ⊢
    rw [order]
  have whole : stream = (link.processed ++ [full]) ++ more := by
    rw [split, List.append_assoc]
    rfl
  refine ⟨⟨by rw [processed]; exact whole, morePlain, ?_, offsets, ?_, rfl⟩, processed⟩
  · cases more with
    | nil =>
        obtain ⟨noRest, noMore⟩ := List.append_eq_nil_iff.mp content
        exact .done noRest noMore
    | cons next others => exact .waiting (.start rfl rfl rfl) content
  · have lengths := congrArg List.length content
    rw [List.length_append] at lengths
    have sizes := congrArg List.length (congrArg aofBytes whole)
    rw [aofBytes_append, List.length_append] at sizes
    rw [processed]
    change offset + _ ≤ link.reploff
    omega

theorem Processed.of_execute
    (grown : (executeCommand c link).processed = link.processed ++ [c.argv])
    (processed : Processed offset stream done (executeCommand c link) after)
    : Processed offset stream (c.argv :: done) link after where
  reploff := processed.reploff
  incoming := processed.incoming
  handed := processed.handed
  processed := by rw [processed.processed, grown, List.append_assoc]; rfl
  executed := by
    rw [processed.executed, runsWithAll, ← List.append_assoc]
    rfl
  queue := processed.queue
  replies := by
    rw [processed.replies, runsWithAll, List.map_append, List.sum_append, List.replicate_add,
      ← List.append_assoc]
    rfl
  left := processed.left
  read := processed.read
  caughtUp := processed.caughtUp

theorem InStream.wait (inStream : InStream offset stream (full :: more) link)
    {missing : List UInt8} (absent : missing ≠ [])
    (waits : Waits full c missing) (content : link.incoming = missing ++ aofBytes more)
    : Processed offset stream [] link { link with client := c, held := false } := by
  refine inStream.rest (fun opened => ?_) ?_
  · rcases waits with closed | ⟨_, bytes, pending, rests⟩
    · exact absurd (closed.symm.trans opened) (by decide)
    · refine .waiting pending ?_
      change c.querybuf ++ link.incoming = bytes ++ aofBytes more
      rw [content, ← rests, List.append_assoc]
  · have lengths := congrArg List.length content
    rw [List.length_append] at lengths
    have positive := List.length_pos_of_ne_nil absent
    exact ackTrue_of_unread inStream.split inStream.offsets (by omega)

/-- What an acknowledgement must not meet. `replicationCron` sends none while bytes that were read
during a pause wait in the query buffer or commands wait for `EXEC`, and no `GETACK` runs in a
call that leaves commands waiting for `EXEC`.
-/
def LinkEvent.Quiet (offset : Int) (stream : List Argv) (link : SlaveLink) : LinkEvent → Prop
  | .cron => link.held = false ∧ link.queue.getD [] = []
  | .read count =>
      link.Settles offset stream
        (link.reploff + (link.incoming.take (min count (readLength link.client))).length)
  | .unblocked => link.Settles offset stream link.reploff
  | _ => True

theorem Pending.star {bytes after : List UInt8} (pending : Pending full c bytes)
    (nonempty : c.querybuf ≠ []) {incoming : List UInt8}
    (content : c.querybuf ++ incoming = bytes ++ after)
    : ¬ (c.multibulklen = 0 ∧ c.querybuf.head? ≠ some 0x2A) := by
  rintro ⟨fresh, other⟩
  cases pending with
  | start =>
      cases text : c.querybuf with
      | nil => exact nonempty text
      | cons byte others =>
          rw [text, aofCommand, markedLine] at content
          simp only [List.cons_append] at content
          rw [text, (List.cons.inj content).1] at other
          exact other rfl
  | inside left args some count known =>
      have positive := List.length_pos_of_ne_nil some
      omega

theorem processInputBuffer_running (commands : ∀ argv ∈ stream, StreamCommand argv) (rounds : Nat)
    (inStream : InStream offset stream todo link) (running : link.clientsPaused = false)
    (enough : link.client.querybuf.length < rounds)
    : ∃ done,
        Processed offset stream done link (processInputBuffer rounds link)
        ∧ (processInputBuffer rounds link).held = false := by
  induction rounds generalizing link todo with
  | zero => exact absurd enough (Nat.not_lt_zero _)
  | succ rounds ih =>
      have same : clientsArePaused link = link := by
        simp [clientsArePaused, running]
      rw [processInputBuffer]
      by_cases empty : link.client.querybuf = []
      · rw [if_pos empty]
        exact ⟨[], inStream.empty empty, rfl⟩
      · rw [if_neg empty]
        dsimp only
        rw [same, if_neg (by simp [running]), if_neg (by simp [inStream.opened])]
        cases inStream.positioned with
        | done querybuf _ => exact absurd querybuf empty
        | waiting pending content =>
            rename_i full more bytes
            have command : StreamCommand full :=
              commands full (by rw [inStream.split]; simp)
            rw [if_neg (pending.star empty content)]
            have whole : ∀ rest, link.client.querybuf = bytes ++ rest
                → rest ++ link.incoming = aofBytes more
                → ∃ done,
                    Processed offset stream done link
                      (processInputBuffer rounds (executeCommand ⟨rest, 0, none, full, false⟩ link))
                    ∧ (processInputBuffer rounds
                        (executeCommand ⟨rest, 0, none, full, false⟩ link)).held = false := by
              intro rest split rests
              have lengths := congrArg List.length split
              rw [List.length_append] at lengths
              have positive := pending.length_pos
              have shorter : rest.length < rounds := by omega
              obtain ⟨next, grown⟩ := inStream.execute rest rests
              obtain ⟨done, processed, held⟩ := ih next running shorter
              exact ⟨full :: done, processed.of_execute grown, held⟩
            rcases List.append_eq_append_iff.mp content with
              ⟨missing, split, rests⟩ | ⟨rest, split, rests⟩
            · by_cases nothing : missing = []
              · rw [nothing, List.append_nil] at split
                rw [nothing, List.nil_append] at rests
                have buffer : link.client.querybuf = bytes ++ [] := by rw [split, List.append_nil]
                rw [processMultibulkBuffer_whole command pending buffer]
                dsimp only
                rw [if_neg command.some]
                exact whole [] buffer rests
              · obtain ⟨c, ran, waits⟩ :=
                  processMultibulkBuffer_cut command pending inStream.opened nothing split.symm
                rw [ran]
                exact ⟨[], inStream.wait nothing waits rests, rfl⟩
            · rw [processMultibulkBuffer_whole command pending split]
              dsimp only
              rw [if_neg command.some]
              exact whole rest split rests.symm

/-- The commands that were processed are those that end within the bytes read. -/
theorem Processed.completes (processed : Processed offset stream done link after)
    : link.completes offset stream link.reploff = done := by
  obtain ⟨todo, split, _⟩ := processed.left
  have read := processed.read
  rw [processed.processed, List.append_assoc] at split
  rw [processed.processed, aofBytes_append, List.length_append, processed.reploff] at read
  rw [SlaveLink.completes, split, List.drop_left]
  refine completed_append (by omega) (fun argv more same => ?_)
  by_contra within
  have inside : (link.processed ++ done).length < stream.length := by
    rw [split, same]
    simp only [List.length_append, List.length_cons]
    omega
  have front : stream.take ((link.processed ++ done).length + 1)
      = link.processed ++ (done ++ [argv]) := by
    have whole : stream = (link.processed ++ (done ++ [argv])) ++ more := by
      rw [split, same]
      simp
    rw [whole]
    refine List.take_left' ?_
    simp only [List.length_append, List.length_singleton]
    omega
  have caughtUp := processed.caughtUp
  rw [processed.processed, processed.reploff] at caughtUp
  have reached := caughtUp _ inside (by
    rw [front, aofBytes_append, List.length_append]
    omega)
  omega

theorem Processed.invariant (processed : Processed offset stream done link after)
    (settles : link.Settles offset stream link.reploff)
    (offsets : link.reploff + link.incoming.length = offset + (aofBytes stream).length)
    (replies : ∀ n ∈ link.replies, AckTrue offset stream link.executed.length n)
    (handed : ∀ ack ∈ link.handed, AckTrue offset stream ack.2 ack.1)
    : LinkInvariant offset stream after := by
  obtain ⟨todo, split, plain, positioned⟩ := processed.left
  refine ⟨⟨todo, split, plain, fun _ opened =>
    ⟨positioned opened, ?_, processed.read, fun _ => processed.caughtUp⟩⟩, ?_, ?_⟩
  · rw [processed.reploff, processed.incoming]
    exact offsets
  · intro n member
    rw [processed.replies, List.mem_append] at member
    rcases member with old | new
    · refine (replies n old).mono ?_
      rw [processed.executed, List.length_append]
      exact Nat.le_add_right _ _
    · obtain ⟨some, same⟩ := List.mem_replicate.mp new
      rw [SlaveLink.Settles, processed.completes, ← processed.queue] at settles
      rcases settles with silent | empty
      · refine absurd (List.sum_eq_zero fun acks inside => ?_) some
        obtain ⟨argv, ran, rfl⟩ := List.mem_map.mp inside
        exact silent argv ran
      · have all : after.processed = after.executed := by
          rw [SlaveLink.processed, empty, List.append_nil]
        have caughtUp := processed.caughtUp
        rwa [all, processed.reploff, ← same] at caughtUp
  · rw [processed.handed]
    exact handed

theorem clientsArePaused_frame (link : SlaveLink)
    : ∃ paused unblocked,
        clientsArePaused link = { link with clientsPaused := paused, unblocked := unblocked } := by
  unfold clientsArePaused
  split
  · exact ⟨false, link.unblocked + 1, rfl⟩
  · exact ⟨link.clientsPaused, link.unblocked, rfl⟩

theorem clientsArePaused_twice (link : SlaveLink)
    : clientsArePaused (clientsArePaused link) = clientsArePaused link := by
  unfold clientsArePaused
  split
  · simp
  · rfl

theorem processInputBuffer_unpaused {rounds : Nat} (nonempty : link.client.querybuf ≠ [])
    : processInputBuffer (rounds + 1) link
      = if (clientsArePaused link).clientsPaused then { clientsArePaused link with held := true }
        else processInputBuffer (rounds + 1) (clientsArePaused link) := by
  have buffer : (clientsArePaused link).client.querybuf ≠ [] := by
    obtain ⟨paused, unblocked, same⟩ := clientsArePaused_frame link
    rw [same]
    exact nonempty
  rw [processInputBuffer, if_neg nonempty]
  dsimp only
  split
  · rfl
  · rename_i running
    rw [processInputBuffer, if_neg buffer]
    dsimp only
    rw [clientsArePaused_twice, if_neg running]

theorem LinkInvariant.frame (invariant : LinkInvariant offset stream link) (mstime finish : Int)
    (paused : Bool) (unblocked : Nat)
    : LinkInvariant offset stream
        { link with
          mstime := mstime
          clientsPaused := paused
          clientsPauseEndTime := finish
          unblocked := unblocked } := by
  obtain ⟨⟨todo, split, plain, live⟩, replies, handed⟩ := invariant
  refine ⟨⟨todo, split, plain, fun attached opened => ?_⟩, replies, handed⟩
  obtain ⟨positioned, rest⟩ := live attached opened
  refine ⟨?_, rest⟩
  cases positioned with
  | done querybuf incoming => exact .done querybuf incoming
  | waiting pending content => exact .waiting pending content

theorem LinkInvariant.ended (invariant : LinkInvariant offset stream link)
    (executed : after.executed = link.executed) (queue : after.queue = link.queue)
    (replies : after.replies = link.replies) (handed : after.handed = link.handed)
    (closed : after.freed = true ∨ after.client.closeAfterReply = true)
    : LinkInvariant offset stream after := by
  obtain ⟨⟨todo, split, plain, _⟩, oldReplies, oldHanded⟩ := invariant
  have same : after.processed = link.processed := by
    rw [SlaveLink.processed, executed, queue]
    rfl
  refine ⟨⟨todo, same ▸ split, by rw [queue]; exact plain, fun attached opened => ?_⟩, ?_, ?_⟩
  · rcases closed with freed | closing
    · exact absurd (freed.symm.trans attached) (by decide)
    · exact absurd (closing.symm.trans opened) (by decide)
  · rw [replies, executed]
    exact oldReplies
  · rw [handed]
    exact oldHanded

theorem Positioned.congr {link' : SlaveLink} (positioned : Positioned todo link)
    (client : link'.client = link.client) (incoming : link'.incoming = link.incoming)
    : Positioned todo link' := by
  cases positioned with
  | done querybuf unread =>
      exact .done (by rw [client]; exact querybuf) (by rw [incoming]; exact unread)
  | waiting pending content =>
      exact .waiting (by rw [client]; exact pending) (by rw [client, incoming]; exact content)

theorem processInputBuffer_closed (rounds : Nat) (closed : link.client.closeAfterReply = true)
    : ∃ paused unblocked held,
        processInputBuffer rounds link
          = { link with clientsPaused := paused, unblocked := unblocked, held := held } := by
  obtain ⟨paused, unblocked, same⟩ := clientsArePaused_frame link
  cases rounds with
  | zero => exact ⟨link.clientsPaused, link.unblocked, link.held, rfl⟩
  | succ rounds =>
      rw [processInputBuffer]
      split
      · exact ⟨link.clientsPaused, link.unblocked, false, rfl⟩
      · dsimp only
        rw [same]
        cases paused with
        | true => exact ⟨true, unblocked, true, rfl⟩
        | false => exact ⟨false, unblocked, false, by simp [closed]⟩

theorem processInput_invariant (commands : ∀ argv ∈ stream, StreamCommand argv)
    (invariant : LinkInvariant offset stream { link with held := true })
    (attached : link.freed = false) (settles : link.Settles offset stream link.reploff)
    : LinkInvariant offset stream (processInput link) := by
  unfold processInput
  cases closing : link.client.closeAfterReply with
  | true =>
      obtain ⟨paused, unblocked, held, same⟩ :=
        processInputBuffer_closed (link.client.querybuf.length + 1) closing
      rw [same]
      exact invariant.ended rfl rfl rfl rfl (.inr closing)
  | false =>
      obtain ⟨⟨todo, split, plain, live⟩, replies, handed⟩ := invariant
      obtain ⟨positioned, offsets, read, _⟩ := live attached closing
      have inStream : InStream offset stream todo link :=
        ⟨split, plain, positioned.congr rfl rfl, offsets, read, closing⟩
      by_cases empty : link.client.querybuf = []
      · rw [processInputBuffer, if_pos empty]
        exact (inStream.empty empty).invariant settles offsets replies handed
      · rw [processInputBuffer_unpaused empty]
        obtain ⟨paused, unblocked, same⟩ := clientsArePaused_frame link
        rw [same]
        cases paused with
        | true =>
            refine ⟨⟨todo, split, plain, fun _ _ =>
              ⟨positioned.congr rfl rfl, offsets, read, fun notHeld => ?_⟩⟩, replies, handed⟩
            cases notHeld
        | false =>
            have next : InStream offset stream todo
                { link with clientsPaused := false, unblocked := unblocked } :=
              ⟨split, plain, positioned.congr rfl rfl, offsets, read, closing⟩
            obtain ⟨done, processed, _⟩ :=
              processInputBuffer_running commands (link.client.querybuf.length + 1) next rfl
                (Nat.lt_succ_self _)
            exact processed.invariant settles offsets replies handed

theorem Pending.grow {bytes querybuf : List UInt8} (pending : Pending full c bytes)
    : Pending full { c with querybuf := querybuf } bytes := by
  cases pending with
  | start fresh noBulk noArgs => exact .start fresh noBulk noArgs
  | inside left args some count known =>
      exact .inside (c := { c with querybuf := querybuf }) left args some count known

theorem readQueryFromClient_invariant (commands : ∀ argv ∈ stream, StreamCommand argv)
    (maxQuerybufLen count : Nat) (invariant : LinkInvariant offset stream link)
    (attached : link.freed = false) (settles : (LinkEvent.read count).Quiet offset stream link)
    : LinkInvariant offset stream (readQueryFromClient maxQuerybufLen count link) := by
  unfold readQueryFromClient
  dsimp only
  split
  · exact invariant
  · split
    · exact invariant.ended rfl rfl rfl rfl (.inl rfl)
    · split
      · exact invariant.ended rfl rfl rfl rfl (.inl rfl)
      · refine processInput_invariant commands ?_ attached settles
        obtain ⟨⟨todo, split, plain, live⟩, replies, handed⟩ := invariant
        refine ⟨⟨todo, split, plain, fun _ opened => ?_⟩, replies, handed⟩
        obtain ⟨positioned, offsets, read, _⟩ := live attached opened
        refine ⟨?_, ?_, ?_, fun notHeld => by cases notHeld⟩
        · cases positioned with
          | done querybuf incoming =>
              exact .done (by simp [querybuf, incoming]) (by simp [incoming])
          | waiting pending content =>
              refine .waiting pending.grow ?_
              simp only [List.append_assoc, List.take_append_drop]
              exact content
        · have parts := congrArg List.length
            (List.take_append_drop (min count (readLength link.client)) link.incoming)
          rw [List.length_append] at parts
          simp only
          omega
        · change offset + (aofBytes link.processed).length ≤ link.reploff + _
          omega

theorem sendReplyToClient_invariant (count : Nat) (invariant : LinkInvariant offset stream link)
    (attached : link.freed = false)
    : LinkInvariant offset stream (sendReplyToClient count link) := by
  obtain ⟨⟨todo, split, plain, live⟩, replies, handed⟩ := invariant
  refine ⟨⟨todo, split, plain, fun _ opened => ?_⟩, ?_, ?_⟩
  · obtain ⟨positioned, rest⟩ := live attached opened
    exact ⟨positioned.congr rfl rfl, rest⟩
  · intro n member
    exact replies n (List.mem_of_mem_drop member)
  · intro ack member
    rcases List.mem_append.mp member with old | new
    · exact handed ack old
    · obtain ⟨n, inside, rfl⟩ := List.mem_map.mp new
      exact replies n (List.mem_of_mem_take inside)

theorem replicationSendAck_invariant (invariant : LinkInvariant offset stream link)
    (notHeld : link.held = false) (idle : link.queue.getD [] = [])
    : LinkInvariant offset stream (replicationSendAck link) := by
  unfold replicationSendAck
  split
  · exact invariant
  · rename_i live
    obtain ⟨attached, opened⟩ : link.freed = false ∧ link.client.closeAfterReply = false := by
      simpa using live
    obtain ⟨⟨todo, split, plain, state⟩, replies, handed⟩ := invariant
    obtain ⟨positioned, offsets, read, caughtUp⟩ := state attached opened
    refine ⟨⟨todo, split, plain, fun _ _ =>
      ⟨positioned.congr rfl rfl, offsets, read, caughtUp⟩⟩, ?_, handed⟩
    intro n member
    rcases List.mem_append.mp member with old | new
    · exact replies n old
    · have all : link.processed = link.executed := by
        rw [SlaveLink.processed, idle, List.append_nil]
      rw [List.mem_singleton.mp new]
      exact all ▸ caughtUp notHeld

theorem linkStep_invariant (commands : ∀ argv ∈ stream, StreamCommand argv) (maxQuerybufLen : Nat)
    (event : LinkEvent) (invariant : LinkInvariant offset stream link)
    (quiet : event.Quiet offset stream link)
    : LinkInvariant offset stream (linkStep maxQuerybufLen link event) := by
  unfold linkStep
  by_cases freed : link.freed = true
  · rw [if_pos freed]
    exact invariant
  · have attached : link.freed = false := Bool.eq_false_iff.mpr freed
    rw [if_neg freed]
    cases event with
    | read count =>
        exact readQueryFromClient_invariant commands maxQuerybufLen count invariant attached quiet
    | pause finish => exact invariant.frame _ _ _ _
    | tick time => exact invariant.frame _ _ _ _
    | checkPaused =>
        obtain ⟨paused, unblocked, same⟩ := clientsArePaused_frame link
        dsimp only
        rw [same]
        exact invariant.frame _ _ _ _
    | cron => exact replicationSendAck_invariant invariant quiet.1 quiet.2
    | unblocked =>
        dsimp only
        unfold processUnblockedClient
        split
        · exact invariant
        · split
          · exact invariant.frame _ _ _ _
          · refine processInput_invariant commands ?_ attached quiet
            obtain ⟨⟨todo, split, plain, live⟩, replies, handed⟩ := invariant
            refine ⟨⟨todo, split, plain, fun _ opened => ?_⟩, replies, handed⟩
            obtain ⟨positioned, offsets, read, _⟩ := live attached opened
            exact ⟨positioned.congr rfl rfl, offsets, read, fun notHeld => by cases notHeld⟩
    | flush count => exact sendReplyToClient_invariant count invariant attached
    | close => exact invariant.ended rfl rfl rfl rfl (.inl rfl)

theorem startLink_invariant (offset : Int) (stream : List Argv)
    (plain : PlainTransactions false stream) (mstime : Int) (paused : Bool) (finish : Int)
    : LinkInvariant offset stream (startLink offset stream mstime paused finish) := by
  refine ⟨⟨stream, rfl, plain, fun _ _ =>
    ⟨?_, rfl, by simp [startLink, SlaveLink.processed, aofBytes], fun _ => ?_⟩⟩, ?_, ?_⟩
  · cases stream with
    | nil => exact .done rfl rfl
    | cons full more => exact .waiting (.start rfl rfl rfl) rfl
  · intro k inside reached
    cases stream with
    | nil => exact absurd inside (Nat.not_lt_zero _)
    | cons full more =>
        simp only [startLink, List.take_succ_cons, aofBytes, List.flatMap_cons, aofCommand,
          markedLine, List.length_append, List.length_cons, List.cons_append] at reached
        omega
  · intro n member
    cases member
  · intro ack member
    cases member

end Invariant

-- Runs

def QuietRun (offset : Int) (stream : List Argv) (maxQuerybufLen : Nat)
    : SlaveLink → List LinkEvent → Prop
  | _, [] => True
  | link, event :: events =>
      event.Quiet offset stream link
      ∧ QuietRun offset stream maxQuerybufLen (linkStep maxQuerybufLen link event) events

theorem linkRun_invariant {offset : Int} {stream : List Argv} {link : SlaveLink}
    (commands : ∀ argv ∈ stream, StreamCommand argv) (maxQuerybufLen : Nat)
    (events : List LinkEvent) (invariant : LinkInvariant offset stream link)
    (quiet : QuietRun offset stream maxQuerybufLen link events)
    : LinkInvariant offset stream (events.foldl (linkStep maxQuerybufLen) link) := by
  induction events generalizing link with
  | nil => exact invariant
  | cons event events ih =>
      obtain ⟨first, rest⟩ := quiet
      exact ih (linkStep_invariant commands maxQuerybufLen event invariant first) rest

/-- Every acknowledgement handed to the socket is of commands that had been executed by then. -/
structure AcknowledgedExecuted (offset : Int) (stream : List Argv) (link : SlaveLink) : Prop where
  inOrder : link.executed <+: stream
  acknowledged : ∀ ack ∈ link.handed, AckTrue offset stream ack.2 ack.1

/-- In every run in which no acknowledgement is made while bytes read during a pause wait in the
query buffer or commands wait for `EXEC`, what is acknowledged has been executed.
-/
theorem acknowledged_executed (offset : Int) (stream : List Argv)
    (commands : ∀ argv ∈ stream, StreamCommand argv) (plain : PlainTransactions false stream)
    (mstime : Int) (paused : Bool) (finish : Int) (maxQuerybufLen : Nat) (events : List LinkEvent)
    (quiet : QuietRun offset stream maxQuerybufLen
      (startLink offset stream mstime paused finish) events)
    : AcknowledgedExecuted offset stream
        (events.foldl (linkStep maxQuerybufLen)
          (startLink offset stream mstime paused finish)) := by
  have start := startLink_invariant offset stream plain mstime paused finish
  obtain ⟨⟨todo, split, _⟩, _, handed⟩ :=
    linkRun_invariant commands maxQuerybufLen events start quiet
  exact ⟨⟨_, (split.trans (List.append_assoc _ _ _)).symm⟩, handed⟩

/-- `MULTI`, `SET a 1` and `EXEC`. -/
def setStream : List Argv :=
  [[[0x4D, 0x55, 0x4C, 0x54, 0x49]], [[0x53, 0x45, 0x54], [0x61], [0x31]],
    [[0x45, 0x58, 0x45, 0x43]]]

theorem setStream_commands : ∀ argv ∈ setStream, StreamCommand argv := by
  have accepted (argv : Argv) (member : argv ∈ setStream)
      : argv ≠ [] ∧ argv.length ≤ multibulkMax ∧ BulksAccepted argv := by
    unfold BulksAccepted
    revert argv
    decide
  intro argv member
  obtain ⟨some, few, bulks⟩ := accepted argv member
  exact ⟨some, few, bulks⟩

/-- A transaction that is read in two pieces, acknowledged by `replicationCron` and handed over. -/
theorem acknowledged_executed_set
    : AcknowledgedExecuted 100 setStream
        ([LinkEvent.read 10, .cron, .read 60, .cron, .flush 2].foldl (linkStep 1000)
          (startLink 100 setStream 0 false 0)) :=
  acknowledged_executed 100 setStream setStream_commands
    (by simp only [setStream, PlainTransactions]; decide) 0 false 0 1000
    [.read 10, .cron, .read 60, .cron, .flush 2] (by
      refine ⟨Or.inl ?_, ⟨?_, ?_⟩, Or.inl ?_, ⟨?_, ?_⟩, trivial, trivial⟩ <;> decide)

/-- A transaction that is read during a pause and acknowledged, but not executed. -/
theorem paused_set_acknowledged
    : ¬ AcknowledgedExecuted 100 setStream
        ([LinkEvent.pause 5000, .read 100, .cron, .flush 1].foldl (linkStep 1000)
          (startLink 100 setStream 0 false 0)) := by
  intro executed
  have ack := executed.acknowledged (156, 0) (by decide) 0 (by decide) (by decide)
  exact absurd ack (by decide)

/-- Without a pause: the `SET` is acknowledged when it is queued. -/
example
    : ([LinkEvent.read 42, .cron, .flush 1].foldl (linkStep 1000)
          (startLink 100 setStream 0 false 0)).handed
        = [(142, 1)] := by
  decide

end Redis
