import Mathlib.Logic.Function.Basic
import Redis.Library.Faults

/-! The channels and patterns that clients subscribe to, and the messages that are published. -/

namespace Redis.Pubsub

open Redis.Library

-- Clients

/-- A string object: channels, patterns and messages are compared by their bytes. -/
abbrev Robj := List UInt8

/-- A pointer to a `redisClient`. The address of a client that was freed may be used again. -/
abbrev ClientRef := Nat

/-- The word that starts a reply about a subscription. -/
inductive Notice where
  | subscribe | unsubscribe | psubscribe | punsubscribe
deriving DecidableEq, Repr

/-- What one group of calls of `addReply` appends to the output of a client. -/
inductive Reply where
  /-- `none` is the null bulk that stands for no channel or pattern at all. -/
  | subscription (notice : Notice) (name : Option Robj) (count : Nat)
  | message (channel message : Robj)
  | pmessage (pattern channel message : Robj)
  | integer (n : Nat)
  | wrongNumberOfArguments
deriving DecidableEq, Repr

/-- A connection that is written to: not the link to a master, and not one that is closed after its
reply. `channels` are the keys of the table `pubsub_channels`.
-/
structure Client where
  channels : List Robj := []
  patterns : List Robj := []
  /-- `REDIS_PUBSUB` -/
  pubsub : Bool := false
  reply : List Reply := []
deriving DecidableEq, Repr

def Client.clientSubscriptionsCount (c : Client) : Nat := c.channels.length + c.patterns.length

structure PubsubPattern where
  client : ClientRef
  pattern : Robj
deriving DecidableEq, Repr

/-- The clients by address, and the fields of `server` that refer to them. -/
structure Server where
  client : ClientRef → Option Client
  clients : List ClientRef
  pubsubChannels : Robj → Option (List ClientRef)
  pubsubPatterns : List PubsubPattern

/-- The order in which an iterator goes through the keys of a table. -/
structure IterationOrder where
  keys : List Robj → List Robj
  perm : ∀ table, (keys table).Perm table

namespace Server

variable (s : Server)

def init : Server where
  client _ := none
  clients := []
  pubsubChannels _ := none
  pubsubPatterns := []

def live (r : ClientRef) : Bool := (s.client r).isSome

/-- The fields of a client; a client that was freed has no subscriptions. -/
def own (r : ClientRef) : Client := (s.client r).getD {}

/-- The clients that `server.pubsub_channels` lists under a channel. -/
def subscribers (channel : Robj) : List ClientRef := (s.pubsubChannels channel).getD []

def modify (r : ClientRef) (f : Client → Client) : Server :=
  { s with client := Function.update s.client r ((s.client r).map f) }

def addReply (r : ClientRef) (reply : Reply) : Server :=
  s.modify r fun c => { c with reply := c.reply ++ [reply] }

/-- The four calls that report a change of the subscriptions. -/
def addReplySubscription (r : ClientRef) (notice : Notice) (name : Option Robj) : Server :=
  s.addReply r (.subscription notice name (s.own r).clientSubscriptionsCount)

def createClient (r : ClientRef) : Server :=
  { s with client := Function.update s.client r (some {}), clients := s.clients ++ [r] }

-- Subscribing

/-- A client and a channel are added to both tables. -/
def linkChannel (r : ClientRef) (channel : Robj) : Server :=
  let s := s.modify r fun c => { c with channels := c.channels ++ [channel] }
  match s.pubsubChannels channel with
  | none => { s with pubsubChannels := Function.update s.pubsubChannels channel (some [r]) }
  | some clients =>
      { s with pubsubChannels := Function.update s.pubsubChannels channel (some (clients ++ [r])) }

/-- `pubsubSubscribeChannel`; no caller reads its result. -/
def pubsubSubscribeChannel (r : ClientRef) (channel : Robj) : Server :=
  (if channel ∈ (s.own r).channels then s else s.linkChannel r channel).addReplySubscription r
    .subscribe (some channel)

/-- A client and a pattern are added to both lists. -/
def linkPattern (r : ClientRef) (pattern : Robj) : Server :=
  let s := s.modify r fun c => { c with patterns := c.patterns ++ [pattern] }
  { s with pubsubPatterns := s.pubsubPatterns ++ [⟨r, pattern⟩] }

/-- `pubsubSubscribePattern`; no caller reads its result. -/
def pubsubSubscribePattern (r : ClientRef) (pattern : Robj) : Server :=
  (if pattern ∈ (s.own r).patterns then s else s.linkPattern r pattern).addReplySubscription r
    .psubscribe (some pattern)

-- Unsubscribing

/-- A client and a channel are taken out of both tables, under the two assertions. -/
def unlinkChannel (r : ClientRef) (channel : Robj) : Except Fault Server :=
  let s := s.modify r fun c => { c with channels := c.channels.erase channel }
  match s.pubsubChannels channel with
  | none => .error .assertion
  | some clients =>
      if r ∈ clients then
        let clients := clients.erase r
        .ok { s with
          pubsubChannels := Function.update s.pubsubChannels channel
            (if clients.length = 0 then none else some clients) }
      else .error .assertion

/-- The part of `pubsubUnsubscribeChannel` before the reply. -/
def dropChannel (r : ClientRef) (channel : Robj) : Except Fault (Server × Nat) :=
  if channel ∈ (s.own r).channels then (·, 1) <$> s.unlinkChannel r channel else .ok (s, 0)

def pubsubUnsubscribeChannel (r : ClientRef) (channel : Robj) (notify : Bool)
    : Except Fault (Server × Nat) := do
  let (s, retval) ← s.dropChannel r channel
  return (if notify then s.addReplySubscription r .unsubscribe (some channel) else s, retval)

/-- A client and a pattern are taken out of both lists; the node is deleted unchecked. -/
def unlinkPattern (r : ClientRef) (pattern : Robj) : Except Fault Server :=
  let s := s.modify r fun c => { c with patterns := c.patterns.erase pattern }
  if ⟨r, pattern⟩ ∈ s.pubsubPatterns then
    .ok { s with pubsubPatterns := s.pubsubPatterns.erase ⟨r, pattern⟩ }
  else .error .nullPointer

/-- The part of `pubsubUnsubscribePattern` before the reply. -/
def dropPattern (r : ClientRef) (pattern : Robj) : Except Fault (Server × Nat) :=
  if pattern ∈ (s.own r).patterns then (·, 1) <$> s.unlinkPattern r pattern else .ok (s, 0)

def pubsubUnsubscribePattern (r : ClientRef) (pattern : Robj) (notify : Bool)
    : Except Fault (Server × Nat) := do
  let (s, retval) ← s.dropPattern r pattern
  return (if notify then s.addReplySubscription r .punsubscribe (some pattern) else s, retval)

/-- `pubsubUnsubscribeAllChannels`. A safe iterator keeps the table as it is but for the entries
that the loop deletes, so it yields the keys that were there at its start.
-/
def pubsubUnsubscribeAllChannels (r : ClientRef) (order : IterationOrder) (notify : Bool)
    : Except Fault (Server × Nat) := do
  let (s, count) ← (order.keys (s.own r).channels).foldlM
    (fun (s, count) channel => do
      let (s, retval) ← s.pubsubUnsubscribeChannel r channel notify
      return (s, count + retval))
    (s, 0)
  return (if notify && count = 0 then s.addReplySubscription r .unsubscribe none else s, count)

/-- `pubsubUnsubscribeAllPatterns`. The iterator has read the next node before one is deleted. -/
def pubsubUnsubscribeAllPatterns (r : ClientRef) (notify : Bool)
    : Except Fault (Server × Nat) := do
  let (s, count) ← (s.own r).patterns.foldlM
    (fun (s, count) pattern => do
      let (s, retval) ← s.pubsubUnsubscribePattern r pattern notify
      return (s, count + retval))
    (s, 0)
  return (if notify && count = 0 then s.addReplySubscription r .punsubscribe none else s, count)

-- Publishing

/-- `pubsubPublishMessage`; `stringmatch pattern string` is `stringmatchlen` with the case counting.
-/
def pubsubPublishMessage (stringmatch : Robj → Robj → Bool) (channel message : Robj)
    : Server × Nat :=
  let (s, receivers) := (s.subscribers channel).foldl
    (fun (s, receivers) r => (s.addReply r (.message channel message), receivers + 1))
    (s, 0)
  s.pubsubPatterns.foldl
    (fun (s, receivers) pat =>
      if stringmatch pat.pattern channel then
        (s.addReply pat.client (.pmessage pat.pattern channel message), receivers + 1)
      else (s, receivers))
    (s, receivers)

-- Commands

/-- `subscribeCommand`; its arity is -2. -/
def subscribeCommand (r : ClientRef) (channels : List Robj) : Server :=
  if channels = [] then s.addReply r .wrongNumberOfArguments
  else
    (channels.foldl (·.pubsubSubscribeChannel r ·) s).modify r fun c => { c with pubsub := true }

/-- `psubscribeCommand`; its arity is -2. -/
def psubscribeCommand (r : ClientRef) (patterns : List Robj) : Server :=
  if patterns = [] then s.addReply r .wrongNumberOfArguments
  else
    (patterns.foldl (·.pubsubSubscribePattern r ·) s).modify r fun c => { c with pubsub := true }

/-- The flag is cleared with the last subscription. -/
def clearPubsubFlag (r : ClientRef) : Server :=
  if (s.own r).clientSubscriptionsCount = 0 then s.modify r fun c => { c with pubsub := false }
  else s

def unsubscribeCommand (r : ClientRef) (order : IterationOrder) (channels : List Robj)
    : Except Fault Server :=
  (·.clearPubsubFlag r) <$>
    if channels = [] then Prod.fst <$> s.pubsubUnsubscribeAllChannels r order true
    else
      channels.foldlM (fun s channel => Prod.fst <$> s.pubsubUnsubscribeChannel r channel true) s

def punsubscribeCommand (r : ClientRef) (patterns : List Robj) : Except Fault Server :=
  (·.clearPubsubFlag r) <$>
    if patterns = [] then Prod.fst <$> s.pubsubUnsubscribeAllPatterns r true
    else
      patterns.foldlM (fun s pattern => Prod.fst <$> s.pubsubUnsubscribePattern r pattern true) s

def publishCommand (stringmatch : Robj → Robj → Bool) (r : ClientRef) (channel message : Robj)
    : Server :=
  let (s, receivers) := s.pubsubPublishMessage stringmatch channel message
  s.addReply r (.integer receivers)

def freeClient (r : ClientRef) (order : IterationOrder) : Except Fault Server := do
  let (s, _) ← s.pubsubUnsubscribeAllChannels r order false
  let (s, _) ← s.pubsubUnsubscribeAllPatterns r false
  return { s with client := Function.update s.client r none, clients := s.clients.erase r }

end Server

-- Runs

inductive Event where
  | createClient (r : ClientRef)
  | subscribe (r : ClientRef) (channels : List Robj)
  | unsubscribe (r : ClientRef) (order : IterationOrder) (channels : List Robj)
  | psubscribe (r : ClientRef) (patterns : List Robj)
  | punsubscribe (r : ClientRef) (patterns : List Robj)
  | publish (r : ClientRef) (channel message : Robj)
  | freeClient (r : ClientRef) (order : IterationOrder)

def Event.client : Event → ClientRef
  | .createClient r | .subscribe r _ | .unsubscribe r _ _ | .psubscribe r _ | .punsubscribe r _
  | .publish r _ _ | .freeClient r _ => r

/-- A client is created at a free address; everything else is done for a client that is there. -/
def Event.possible (s : Server) : Event → Bool
  | .createClient r => !s.live r
  | event => s.live event.client

def Server.execute (s : Server) (stringmatch : Robj → Robj → Bool) : Event → Except Fault Server
  | .createClient r => .ok (s.createClient r)
  | .subscribe r channels => .ok (s.subscribeCommand r channels)
  | .unsubscribe r order channels => s.unsubscribeCommand r order channels
  | .psubscribe r patterns => .ok (s.psubscribeCommand r patterns)
  | .punsubscribe r patterns => s.punsubscribeCommand r patterns
  | .publish r channel message => .ok (s.publishCommand stringmatch r channel message)
  | .freeClient r order => s.freeClient r order

/-- An event that is not possible does not occur. -/
def Server.step (s : Server) (stringmatch : Robj → Robj → Bool) (event : Event)
    : Except Fault Server :=
  if event.possible s then s.execute stringmatch event else .ok s

def run (stringmatch : Robj → Robj → Bool) (events : List Event) : Except Fault Server :=
  events.foldlM (·.step stringmatch ·) .init

end Redis.Pubsub
