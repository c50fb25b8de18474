import Mathlib.Data.List.AList
import Mathlib.Tactic

/-! The list commands of `t_list.c` and the blocking pops: clients wait in the queues of the keys
they block on, and `handleClientsBlockedOnLists` serves them after each command. A key stands
for a key of one database; `MOVE` renames between databases.
-/

namespace Redis.Lists

variable {K α : Type} [DecidableEq K]

-- The state

/-- `REDIS_HEAD` and `REDIS_TAIL`. -/
inductive Where where
  | head
  | tail
deriving DecidableEq, Repr

inductive Value (α : Type) where
  | list (items : List α)
  /-- A value of another type. -/
  | other
deriving DecidableEq, Repr

/-- A client with `REDIS_BLOCKED_LIST`. -/
structure Blocked (K : Type) where
  client : Nat
  /-- Clients that block later have larger numbers. -/
  seq : Nat
  /-- `bpop.keys`. -/
  keys : List K
  /-- `bpop.target`. -/
  target : Option K
  /-- `lastcmd->proc == blpopCommand`. -/
  blpop : Bool
deriving DecidableEq, Repr

inductive Outcome (K α : Type) where
  | popped (value : α)
  | moved (value : α) (target : K)
  /-- The destination has the wrong type; the source before and after. -/
  | wrongType (before after : List α)
deriving DecidableEq, Repr

/-- A client that was served, with the clients that still waited for the key. -/
structure Served (K α : Type) where
  client : Nat
  seq : Nat
  key : K
  waiting : List Nat
  outcome : Outcome K α
deriving DecidableEq, Repr

/-- The databases and the tables of blocked clients, with the history of the elements. -/
structure Server (K α : Type) where
  db : AList (fun _ : K => Value α)
  /-- `db->blocking_keys`; a key without clients has no entry. -/
  blockingKeys : K → List Nat
  blocked : List (Blocked K)
  /-- `server.ready_keys`. -/
  readyKeys : List K
  /-- `db->ready_keys`. -/
  signaled : K → Bool
  clock : Nat
  /-- The elements pushed by the commands of clients. -/
  pushed : List α
  /-- The elements popped for a client. -/
  returned : List (Nat × α)
  served : List (Served K α)

variable (s : Server K α)

-- Lists and keys

def listTypePop : Where → List α → Option (α × List α)
  | _, [] => none
  | .head, value :: rest => some (value, rest)
  | .tail, value :: rest => some ((value :: rest).getLast (by simp), (value :: rest).dropLast)

def listTypePush (place : Where) (items : List α) (value : α) : List α :=
  match place with
  | .head => value :: items
  | .tail => items ++ [value]

/-- A pop is undone by a push to the same side. -/
theorem listTypePush_pop {place : Where} {items rest : List α} {value : α}
    (popped : listTypePop place items = some (value, rest))
    : listTypePush place rest value = items := by
  cases items with
  | nil => cases place <;> cases popped
  | cons first more =>
      cases place with
      | head =>
          cases popped
          rfl
      | tail =>
          obtain ⟨rfl, rfl⟩ := Prod.mk.inj (Option.some.inj popped)
          exact List.dropLast_append_getLast (List.cons_ne_nil first more)

def Server.setItems (key : K) (items : List α) : Server K α :=
  { s with db := s.db.insert key (.list items) }

def Server.signalListAsReady (key : K) : Server K α :=
  if s.blockingKeys key = [] then s
  else if s.signaled key then s
  else
    { s with
      readyKeys := s.readyKeys ++ [key]
      signaled := Function.update s.signaled key true }

def Server.dbAdd (key : K) (value : Value α) : Server K α :=
  let s := { s with db := s.db.insert key value }
  match value with
  | .list _ => s.signalListAsReady key
  | .other => s

def Server.dbOverwrite (key : K) (value : Value α) : Server K α :=
  { s with db := s.db.insert key value }

def Server.setKey (key : K) (value : Value α) : Server K α :=
  match s.db.lookup key with
  | none => s.dbAdd key value
  | some _ => s.dbOverwrite key value

def Server.dbDelete (key : K) : Server K α := { s with db := s.db.erase key }

/-- `if (listTypeLength(o) == 0) dbDelete(db,key)`. -/
def Server.deleteIfEmpty (key : K) : Server K α :=
  match s.db.lookup key with
  | some (.list []) => s.dbDelete key
  | _ => s

-- Commands

def Server.pushGenericCommand (place : Where) (key : K) (values : List α) : Server K α :=
  match s.db.lookup key, values with
  | _, [] => s
  | some .other, _ => s
  | some (.list items), values =>
      { s.setItems key (values.foldl (listTypePush place) items) with pushed := s.pushed ++ values }
  | none, values =>
      let added := s.dbAdd key (.list [])
      { added.setItems key (values.foldl (listTypePush place) []) with
        pushed := s.pushed ++ values }

def Server.deliver (client : Nat) (value : α) : Server K α :=
  { s with returned := s.returned ++ [(client, value)] }

/-- Popping from a list that is there, for `popGenericCommand` and `blockingPopGenericCommand`. -/
def Server.popList (client : Nat) (key : K) (value : α) (rest : List α) : Server K α :=
  ((s.setItems key rest).deleteIfEmpty key).deliver client value

def Server.popGenericCommand (client : Nat) (place : Where) (key : K) : Server K α :=
  match s.db.lookup key with
  | some (.list items) =>
      match listTypePop place items with
      | some (value, rest) => s.popList client key value rest
      | none => s
  | _ => s

/-- `rpoplpushHandlePush`; a destination of another type is refused before. -/
def Server.rpoplpushHandlePush (target : K) (value : α) : Server K α :=
  match s.db.lookup target with
  | none => (s.dbAdd target (.list [])).setItems target [value]
  | some (.list items) => s.setItems target (value :: items)
  | some .other => s

def Server.rpoplpushCommand (source target : K) : Server K α :=
  match s.db.lookup source with
  | some (.list items) =>
      match s.db.lookup target with
      | some .other => s
      | _ =>
          match listTypePop .tail items with
          | some (value, rest) =>
              ((s.setItems source rest).rpoplpushHandlePush target value).deleteIfEmpty source
          | none => s
  | _ => s

/-- One round of the loop of `blockForKeys`, over `bpop.keys` and `db->blocking_keys`. -/
def blockForKey (client : Nat) (state : List K × (K → List Nat)) (key : K)
    : List K × (K → List Nat) :=
  if key ∈ state.1 then state
  else (state.1 ++ [key], Function.update state.2 key (state.2 key ++ [client]))

def Server.blockForKeys (client : Nat) (keys : List K) (target : Option K) (blpop : Bool)
    : Server K α :=
  let (bpopKeys, blockingKeys) := keys.foldl (blockForKey client) ([], s.blockingKeys)
  { s with
    blockingKeys := blockingKeys
    blocked := s.blocked ++ [⟨client, s.clock, bpopKeys, target, blpop⟩]
    clock := s.clock + 1 }

/-- What the loop of `blockingPopGenericCommand` finds. -/
inductive PopSearch (K α : Type) where
  | found (key : K) (value : α) (rest : List α)
  | wrongType
  | nothing

/-- The loop of `blockingPopGenericCommand`. -/
def searchPop (server : Server K α) (place : Where) : List K → PopSearch K α
  | [] => .nothing
  | key :: keys =>
      match server.db.lookup key with
      | none => searchPop server place keys
      | some .other => .wrongType
      | some (.list items) =>
          match listTypePop place items with
          | some (value, rest) => .found key value rest
          | none => searchPop server place keys

def Server.blockingPopGenericCommand (client : Nat) (multi : Bool) (place : Where) (keys : List K)
    : Server K α :=
  match searchPop s place keys with
  | .found key value rest => s.popList client key value rest
  | .wrongType => s
  | .nothing => if multi then s else s.blockForKeys client keys none (place = .head)

def Server.brpoplpushCommand (client : Nat) (multi : Bool) (source target : K) : Server K α :=
  match s.db.lookup source with
  | none => if multi then s else s.blockForKeys client [source] (some target) false
  | some .other => s
  | some (.list _) => s.rpoplpushCommand source target

/-- `renameGenericCommand`, and `moveCommand` with `nx` between two databases. -/
def Server.renameGenericCommand (nx : Bool) (source target : K) : Server K α :=
  if source = target then s
  else
    match s.db.lookup source with
    | none => s
    | some value =>
        if nx && (s.db.lookup target).isSome then s
        else ((s.dbDelete target).dbAdd target value).dbDelete source

def Server.restoreCommand (replace : Bool) (key : K) (value : Value α) : Server K α :=
  if !replace && (s.db.lookup key).isSome then s else (s.dbDelete key).dbAdd key value

/-- The end of `sortCommand` with `STORE`. -/
def Server.sortStore (key : K) (items : List α) : Server K α :=
  if items = [] then s.dbDelete key else s.setKey key (.list items)

/-- An existing list gets other elements: `LINSERT`, `LPUSHX`, `RPUSHX`, `LSET`. -/
def Server.editList (key : K) (edit : List α → List α) : Server K α :=
  match s.db.lookup key with
  | some (.list (value :: rest)) =>
      if edit (value :: rest) = [] then s else s.setItems key (edit (value :: rest))
  | _ => s

inductive Command (K α : Type) where
  | push (place : Where) (key : K) (values : List α)
  | pop (place : Where) (key : K)
  | rpoplpush (source target : K)
  | bpop (place : Where) (keys : List K)
  | brpoplpush (source target : K)
  | rename (nx : Bool) (source target : K)
  | restore (replace : Bool) (key : K) (value : Value α)
  | sortStore (key : K) (items : List α)
  | edit (key : K) (edit : List α → List α)
  /-- `SET` and other commands that store another type. -/
  | set (key : K)
  /-- `DEL`, and keys that expire. -/
  | del (key : K)

def Server.runCommand (client : Nat) (multi : Bool) : Command K α → Server K α
  | .push place key values => s.pushGenericCommand place key values
  | .pop place key => s.popGenericCommand client place key
  | .rpoplpush source target => s.rpoplpushCommand source target
  | .bpop place keys => s.blockingPopGenericCommand client multi place keys
  | .brpoplpush source target => s.brpoplpushCommand client multi source target
  | .rename nx source target => s.renameGenericCommand nx source target
  | .restore replace key value => s.restoreCommand replace key value
  | .sortStore key items => s.sortStore key items
  | .edit key edit => s.editList key edit
  | .set key => s.setKey key .other
  | .del key => s.dbDelete key

-- Serving blocked clients

/-- `unblockClient` of a client blocked on lists. -/
def Server.unblockClient (receiver : Blocked K) : Server K α :=
  { s with
    blockingKeys := fun key =>
      if key ∈ receiver.keys then (s.blockingKeys key).erase receiver.client else s.blockingKeys key
    blocked := s.blocked.filter (fun b => b.client ≠ receiver.client) }

/-- The entry that the history gets when a client is served. -/
def Server.record (receiver : Blocked K) (key : K) (outcome : Outcome K α) : Server K α :=
  { s with
    served := s.served
      ++ [⟨receiver.client, receiver.seq, key,
          (s.blocked.filter (fun b => key ∈ b.keys)).map (·.seq), outcome⟩] }

/-- `serveClientBlockedOnList` with the value that was popped, and `listTypePush` of that value if
the client cannot be served. `before` is the list before the pop.
-/
def Server.serveClientBlockedOnList (receiver : Blocked K) (key : K) (place : Where) (value : α)
    (before rest : List α) : Server K α :=
  match receiver.target with
  | none => (s.deliver receiver.client value).record receiver key (.popped value)
  | some target =>
      match s.db.lookup target with
      | some .other =>
          (s.setItems key (listTypePush place rest value)).record receiver key
            (.wrongType before (listTypePush place rest value))
      | _ => (s.rpoplpushHandlePush target value).record receiver key (.moved value target)

/-- One round of the loop over the clients: the first client in the queue of the key is served, if
the list has an element.
-/
def Server.serveFirst (key : K) : Option (Server K α) :=
  match s.db.lookup key, s.blockingKeys key with
  | some (.list items), client :: _ =>
      match s.blocked.find? (fun b => b.client = client) with
      | none => none
      | some receiver =>
          let place := if receiver.blpop then Where.head else Where.tail
          match listTypePop place items with
          | none => none
          | some (value, rest) =>
              some (((s.setItems key rest).unblockClient receiver).serveClientBlockedOnList receiver
                key place value items rest)
  | _, _ => none

/-- The loop over the clients, `numclients` rounds at most. -/
def serveClients (key : K) : (numclients : Nat) → Server K α → Server K α
  | 0, s => s
  | numclients + 1, s =>
      match s.serveFirst key with
      | none => s
      | some s => serveClients key numclients s

/-- One entry of `server.ready_keys`. -/
def Server.handleReadyKey (key : K) : Server K α :=
  let s := { s with signaled := Function.update s.signaled key false }
  match s.db.lookup key with
  | some (.list _) => (serveClients key (s.blockingKeys key).length s).deleteIfEmpty key
  | _ => s

/-- `handleClientsBlockedOnLists`: each round takes the list of ready keys. -/
def handleRounds : (rounds : Nat) → Server K α → Server K α
  | 0, s => s
  | rounds + 1, s =>
      if s.readyKeys = [] then s
      else
        handleRounds rounds (s.readyKeys.foldl Server.handleReadyKey { s with readyKeys := [] })

/-- `handleClientsBlockedOnLists`. A round behind which keys are ready has served a client, so
these rounds are enough.
-/
def Server.handleClientsBlockedOnLists : Server K α := handleRounds (s.blocked.length + 2) s

-- Events

inductive Event (K α : Type) where
  | command (client : Nat) (command : Command K α)
  | exec (client : Nat) (commands : List (Command K α))
  | timeout (client : Nat)

/-- A blocked client sends no commands. -/
def Server.isBlocked (client : Nat) : Bool := s.blocked.any (fun b => b.client = client)

def Server.runCommands (client : Nat) (commands : List (Command K α)) : Server K α :=
  commands.foldl (fun s command => s.runCommand client true command) s

/-- `unblockClient` of a client whose time is over. -/
def Server.timeoutClient (client : Nat) : Server K α :=
  match s.blocked.find? (fun b => b.client = client) with
  | none => s
  | some receiver => s.unblockClient receiver

/-- `processCommand`, or the timeout of a client. -/
def Server.step : Event K α → Server K α
  | .command client command =>
      if s.isBlocked client then s
      else (s.runCommand client false command).handleClientsBlockedOnLists
  | .exec client commands =>
      if s.isBlocked client then s
      else (s.runCommands client commands).handleClientsBlockedOnLists
  | .timeout client => s.timeoutClient client

end Redis.Lists
