import Redis.Keyspace.ExpireTimes
import Redis.Keyspace.Loading

/-! `multi.c`: the keys that clients watch, and the flags that a change of such a key sets. -/

namespace Redis.Watch

open Redis.Keyspace (Db Sds Role)

-- Requests

/-- `ZRANGE_RANK`, `ZRANGE_SCORE` and `ZRANGE_LEX`. -/
inductive RangeType where
  | rank
  | score
  | lex
deriving DecidableEq, Repr

/-- `REDIS_OP_UNION` and `REDIS_OP_INTER`. -/
inductive SetOperation where
  | union
  | inter
deriving DecidableEq, Repr

/-- The commands that change keys, with the arguments behind their names, and `SELECT` and
`UNWATCH`, which change the client.
-/
inductive Request where
  | set (key value : Sds) (options : List Sds)
  | setnx (key value : Sds)
  | setex (key seconds value : Sds)
  | psetex (key milliseconds value : Sds)
  | getset (key value : Sds)
  | setrange (key offset value : Sds)
  | mset (args : List Sds)
  | msetnx (args : List Sds)
  | incr (key : Sds)
  | decr (key : Sds)
  | incrby (key increment : Sds)
  | decrby (key decrement : Sds)
  | incrbyfloat (key increment : Sds)
  | append (key value : Sds)
  | setbit (key offset bit : Sds)
  | bitop (operation target : Sds) (keys : List Sds)
  | pfadd (key : Sds) (elements : List Sds)
  | pfmerge (target : Sds) (keys : List Sds)
  | del (keys : List Sds)
  | rename (key newkey : Sds)
  | renamenx (key newkey : Sds)
  | move (key index : Sds)
  | expire (key seconds : Sds)
  | pexpire (key milliseconds : Sds)
  | expireat (key seconds : Sds)
  | pexpireat (key milliseconds : Sds)
  | persist (key : Sds)
  | flushdb
  | flushall
  | zadd (key : Sds) (args : List Sds)
  | zincrby (key increment member : Sds)
  | zrem (key : Sds) (members : List Sds)
  /-- `ZREMRANGEBYRANK`, `ZREMRANGEBYSCORE` and `ZREMRANGEBYLEX`. -/
  | zremrange (type : RangeType) (key min max : Sds)
  /-- `ZUNIONSTORE` and `ZINTERSTORE`. -/
  | zunionInter (operation : SetOperation) (target numkeys : Sds) (args : List Sds)
  /-- A command that looks keys up and changes none. -/
  | read (keys : List Sds)
  | select (index : Sds)
  | unwatch
deriving DecidableEq, Repr

-- The state

/-- `redisClient`, as far as transactions go. -/
structure Client where
  /-- `c->db->id`. -/
  db : Nat
  multi : Bool
  dirtyCas : Bool
  dirtyExec : Bool
  /-- `mstate.commands`. -/
  commands : List Request
  /-- `c->watched_keys`: databases and keys. -/
  watchedKeys : List (Nat × Sds)
deriving DecidableEq, Repr

def Client.new : Client := ⟨0, false, false, false, [], []⟩

/-- The databases and the clients; a number that no client uses stands for a new client. -/
structure Server (F : Type) where
  dbs : Nat → Db F
  clients : Nat → Client
  /-- `db->watched_keys`: the clients that watch a key of a database. -/
  watchers : Nat → Sds → List Nat

variable {F : Type} (s : Server F)

/-- A server with these databases and without clients. -/
def Server.start (dbs : Nat → Db F) : Server F := ⟨dbs, fun _ => .new, fun _ _ => []⟩

def Server.setDb (id : Nat) (db : Db F) : Server F :=
  { s with dbs := Function.update s.dbs id db }

def Server.setClient (n : Nat) (c : Client) : Server F :=
  { s with clients := Function.update s.clients n c }

-- Watching

def Server.watchForKey (n : Nat) (key : Sds) : Server F :=
  let c := s.clients n
  if (c.db, key) ∈ c.watchedKeys then s
  else
    { s with
      clients :=
        Function.update s.clients n { c with watchedKeys := c.watchedKeys ++ [(c.db, key)] }
      watchers :=
        Function.update s.watchers c.db
          (Function.update (s.watchers c.db) key (s.watchers c.db key ++ [n])) }

/-- One round of the loop of `unwatchAllKeys`. -/
def removeWatcher (n : Nat) (watchers : Nat → Sds → List Nat) (watched : Nat × Sds)
    : Nat → Sds → List Nat :=
  Function.update watchers watched.1
    (Function.update (watchers watched.1) watched.2 ((watchers watched.1 watched.2).erase n))

def Server.unwatchAllKeys (n : Nat) : Server F :=
  { s with
    clients := Function.update s.clients n { s.clients n with watchedKeys := [] }
    watchers := (s.clients n).watchedKeys.foldl (removeWatcher n) s.watchers }

/-- `REDIS_DIRTY_CAS` is set. -/
def Client.touch (c : Client) : Client := { c with dirtyCas := true }

/-- `signalModifiedKey`, that is `touchWatchedKey`. -/
def Server.signalModifiedKey (id : Nat) (key : Sds) : Server F :=
  { s with
    clients := fun n =>
      if n ∈ s.watchers id key then (s.clients n).touch else s.clients n }

/-- A client watches a key that is there, in the database that is flushed. -/
def Server.watchesFlushed (dbid : Option Nat) (n : Nat) : Bool :=
  (s.clients n).watchedKeys.any (fun watched =>
    (dbid = none || dbid = some watched.1) && ((s.dbs watched.1).dict watched.2).isSome)

/-- `signalFlushedDb`, that is `touchWatchedKeysOnFlush`. `none` stands for -1, all the databases.
-/
def Server.signalFlushedDb (dbid : Option Nat) : Server F :=
  { s with
    clients := fun n => if s.watchesFlushed dbid n then (s.clients n).touch else s.clients n }

-- Transactions

def Server.discardTransaction (n : Nat) : Server F :=
  let s :=
    s.setClient n
      { s.clients n with commands := [], multi := false, dirtyCas := false, dirtyExec := false }
  s.unwatchAllKeys n

/-- `watchCommand`, which is refused inside `MULTI`. -/
def Server.watchCommand (n : Nat) (keys : List Sds) : Server F :=
  if (s.clients n).multi then s else keys.foldl (fun s key => s.watchForKey n key) s

def Server.unwatchCommand (n : Nat) : Server F :=
  let s := s.unwatchAllKeys n
  s.setClient n { s.clients n with dirtyCas := false }

def Server.multiCommand (n : Nat) : Server F := s.setClient n { s.clients n with multi := true }

def Server.discardCommand (n : Nat) : Server F :=
  if (s.clients n).multi then s.discardTransaction n else s

def Server.queueMultiCommand (n : Nat) (request : Request) : Server F :=
  s.setClient n { s.clients n with commands := (s.clients n).commands ++ [request] }

/-- `flagTransaction`, when `processCommand` refuses a command. -/
def Server.flagTransaction (n : Nat) : Server F :=
  if (s.clients n).multi then s.setClient n { s.clients n with dirtyExec := true } else s

def Server.freeClient (n : Nat) : Server F := (s.unwatchAllKeys n).setClient n .new

end Redis.Watch
