import Redis.Commands.KeyExtraction
import Redis.Keyspace.IndexConsistency
import Redis.Keyspace.Loading

/-! `zaddGenericCommand` on a database with sorted sets in both encodings: when it changes nothing
but what it replies, and when it leaves an empty sorted set.
-/

namespace Redis.Zadd

open Redis.Library
open Redis.Keyspace (Sds Scores nxText xxText)
open Redis.SideIndexes

-- Sorted sets

structure ZsetEntry (F : Type) where
  ele : Sds
  score : F

/-- A sorted set object: the entries of its ziplist, or of its skiplist and the dictionary, of which
the values are in the nodes.
-/
inductive Zset (F : Type) where
  | ziplist (entries : List (ZsetEntry F))
  | skiplist (entries : List (ZsetEntry F))

def Zset.entries {F : Type} : Zset F → List (ZsetEntry F)
  | .ziplist entries => entries
  | .skiplist entries => entries

inductive Value (F : Type) where
  | zset (zset : Zset F)
  /-- A value of another type. -/
  | other

/-- `zset_max_ziplist_entries` and `zset_max_ziplist_value`. -/
structure Limits where
  maxZiplistEntries : Nat
  maxZiplistValue : Nat

section Model

variable {F : Type} (scores : Scores F) (less : F → F → Bool) (limits : Limits)

/-- `zzlFind` and the lookup in the dictionary. -/
def zsetFind (entries : List (ZsetEntry F)) (ele : Sds) : Option F :=
  (entries.find? fun entry => entry.ele = ele).map ZsetEntry.score

/-- `zzlDelete` at the element, and `zslDelete` of it. -/
def zsetDelete (entries : List (ZsetEntry F)) (ele : Sds) : List (ZsetEntry F) :=
  entries.eraseP fun entry => entry.ele = ele

def zzlInsert (ele : Sds) (score : F) : List (ZsetEntry F) → List (ZsetEntry F)
  | [] => [⟨ele, score⟩]
  | entry :: rest =>
      if less score entry.score then ⟨ele, score⟩ :: entry :: rest
      else if scores.same entry.score score && 0 < compareBytes entry.ele ele then
        ⟨ele, score⟩ :: entry :: rest
      else entry :: zzlInsert ele score rest

/-- `zslInsert`, on level 0. -/
def zslInsert (ele : Sds) (score : F) : List (ZsetEntry F) → List (ZsetEntry F)
  | [] => [⟨ele, score⟩]
  | entry :: rest =>
      if less entry.score score
          || (scores.same entry.score score && compareBytes entry.ele ele < 0) then
        entry :: zslInsert ele score rest
      else ⟨ele, score⟩ :: entry :: rest

/-- `zsetConvert` to a skiplist. -/
def zsetConvert : Zset F → Zset F
  | .ziplist entries =>
      .skiplist
        (entries.foldl (fun done entry => zslInsert scores less entry.ele entry.score done) [])
  | .skiplist entries => .skiplist entries

-- Options

/-- `ZADD_INCR`, `ZADD_NX`, `ZADD_XX` and `ZADD_CH`. -/
structure Flags where
  incr : Bool
  nx : Bool
  xx : Bool
  ch : Bool
deriving DecidableEq, Repr

/-- `ZADD_NONE`. -/
def Flags.none : Flags := ⟨false, false, false, false⟩

/-- The words of the options. -/
def chText : Sds := [0x63, 0x68]
def incrText : Sds := [0x69, 0x6E, 0x63, 0x72]

/-- The loop over the options: the flags and the arguments from `scoreidx` on. -/
def zaddOptions : Flags → List Sds → Flags × List Sds
  | flags, [] => (flags, [])
  | flags, opt :: args =>
      if isOption opt nxText then zaddOptions { flags with nx := true } args
      else if isOption opt xxText then zaddOptions { flags with xx := true } args
      else if isOption opt chText then zaddOptions { flags with ch := true } args
      else if isOption opt incrText then zaddOptions { flags with incr := true } args
      else (flags, opt :: args)

inductive ZaddReply (F : Type) where
  | error (text : String)
  | double (score : F)
  | nullbulk
  | integer (n : Nat)

/-- `shared.syntaxerr`, `shared.wrongtypeerr` and the texts of `addReplyError`. -/
def syntaxerr : ZaddReply F := .error "syntax error"
def wrongtypeerr : ZaddReply F :=
  .error "Operation against a key holding the wrong kind of value"
def incompatible : ZaddReply F := .error "XX and NX options at the same time are not compatible"
def singlePair : ZaddReply F := .error "INCR option supports a single increment-element pair"
def notFloat : ZaddReply F := .error "value is not a valid float"
def nanerr : ZaddReply F := .error "resulting score is not a number (NaN)"

-- Elements

/-- The variables of the loop over the elements; `score` is not set before the first. -/
structure Progress (F : Type) where
  zobj : Zset F
  score : Option F
  added : Nat
  updated : Nat
  processed : Nat

/-- An element that is there, at its new score. -/
def Progress.update (p : Progress F) (zobj : Zset F) (score : F) : Progress F :=
  { p with zobj, score := some score, updated := p.updated + 1, processed := p.processed + 1 }

def Progress.add (p : Progress F) (zobj : Zset F) (score : F) : Progress F :=
  { p with zobj, score := some score, added := p.added + 1, processed := p.processed + 1 }

/-- The new object when an element gets another score. -/
def Zset.rescore (ele : Sds) (score : F) : Zset F → Zset F
  | .ziplist entries => .ziplist (zzlInsert scores less ele score (zsetDelete entries ele))
  | .skiplist entries => .skiplist (zslInsert scores less ele score (zsetDelete entries ele))

/-- The new object when an element is added; a ziplist that is too long or has too long an element
is converted.
-/
def Zset.insert (ele : Sds) (score : F) : Zset F → Zset F
  | .ziplist entries =>
      let zobj := .ziplist (zzlInsert scores less ele score entries)
      let zobj :=
        if zobj.entries.length > limits.maxZiplistEntries then zsetConvert scores less zobj
          else zobj
      if ele.length > limits.maxZiplistValue then zsetConvert scores less zobj else zobj
  | .skiplist entries => .skiplist (zslInsert scores less ele score entries)

/-- One round of the loop; it gives nothing where a sum is not a number. -/
def zaddElement (flags : Flags) (ele : Sds) (score : F) (p : Progress F) : Option (Progress F) :=
  match zsetFind p.zobj.entries ele with
  | some curscore =>
      if flags.nx then some { p with score := some score }
      else
        match if flags.incr then scores.add score curscore else some score with
        | none => none
        | some score =>
            if scores.same score curscore then
              some { p with score := some score, processed := p.processed + 1 }
            else some (p.update (p.zobj.rescore scores less ele score) score)
  | none =>
      if flags.xx then some { p with score := some score }
      else some (p.add (p.zobj.insert scores less limits ele score) score)

/-- The loop, from element `j` on, with the scores from there on. The second value tells whether it
came to the end.
-/
def zaddElements (flags : Flags) (argv : List Sds) (scoreidx : Nat)
    : (j : Nat) → List F → Progress F → Except Fault (Progress F × Bool)
  | _, [], p => .ok (p, true)
  | j, score :: rest, p => do
      let ele ← argvAt argv (scoreidx + 1 + j * 2)
      match zaddElement scores less limits flags ele score p with
      | none => pure (p, false)
      | some p => zaddElements flags argv scoreidx (j + 1) rest p

/-- The loop that parses the scores of the elements from `j` on. -/
def parseScores (argv : List Sds) (scoreidx : Nat)
    : (j elements : Nat) → Except Fault (Option (List F))
  | _, 0 => .ok (some [])
  | j, elements + 1 => do
      let text ← argvAt argv (scoreidx + j * 2)
      match scores.parse text with
      | none => pure none
      | some score => do
          let rest ← parseScores argv scoreidx (j + 1) elements
          pure (rest.map (score :: ·))

-- The command

/-- `addReply` at `reply_to_client`. -/
def zaddReply (flags : Flags) (p : Progress F) : ZaddReply F :=
  if flags.incr then
    match p.score with
    | some score => if p.processed ≠ 0 then .double score else .nullbulk
    | none => .nullbulk
  else .integer (if flags.ch then p.added + p.updated else p.added)

/-- The object that a missing key gets. -/
def zaddCreate (argv : List Sds) (scoreidx : Nat) : Except Fault (Zset F) :=
  if limits.maxZiplistEntries = 0 then .ok (.skiplist [])
  else do
    let ele ← argvAt argv (scoreidx + 1)
    pure (if limits.maxZiplistValue < ele.length then .skiplist [] else .ziplist [])

/-- Changing the object of a key in place. -/
def storeZset (s : Server (Value F)) (id : Nat) (key : Sds) (zobj : Zset F) : Server (Value F) :=
  s.setDb id { s.dbs id with dict := Function.update (s.dbs id).dict key (some (.zset zobj)) }

/-- The loop over the elements of the object of the key, and the reply. -/
def zaddApply (flags : Flags) (argv : List Sds) (scoreidx : Nat) (parsed : List F)
    (s : Server (Value F)) (id : Nat) (key : Sds) (zobj : Zset F)
    : Except Fault (Server (Value F) × ZaddReply F) := do
  let (p, ended) ← zaddElements scores less limits flags argv scoreidx 0 parsed
    ⟨zobj, none, 0, 0, 0⟩
  pure (storeZset s id key p.zobj, if ended then zaddReply flags p else nanerr)

variable (keyHashSlot : Sds → Nat)

/-- `zaddGenericCommand` behind the parsing of the scores. -/
def zaddParsed (flags : Flags) (argv : List Sds) (scoreidx : Nat) (parsed : List F)
    (s : Server (Value F)) (moment : Moment) (id : Nat) (key : Sds)
    : Except Fault (Server (Value F) × ZaddReply F) := do
  let (s, zobj) ← lookupKeyWrite keyHashSlot s moment id key
  match zobj with
  | none =>
      if flags.xx then pure (s, zaddReply flags ⟨.ziplist [], none, 0, 0, 0⟩)
      else do
        let zobj ← zaddCreate limits argv scoreidx
        let s ← dbAdd keyHashSlot s id key (.zset zobj)
        zaddApply scores less limits flags argv scoreidx parsed s id key zobj
  | some (.zset zobj) => zaddApply scores less limits flags argv scoreidx parsed s id key zobj
  | some .other => pure (s, wrongtypeerr)

def zaddGenericCommand (flags : Flags) (argv : List Sds) (s : Server (Value F)) (moment : Moment)
    (id : Nat)
    : Except Fault (Server (Value F) × ZaddReply F) := do
  let key ← argvAt argv 1
  let (flags, rest) := zaddOptions flags (argv.drop 2)
  let scoreidx := argv.length - rest.length
  let elements := argv.length - scoreidx
  if elements % 2 = 1 then pure (s, syntaxerr)
  else if flags.nx && flags.xx then pure (s, incompatible)
  else if flags.incr && 1 < elements / 2 then pure (s, singlePair)
  else do
    match ← parseScores scores argv scoreidx 0 (elements / 2) with
    | none => pure (s, notFloat)
    | some parsed =>
        zaddParsed scores less limits keyHashSlot flags argv scoreidx parsed s moment id key

def zaddCommand (argv : List Sds) (s : Server (Value F)) (moment : Moment) (id : Nat)
    : Except Fault (Server (Value F) × ZaddReply F) :=
  zaddGenericCommand scores less limits keyHashSlot .none argv s moment id

end Model

end Redis.Zadd
