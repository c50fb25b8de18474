import Redis.Aof.Load
import Redis.Keyspace.Commands
import Redis.Replication.Backlog

/-! The options, scores and pairs in the arguments of `ZADD` and `HMSET`, and `SELECT`. -/

namespace Redis.Keyspace

/-- The `double` of a score, which is never a NaN, with what `libc` does to it. -/
structure Scores (F : Type) where
  /-- `getDoubleFromObject`. -/
  parse : Sds → Option F
  /-- The text of `%.17g`. -/
  print : F → Sds
  /-- The sum, if it is a number. -/
  add : F → F → Option F
  /-- `==`, for which the two zeros are the same. -/
  same : F → F → Bool

/-- `dbnum` and `cluster_enabled`. -/
structure Config where
  dbnum : Nat
  clusterEnabled : Bool

variable {F : Type} (scores : Scores F) (config : Config)

def argumentPairs : List Sds → List (Sds × Sds)
  | first :: second :: rest => (first, second) :: argumentPairs rest
  | _ => []

-- Sorted sets

/-- `ZADD_NX`, `ZADD_XX` and `ZADD_INCR`. `ZADD_CH` changes the reply only. -/
structure ZaddFlags where
  nx : Bool
  xx : Bool
  incr : Bool

/-- `ZADD_NONE`. -/
def ZaddFlags.none : ZaddFlags := ⟨false, false, false⟩

/-- The options of `zaddGenericCommand`. -/
inductive ZaddOption where
  | nx
  | xx
  | ch
  | incr
deriving DecidableEq, Repr

/-- The option that an argument is, as `strcasecmp` finds it. -/
def zaddOption (arg : Sds) : Option ZaddOption :=
  if strcaseEqual (cString arg) [0x6E, 0x78] then some .nx
  else if strcaseEqual (cString arg) [0x78, 0x78] then some .xx
  else if strcaseEqual (cString arg) [0x63, 0x68] then some .ch
  else if strcaseEqual (cString arg) [0x69, 0x6E, 0x63, 0x72] then some .incr
  else none

def ZaddFlags.withOption (flags : ZaddFlags) : ZaddOption → ZaddFlags
  | .nx => { flags with nx := true }
  | .xx => { flags with xx := true }
  | .ch => flags
  | .incr => { flags with incr := true }

/-- The loop over the options: the flags and the arguments behind them. -/
def zaddOptions : ZaddFlags → List Sds → ZaddFlags × List Sds
  | flags, [] => (flags, [])
  | flags, arg :: args =>
      match zaddOption arg with
      | some option => zaddOptions (flags.withOption option) args
      | none => (flags, arg :: args)

/-- One element of `zaddGenericCommand`; it fails if the increment gives a NaN. -/
def zaddElement (flags : ZaddFlags) (zset : Sds → Option F) (score : F) (element : Sds)
    : Option (Sds → Option F) :=
  match zset element with
  | none => some (if flags.xx then zset else Function.update zset element (some score))
  | some current =>
      if flags.nx then some zset
      else
        (if flags.incr then scores.add score current else some score).map (fun score =>
          if scores.same score current then zset else Function.update zset element (some score))

/-- All the scores are parsed before the first element is added. -/
def parseScores : List (Sds × Sds) → Option (List (F × Sds))
  | [] => some []
  | (text, element) :: rest =>
      (scores.parse text).bind (fun score =>
        (parseScores rest).map (fun parsed => (score, element) :: parsed))

-- The dataset

/-- `selectDb`, with an `int`. -/
def selectDb (id : Int) : Option Nat :=
  if id.bmod (2 ^ 32) < 0 ∨ config.dbnum ≤ id.bmod (2 ^ 32) then none
  else some (id.bmod (2 ^ 32)).toNat

/-- The index of `selectCommand`. -/
def selectIndex (argv : Argv) : Option Nat :=
  match getLongLongFromObject (argv.tail.headD []) with
  | none => none
  | some id => if config.clusterEnabled ∧ id ≠ 0 then none else selectDb config id

end Redis.Keyspace
