import Mathlib.Data.List.TakeWhile
import Redis.Commands.ProcessCommand

/-! `call` and `execCommand`: what a transaction feeds to the append only file and to the slaves. -/

namespace Redis.Propagation

variable {σ : Type}

-- The code

/-- A command that is fed, with `REDIS_CMD_READONLY` in the flags of its table entry. -/
inductive Fed where
  | multi
  | exec
  | command (readonly : Bool) (argv : Argv)
deriving DecidableEq, Repr

/-- The two places that `propagate` feeds. -/
inductive Stream where
  | aof
  | slaves
deriving DecidableEq, Repr

/-- A master: its data, `server.dirty` and what it has fed so far. -/
structure Server (σ : Type) where
  data : σ
  dirty : Int
  /-- `server.aof_state != REDIS_AOF_OFF`. -/
  aofOn : Bool
  fed : Stream → List Fed

/-- A stream that is fed at all. -/
def Server.on (server : Server σ) : Stream → Bool
  | .aof => server.aofOn
  | .slaves => true

/-- `propagate`, to the streams in `targets`. -/
def propagate (targets : Stream → Bool) (fed : Fed) (server : Server σ) : Server σ :=
  { server with
    fed := fun stream =>
      if server.on stream && targets stream then server.fed stream ++ [fed] else server.fed stream }

/-- What a proc does on its way besides its own reply. -/
inductive Effect where
  /-- `expireIfNeeded` deletes a key. -/
  | expired (key : List UInt8)
  /-- `CONFIG SET appendonly` leaves the append only file on or off. -/
  | setAof (on : Bool)
deriving DecidableEq, Repr

structure ProcResult (σ : Type) where
  data : σ
  dirty : Int
  effects : List Effect
  /-- `c->cmd` and `c->argv`; the proc may have rewritten them. -/
  readonly : Bool
  argv : Argv
  /-- `REDIS_FORCE_AOF` and `REDIS_FORCE_REPL` in `c->flags`. -/
  forced : Stream → Bool

/-- A command in `c->mstate.commands`. -/
structure QueuedCommand (σ : Type) where
  readonly : Bool
  proc : σ → Int → ProcResult σ

/-- The command that `propagateExpire` feeds. -/
def expiredDel (key : List UInt8) : Fed := .command false [[0x44, 0x45, 0x4C], key]

def propagateExpire (server : Server σ) (key : List UInt8) : Server σ :=
  propagate (fun _ => true) (expiredDel key) server

def runEffect (server : Server σ) : Effect → Server σ
  | .expired key => propagateExpire server key
  | .setAof on => { server with aofOn := on }

/-- `c->cmd->proc(c)` of a queued command. -/
def runProc (result : ProcResult σ) (server : Server σ) : Server σ :=
  result.effects.foldl runEffect { server with data := result.data, dirty := result.dirty }

/-- The part of `call` behind the proc: `dirty` is the growth of `server.dirty`, and 0 if it got
smaller.
-/
def propagateCall (forced : Stream → Bool) (fed : Fed) (before after : Int) (server : Server σ)
    : Server σ :=
  let dirty := if after - before < 0 then 0 else after - before
  propagate (fun stream => forced stream || dirty ≠ 0) fed server

/-- `call` of a queued command. -/
def call (c : QueuedCommand σ) (server : Server σ) : Server σ :=
  let result := c.proc server.data server.dirty
  propagateCall result.forced (.command result.readonly result.argv) server.dirty result.dirty
    (runProc result server)

def execCommandPropagateMulti (server : Server σ)
    : Server σ := propagate (fun _ => true) .multi server

/-- One round of the loop of `execCommand`, over `must_propagate` and the server. -/
def execRound (state : Bool × Server σ) (c : QueuedCommand σ) : Bool × Server σ :=
  if !state.1 && !c.readonly then (true, call c (execCommandPropagateMulti state.2))
  else (state.1, call c state.2)

/-- `execCommand` of a transaction that is not aborted. -/
def execCommand (commands : List (QueuedCommand σ)) (server : Server σ) : Server σ :=
  let (mustPropagate, server) := commands.foldl execRound (false, server)
  if mustPropagate then { server with dirty := server.dirty + 1 } else server

/-- `call` of `EXEC`. The calls of the queued commands have cleared the flags that force. -/
def callExec (commands : List (QueuedCommand σ)) (server : Server σ) : Server σ :=
  let after := execCommand commands server
  propagateCall (fun _ => false) .exec server.dirty after.dirty after

-- What is said of a stream

def effectForms : List Effect → List Fed
  | [] => []
  | .expired key :: effects => expiredDel key :: effectForms effects
  | .setAof _ :: effects => effectForms effects

def commandForms (stream : Stream) (c : QueuedCommand σ) (data : σ) (dirty : Int) : List Fed :=
  let result := c.proc data dirty
  effectForms result.effects
  ++ if result.forced stream || dirty < result.dirty then [.command result.readonly result.argv]
    else []

/-- The propagated forms of the commands of a transaction, in order. -/
def queueForms (stream : Stream) : List (QueuedCommand σ) → σ → Int → List Fed
  | [], _, _ => []
  | c :: commands, data, dirty =>
      commandForms stream c data dirty
      ++ queueForms stream commands (c.proc data dirty).data (c.proc data dirty).dirty

/-- The data and `server.dirty` behind queued commands. -/
def queueState : List (QueuedCommand σ) → σ → Int → σ × Int
  | [], data, dirty => (data, dirty)
  | c :: commands, data, dirty =>
      queueState commands (c.proc data dirty).data (c.proc data dirty).dirty

/-- A reader of the stream is inside a transaction. -/
def readerOpen (fed : List Fed) : Bool :=
  fed.foldl (fun opened fed =>
    match fed with
    | .multi => true
    | .exec => false
    | .command _ _ => opened) false

def Fed.isReadonly : Fed → Bool
  | .command readonly _ => readonly
  | _ => false

/-- What a transaction may feed: nothing, commands of read-only type, or its commands between
`MULTI` and `EXEC`.
-/
structure WellBracketed (forms fed : List Fed) : Prop where
  shape : fed = [] ∨ (∀ f ∈ fed, f.isReadonly = true) ∨ fed = .multi :: forms ++ [.exec]
  closed : readerOpen fed = false

/-- The transaction feeds every stream as it may. -/
def TransactionBracketed (commands : List (QueuedCommand σ)) (server : Server σ) : Prop :=
  ∀ stream, ∃ fed,
    (callExec commands server).fed stream = server.fed stream ++ fed
    ∧ WellBracketed (queueForms stream commands server.data server.dirty) fed

-- What reaches a stream that is switched

/-- What reaches a stream, which is on or off at first, and whether it is on behind that. -/
def effectsFed (stream : Stream) : List Effect → Bool → List Fed × Bool
  | [], on => ([], on)
  | .expired key :: effects, on =>
      ((if on then [expiredDel key] else []) ++ (effectsFed stream effects on).1,
        (effectsFed stream effects on).2)
  | .setAof aof :: effects, on =>
      effectsFed stream effects (match stream with | .aof => aof | .slaves => on)

def commandFed (stream : Stream) (c : QueuedCommand σ) (data : σ) (dirty : Int) (on : Bool)
    : List Fed × Bool :=
  let result := c.proc data dirty
  let (fed, on) := effectsFed stream result.effects on
  (fed
    ++ (if on && (result.forced stream || dirty < result.dirty) then
      [.command result.readonly result.argv] else []), on)

def queueFed (stream : Stream) : List (QueuedCommand σ) → σ → Int → Bool → List Fed × Bool
  | [], _, _, on => ([], on)
  | c :: commands, data, dirty, on =>
      let (first, on) := commandFed stream c data dirty on
      let (rest, on) :=
        queueFed stream commands (c.proc data dirty).data (c.proc data dirty).dirty on
      (first ++ rest, on)

section Feeds

variable {server before after : Server σ} {commands : List (QueuedCommand σ)}
variable {more others : Stream → List Fed × Bool}

/-- From one state to another, every stream gets something and ends on or off. -/
structure Feeds (before after : Server σ) (more : Stream → List Fed × Bool) : Prop where
  on : ∀ stream, after.on stream = (more stream).2
  fed : ∀ stream, after.fed stream = before.fed stream ++ (more stream).1

theorem Feeds.trans {last : Server σ} (first : Feeds before after more)
    (second : Feeds after last others)
    : Feeds before last (fun stream => ((more stream).1 ++ (others stream).1, (others stream).2))
      where
  on := second.on
  fed := fun stream => by rw [second.fed, first.fed, List.append_assoc]

theorem Feeds.congr {same : Stream → List Fed × Bool} (feeds : Feeds before after more)
    (equal : ∀ stream, more stream = same stream)
    : Feeds before after same := by
  rwa [← funext equal]

theorem propagate_feeds (targets : Stream → Bool) (fed : Fed) (server : Server σ)
    : Feeds server (propagate targets fed server) (fun stream =>
        (if server.on stream && targets stream then [fed] else [], server.on stream)) := by
  refine ⟨fun stream => by cases stream <;> rfl, fun stream => ?_⟩
  simp only [propagate]
  cases server.on stream && targets stream <;> simp

theorem runEffects_feeds (effects : List Effect) (server : Server σ)
    : Feeds server (effects.foldl runEffect server)
        (fun stream => effectsFed stream effects (server.on stream))
      ∧ (effects.foldl runEffect server).data = server.data
      ∧ (effects.foldl runEffect server).dirty = server.dirty := by
  induction effects generalizing server with
  | nil => exact ⟨⟨fun stream => rfl, fun stream => by simp [effectsFed]⟩, rfl, rfl⟩
  | cons effect effects ih =>
      obtain ⟨feeds, data, dirty⟩ := ih (runEffect server effect)
      cases effect with
      | expired key =>
          have first := propagate_feeds (fun _ => true) (expiredDel key) server
          refine ⟨(first.trans feeds).congr fun stream => ?_, data, dirty⟩
          have on : (runEffect server (.expired key)).on stream = server.on stream :=
            first.on stream
          simp only [effectsFed, on, Bool.and_true]
      | setAof aof =>
          refine ⟨⟨fun stream => ?_, fun stream => ?_⟩, data, dirty⟩
          · rw [List.foldl_cons, feeds.on]
            cases stream <;> rfl
          · rw [List.foldl_cons, feeds.fed]
            cases stream <;> rfl

theorem propagateCall_feeds (forced : Stream → Bool) (fed : Fed) (before after : Int)
    (server : Server σ)
    : Feeds server (propagateCall forced fed before after server) (fun stream =>
        (if server.on stream && (forced stream || before < after) then [fed] else [],
          server.on stream)) := by
  have changed : ((if after - before < 0 then 0 else after - before) ≠ 0) ↔ before < after := by
    split <;> omega
  have feeds := propagate_feeds
    (fun stream => forced stream || (if after - before < 0 then 0 else after - before) ≠ 0) fed
      server
  simpa only [propagateCall, changed] using feeds

theorem call_feeds (c : QueuedCommand σ) (server : Server σ)
    : Feeds server (call c server)
        (fun stream => commandFed stream c server.data server.dirty (server.on stream))
      ∧ (call c server).data = (c.proc server.data server.dirty).data
      ∧ (call c server).dirty = (c.proc server.data server.dirty).dirty := by
  obtain ⟨⟨on, fed⟩, data, dirty⟩ := runEffects_feeds (c.proc server.data server.dirty).effects
    { server with
      data := (c.proc server.data server.dirty).data
      dirty := (c.proc server.data server.dirty).dirty }
  have same (stream : Stream)
      : Server.on { server with
          data := (c.proc server.data server.dirty).data
          dirty := (c.proc server.data server.dirty).dirty } stream = server.on stream := by
    cases stream <;> rfl
  simp only [same] at on fed
  have first : Feeds server (runProc (c.proc server.data server.dirty) server) (fun stream =>
      effectsFed stream (c.proc server.data server.dirty).effects (server.on stream)) := ⟨on, fed⟩
  refine ⟨(first.trans (propagateCall_feeds ..)).congr fun stream => ?_, data, dirty⟩
  rw [first.on]
  rfl

theorem execRounds_bracketed (commands : List (QueuedCommand σ)) (server : Server σ)
    : ∃ after, commands.foldl execRound (true, server) = (true, after)
        ∧ Feeds server after
            (fun stream => queueFed stream commands server.data server.dirty (server.on stream))
        ∧ (after.data, after.dirty) = queueState commands server.data server.dirty := by
  induction commands generalizing server with
  | nil => exact ⟨server, rfl, ⟨fun stream => rfl, fun stream => by simp [queueFed]⟩, rfl⟩
  | cons c commands ih =>
      obtain ⟨feeds, data, dirty⟩ := call_feeds c server
      obtain ⟨after, loop, rest, state⟩ := ih (call c server)
      rw [data, dirty] at rest state
      refine ⟨after, loop, (feeds.trans rest).congr fun stream => ?_, state⟩
      rw [feeds.on]
      rfl

/-- What reaches a stream: the commands up to the first that is not flagged as read-only, then
`MULTI` and the others.
-/
def bracketFed (stream : Stream) : List (QueuedCommand σ) → σ → Int → Bool → List Fed × Bool
  | [], _, _, on => ([], on)
  | c :: commands, data, dirty, on =>
      if c.readonly then
        let (first, on) := commandFed stream c data dirty on
        let (rest, on) :=
          bracketFed stream commands (c.proc data dirty).data (c.proc data dirty).dirty on
        (first ++ rest, on)
      else
        let (fed, last) := queueFed stream (c :: commands) data dirty on
        ((if on then [.multi] else []) ++ fed, last)

theorem execRounds_feeds (commands : List (QueuedCommand σ)) (server : Server σ)
    : ∃ after,
        commands.foldl execRound (false, server) = (!commands.all (·.readonly), after)
        ∧ Feeds server after
            (fun stream => bracketFed stream commands server.data server.dirty (server.on stream))
        ∧ (after.data, after.dirty) = queueState commands server.data server.dirty := by
  induction commands generalizing server with
  | nil => exact ⟨server, rfl, ⟨fun stream => rfl, fun stream => by simp [bracketFed]⟩, rfl⟩
  | cons c commands ih =>
      cases readonly : c.readonly with
      | true =>
          obtain ⟨feeds, data, dirty⟩ := call_feeds c server
          obtain ⟨after, loop, rest, state⟩ := ih (call c server)
          rw [data, dirty] at rest state
          refine ⟨after, ?_, (feeds.trans rest).congr fun stream => ?_, state⟩
          · simp only [List.foldl_cons, execRound, readonly, Bool.not_true, Bool.and_false,
              Bool.false_eq_true, if_false, loop, List.all_cons, Bool.true_and]
          · rw [feeds.on, bracketFed, if_pos readonly]
      | false =>
          obtain ⟨after, loop, feeds, state⟩ :=
            execRounds_bracketed (c :: commands) (execCommandPropagateMulti server)
          have multi := propagate_feeds (fun _ => true) .multi server
          refine ⟨after, ?_, (multi.trans feeds).congr fun stream => ?_, state⟩
          · simp only [List.foldl_cons, execRound, readonly, Bool.not_false, Bool.and_self,
              if_true, List.all_cons, Bool.false_and]
            simpa [execRound] using loop
          · have on : (execCommandPropagateMulti server).on stream = server.on stream :=
              multi.on stream
            rw [on, bracketFed, readonly, Bool.and_true]
            rfl

/-- `server.dirty` behind `execCommand`. -/
def dirtyAfter (commands : List (QueuedCommand σ)) (server : Server σ) : Int :=
  (queueState commands server.data server.dirty).2 + if commands.all (·.readonly) then 0 else 1

theorem callExec_feeds (commands : List (QueuedCommand σ)) (server : Server σ)
    : Feeds server (callExec commands server) (fun stream =>
        let (fed, on) := bracketFed stream commands server.data server.dirty (server.on stream)
        (fed ++ (if on && server.dirty < dirtyAfter commands server then [.exec] else []),
          on)) := by
  obtain ⟨after, loop, feeds, state⟩ := execRounds_feeds commands server
  have dirty : after.dirty = (queueState commands server.data server.dirty).2 :=
    congrArg Prod.snd state
  have ran : execCommand commands server
      = { after with dirty := dirtyAfter commands server } := by
    rw [execCommand, loop]
    cases all : commands.all (·.readonly) with
    | true => simp [dirtyAfter, all, ← dirty]
    | false => simp [dirtyAfter, all, ← dirty]
  have last := propagateCall_feeds (fun _ => false) .exec server.dirty
    (execCommand commands server).dirty (execCommand commands server)
  rw [ran] at last
  have first : Feeds server { after with dirty := dirtyAfter commands server }
      (fun stream => bracketFed stream commands server.data server.dirty (server.on stream)) :=
    ⟨fun stream => (by cases stream <;> rfl : _ = after.on stream).trans (feeds.on stream),
      feeds.fed⟩
  rw [callExec, ran]
  refine (first.trans last).congr fun stream => ?_
  rw [first.on, Bool.false_or]

-- The brackets

theorem effectsFed_command (stream : Stream) (effects : List Effect) (on : Bool)
    : ∀ f ∈ (effectsFed stream effects on).1, ∃ readonly argv, f = .command readonly argv := by
  induction effects generalizing on with
  | nil => simp [effectsFed]
  | cons effect effects ih =>
      cases effect with
      | expired key =>
          intro f member
          rcases List.mem_append.mp member with first | rest
          · split at first
            · exact ⟨_, _, List.mem_singleton.mp first⟩
            · cases first
          · exact ih _ f rest
      | setAof aof => exact ih _

theorem queueFed_command (stream : Stream) (commands : List (QueuedCommand σ)) (data : σ)
    (dirty : Int) (on : Bool)
    : ∀ f ∈ (queueFed stream commands data dirty on).1,
        ∃ readonly argv, f = .command readonly argv := by
  induction commands generalizing data dirty on with
  | nil => simp [queueFed]
  | cons c commands ih =>
      intro f member
      rcases List.mem_append.mp member with first | rest
      · rcases List.mem_append.mp first with expired | own
        · exact effectsFed_command _ _ _ f expired
        · split at own
          · exact ⟨_, _, List.mem_singleton.mp own⟩
          · cases own
      · exact ih _ _ _ f rest

/-- The read-only commands at the beginning, and what is behind them. -/
theorem bracketFed_split (stream : Stream) (commands : List (QueuedCommand σ)) (data : σ)
    (dirty : Int) (on : Bool)
    : bracketFed stream commands data dirty on
      = let front := commands.takeWhile (·.readonly)
        let back := commands.dropWhile (·.readonly)
        let (first, middle) := queueFed stream front data dirty on
        let (rest, last) :=
          queueFed stream back (queueState front data dirty).1
            (queueState front data dirty).2 middle
        (first ++ (if middle && !back.isEmpty then [.multi] else []) ++ rest, last) := by
  induction commands generalizing data dirty on with
  | nil => simp [bracketFed, queueFed, queueState]
  | cons c commands ih =>
      cases readonly : c.readonly with
      | true =>
          rw [bracketFed, if_pos readonly, List.takeWhile_cons_of_pos readonly,
            List.dropWhile_cons_of_pos readonly]
          dsimp only
          rw [ih]
          simp [queueFed, queueState]
      | false =>
          have stop : ¬ c.readonly = true := by simp [readonly]
          rw [bracketFed, if_neg stop, List.takeWhile_cons_of_neg stop,
            List.dropWhile_cons_of_neg stop]
          simp [queueFed, queueState]

/-- When a transaction is fed in brackets. With only read-only commands: they feed no other
commands, and `EXEC` is not fed. Otherwise, if the stream is on where `MULTI` is fed: nothing was
fed before, all that the commands have to feed reaches it, and it is on and `server.dirty` not lower
behind them. If it is off there: it is off or `server.dirty` lower behind the commands, and only
commands of read-only type reach it.
-/
def BracketCondition (stream : Stream) (commands : List (QueuedCommand σ)) (server : Server σ)
    : Prop :=
  let front := commands.takeWhile (·.readonly)
  let back := commands.dropWhile (·.readonly)
  let (first, middle) := queueFed stream front server.data server.dirty (server.on stream)
  let (data, dirty) := queueState front server.data server.dirty
  let (rest, last) := queueFed stream back data dirty middle
  let final := (queueState commands server.data server.dirty).2
  if commands.all (·.readonly) then
    (last = true → final ≤ server.dirty) ∧ ∀ f ∈ first, f.isReadonly = true
  else if middle then
    first = []
    ∧ rest = queueForms stream commands server.data server.dirty
    ∧ last = true
    ∧ server.dirty ≤ final
  else (last = true → final < server.dirty) ∧ ∀ f ∈ first ++ rest, f.isReadonly = true

theorem readerOpen_readonly {fed : List Fed} (all : ∀ f ∈ fed, f.isReadonly = true)
    : readerOpen fed = false := by
  unfold readerOpen
  induction fed with
  | nil => rfl
  | cons f fed ih =>
      have rest := ih (fun g member => all g (by simp [member]))
      cases f with
      | multi => exact absurd (all .multi (by simp)) (by decide)
      | exec => exact absurd (all .exec (by simp)) (by decide)
      | command readonly argv => exact rest

theorem readerOpen_exec (fed : List Fed) : readerOpen (fed ++ [.exec]) = false := by
  rw [readerOpen, List.foldl_append]
  rfl

theorem wellBracketed_plain {forms fed : List Fed} {ends : Bool}
    (commands : ∀ f ∈ fed, ∃ readonly argv, f = .command readonly argv)
    : WellBracketed forms (fed ++ if ends then [.exec] else [])
      ↔ ends = false ∧ ∀ f ∈ fed, f.isReadonly = true := by
  constructor
  · rintro ⟨shape, _⟩
    cases ends with
    | true =>
        rw [if_pos rfl] at shape
        rcases shape with empty | all | bracket
        · simp at empty
        · exact absurd (all .exec (by simp)) (by decide)
        · cases fed with
          | nil =>
              rw [List.nil_append] at bracket
              exact absurd (List.cons.inj bracket).1 (by decide)
          | cons f fed =>
              obtain ⟨readonly, argv, rfl⟩ := commands f (by simp)
              exact absurd (List.cons.inj bracket).1 (by simp)
    | false =>
        rw [if_neg Bool.false_ne_true, List.append_nil] at shape
        refine ⟨rfl, ?_⟩
        rcases shape with empty | all | bracket
        · rw [empty]
          simp
        · exact all
        · obtain ⟨readonly, argv, same⟩ := commands .multi (by rw [bracket]; simp)
          cases same
  · rintro ⟨rfl, all⟩
    rw [if_neg Bool.false_ne_true, List.append_nil]
    exact ⟨.inr (.inl all), readerOpen_readonly all⟩

theorem wellBracketed_multi {forms first rest : List Fed} {ends : Bool}
    (commands : ∀ f ∈ first, ∃ readonly argv, f = .command readonly argv)
    (commands' : ∀ f ∈ rest, ∃ readonly argv, f = .command readonly argv)
    : WellBracketed forms (first ++ [.multi] ++ rest ++ if ends then [.exec] else [])
      ↔ first = [] ∧ rest = forms ∧ ends = true := by
  constructor
  · rintro ⟨shape, _⟩
    rcases shape with empty | all | bracket
    · simp at empty
    · exact absurd (all .multi (by simp)) (by decide)
    · cases first with
      | cons f first =>
          obtain ⟨readonly, argv, rfl⟩ := commands f (by simp)
          exact absurd (List.cons.inj bracket).1 (by simp)
      | nil =>
          have inner : rest ++ (if ends = true then [.exec] else []) = forms ++ [.exec] :=
            (List.cons.inj bracket).2
          cases ends with
          | true => exact ⟨rfl, List.append_cancel_right inner, rfl⟩
          | false =>
              rw [if_neg Bool.false_ne_true, List.append_nil] at inner
              obtain ⟨readonly, argv, same⟩ := commands' .exec (by rw [inner]; simp)
              cases same
  · rintro ⟨rfl, rfl, rfl⟩
    exact ⟨.inr (.inr (by simp)), readerOpen_exec _⟩

theorem dropWhile_readonly
    : commands.dropWhile (·.readonly) = [] ↔ commands.all (·.readonly) = true := by
  rw [List.dropWhile_eq_nil_iff, List.all_eq_true]

theorem wellBracketed_iff (stream : Stream) (commands : List (QueuedCommand σ)) (server : Server σ)
    : WellBracketed (queueForms stream commands server.data server.dirty)
        (let (fed, on) := bracketFed stream commands server.data server.dirty (server.on stream)
        fed ++ (if on && server.dirty < dirtyAfter commands server then [.exec] else []))
      ↔ BracketCondition stream commands server := by
  rw [bracketFed_split]
  unfold BracketCondition
  dsimp only
  generalize front : queueFed stream (commands.takeWhile (·.readonly)) server.data server.dirty
    (server.on stream) = first
  generalize back : queueFed stream (commands.dropWhile (·.readonly))
    (queueState (commands.takeWhile (·.readonly)) server.data server.dirty).1
    (queueState (commands.takeWhile (·.readonly)) server.data server.dirty).2 first.2 = rest
  have firstCommands : ∀ f ∈ first.1, ∃ readonly argv, f = .command readonly argv :=
    front ▸ queueFed_command _ _ _ _ _
  have restCommands : ∀ f ∈ rest.1, ∃ readonly argv, f = .command readonly argv :=
    back ▸ queueFed_command _ _ _ _ _
  cases all : commands.all (·.readonly) with
  | true =>
      have dirty : dirtyAfter commands server
          = (queueState commands server.data server.dirty).2 := by
        simp [dirtyAfter, all]
      have alone : rest.1 = [] := by
        rw [← back, dropWhile_readonly.mpr all]
        rfl
      rw [dropWhile_readonly.mpr all, alone, dirty, List.isEmpty_nil, Bool.not_true, Bool.and_false,
        if_neg Bool.false_ne_true, List.append_nil, List.append_nil, if_pos rfl,
        wellBracketed_plain firstCommands]
      simp
  | false =>
      have dirty : dirtyAfter commands server
          = (queueState commands server.data server.dirty).2 + 1 := by
        simp [dirtyAfter, all]
      have some : (commands.dropWhile (·.readonly)).isEmpty = false := by
        by_contra empty
        rw [Bool.not_eq_false, List.isEmpty_iff, dropWhile_readonly, all] at empty
        cases empty
      rw [some, dirty, Bool.not_false, Bool.and_true, if_neg Bool.false_ne_true]
      cases first.2 with
      | true =>
          rw [if_pos rfl, if_pos rfl, wellBracketed_multi firstCommands restCommands]
          simp
      | false =>
          rw [if_neg Bool.false_ne_true, if_neg Bool.false_ne_true, List.append_nil,
            wellBracketed_plain fun f member =>
              (List.mem_append.mp member).elim (firstCommands f) (restCommands f)]
          simp

/-- What a transaction feeds to the append only file and to the slaves is well bracketed if and
only if the condition holds for each of them. It fails where a queued `SAVE` resets
`server.dirty`, so that the `EXEC` behind a `MULTI` is not fed, and where a queued `CONFIG SET`
switches the append only file between the two.
-/
theorem transaction_bracketed (commands : List (QueuedCommand σ)) (server : Server σ)
    : TransactionBracketed commands server
      ↔ ∀ stream, BracketCondition stream commands server := by
  have feeds := callExec_feeds commands server
  constructor
  · intro bracketed stream
    obtain ⟨fed, same, wellBracketed⟩ := bracketed stream
    rw [feeds.fed, List.append_cancel_left_eq] at same
    rw [← same] at wellBracketed
    exact (wellBracketed_iff stream commands server).mp wellBracketed
  · intro conditions stream
    exact ⟨_, feeds.fed stream, (wellBracketed_iff stream commands server).mpr (conditions stream)⟩

end Feeds

/-- `SET a 1` on the value of `a`. -/
def setOne : QueuedCommand (Option (List UInt8)) where
  readonly := false
  proc _ dirty :=
    ⟨some [0x31], dirty + 1, [], false, [[0x53, 0x45, 0x54], [0x61], [0x31]], fun _ => false⟩

/-- `SAVE`, which `rdbSave` ends with `server.dirty = 0`. -/
def save : QueuedCommand (Option (List UInt8)) where
  readonly := true
  proc data _ := ⟨data, 0, [], true, [[0x53, 0x41, 0x56, 0x45]], fun _ => false⟩

/-- A transaction of `SET` and `SAVE`, one change after the last `SAVE`: the slaves get `MULTI` and
`SET`, and no `EXEC`.
-/
theorem save_leaves_transaction_open
    : ¬ TransactionBracketed [setOne, save] ⟨none, 1, true, fun _ => []⟩ := by
  intro bracketed
  obtain ⟨fed, same, _, closed⟩ := bracketed .slaves
  have fedThere : (callExec [setOne, save] ⟨none, 1, true, fun _ => []⟩).fed .slaves
      = [.multi, .command false [[0x53, 0x45, 0x54], [0x61], [0x31]]] := by decide
  rw [fedThere, List.nil_append] at same
  rw [← same] at closed
  exact absurd closed (by decide)

end Redis.Propagation
