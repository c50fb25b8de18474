import Redis.Commands.ProcessCommand

/-! Transactions with refused commands. -/

namespace Redis

section Commands

variable {server : ServerState} {c : ClientState} {argv : Argv} {refused : Refusal}

/-- The checks that do not flag the transaction. -/
def RefusalReason.Silent (reason : RefusalReason) : Prop :=
  reason = .readonlySlave ∨ reason = .pubsubContext ∨ reason = .loading

theorem flags_iff (there : refusal server c argv = some refused)
    : refused.flags = true ↔ ¬ refused.reason.Silent := by
  unfold refusal refusalOf at there
  repeat' split at there
  all_goals cases there
  all_goals simp [RefusalReason.Silent]

theorem refusal_congr {c' : ClientState} (authenticated : c'.authenticated = c.authenticated)
    (master : c'.master = c.master) (lua : c'.luaClient = c.luaClient)
    (pubsub : c'.pubsub = c.pubsub)
    (server : ServerState) (argv : Argv)
    : refusal server c' argv = refusal server c argv := by
  simp only [refusal, refusalOf, authenticated, master, lua, pubsub]

theorem processCommand_refused (notQuit : isQuit argv = false)
    (there : refusal server c argv = some refused)
    : processCommand server c argv
      = ⟨if refused.flags then flagTransaction c else c, refused.reply, []⟩ := by
  unfold refusal at there
  rw [processCommand, if_neg (by simp [notQuit])]
  split at there
  · cases there
    rfl
  · rw [there]

theorem processCommand_accepted (notQuit : isQuit argv = false)
    (there : refusal server c argv = none)
    : ∃ cmd,
        server.lookupCommand (argv.headD []) = some cmd
        ∧ processCommand server c argv
          = if c.multi ∧ cmd.proc ≠ .exec ∧ cmd.proc ≠ .discard ∧ cmd.proc ≠ .multi
                ∧ cmd.proc ≠ .watch then
              ⟨queueMultiCommand c cmd argv, .queued, []⟩
            else callCommand c cmd argv := by
  unfold refusal at there
  split at there
  · cases there
  · rename_i cmd found
    refine ⟨cmd, found, ?_⟩
    rw [processCommand, if_neg (by simp [notQuit]), found]
    simp only [there]

end Commands

-- Transactions

/-- A command that arrives: the state of the server at that time, and whether a watched key was
modified since the last one.
-/
structure Arrival where
  server : ServerState
  argv : Argv
  touched : Bool

def ClientState.touch (c : ClientState) (touched : Bool) : ClientState :=
  { c with dirtyCas := c.dirtyCas || touched }

def Arrival.run (c : ClientState) (arrival : Arrival) : CommandResult :=
  processCommand arrival.server (c.touch arrival.touched) arrival.argv

def afterArrivals (c : ClientState) (arrivals : List Arrival) : ClientState :=
  arrivals.foldl (fun c arrival => (arrival.run c).client) c

/-- The refusal of a command that arrives at a client. -/
def Arrival.refusal (c : ClientState) (arrival : Arrival) : Option Refusal :=
  Redis.refusal arrival.server c arrival.argv

def Arrival.command (arrival : Arrival) : Option RedisCommand :=
  arrival.server.lookupCommand (arrival.argv.headD [])

/-- A command between `MULTI` and the `EXEC` or `DISCARD` that ends the transaction: it is not
`QUIT`, and it is refused when it is one of these two.
-/
def Arrival.Inside (c : ClientState) (arrival : Arrival) : Prop :=
  isQuit arrival.argv = false
  ∧ (arrival.refusal c = none
    → ∀ cmd, arrival.command = some cmd → cmd.proc ≠ .exec ∧ cmd.proc ≠ .discard)

def Arrival.queues (c : ClientState) (arrival : Arrival) : List (RedisCommand × Argv) :=
  match arrival.refusal c, arrival.command with
  | none, some cmd => if cmd.proc = .multi ∨ cmd.proc = .watch then [] else [(cmd, arrival.argv)]
  | _, _ => []

/-- The commands of a transaction that were answered with `QUEUED`. -/
def queuedCommands (c : ClientState) (arrivals : List Arrival) : List (RedisCommand × Argv) :=
  arrivals.flatMap (Arrival.queues c)

section Transactions

variable {c start : ClientState} {arrival : Arrival} {arrivals : List Arrival}

/-- The parts of a client that a transaction does not change. -/
def ClientState.SameAs (c start : ClientState) : Prop :=
  c.authenticated = start.authenticated
  ∧ c.master = start.master
  ∧ c.luaClient = start.luaClient
  ∧ c.pubsub = start.pubsub

theorem Arrival.refusal_eq (same : c.SameAs start) (arrival : Arrival) (touched : Bool)
    : Redis.refusal arrival.server (c.touch touched) arrival.argv = arrival.refusal start :=
  refusal_congr same.1 same.2.1 same.2.2.1 same.2.2.2 _ _

/-- What one command does to the transaction. -/
structure Advances (start c next : ClientState) (arrival : Arrival) : Prop where
  same : next.SameAs start
  multi : next.multi = true
  dirtyCas : next.dirtyCas = (c.dirtyCas || arrival.touched)
  dirtyExec : next.dirtyExec
    = (c.dirtyExec || (arrival.refusal start).any Refusal.flags)
  commands : next.commands = c.commands ++ arrival.queues start

theorem Arrival.run_advances (inside : arrival.Inside start) (same : c.SameAs start)
    (multi : c.multi = true)
    : Advances start c (arrival.run c).client arrival := by
  obtain ⟨notQuit, stays⟩ := inside
  have refusals := arrival.refusal_eq same arrival.touched
  cases there : arrival.refusal start with
  | some refused =>
      rw [there] at refusals
      have run := processCommand_refused notQuit refusals
      rw [Arrival.run, run]
      dsimp only
      have queues : arrival.queues start = [] := by
        rw [Arrival.queues, there]
      cases flagged : refused.flags with
      | true =>
          rw [if_pos rfl, flagTransaction,
            if_pos (show (c.touch arrival.touched).multi = true from multi)]
          exact ⟨same, multi, rfl, by simp [there, flagged], by simp [queues, ClientState.touch]⟩
      | false =>
          rw [if_neg (by simp)]
          exact ⟨same, multi, rfl, by simp [there, flagged, ClientState.touch],
            by simp [queues, ClientState.touch]⟩
  | none =>
      rw [there] at refusals
      obtain ⟨cmd, found, run⟩ := processCommand_accepted notQuit refusals
      obtain ⟨notExec, notDiscard⟩ := stays there cmd found
      have queues
          : arrival.queues start
            = if cmd.proc = .multi ∨ cmd.proc = .watch then [] else [(cmd, arrival.argv)] := by
        rw [Arrival.queues, there, Arrival.command, found]
      have touchMulti : (c.touch arrival.touched).multi = true := multi
      rw [Arrival.run, run]
      rcases Classical.em (cmd.proc = .multi ∨ cmd.proc = .watch) with runs | isQueued
      · rw [if_pos runs] at queues
        have notQueued
            : ¬ ((c.touch arrival.touched).multi = true ∧ cmd.proc ≠ .exec ∧ cmd.proc ≠ .discard
              ∧ cmd.proc ≠ .multi ∧ cmd.proc ≠ .watch) := by
          rintro ⟨_, _, _, notMulti, notWatch⟩
          exact runs.elim notMulti notWatch
        have stays
            : (callCommand (c.touch arrival.touched) cmd arrival.argv).client
              = c.touch arrival.touched := by
          rcases runs with isMulti | isWatch
          · rw [callCommand, isMulti]
            dsimp only
            rw [multiCommand, if_pos touchMulti]
          · rw [callCommand, isWatch]
            dsimp only
            rw [watchCommand, if_pos touchMulti]
        rw [if_neg notQueued, stays]
        exact ⟨same, multi, rfl, by simp [there, ClientState.touch],
          by simp [queues, ClientState.touch]⟩
      · obtain ⟨notMulti, notWatch⟩ := not_or.mp isQueued
        rw [if_neg isQueued] at queues
        rw [if_pos ⟨touchMulti, notExec, notDiscard, notMulti, notWatch⟩]
        exact ⟨same, multi, rfl, by simp [there, ClientState.touch, queueMultiCommand],
          by simp [queues, ClientState.touch, queueMultiCommand]⟩

theorem afterArrivals_advances (inside : ∀ arrival ∈ arrivals, arrival.Inside start)
    (same : c.SameAs start) (multi : c.multi = true)
    : (afterArrivals c arrivals).SameAs start
      ∧ (afterArrivals c arrivals).multi = true
      ∧ (afterArrivals c arrivals).dirtyCas = (c.dirtyCas || arrivals.any Arrival.touched)
      ∧ (afterArrivals c arrivals).dirtyExec
        = (c.dirtyExec || arrivals.any fun arrival => (arrival.refusal start).any Refusal.flags)
      ∧ (afterArrivals c arrivals).commands = c.commands ++ queuedCommands start arrivals := by
  induction arrivals generalizing c with
  | nil => simp [afterArrivals, queuedCommands, same, multi]
  | cons arrival rest ih =>
      have one := Arrival.run_advances (inside arrival (by simp)) same multi
      obtain ⟨same', multi', cas, exec, commands⟩ :=
        ih (fun other member => inside other (by simp [member])) one.same one.multi
      have step : afterArrivals c (arrival :: rest) = afterArrivals (arrival.run c).client rest :=
        rfl
      rw [step]
      refine ⟨same', multi', ?_, ?_, ?_⟩
      · rw [cas, one.dirtyCas, List.any_cons, Bool.or_assoc]
      · rw [exec, one.dirtyExec, List.any_cons, Bool.or_assoc]
      · rw [commands, one.commands, queuedCommands, queuedCommands, List.flatMap_cons,
          List.append_assoc]

/-- The `EXEC` that ends the transaction. -/
def Arrival.IsExec (start : ClientState) (arrival : Arrival) : Prop :=
  isQuit arrival.argv = false
  ∧ arrival.refusal start = none
  ∧ ∃ cmd, arrival.command = some cmd ∧ cmd.proc = .exec

/-- A client right after `MULTI`. -/
def ClientState.Fresh (c : ClientState) : Prop :=
  c.multi = true ∧ c.dirtyExec = false ∧ c.commands = []

/-- What is asked of a transaction: nothing is executed when a command of it was refused, and
else all of the queued commands are, in order.
-/
structure TransactionCorrect (start : ClientState) (arrivals : List Arrival) (exec : Arrival)
    : Prop where
  refused : (∃ arrival ∈ arrivals, arrival.refusal start ≠ none)
    → (exec.run (afterArrivals start arrivals)).executed = []
      ∧ (exec.run (afterArrivals start arrivals)).reply = execabortErr
  queued : (∀ arrival ∈ arrivals, arrival.refusal start = none)
    → (exec.run (afterArrivals start arrivals)).executed = queuedCommands start arrivals
      ∧ (exec.run (afterArrivals start arrivals)).reply
        = .multiBulkLen (queuedCommands start arrivals).length

theorem exec_run {exec : Arrival} (fresh : start.Fresh)
    (inside : ∀ arrival ∈ arrivals, arrival.Inside start) (isExec : exec.IsExec start)
    : exec.run (afterArrivals start arrivals)
      = execCommand ((afterArrivals start arrivals).touch exec.touched) := by
  obtain ⟨notQuit, accepted, cmd, found, isCmd⟩ := isExec
  obtain ⟨same, _⟩ := afterArrivals_advances inside ⟨rfl, rfl, rfl, rfl⟩ fresh.1
  have refusals := exec.refusal_eq same exec.touched
  rw [accepted] at refusals
  obtain ⟨cmd', found', run⟩ := processCommand_accepted notQuit refusals
  cases found.symm.trans found'
  rw [Arrival.run, run, if_neg (fun queued => queued.2.1 isCmd), callCommand, isCmd]

/-- A transaction is correct exactly when a command of it failed a check that flags the
transaction, or when no command was refused and no watched key was modified.
-/
theorem transaction_all_or_nothing {exec : Arrival} (fresh : start.Fresh)
    (inside : ∀ arrival ∈ arrivals, arrival.Inside start) (isExec : exec.IsExec start)
    : TransactionCorrect start arrivals exec
      ↔ (∃ arrival ∈ arrivals, ∃ refused,
          arrival.refusal start = some refused ∧ ¬ refused.reason.Silent)
        ∨ ((∀ arrival ∈ arrivals, arrival.refusal start = none)
          ∧ start.dirtyCas = false
          ∧ ∀ arrival ∈ arrivals ++ [exec], arrival.touched = false) := by
  obtain ⟨_, multi, cas, flagged, commands⟩ :=
    afterArrivals_advances inside ⟨rfl, rfl, rfl, rfl⟩ fresh.1
  rw [fresh.2.1, Bool.false_or] at flagged
  rw [fresh.2.2, List.nil_append] at commands
  have run := exec_run fresh inside isExec
  rw [execCommand, if_neg (by simp [ClientState.touch, multi])] at run
  cases loud : arrivals.any fun arrival => (arrival.refusal start).any Refusal.flags with
  | true =>
      rw [loud] at flagged
      rw [if_pos (by simp [ClientState.touch, flagged])] at run
      obtain ⟨arrival, member, flags⟩ := List.any_eq_true.mp loud
      obtain ⟨refused, there, isFlagged⟩
          : ∃ refused, arrival.refusal start = some refused ∧ refused.flags = true := by
        cases there : arrival.refusal start with
        | none => simp [there] at flags
        | some refused => exact ⟨refused, rfl, by simpa [there] using flags⟩
      refine iff_of_true ⟨fun _ => ?_, fun accepted => ?_⟩
        (Or.inl ⟨arrival, member, refused, there, (flags_iff there).mp isFlagged⟩)
      · rw [run]
        exact ⟨rfl, if_pos flagged⟩
      · rw [accepted arrival member] at there
        cases there
  | false =>
      rw [loud] at flagged
      have quiet : ∀ arrival ∈ arrivals, ∀ refused, arrival.refusal start = some refused
          → refused.reason.Silent := by
        intro arrival member refused there
        by_contra notSilent
        have flags := (flags_iff there).mpr notSilent
        have none := List.any_eq_false.mp loud arrival member
        simp [there, flags] at none
      have noLoud
          : ¬ ∃ arrival ∈ arrivals, ∃ refused,
              arrival.refusal start = some refused ∧ ¬ refused.reason.Silent := by
        rintro ⟨arrival, member, refused, there, notSilent⟩
        exact notSilent (quiet arrival member refused there)
      rw [or_iff_right noLoud]
      have reply : (exec.run (afterArrivals start arrivals)).reply ≠ execabortErr := by
        rw [run]
        split
        · simp [ClientState.touch, flagged, execabortErr]
        · simp [execabortErr]
      constructor
      · intro correct
        have accepted : ∀ arrival ∈ arrivals, arrival.refusal start = none := by
          intro arrival member
          by_contra refused
          exact reply (correct.refused ⟨arrival, member, refused⟩).2
        refine ⟨accepted, ?_⟩
        have length := (correct.queued accepted).2
        rw [run] at length
        split at length
        · simp [ClientState.touch, flagged] at length
        · rename_i clean
          simp only [ClientState.touch, flagged, cas, Bool.or_false, Bool.or_eq_true, not_or,
            Bool.not_eq_true, List.any_eq_false] at clean
          refine ⟨clean.1.1, fun arrival member => ?_⟩
          rcases List.mem_append.mp member with old | last
          · exact clean.1.2 arrival old
          · rw [List.mem_singleton.mp last]
            exact clean.2
      · rintro ⟨accepted, clean, untouched⟩
        refine ⟨fun ⟨arrival, member, refused⟩ => absurd (accepted arrival member) refused,
          fun _ => ?_⟩
        have notTouched : arrivals.any Arrival.touched = false :=
          List.any_eq_false.mpr fun arrival member => by
            simp [untouched arrival (List.mem_append_left _ member)]
        have notDirty
            : ¬ (((afterArrivals start arrivals).touch exec.touched).dirtyCas
              || ((afterArrivals start arrivals).touch exec.touched).dirtyExec) = true := by
          simp [ClientState.touch, flagged, cas, clean, notTouched, untouched exec (by simp)]
        rw [run, if_neg notDirty]
        simp [ClientState.touch, commands]

end Transactions

-- A read-only slave

/-- `GET`, `SET` and `EXEC` of the command table. -/
def getEntry : RedisCommand := ⟨"get", .other, 2, false, true, false, false, false, true⟩
def setEntry : RedisCommand := ⟨"set", .other, -3, true, false, true, false, false, true⟩
def execEntry : RedisCommand := ⟨"exec", .exec, 1, false, false, false, false, false, false⟩

def getName : List UInt8 := [0x67, 0x65, 0x74]
def setName : List UInt8 := [0x73, 0x65, 0x74]
def execName : List UInt8 := [0x65, 0x78, 0x65, 0x63]

def plainServer : ServerState where
  lookupCommand name :=
    if name = getName then some getEntry
    else if name = setName then some setEntry
    else if name = execName then some execEntry
    else none
  requirepass := false
  clusterEnabled := false
  clusterOk := false
  redirection _ _ := none
  luaCallerIsMaster := false
  maxmemory := false
  memoryFull := false
  stopWritesOnBgsaveErr := false
  saveparamslen := 0
  lastbgsaveOk := true
  aofLastWriteOk := true
  aofLastWriteError := ""
  masterhost := false
  minSlavesToWrite := 0
  minSlavesMaxLag := 10
  goodSlavesCount := 0
  slaveRo := true
  replConnected := true
  serveStaleData := true
  loading := false
  luaTimedout := false

def readonlyServer : ServerState := { plainServer with masterhost := true }

/-- A client right after `MULTI`. -/
def multiClient : ClientState where
  authenticated := true
  master := false
  luaClient := false
  pubsub := false
  closeAfterReply := false
  multi := true
  dirtyCas := false
  dirtyExec := false
  commands := []

/-- `SET` and `GET` of one key, as they arrive. -/
def setAndGet (server : ServerState) : List Arrival :=
  [⟨server, [setName, [0x6B], [0x76]], false⟩, ⟨server, [getName, [0x6B]], false⟩]

def execOn (server : ServerState) : Arrival := ⟨server, [execName], false⟩

theorem transaction_all_or_nothing_master
    : TransactionCorrect multiClient (setAndGet plainServer) (execOn plainServer) := by
  refine (transaction_all_or_nothing ⟨rfl, rfl, rfl⟩ ?_ ⟨by decide, by decide, execEntry, by decide,
    rfl⟩).mpr (Or.inr ⟨?_, rfl, ?_⟩)
  · intro arrival member
    rcases List.mem_pair.mp member with rfl | rfl
    · exact ⟨by decide, fun _ cmd found => by cases found; decide⟩
    · exact ⟨by decide, fun _ cmd found => by cases found; decide⟩
  · intro arrival member
    rcases List.mem_pair.mp member with rfl | rfl
    · decide
    · decide
  · intro arrival member
    simp only [setAndGet, List.cons_append, List.nil_append, List.mem_cons, List.not_mem_nil,
      or_false] at member
    rcases member with rfl | rfl | rfl
    · rfl
    · rfl
    · rfl

/-- On a read-only slave the `GET` is executed although the `SET` was refused. -/
theorem readonly_refusal_executes
    : multiClient.Fresh
      ∧ (∀ arrival ∈ setAndGet readonlyServer, arrival.Inside multiClient)
      ∧ (execOn readonlyServer).IsExec multiClient
      ∧ ¬ TransactionCorrect multiClient (setAndGet readonlyServer) (execOn readonlyServer) := by
  refine ⟨⟨rfl, rfl, rfl⟩, ?_, ⟨by decide, by decide, execEntry, by decide, rfl⟩, fun correct => ?_⟩
  · intro arrival member
    rcases List.mem_pair.mp member with rfl | rfl
    · exact ⟨by decide, fun _ cmd found => by cases found; decide⟩
    · exact ⟨by decide, fun _ cmd found => by cases found; decide⟩
  · have refused : ∃ arrival ∈ setAndGet readonlyServer, arrival.refusal multiClient ≠ none :=
      ⟨_, List.mem_cons_self, by decide⟩
    have nothing := (correct.refused refused).1
    revert nothing
    decide

end Redis
