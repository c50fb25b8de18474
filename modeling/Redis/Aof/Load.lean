import Redis.Aof.Format

/-! `loadAppendOnlyFile`: the commands of the file are run one by one as they are read, and a
file that ends too early is cut after the last whole command.
-/

namespace Redis

open Redis.Library

variable {D : Type}

/-- What the proc of a command does in the fake client of the loader. The replies go nowhere,
because the client has no connection.
-/
inductive LoaderProc (D : Type) where
  | multi
  | exec
  | discard
  /-- The other commands change the dataset. -/
  | run (effect : Argv → D → D)

abbrev LookupCommand (D : Type) := List UInt8 → Option (LoaderProc D)

-- The loader

structure LoaderState (D : Type) where
  dataset : D
  /-- `REDIS_MULTI` in the flags of the fake client. -/
  multi : Bool
  unread : List UInt8
  validUpTo : Nat

/-- `cmd->proc(fakeClient)`. `EXEC` finds no queued commands, because `processCommand` is not
what runs the commands here.
-/
def LoaderState.call (state : LoaderState D) (proc : LoaderProc D) (argv : Argv) : LoaderState D :=
  match proc with
  | .multi => { state with multi := true }
  | .exec => { state with multi := false }
  | .discard => { state with multi := false }
  | .run effect => { state with dataset := effect argv state.dataset }

/-- The place of the next command becomes `valid_up_to`. -/
def LoaderState.advance (state : LoaderState D) (rest : List UInt8) : LoaderState D :=
  { state with
    unread := rest
    validUpTo := state.validUpTo + (state.unread.length - rest.length) }

/-- The loop of `loadAppendOnlyFile`: the state in which it ends, and why. -/
def loadLoop (lookupCommand : LookupCommand D) (state : LoaderState D) : LoaderState D × AofStop :=
  match _read : loadCommand state.unread with
  | .error stop => (state, stop)
  | .ok (argv, rest) =>
      match lookupCommand (argv.headD []) with
      | none => (state, .unknownCommand)
      | some proc => loadLoop lookupCommand ((state.call proc argv).advance rest)
termination_by state.unread.length
decreasing_by exact loadCommand_shrinks _read

def LoaderState.start (dataset : D) (file : List UInt8) : LoaderState D :=
  ⟨dataset, false, file, 0⟩

/-- `loadAppendOnlyFile` with `aof_load_truncated`: the dataset and the file that it leaves, or
the reason for which it exits.
-/
def loadAppendOnlyFile (lookupCommand : LookupCommand D) (file : List UInt8) (dataset : D)
    : Except AofStop (D × List UInt8) :=
  if file = [] then .ok (dataset, file)
  else
    match loadLoop lookupCommand (.start dataset file) with
    | (state, .endOfFile) =>
        if state.multi then .ok (state.dataset, file.take state.validUpTo)
        else .ok (state.dataset, file)
    | (state, .shortRead) => .ok (state.dataset, file.take state.validUpTo)
    | (_, stop) => .error stop

-- Executing commands

/-- A client that sends the commands: the dataset and the commands queued since `MULTI`. -/
structure Session (D : Type) where
  dataset : D
  queue : Option (List Argv)

/-- A queue that `EXEC` runs. -/
def runQueue (lookupCommand : LookupCommand D) (queue : List Argv) (dataset : D) : D :=
  queue.foldl (fun dataset argv =>
    match lookupCommand (argv.headD []) with
    | some (.run effect) => effect argv dataset
    | _ => dataset) dataset

/-- Executing a command, with `MULTI` and `EXEC` as they are meant. -/
def Session.execute (lookupCommand : LookupCommand D) (session : Session D) (argv : Argv)
    : Session D :=
  match lookupCommand (argv.headD []), session.queue with
  | none, _ => session
  | some .multi, none => { session with queue := some [] }
  | some .multi, some _ => session
  | some .exec, none => session
  | some .exec, some queue => ⟨runQueue lookupCommand queue session.dataset, none⟩
  | some .discard, _ => { session with queue := none }
  | some (.run effect), none => { session with dataset := effect argv session.dataset }
  | some (.run _), some queue => { session with queue := some (queue ++ [argv]) }

def execute (lookupCommand : LookupCommand D) (dataset : D) (commands : List Argv) : Session D :=
  commands.foldl (Session.execute lookupCommand) ⟨dataset, none⟩

/-- After the commands a `MULTI` waits for its `EXEC`. -/
def openAfter (lookupCommand : LookupCommand D) (commands : List Argv) : Bool :=
  commands.foldl (fun opened argv =>
    match lookupCommand (argv.headD []) with
    | some .multi => true
    | some .exec | some .discard => false
    | _ => opened) false

/-- A command of the file: `feedAppendOnlyFile` is given commands of the table, and never
`DISCARD`, which does not change the dataset.
-/
structure AofCommand (lookupCommand : LookupCommand D) (argv : Argv) : Prop where
  writable : AofWritable argv
  known : ∃ proc, lookupCommand (argv.headD []) = some proc ∧ proc ≠ .discard

section Loader

variable {lookupCommand : LookupCommand D} {dataset : D} {commands : List Argv}
variable {argv : Argv} {rest : List UInt8} {state : LoaderState D} {part : List UInt8}

-- The loader against the meaning of the commands

/-- The proc of a command, run in the loader. -/
def LoaderState.runCommand (lookupCommand : LookupCommand D) (state : LoaderState D) (argv : Argv)
    : LoaderState D :=
  match lookupCommand (argv.headD []) with
  | none => state
  | some proc => state.call proc argv

/-- The loader has already run the commands that are queued in the session. -/
structure Ahead (lookupCommand : LookupCommand D) (state : LoaderState D) (session : Session D)
    : Prop where
  flag : state.multi = session.queue.isSome
  dataset : state.dataset = runQueue lookupCommand (session.queue.getD []) session.dataset

theorem Ahead.runCommand {session : Session D} (ahead : Ahead lookupCommand state session)
    (command : AofCommand lookupCommand argv)
    : Ahead lookupCommand (state.runCommand lookupCommand argv)
        (session.execute lookupCommand argv) := by
  obtain ⟨proc, known, kept⟩ := command.known
  obtain ⟨flag, same⟩ := ahead
  obtain ⟨before, queue⟩ := session
  simp only at flag same
  unfold LoaderState.runCommand Session.execute
  simp only [known, LoaderState.call]
  cases proc with
  | discard => exact absurd rfl kept
  | multi =>
      cases queue with
      | none => exact ⟨rfl, same⟩
      | some queue => exact ⟨rfl, same⟩
  | exec =>
      cases queue with
      | none => exact ⟨rfl, same⟩
      | some queue => exact ⟨rfl, same⟩
  | run effect =>
      cases queue with
      | none =>
          refine ⟨flag, ?_⟩
          simp only [same, Option.getD_none, runQueue, List.foldl_nil]
      | some queue =>
          refine ⟨flag, ?_⟩
          simp only [same, Option.getD_some, runQueue, List.foldl_append, List.foldl_cons,
            List.foldl_nil, known]

/-- The state of the loader after whole commands. -/
def LoaderState.runCommands (lookupCommand : LookupCommand D) (state : LoaderState D)
    (commands : List Argv) : LoaderState D :=
  commands.foldl (LoaderState.runCommand lookupCommand) state

theorem Ahead.runCommands {session : Session D} (ahead : Ahead lookupCommand state session)
    (all : ∀ argv ∈ commands, AofCommand lookupCommand argv)
    : Ahead lookupCommand (state.runCommands lookupCommand commands)
        (commands.foldl (Session.execute lookupCommand) session) := by
  induction commands generalizing state session with
  | nil => exact ahead
  | cons argv more ih =>
      have next := ahead.runCommand (all argv (by simp))
      exact ih next (fun other member => all other (by simp [member]))

theorem loadLoop_ok {proc : LoaderProc D} (read : loadCommand state.unread = .ok (argv, rest))
    (known : lookupCommand (argv.headD []) = some proc)
    : loadLoop lookupCommand state
      = loadLoop lookupCommand ((state.call proc argv).advance rest) := by
  rw [loadLoop]
  split
  · rename_i stop failed
    rw [read] at failed
    cases failed
  · rename_i argv' rest' same
    rw [read] at same
    cases same
    simp only [known]

theorem loadLoop_error {stop : AofStop} (read : loadCommand state.unread = .error stop)
    : loadLoop lookupCommand state = (state, stop) := by
  rw [loadLoop]
  split
  · rename_i other failed
    rw [read] at failed
    cases failed
    rfl
  · rename_i same
    rw [read] at same
    cases same

theorem runCommands_place (unread : List UInt8) (validUpTo : Nat)
    : { state with unread, validUpTo }.runCommands lookupCommand commands
      = { state.runCommands lookupCommand commands with unread, validUpTo } := by
  induction commands generalizing state with
  | nil => rfl
  | cons argv more ih =>
      have step : { state with unread, validUpTo }.runCommand lookupCommand argv
          = { state.runCommand lookupCommand argv with unread, validUpTo } := by
        unfold LoaderState.runCommand
        cases lookupCommand (argv.headD []) with
        | none => rfl
        | some proc => cases proc <;> rfl
      simp only [LoaderState.runCommands, List.foldl_cons, step]
      exact ih

theorem loadLoop_whole (all : ∀ argv ∈ commands, AofCommand lookupCommand argv)
    (unread : state.unread = aofBytes commands ++ rest)
    : loadLoop lookupCommand state
      = loadLoop lookupCommand
          { state.runCommands lookupCommand commands with
            unread := rest
            validUpTo := state.validUpTo + (aofBytes commands).length } := by
  induction commands generalizing state with
  | nil =>
      have same : state.unread = rest := unread
      rw [← same]
      rfl
  | cons argv more ih =>
      have first := all argv (by simp)
      obtain ⟨proc, known, _⟩ := first.known
      have bytes : aofBytes (argv :: more) = aofCommand argv ++ aofBytes more :=
        List.flatMap_cons ..
      have read : loadCommand state.unread = .ok (argv, aofBytes more ++ rest) := by
        rw [unread, bytes, List.append_assoc]
        exact loadCommand_whole first.writable
      have ran : state.runCommand lookupCommand argv = state.call proc argv := by
        rw [LoaderState.runCommand, known]
      have place : (state.call proc argv).validUpTo = state.validUpTo
          ∧ (state.call proc argv).unread = state.unread := by
        cases proc <;> exact ⟨rfl, rfl⟩
      rw [loadLoop_ok read known, ih (fun other member => all other (by simp [member])) rfl,
        LoaderState.advance, runCommands_place, LoaderState.runCommands, LoaderState.runCommands,
        List.foldl_cons, ran]
      simp only [place, unread, bytes, List.length_append]
      congr 2
      omega

theorem runCommands_multi
    : ((LoaderState.start dataset []).runCommands lookupCommand commands).multi
      = openAfter lookupCommand commands := by
  have fold : ∀ state : LoaderState D,
      (state.runCommands lookupCommand commands).multi
      = commands.foldl (fun opened argv =>
          match lookupCommand (argv.headD []) with
          | some .multi => true
          | some .exec | some .discard => false
          | _ => opened) state.multi := by
    induction commands with
    | nil => exact fun _ => rfl
    | cons argv more ih =>
        intro state
        rw [LoaderState.runCommands, List.foldl_cons, List.foldl_cons]
        refine (ih _).trans ?_
        congr 1
        unfold LoaderState.runCommand
        cases lookupCommand (argv.headD []) with
        | none => rfl
        | some proc => cases proc <;> rfl
  exact fold _

theorem runCommands_closed (dataset : D) (all : ∀ argv ∈ commands, AofCommand lookupCommand argv)
    (closed : openAfter lookupCommand commands = false)
    : execute lookupCommand dataset commands
      = ⟨((LoaderState.start dataset []).runCommands lookupCommand commands).dataset, none⟩ := by
  have first : Ahead lookupCommand (.start dataset []) ⟨dataset, none⟩ := ⟨rfl, rfl⟩
  obtain ⟨flag, same⟩ := first.runCommands all
  rw [runCommands_multi, closed] at flag
  change false = (execute lookupCommand dataset commands).queue.isSome at flag
  change _ = runQueue lookupCommand ((execute lookupCommand dataset commands).queue.getD [])
    (execute lookupCommand dataset commands).dataset at same
  cases session : execute lookupCommand dataset commands with
  | mk reached queue =>
      rw [session] at flag same
      cases queue with
      | none => rw [same]; rfl
      | some queue => cases flag

-- Files that end too early

/-- The number of commands that end in front of a cut. -/
def wholeCommands : (commands : List Argv) → (cut : Nat) → Nat
  | [], _ => 0
  | argv :: more, cut =>
      if (aofCommand argv).length ≤ cut then
        wholeCommands more (cut - (aofCommand argv).length) + 1
      else 0

/-- The rest of a cut file behind its whole commands. -/
def CutCommand (commands : List Argv) (part : List UInt8) : Prop :=
  part = [] ∨ ∃ argv ∈ commands, CutShort part (aofCommand argv)

theorem aofBytes_take (commands : List Argv) (cut : Nat)
    : ∃ part, CutCommand commands part
        ∧ (aofBytes commands).take cut
          = aofBytes (commands.take (wholeCommands commands cut)) ++ part := by
  induction commands generalizing cut with
  | nil => exact ⟨[], .inl rfl, by simp [aofBytes, wholeCommands]⟩
  | cons argv more ih =>
      have bytes : ∀ others, aofBytes (argv :: others) = aofCommand argv ++ aofBytes others :=
        fun _ => List.flatMap_cons ..
      rw [wholeCommands, bytes, List.take_append]
      split
      · rename_i inside
        obtain ⟨part, kind, rest⟩ := ih (cut - (aofCommand argv).length)
        refine ⟨part, ?_, ?_⟩
        · rcases kind with empty | ⟨other, member, short⟩
          · exact .inl empty
          · exact .inr ⟨other, by simp [member], short⟩
        · rw [List.take_succ_cons, bytes, List.append_assoc, ← rest,
            List.take_of_length_le inside]
      · rename_i outside
        refine ⟨(aofCommand argv).take cut, ?_, ?_⟩
        · refine .inr ⟨argv, by simp, (aofCommand argv).drop cut, ?_, List.take_append_drop ..⟩
          intro empty
          have := List.drop_eq_nil_iff.mp empty
          omega
        · rw [show cut - (aofCommand argv).length = 0 by omega]
          simp [aofBytes]

theorem loadCommand_part (kind : CutCommand commands part)
    (all : ∀ argv ∈ commands, AofCommand lookupCommand argv)
    : loadCommand part = .error (if part = [] then .endOfFile else .shortRead) := by
  split
  · rename_i empty
    rw [empty]
    rfl
  · rename_i nonempty
    rcases kind with empty | ⟨argv, member, short⟩
    · exact absurd empty nonempty
    · exact loadCommand_cut (all argv member).writable short nonempty

theorem aofBytes_injective_take {few many : Nat} (order : few ≤ many)
    (inside : many ≤ commands.length)
    (same : aofBytes (commands.take many) = aofBytes (commands.take few))
    : many = few := by
  induction commands generalizing few many with
  | nil =>
      rw [List.length_nil] at inside
      omega
  | cons argv more ih =>
      cases few with
      | zero =>
          cases many with
          | zero => rfl
          | succ many => simp [aofBytes, aofCommand, markedLine] at same
      | succ few =>
          cases many with
          | zero => omega
          | succ many =>
              simp only [aofBytes, List.take_succ_cons, List.flatMap_cons,
                List.append_cancel_left_eq] at same
              exact congrArg Nat.succ
                (ih (Nat.le_of_succ_le_succ order) (Nat.le_of_succ_le_succ inside) same)

theorem loadLoop_cut {front : List Argv} (all : ∀ argv ∈ commands, AofCommand lookupCommand argv)
    (whole : ∀ argv ∈ front, AofCommand lookupCommand argv) (kind : CutCommand commands part)
    : loadLoop lookupCommand (.start dataset (aofBytes front ++ part))
      = ({ (LoaderState.start dataset []).runCommands lookupCommand front with
            unread := part
            validUpTo := (aofBytes front).length },
          if part = [] then .endOfFile else .shortRead) := by
  have loop : loadLoop lookupCommand (.start dataset (aofBytes front ++ part)) = _ :=
    (loadLoop_whole whole rfl).trans (loadLoop_error (loadCommand_part kind all))
  have placed : LoaderState.start dataset (aofBytes front ++ part)
      = { LoaderState.start dataset [] with unread := aofBytes front ++ part, validUpTo := 0 } :=
        rfl
  rw [placed, runCommands_place] at loop
  simp only [Nat.zero_add] at loop
  exact loop

theorem loadAppendOnlyFile_cut {front : List Argv}
    (all : ∀ argv ∈ commands, AofCommand lookupCommand argv)
    (whole : ∀ argv ∈ front, AofCommand lookupCommand argv) (kind : CutCommand commands part)
    : loadAppendOnlyFile lookupCommand (aofBytes front ++ part) dataset
      = .ok (((LoaderState.start dataset []).runCommands lookupCommand front).dataset,
          aofBytes front) := by
  rw [loadAppendOnlyFile]
  split
  · rename_i nothing
    cases front with
    | nil => rw [nothing]; rfl
    | cons argv more => simp [aofBytes, aofCommand, markedLine] at nothing
  · rw [loadLoop_cut all whole kind]
    by_cases empty : part = []
    · subst empty
      simp
    · simp [empty]

theorem loadAppendOnlyFile_whole (all : ∀ argv ∈ commands, AofCommand lookupCommand argv)
    (closed : openAfter lookupCommand commands = false)
    : loadAppendOnlyFile lookupCommand (aofBytes commands) dataset
      = .ok ((execute lookupCommand dataset commands).dataset, aofBytes commands) := by
  have load : loadAppendOnlyFile lookupCommand (aofBytes commands ++ []) dataset = _ :=
    loadAppendOnlyFile_cut all all (.inl rfl)
  rw [List.append_nil] at load
  rw [load, runCommands_closed dataset all closed]

theorem openAfter_append {front more : List Argv} (closed : openAfter lookupCommand front = false)
    : openAfter lookupCommand (front ++ more) = openAfter lookupCommand more := by
  unfold openAfter at closed ⊢
  rw [List.foldl_append, closed]

theorem execute_append {front more : List Argv} (dataset : D)
    (all : ∀ argv ∈ front, AofCommand lookupCommand argv)
    (closed : openAfter lookupCommand front = false)
    : execute lookupCommand dataset (front ++ more)
      = execute lookupCommand (execute lookupCommand dataset front).dataset more := by
  have reached := runCommands_closed dataset all closed
  unfold execute at reached ⊢
  rw [List.foldl_append, reached]

/-- The commands of the longest part of whole commands and whole transactions in front of a cut. -/
def transactionBoundary (lookupCommand : LookupCommand D) (commands : List Argv) (cut : Nat)
    : Nat :=
  Nat.findGreatest (fun count => openAfter lookupCommand (commands.take count) = false)
    (wholeCommands commands cut)

/-- Loading a cut file gives the dataset of the whole commands and transactions in front of the
cut, leaves exactly their bytes in the file, and the file can be continued.
-/
structure TruncationCorrect (lookupCommand : LookupCommand D) (dataset : D) (commands : List Argv)
    (cut : Nat) (kept : List Argv) : Prop where
  loaded : loadAppendOnlyFile lookupCommand ((aofBytes commands).take cut) dataset
    = .ok ((execute lookupCommand dataset kept).dataset, aofBytes kept)
  continued : ∀ more, (∀ argv ∈ more, AofCommand lookupCommand argv)
    → openAfter lookupCommand more = false
    → loadAppendOnlyFile lookupCommand (aofBytes kept ++ aofBytes more) dataset
      = .ok ((execute lookupCommand (execute lookupCommand dataset kept).dataset more).dataset,
          aofBytes kept ++ aofBytes more)

theorem wholeCommands_le (commands : List Argv) (cut : Nat)
    : wholeCommands commands cut ≤ commands.length := by
  induction commands generalizing cut with
  | nil => exact Nat.le_refl 0
  | cons argv more ih =>
      rw [wholeCommands]
      split
      · exact Nat.succ_le_succ (ih _)
      · exact Nat.zero_le _

theorem truncation_continued {kept : List Argv}
    (all : ∀ argv ∈ kept, AofCommand lookupCommand argv)
    (closed : openAfter lookupCommand kept = false) {more : List Argv}
    (others : ∀ argv ∈ more, AofCommand lookupCommand argv)
    (closedMore : openAfter lookupCommand more = false)
    : loadAppendOnlyFile lookupCommand (aofBytes kept ++ aofBytes more) dataset
      = .ok ((execute lookupCommand (execute lookupCommand dataset kept).dataset more).dataset,
          aofBytes kept ++ aofBytes more) := by
  have both : ∀ argv ∈ kept ++ more, AofCommand lookupCommand argv := by
    intro argv member
    rcases List.mem_append.mp member with inside | outside
    · exact all argv inside
    · exact others argv outside
  have bytes : aofBytes (kept ++ more) = aofBytes kept ++ aofBytes more := List.flatMap_append
  rw [← bytes, loadAppendOnlyFile_whole both ((openAfter_append closed).trans closedMore),
    execute_append dataset all closed]

/-- A truncated file loads to a transaction boundary if and only if the cut leaves no transaction
open: the commands behind an open `MULTI` have been run, and they stay in the file.
-/
theorem truncated_load_correct (lookupCommand : LookupCommand D) (dataset : D)
    (commands : List Argv) (all : ∀ argv ∈ commands, AofCommand lookupCommand argv) (cut : Nat)
    : TruncationCorrect lookupCommand dataset commands cut
        (commands.take (transactionBoundary lookupCommand commands cut))
      ↔ openAfter lookupCommand (commands.take (wholeCommands commands cut)) = false := by
  have front : ∀ count, ∀ argv ∈ commands.take count, AofCommand lookupCommand argv :=
    fun count argv member => all argv (List.mem_of_mem_take member)
  obtain ⟨part, kind, file⟩ := aofBytes_take commands cut
  have load : loadAppendOnlyFile lookupCommand ((aofBytes commands).take cut) dataset = _ :=
    (congrArg (loadAppendOnlyFile lookupCommand · dataset) file).trans
      (loadAppendOnlyFile_cut all (front _) kind)
  constructor
  · intro correct
    have same := (Prod.mk.inj (Except.ok.inj (load.symm.trans correct.loaded))).2
    have least : transactionBoundary lookupCommand commands cut ≤ wholeCommands commands cut :=
      Nat.findGreatest_le _
    rw [aofBytes_injective_take least (wholeCommands_le commands cut) same]
    exact Nat.findGreatest_spec
      (P := fun count => openAfter lookupCommand (commands.take count) = false)
      (Nat.zero_le _) rfl
  · intro closed
    have boundary : transactionBoundary lookupCommand commands cut = wholeCommands commands cut :=
      Nat.findGreatest_eq closed
    rw [boundary]
    refine ⟨?_, fun more others closedMore =>
      truncation_continued (front _) closed others closedMore⟩
    rw [load, runCommands_closed dataset (front _) closed]

end Loader

-- A transaction that is cut

abbrev Strings := List UInt8 → Option (List UInt8)

/-- `SET key value`. -/
def setEffect (argv : Argv) (strings : Strings) : Strings :=
  match argv with
  | [_, key, value] => Function.update strings key (some value)
  | _ => strings

def multiArgv : Argv := [[0x4D, 0x55, 0x4C, 0x54, 0x49]]

def execArgv : Argv := [[0x45, 0x58, 0x45, 0x43]]

/-- `SET a 1`. -/
def setArgv : Argv := [[0x53, 0x45, 0x54], [0x61], [0x31]]

/-- A table with `MULTI`, `EXEC` and `SET`. -/
def stringCommands : LookupCommand Strings := fun name =>
  if name = multiArgv.headD [] then some .multi
  else if name = execArgv.headD [] then some .exec
  else if name = setArgv.headD [] then some (.run setEffect)
  else none

theorem stringCommands_known
    : ∀ argv ∈ [multiArgv, setArgv, execArgv], AofCommand stringCommands argv := by
  intro argv member
  simp only [List.mem_cons, List.not_mem_nil, or_false] at member
  rcases member with rfl | rfl | rfl
  · exact ⟨⟨by decide, by decide, by decide⟩, .multi, rfl, by simp⟩
  · exact ⟨⟨by decide, by decide, by decide⟩, .run setEffect, rfl, by simp⟩
  · exact ⟨⟨by decide, by decide, by decide⟩, .exec, rfl, by simp⟩

/-- A command, a transaction and another command. -/
def loggedCommands : List Argv := [setArgv, multiArgv, setArgv, execArgv, setArgv]

/-- The file ends in the middle of the last command, behind a whole transaction. -/
theorem truncated_load_correct_set
    : TruncationCorrect stringCommands (fun _ => none) loggedCommands
        ((aofBytes (loggedCommands.take 4)).length + 11)
        (loggedCommands.take (transactionBoundary stringCommands loggedCommands
          ((aofBytes (loggedCommands.take 4)).length + 11))) := by
  have known : ∀ argv ∈ loggedCommands, AofCommand stringCommands argv :=
    fun argv member => stringCommands_known argv (by simp [loggedCommands] at member ⊢; tauto)
  exact (truncated_load_correct stringCommands (fun _ => none) loggedCommands known _).mpr
    (by decide)

/-- The file ends in front of the `EXEC` of a transaction: the `SET` has been run, and `MULTI` and
`SET` stay in the file.
-/
theorem open_transaction_loaded
    : ¬ TruncationCorrect stringCommands (fun _ => none) [multiArgv, setArgv, execArgv]
        (aofBytes [multiArgv, setArgv]).length
        ([multiArgv, setArgv, execArgv].take
          (transactionBoundary stringCommands [multiArgv, setArgv, execArgv]
            (aofBytes [multiArgv, setArgv]).length)) := by
  intro correct
  have some : ∀ argv ∈ [multiArgv, setArgv], AofCommand stringCommands argv :=
    fun argv member => stringCommands_known argv (by simp at member ⊢; tauto)
  have load : loadAppendOnlyFile stringCommands (aofBytes [multiArgv, setArgv] ++ [])
      (fun _ => none) = _ := loadAppendOnlyFile_cut some some (.inl rfl)
  have file : (aofBytes [multiArgv, setArgv, execArgv]).take (aofBytes [multiArgv, setArgv]).length
      = aofBytes [multiArgv, setArgv] ++ [] := by decide
  have same := (Prod.mk.inj (Except.ok.inj (load.symm.trans (file ▸ correct.loaded)))).2
  exact absurd same (by decide)

end Redis
