import Redis.Aof.Format
import Redis.Util.Sds

/-! `BGREWRITEAOF`: a child writes the dataset of the moment of the fork to a new file, and what is
appended meanwhile reaches that file through a pipe to the child or from the blocks that the parent
keeps.
-/

namespace Redis.BackgroundRewrite

open Redis.Util

-- The rewrite buffer

/-- `AOF_RW_BUF_BLOCK_SIZE`. -/
def blockSize : Nat := 1024 * 1024 * 10

/-- `aofrwblock`. -/
structure Block where
  /-- The first `used` bytes of `buf`. -/
  data : List UInt8
  free : Nat
  fits : data.length + free ≤ blockSize

def Block.new : Block := ⟨[], blockSize, by simp⟩

/-- A block gets as many bytes as it has room for. -/
def Block.fill (block : Block) (s : List UInt8) : Block where
  data := block.data ++ s.take block.free
  free := block.free - s.length
  fits := by
    have fits := block.fits
    simp only [List.length_append, List.length_take]
    omega

/-- `memmove` behind a write of `n` bytes; `free` stays. -/
def Block.shift (block : Block) (n : Nat) : Block where
  data := block.data.drop n
  free := block.free
  fits := by
    have fits := block.fits
    simp only [List.length_drop]
    omega

/-- The blocks that `aofRewriteBufferAppend` allocates. -/
def newBlocks (s : List UInt8) : List Block :=
  if _empty : s = [] then [] else Block.new.fill s :: newBlocks (s.drop blockSize)
termination_by s.length
decreasing_by
  have some := List.length_pos_of_ne_nil _empty
  simp only [List.length_drop, blockSize]
  omega

def aofRewriteBufferAppend (blocks : List Block) (s : List UInt8) : List Block :=
  match blocks.getLast? with
  | none => newBlocks s
  | some last => blocks.dropLast ++ [last.fill s] ++ newBlocks (s.drop last.free)

/-- The first block behind a write; a block that is empty is deleted. -/
def afterWrite (block : Block) (nwritten : Nat) (blocks : List Block) : List Block :=
  if (block.shift nwritten).data = [] then blocks else block.shift nwritten :: blocks

/-- `aofChildWriteDiffData`: what was written to the pipe, and the blocks behind it. `writes` has
what each `write` accepts; 0 stands for an error, and so does the end of the list. Blocks without
bytes are deleted.
-/
def aofChildWriteDiffData : (writes : List Nat) → List Block → List UInt8 × List Block
  | [], blocks => ([], blocks.dropWhile (fun block => block.data = []))
  | nwritten :: writes, blocks =>
      match blocks.dropWhile (fun block => block.data = []) with
      | [] => ([], [])
      | block :: blocks =>
          if nwritten = 0 then ([], block :: blocks)
          else
            let (sent, left) := aofChildWriteDiffData writes (afterWrite block nwritten blocks)
            (block.data.take nwritten ++ sent, left)

def blockBytes (blocks : List Block) : List UInt8 := blocks.flatMap Block.data

-- The state

/-- `server.aof_state`. -/
inductive AofState where
  | off
  | on
  /-- `REDIS_AOF_WAIT_REWRITE`. -/
  | waitRewrite
deriving DecidableEq, Repr

/-- How far `rewriteAppendOnlyFile` is in the child. -/
inductive Stage where
  /-- The dataset is written and diffs are read. -/
  | rewriting
  /-- The parent was asked to stop. -/
  | asked
  /-- The parent agreed; the final diff is read. -/
  | agreed
  /-- The child exited with code 0. -/
  | done
  /-- The child exited with an error or was killed. -/
  | failed
deriving DecidableEq, Repr

/-- The child: what it writes for its dataset, and `server.aof_child_diff`. -/
structure Child where
  rewrite : List UInt8
  diff : List UInt8
  stage : Stage

/-- A command that was appended, with its database. -/
abbrev Entry := Nat × List UInt8

/-- The parent, the child and the pipes between them. -/
structure Server where
  aofState : AofState
  /-- The append only file. -/
  file : List UInt8
  aofBuf : List UInt8
  /-- `aof_selected_db`. -/
  selectedDb : Option Nat
  child : Option Child
  stopSendingDiff : Bool
  blocks : List Block
  dataPipe : List UInt8
  /-- The `!` of the child. -/
  askPipe : Bool
  /-- The `!` of the parent. -/
  ackPipe : Bool
  /-- What the file and `aof_buf` held at the last fork or installation. -/
  base : List UInt8
  /-- What was appended since then. -/
  log : List Entry

variable (s : Server)

-- The parent

/-- The bytes that `feedAppendOnlyFile` puts into its own string: a `SELECT` if the database is
another one, and the command.
-/
def appendText (selectedDb : Option Nat) (entry : Entry) : List UInt8 :=
  if selectedDb = some entry.1 then entry.2
  else aofCommand [[0x53, 0x45, 0x4C, 0x45, 0x43, 0x54], naturalText entry.1] ++ entry.2

/-- `propagate` and `feedAppendOnlyFile`. -/
def Server.feedAppendOnlyFile (entry : Entry) : Server :=
  let buf := sdsnewlen (appendText s.selectedDb entry)
  match s.aofState with
  | .off => s
  | state =>
      { s with
        selectedDb := some entry.1
        aofBuf := if state = .on then sdscatlen s.aofBuf buf else s.aofBuf
        blocks := if s.child.isSome then aofRewriteBufferAppend s.blocks buf else s.blocks
        log := s.log ++ [entry] }

/-- `flushAppendOnlyFile`, which writes `n` bytes. -/
def Server.flushAppendOnlyFile (n : Nat) : Server :=
  if s.aofState = .off then s
  else { s with file := s.file ++ s.aofBuf.take n, aofBuf := s.aofBuf.drop n }

/-- `rewriteAppendOnlyFileBackground`, with what the child will write. -/
def Server.rewriteAppendOnlyFileBackground (rewrite : List UInt8) : Server :=
  if s.child.isSome then s
  else
    { s with
      child := some ⟨rewrite, [], .rewriting⟩
      stopSendingDiff := false
      dataPipe := []
      askPipe := false
      ackPipe := false
      selectedDb := none
      base := s.file ++ s.aofBuf
      log := [] }

def Server.startAppendOnly (rewrite : List UInt8) : Server :=
  if s.aofState = .off ∧ s.child = none then
    { s.rewriteAppendOnlyFileBackground rewrite with aofState := .waitRewrite }
  else s

/-- The end of `backgroundRewriteDoneHandler`. -/
def Server.cleanup : Server :=
  { s with child := none, blocks := [], dataPipe := [], askPipe := false, ackPipe := false }

/-- `stopAppendOnly` behind its flush. -/
def Server.stopAppendOnly : Server :=
  if s.aofState = .off then s
  else { s.cleanup with aofState := .off, selectedDb := none, log := [] }

/-- What becomes of the file that the child wrote. -/
inductive Outcome where
  | openFailed
  | writeFailed
  | renameFailed
  | installed
deriving DecidableEq, Repr

def Server.install (child : Child) : Server :=
  let content := child.rewrite ++ child.diff ++ blockBytes s.blocks
  match s.aofState with
  | .off => { s with file := content }
  | _ =>
      { s with
        file := content
        aofBuf := []
        selectedDb := none
        aofState := .on
        base := content
        log := [] }

/-- `backgroundRewriteDoneHandler`, when the child has exited. -/
def Server.backgroundRewriteDoneHandler (outcome : Outcome) : Server :=
  match s.child with
  | none => s
  | some child =>
      match child.stage with
      | .done => if outcome = .installed then (s.install child).cleanup else s.cleanup
      | .failed => s.cleanup
      | _ => s

/-- `aofChildPipeReadable`; the `!` of the parent may not be written. -/
def Server.aofChildPipeReadable (written : Bool) : Server :=
  if s.child.isSome ∧ s.askPipe then
    { s with stopSendingDiff := true, askPipe := false, ackPipe := written }
  else s

/-- The pipe takes data from the blocks. -/
def Server.sendDiff (writes : List Nat) : Server :=
  if s.stopSendingDiff ∨ s.child = none then s
  else
    let (sent, left) := aofChildWriteDiffData writes s.blocks
    { s with dataPipe := s.dataPipe ++ sent, blocks := left }

-- The child

/-- A step of `rewriteAppendOnlyFile`. -/
inductive ChildStep where
  /-- A `read` of `aofReadDiffFromParent`. -/
  | read (n : Nat)
  | ask
  | getAck
  /-- The final diff is read: the pipe is empty. -/
  | finish
  | fail
deriving DecidableEq, Repr

def Server.childStep (step : ChildStep) : Server :=
  match s.child with
  | none => s
  | some child =>
      match step, child.stage with
      | .read n, .rewriting | .read n, .agreed =>
          { s with
            child := some { child with diff := sdscatlen child.diff (s.dataPipe.take n) }
            dataPipe := s.dataPipe.drop n }
      | .ask, .rewriting => { s with child := some { child with stage := .asked }, askPipe := true }
      | .getAck, .asked =>
          if s.ackPipe then
            { s with child := some { child with stage := .agreed }, ackPipe := false }
          else s
      | .finish, .agreed =>
          if s.dataPipe = [] then { s with child := some { child with stage := .done } } else s
      | .fail, .done => s
      | .fail, _ => { s with child := some { child with stage := .failed } }
      | _, _ => s

inductive Event where
  | append (entry : Entry)
  | flush (n : Nat)
  | fork (rewrite : List UInt8)
  | enable (rewrite : List UInt8)
  | disable
  | sendDiff (writes : List Nat)
  | pipeReadable (written : Bool)
  | child (step : ChildStep)
  | rewriteDone (outcome : Outcome)

def Server.step : Event → Server
  | .append entry => s.feedAppendOnlyFile entry
  | .flush n => s.flushAppendOnlyFile n
  | .fork rewrite => s.rewriteAppendOnlyFileBackground rewrite
  | .enable rewrite => s.startAppendOnly rewrite
  | .disable => s.stopAppendOnly
  | .sendDiff writes => s.sendDiff writes
  | .pipeReadable written => s.aofChildPipeReadable written
  | .child step => s.childStep step
  | .rewriteDone outcome => s.backgroundRewriteDoneHandler outcome

/-- What the step appends to a string fits there: to the string of `feedAppendOnlyFile`, to
`aof_buf` or to `aof_child_diff`.
-/
def Event.Fits : Event → Prop
  | .append entry =>
      (appendText s.selectedDb entry).length < 2 ^ 32
      ∧ (s.aofState = .on → s.aofBuf.length + (appendText s.selectedDb entry).length < 2 ^ 32)
  | .child (.read n) =>
      ∀ child ∈ s.child, child.diff.length + (s.dataPipe.take n).length < 2 ^ 32
  | _ => True

instance (event : Event) : Decidable (event.Fits s) :=
  match event with
  | .append _ => inferInstanceAs (Decidable (_ ∧ _))
  | .child (.read n) => inferInstanceAs (Decidable (∀ child ∈ s.child,
      child.diff.length + (s.dataPipe.take n).length < 2 ^ 32))
  | .child .ask | .child .getAck | .child .finish | .child .fail => inferInstanceAs (Decidable True)
  | .flush _ | .fork _ | .enable _ | .disable | .sendDiff _ | .pipeReadable _ | .rewriteDone _ =>
      inferInstanceAs (Decidable True)

/-- A run in which no string reaches the `2 ^ 32` bytes at which its length wraps. -/
inductive FittingRun (first : Server) : Server → Prop where
  | start : FittingRun first first
  | step {s : Server} {event : Event} (run : FittingRun first s) (fits : event.Fits s)
      : FittingRun first (s.step event)

def startServer (state : AofState) (file : List UInt8) : Server where
  aofState := state
  file := file
  aofBuf := []
  selectedDb := none
  child := none
  stopSendingDiff := false
  blocks := []
  dataPipe := []
  askPipe := false
  ackPipe := false
  base := file
  log := []

-- The buffer keeps the bytes in order

theorem blockBytes_append (first second : List Block)
    : blockBytes (first ++ second) = blockBytes first ++ blockBytes second := by
  simp [blockBytes]

theorem blockBytes_newBlocks (s : List UInt8) : blockBytes (newBlocks s) = s := by
  induction s using newBlocks.induct with
  | case1 =>
      rw [newBlocks]
      rfl
  | case2 s filled ih =>
      rw [newBlocks, dif_neg filled]
      have rest : blockBytes (Block.new.fill s :: newBlocks (s.drop blockSize))
          = s.take blockSize ++ blockBytes (newBlocks (s.drop blockSize)) := rfl
      rw [rest, ih, List.take_append_drop]

theorem blockBytes_aofRewriteBufferAppend (blocks : List Block) (s : List UInt8)
    : blockBytes (aofRewriteBufferAppend blocks s) = blockBytes blocks ++ s := by
  unfold aofRewriteBufferAppend
  cases last : blocks.getLast? with
  | none =>
      rw [List.getLast?_eq_none_iff.mp last]
      exact blockBytes_newBlocks s
  | some block =>
      have whole : blocks = blocks.dropLast ++ [block] :=
        (List.dropLast_append_getLast? block last).symm
      have filled : blockBytes [block.fill s] = blockBytes [block] ++ s.take block.free := by
        simp [blockBytes, Block.fill]
      calc
        blockBytes (blocks.dropLast ++ [block.fill s] ++ newBlocks (s.drop block.free))
            = blockBytes blocks.dropLast ++ (blockBytes [block] ++ s.take block.free)
              ++ s.drop block.free := by
          rw [blockBytes_append, blockBytes_append, filled, blockBytes_newBlocks]
        _ = blockBytes (blocks.dropLast ++ [block]) ++ s := by
          rw [blockBytes_append]
          simp only [List.append_assoc, List.take_append_drop]
        _ = blockBytes blocks ++ s := by rw [← whole]

theorem blockBytes_dropWhile (blocks : List Block)
    : blockBytes (blocks.dropWhile (fun block => block.data = [])) = blockBytes blocks := by
  induction blocks with
  | nil => rfl
  | cons block blocks ih =>
      by_cases empty : block.data = []
      · rw [List.dropWhile_cons_of_pos (by simpa using empty), ih]
        simp [blockBytes, empty]
      · rw [List.dropWhile_cons_of_neg (by simpa using empty)]

theorem blockBytes_afterWrite (block : Block) (nwritten : Nat) (blocks : List Block)
    : blockBytes (afterWrite block nwritten blocks)
      = block.data.drop nwritten ++ blockBytes blocks := by
  unfold afterWrite
  split
  · rename_i shifted
    have nothing : block.data.drop nwritten = [] := shifted
    rw [nothing, List.nil_append]
  · rfl

theorem aofChildWriteDiffData_bytes (writes : List Nat) (blocks : List Block)
    : (aofChildWriteDiffData writes blocks).1
        ++ blockBytes (aofChildWriteDiffData writes blocks).2 = blockBytes blocks := by
  induction writes generalizing blocks with
  | nil => exact blockBytes_dropWhile blocks
  | cons nwritten writes ih =>
      rw [← blockBytes_dropWhile blocks]
      unfold aofChildWriteDiffData
      split
      · rename_i none
        rw [none]
        rfl
      · rename_i block rest some
        rw [some]
        split
        · rfl
        · change (block.data.take nwritten
              ++ (aofChildWriteDiffData writes (afterWrite block nwritten rest)).1)
            ++ blockBytes (aofChildWriteDiffData writes (afterWrite block nwritten rest)).2 = _
          rw [List.append_assoc, ih, blockBytes_afterWrite, ← List.append_assoc,
            List.take_append_drop]
          rfl

-- What is appended

/-- The bytes of commands, with a `SELECT` wherever the database changes. -/
def withSelects : Option Nat → List Entry → List UInt8
  | _, [] => []
  | selectedDb, entry :: entries => appendText selectedDb entry
      ++ withSelects (some entry.1) entries

/-- The database that is selected behind commands. -/
def selectedBehind (log : List Entry) : Option Nat := log.getLast?.map Prod.fst

theorem withSelects_append (log : List Entry) (entry : Entry) (selectedDb : Option Nat)
    : withSelects selectedDb (log ++ [entry])
      = withSelects selectedDb log
        ++ appendText ((selectedBehind log).or selectedDb) entry := by
  induction log generalizing selectedDb with
  | nil => simp [withSelects, selectedBehind]
  | cons first log ih =>
      rw [List.cons_append, withSelects, withSelects, ih, List.append_assoc]
      congr 3
      cases log with
      | nil => simp [selectedBehind]
      | cons second rest =>
          rw [selectedBehind, selectedBehind, List.getLast?_cons_cons]
          cases last : (second :: rest).getLast? with
          | none => simp at last
          | some entry => rfl

theorem withSelects_snoc (log : List Entry) (entry : Entry)
    : withSelects none (log ++ [entry])
      = withSelects none log ++ appendText (selectedBehind log) entry := by
  rw [withSelects_append, Option.or_none]

-- The invariant

/-- Everything that was appended since the fork is with the child, in the pipe or in the blocks. -/
structure Carried (s : Server) (child : Child) : Prop where
  bytes : withSelects none s.log = child.diff ++ s.dataPipe ++ blockBytes s.blocks
  acked : s.ackPipe = true → s.stopSendingDiff = true
  agreed : child.stage = .agreed ∨ child.stage = .done → s.stopSendingDiff = true
  done : child.stage = .done → s.dataPipe = []

structure RewriteInvariant (s : Server) : Prop where
  active : ∀ child, s.child = some child → Carried s child
  idle : s.child = none → s.blocks = []
  selected : s.aofState ≠ .off → s.selectedDb = selectedBehind s.log
  kept : s.aofState = .on → s.file ++ s.aofBuf = s.base ++ withSelects none s.log

variable {s}

theorem RewriteInvariant.append (invariant : RewriteInvariant s) (entry : Entry)
    (fits : (Event.append entry).Fits s)
    : RewriteInvariant (s.feedAppendOnlyFile entry) := by
  obtain ⟨active, idle, selected, kept⟩ := invariant
  obtain ⟨alone, behind⟩ := fits
  unfold Server.feedAppendOnlyFile
  rw [sdsnewlen_of_lt alone]
  dsimp only
  split
  · exact ⟨active, idle, selected, kept⟩
  · rename_i running
    have text := withSelects_snoc s.log entry
    rw [← selected running] at text
    refine ⟨?_, ?_, ?_, ?_⟩
    · intro child there
      obtain ⟨bytes, acked, agreed, done⟩ := active child there
      refine ⟨?_, acked, agreed, done⟩
      have isSome : s.child.isSome = true := by simp [show s.child = some child from there]
      simp only [isSome, if_true]
      rw [text, bytes, blockBytes_aofRewriteBufferAppend]
      simp only [List.append_assoc]
    · intro none
      have absent : s.child = .none := none
      simp [absent, idle absent]
    · intro _
      simp [selectedBehind]
    · intro on
      have isOn : s.aofState = .on := on
      simp only [isOn, if_true]
      rw [sdscatlen_of_lt (behind isOn), text, ← List.append_assoc, kept isOn, List.append_assoc]

theorem RewriteInvariant.flush (invariant : RewriteInvariant s) (n : Nat)
    : RewriteInvariant (s.flushAppendOnlyFile n) := by
  obtain ⟨active, idle, selected, kept⟩ := invariant
  unfold Server.flushAppendOnlyFile
  split
  · exact ⟨active, idle, selected, kept⟩
  · refine ⟨?_, idle, selected, ?_⟩
    · intro child there
      obtain ⟨bytes, acked, agreed, done⟩ := active child there
      exact ⟨bytes, acked, agreed, done⟩
    · intro on
      dsimp only
      rw [List.append_assoc, List.take_append_drop]
      exact kept on

theorem RewriteInvariant.fork (invariant : RewriteInvariant s) (rewrite : List UInt8)
    : RewriteInvariant (s.rewriteAppendOnlyFileBackground rewrite) := by
  obtain ⟨active, idle, selected, kept⟩ := invariant
  unfold Server.rewriteAppendOnlyFileBackground
  split
  · exact ⟨active, idle, selected, kept⟩
  · rename_i absent
    have none : s.child = none := by simpa using absent
    refine ⟨?_, ?_, fun _ => rfl, ?_⟩
    · rintro child there
      obtain rfl := Option.some.inj there
      refine ⟨?_, ?_, ?_, ?_⟩
      · simp [idle none, blockBytes, withSelects]
      · intro acked
        cases acked
      · rintro (agreed | done)
        · cases agreed
        · cases done
      · intro done
        cases done
    · intro gone
      cases gone
    · intro _
      simp [withSelects]

theorem RewriteInvariant.enable (invariant : RewriteInvariant s) (rewrite : List UInt8)
    : RewriteInvariant (s.startAppendOnly rewrite) := by
  unfold Server.startAppendOnly
  split
  · rename_i stopped
    obtain ⟨active, idle, _, _⟩ := invariant.fork rewrite
    refine ⟨?_, idle, ?_, ?_⟩
    · intro child there
      obtain ⟨bytes, acked, agreed, done⟩ := active child there
      exact ⟨bytes, acked, agreed, done⟩
    · intro _
      simp [Server.rewriteAppendOnlyFileBackground, stopped.2, selectedBehind]
    · intro on
      cases on
  · exact invariant

theorem RewriteInvariant.cleanup
    (selected : s.aofState ≠ .off → s.selectedDb = selectedBehind s.log)
    (kept : s.aofState = .on → s.file ++ s.aofBuf = s.base ++ withSelects none s.log)
    : RewriteInvariant s.cleanup := by
  refine ⟨?_, fun _ => rfl, selected, kept⟩
  intro child there
  cases there

theorem RewriteInvariant.disable (invariant : RewriteInvariant s)
    : RewriteInvariant s.stopAppendOnly := by
  obtain ⟨active, idle, selected, kept⟩ := invariant
  unfold Server.stopAppendOnly
  split
  · exact ⟨active, idle, selected, kept⟩
  · refine ⟨?_, fun _ => rfl, ?_, ?_⟩
    · intro child there
      cases there
    · intro running
      exact absurd rfl running
    · intro on
      cases on

theorem RewriteInvariant.sendDiff (invariant : RewriteInvariant s) (writes : List Nat)
    : RewriteInvariant (s.sendDiff writes) := by
  obtain ⟨active, idle, selected, kept⟩ := invariant
  unfold Server.sendDiff
  split
  · exact ⟨active, idle, selected, kept⟩
  · rename_i sending
    obtain ⟨goOn, there⟩ := not_or.mp sending
    refine ⟨?_, fun none => absurd none there, selected, kept⟩
    intro child same
    obtain ⟨bytes, acked, agreed, done⟩ := active child same
    refine ⟨?_, acked, agreed, ?_⟩
    · dsimp only
      rw [bytes, List.append_assoc, List.append_assoc, List.append_assoc,
        aofChildWriteDiffData_bytes]
    · intro finished
      exact absurd (agreed (.inr finished)) goOn

theorem RewriteInvariant.pipeReadable (invariant : RewriteInvariant s) (written : Bool)
    : RewriteInvariant (s.aofChildPipeReadable written) := by
  obtain ⟨active, idle, selected, kept⟩ := invariant
  unfold Server.aofChildPipeReadable
  split
  · refine ⟨?_, idle, selected, kept⟩
    intro child there
    obtain ⟨bytes, _, _, done⟩ := active child there
    exact ⟨bytes, fun _ => rfl, fun _ => rfl, done⟩
  · exact ⟨active, idle, selected, kept⟩

theorem RewriteInvariant.moveChild (invariant : RewriteInvariant s) {child next : Child}
    {dataPipe : List UInt8} {askPipe ackPipe : Bool} (there : s.child = some child)
    (same : child.diff ++ s.dataPipe = next.diff ++ dataPipe)
    (acked : ackPipe = true → s.ackPipe = true)
    (agreed : next.stage = .agreed ∨ next.stage = .done → s.stopSendingDiff = true)
    (done : next.stage = .done → dataPipe = [])
    : RewriteInvariant
        { s with
          child := some next, dataPipe := dataPipe, askPipe := askPipe, ackPipe := ackPipe } := by
  obtain ⟨active, _, selected, kept⟩ := invariant
  obtain ⟨bytes, wasAcked, _, _⟩ := active child there
  refine ⟨?_, ?_, selected, kept⟩
  · intro other now
    obtain rfl := Option.some.inj now
    refine ⟨?_, fun ack => wasAcked (acked ack), agreed, done⟩
    dsimp only
    rw [bytes, same]
  · intro none
    cases none

theorem RewriteInvariant.childRead (invariant : RewriteInvariant s) {child : Child}
    (there : s.child = some child) (running : child.stage ≠ .done) (n : Nat)
    : RewriteInvariant
        { s with
          child := some { child with diff := child.diff ++ s.dataPipe.take n }
          dataPipe := s.dataPipe.drop n } := by
  obtain ⟨_, _, agreed, _⟩ := invariant.active child there
  refine invariant.moveChild there ?_ id agreed (fun finished => absurd finished running)
  rw [List.append_assoc, List.take_append_drop]

theorem RewriteInvariant.childStage (invariant : RewriteInvariant s) {child : Child}
    (there : s.child = some child) {stage : Stage} {askPipe ackPipe : Bool}
    (acked : ackPipe = true → s.ackPipe = true)
    (agreed : stage = .agreed ∨ stage = .done → s.stopSendingDiff = true)
    (done : stage = .done → s.dataPipe = [])
    : RewriteInvariant
        { s with
          child := some { child with stage := stage }
          askPipe := askPipe
          ackPipe := ackPipe } :=
  invariant.moveChild there rfl acked agreed done

theorem RewriteInvariant.childStep (invariant : RewriteInvariant s) (step : ChildStep)
    (fits : (Event.child step).Fits s)
    : RewriteInvariant (s.childStep step) := by
  unfold Server.childStep
  split
  · exact invariant
  · rename_i child there
    obtain ⟨_, acked, agreed, _⟩ := invariant.active child there
    split
    · rename_i n stage
      rw [sdscatlen_of_lt (fits child there)]
      exact invariant.childRead there (by simp [stage]) n
    · rename_i n stage
      rw [sdscatlen_of_lt (fits child there)]
      exact invariant.childRead there (by simp [stage]) n
    · exact invariant.childStage there id (by simp) (by simp)
    · split
      · rename_i ack
        exact invariant.childStage there (by simp) (fun _ => acked ack) (by simp)
      · exact invariant
    · rename_i stage
      split
      · rename_i empty
        exact invariant.childStage there id (fun _ => agreed (.inl stage)) (fun _ => empty)
      · exact invariant
    · exact invariant
    · exact invariant.childStage there id (by simp) (by simp)
    · exact invariant

theorem RewriteInvariant.install (invariant : RewriteInvariant s) (child : Child)
    : RewriteInvariant (s.install child).cleanup := by
  obtain ⟨_, _, selected, _⟩ := invariant
  unfold Server.install
  dsimp only
  split
  · rename_i off
    refine RewriteInvariant.cleanup selected ?_
    intro on
    rw [show s.aofState = .on from on] at off
    cases off
  · refine RewriteInvariant.cleanup (fun _ => rfl) ?_
    intro _
    simp [withSelects]

theorem RewriteInvariant.rewriteDone (invariant : RewriteInvariant s) (outcome : Outcome)
    : RewriteInvariant (s.backgroundRewriteDoneHandler outcome) := by
  have cleaned : RewriteInvariant s.cleanup :=
    RewriteInvariant.cleanup invariant.selected invariant.kept
  unfold Server.backgroundRewriteDoneHandler
  split
  · exact invariant
  · rename_i child there
    split
    · split
      · exact invariant.install child
      · exact cleaned
    · exact cleaned
    · exact invariant

-- Runs

theorem RewriteInvariant.step (invariant : RewriteInvariant s) (event : Event)
    (fits : event.Fits s)
    : RewriteInvariant (s.step event) := by
  cases event with
  | append entry => exact invariant.append entry fits
  | flush n => exact invariant.flush n
  | fork rewrite => exact invariant.fork rewrite
  | enable rewrite => exact invariant.enable rewrite
  | disable => exact invariant.disable
  | sendDiff writes => exact invariant.sendDiff writes
  | pipeReadable written => exact invariant.pipeReadable written
  | child step => exact invariant.childStep step fits
  | rewriteDone outcome => exact invariant.rewriteDone outcome

theorem startServer_invariant (state : AofState) (file : List UInt8)
    : RewriteInvariant (startServer state file) := by
  refine ⟨?_, fun _ => rfl, fun _ => rfl, ?_⟩
  · intro child there
    cases there
  · intro _
    simp [startServer, withSelects]

theorem RewriteInvariant.run {first : Server} (invariant : RewriteInvariant first)
    (run : FittingRun first s)
    : RewriteInvariant s := by
  induction run with
  | start => exact invariant
  | step run fits ih => exact ih.step _ fits

/-- A read fits if all that was appended since the fork would. -/
theorem FittingRun.read {first : Server} (run : FittingRun first s)
    (invariant : RewriteInvariant first) (n : Nat)
    (short : (withSelects none s.log).length < 2 ^ 32)
    : FittingRun first (s.step (.child (.read n))) := by
  refine run.step fun child there => ?_
  have bytes := congrArg List.length ((invariant.run run).active child there).bytes
  simp only [List.length_append] at bytes
  rw [List.length_take]
  omega

/-- What a reader of the files relies on. -/
structure NothingLost (s : Server) : Prop where
  /-- The file that is installed has the dataset of the fork and all that was appended since. -/
  installed : ∀ child, s.child = some child → child.stage = .done
    → (s.step (.rewriteDone .installed)).file = child.rewrite ++ withSelects none s.log
  /-- It is the new base, behind which the next command starts with a `SELECT`. -/
  next : ∀ child, s.child = some child → child.stage = .done → s.aofState ≠ .off
    → (s.step (.rewriteDone .installed)).base = (s.step (.rewriteDone .installed)).file
      ∧ (s.step (.rewriteDone .installed)).aofBuf = []
      ∧ (s.step (.rewriteDone .installed)).log = []
      ∧ (s.step (.rewriteDone .installed)).aofState = .on
  /-- The file and `aof_buf` have what they had at the last fork or installation, and all that was
  appended since.
  -/
  kept : s.aofState = .on → s.file ++ s.aofBuf = s.base ++ withSelects none s.log

theorem RewriteInvariant.nothingLost (invariant : RewriteInvariant s) : NothingLost s := by
  refine ⟨?_, ?_, invariant.kept⟩
  · intro child there exited
    obtain ⟨bytes, _, _, done⟩ := invariant.active child there
    have content : (s.step (.rewriteDone .installed)).file
        = child.rewrite ++ child.diff ++ blockBytes s.blocks := by
      simp only [Server.step, Server.backgroundRewriteDoneHandler, there, exited, if_true,
        Server.install]
      split <;> rfl
    rw [content, bytes, done exited, List.append_nil, List.append_assoc]
  · intro child there exited running
    simp only [Server.step, Server.backgroundRewriteDoneHandler, there, exited, if_true,
      Server.install]
    exact ⟨rfl, rfl, rfl, rfl⟩

end Redis.BackgroundRewrite
