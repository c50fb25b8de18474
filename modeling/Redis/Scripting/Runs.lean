import Redis.Scripting.Knowledge

/-! Runs of a master: no reader is sent an `EVALSHA` of a script that it was not sent before. -/

namespace Redis.Scripting

open Redis.BackgroundRewrite (AofState)
open Redis.Library

section Commands

variable (sha1 : List UInt8 → Fin 20 → UInt8)

-- The code of the commands

structure Master.Invariant (m : Master) : Prop where
  informed : m.Informed sha1
  cache : m.cache.Consistent
  scripts : ∀ entry ∈ m.scripts, entry.1 = sha1hex sha1 entry.2.1

/-- A command can be propagated as its code left it: nowhere, or to readers with keys that the
command explains.
-/
inductive Called.Ready (called : Called) : Prop
  | nowhere (invariant : called.master.Invariant sha1) (flags : called.flags = ⟨false, false⟩)
  | explained {keys : List (List UInt8)} (knowledge : Knowledge sha1 keys called.master)
    (cache : called.master.cache.Consistent)
    (scripts : ∀ entry ∈ called.master.scripts, entry.1 = sha1hex sha1 entry.2.1)
    (explains : Explains sha1 keys called.master.cache.dict called.command)
    (some : called.flags ≠ ⟨true, true⟩ → ∀ key ∈ called.master.cache.dict, key ∈ keys)

variable {sha1} {runid : List UInt8} {m next : Master} {command : PropagatedCommand}
  {called : Called} {creation : Creation} {run : ScriptRun} {body : Argument} {dictid : Int32}
  {defined created : Bool} {args : List Argument}

theorem Master.Invariant.of_same (invariant : m.Invariant sha1) (informed : next.Informed sha1)
    (same : SameScripts m next)
    : next.Invariant sha1 where
  informed := informed
  cache := by
    rcases same.cache with cache | cache <;> rw [cache]
    · exact invariant.cache
    · exact flush_consistent
  scripts := same.scripts ▸ invariant.scripts

theorem Master.Invariant.steps (invariant : m.Invariant sha1) {events : List ServerEvent}
    (run : m.serverSteps runid events = .ok next)
    : next.Invariant sha1 := by
  obtain ⟨informed, same⟩ := invariant.informed.serverSteps events run
  exact invariant.of_same informed same

theorem Master.Invariant.ready (invariant : m.Invariant sha1) {flags : PropagateFlags}
    (explains : Explains sha1 m.cache.dict m.cache.dict command)
    : Called.Ready sha1 ⟨m, command, flags⟩ :=
  .explained invariant.informed invariant.cache invariant.scripts explains fun _ _ member => member

theorem Master.Invariant.nothing (invariant : m.Invariant sha1) (command : PropagatedCommand)
    : (Called.nothing m command).Ready sha1 :=
  .nowhere invariant rfl

theorem explains_other {keys : List (List UInt8)}
    (uses : ∀ key, scriptRole sha1 command ≠ .uses key)
    (keeps : scriptRole sha1 command ≠ .forgets)
    : Explains sha1 keys keys command :=
  ⟨fun used => absurd used (uses _), fun forgets => absurd forgets keeps, fun _ => Or.inl⟩

theorem Master.Invariant.create (invariant : m.Invariant sha1) {created : Bool}
    (run : m.luaCreateFunction (sha1hex sha1 body.1) body creation = .ok (next, created))
    : next.Invariant sha1 := by
  unfold Master.luaCreateFunction at run
  cases creation with
  | notCompiled =>
      cases run
      exact invariant
  | notRun =>
      cases run
      exact ⟨⟨ReplKnowledge.congr invariant.informed.repl rfl rfl rfl rfl, invariant.informed.aof⟩,
        invariant.cache, invariant.scripts⟩
  | created =>
      dsimp only at run
      split at run
      · cases run
      · cases run
        refine ⟨⟨ReplKnowledge.congr invariant.informed.repl rfl rfl rfl rfl,
          invariant.informed.aof⟩, invariant.cache, fun entry member => ?_⟩
        rcases List.mem_cons.mp member with rfl | old
        · rfl
        · exact invariant.scripts entry old

theorem Master.Invariant.afterScript (invariant : m.Invariant sha1) {sha numkeys : Argument}
    (found : scriptCommand (arguments command) = some (.evalsha sha numkeys args))
    (valid : numkeysValid numkeys args = true)
    (ran : m.afterScript command (some sha) run = .ok called)
    : called.Ready sha1 := by
  unfold Master.afterScript at ran
  dsimp only at ran
  split at ran
  · rename_i cached
    cases ran
    have role : scriptRole sha1 command = .uses (sha.1.map lowerCase) := by rw [scriptRole, found]
    refine invariant.ready ⟨fun uses => ?_, fun forgets => ?_, fun _ => Or.inl⟩
    · cases role.symm.trans uses
      exact (exists_iff sha.1).mp cached
    · cases role.symm.trans forgets
  · rename_i missing
    obtain ⟨cache, added, rest⟩ := andThen_ok_iff.mp ran
    obtain ⟨next, again, consistent, keys⟩ := invariant.cache.add (by simpa using missing)
    cases added.symm.trans again
    cases looked : m.scripts.find? (fun entry => strcaseEqual sha.1 entry.1) with
    | none =>
        rw [looked] at rest
        cases rest
    | some entry =>
        rw [looked] at rest
        obtain ⟨digest, script⟩ := entry
        cases rest
        have digestEq : digest = sha1hex sha1 script.1 :=
          invariant.scripts _ (List.mem_of_find?_eq_some looked)
        have equal : strcaseEqual sha.1 digest = true := by simpa using List.find?_some looked
        have same := (strcaseEqual_iff _ _).mp equal
        have knowledge : Knowledge sha1 m.cache.dict { m with cache } :=
          ⟨ReplKnowledge.congr invariant.informed.repl rfl rfl rfl rfl, invariant.informed.aof⟩
        have announces : scriptRole sha1 (rewrittenAsEval command script)
            = .announces (sha.1.map lowerCase) := by
          rw [scriptRole_rewritten found valid, same, digestEq, map_lowerCase_sha1hex]
        refine .explained knowledge consistent invariant.scripts
          ⟨fun uses => ?_, fun forgets => ?_, fun key member => ?_⟩ (fun other => absurd rfl other)
        · cases announces.symm.trans uses
        · cases announces.symm.trans forgets
        · rcases keys key member with rfl | old
          · exact Or.inr announces
          · exact Or.inl old

theorem Master.Invariant.lookup (invariant : m.Invariant sha1)
    (run : (if defined then pure (m, true)
        else m.luaCreateFunction (sha1hex sha1 body.1) body creation)
      = Except.ok (next, created))
    : next.Invariant sha1 := by
  split at run
  · cases run
    exact invariant
  · exact invariant.create run

theorem Master.Invariant.evalCommand (invariant : m.Invariant sha1) {script numkeys : Argument}
    (found : scriptCommand (arguments command) = some (.eval script numkeys args))
    (ran : m.evalCommand sha1 runid command script numkeys args run = .ok called)
    : called.Ready sha1 := by
  have role : scriptRole sha1 command = .announces (sha1hex sha1 script.1)
      ∨ scriptRole sha1 command = .silent := by
    rw [scriptRole, found]
    dsimp only
    split
    · exact Or.inl rfl
    · exact Or.inr rfl
  unfold Master.evalCommand at ran
  split at ran
  · cases ran
    exact invariant.nothing command
  · obtain ⟨⟨mid, created⟩, looked, rest⟩ := andThen_ok_iff.mp ran
    have midInvariant := invariant.lookup looked
    dsimp only at rest
    split at rest
    · cases rest
      exact midInvariant.nothing command
    · obtain ⟨after, stepped, last⟩ := andThen_ok_iff.mp rest
      cases last
      refine (midInvariant.steps stepped).ready (explains_other ?_ ?_)
      · rcases role with role | role <;> simp [role]
      · rcases role with role | role <;> simp [role]

theorem Master.Invariant.evalShaCommand (invariant : m.Invariant sha1) {sha numkeys : Argument}
    (found : scriptCommand (arguments command) = some (.evalsha sha numkeys args))
    (ran : m.evalShaCommand runid command sha numkeys args run = .ok called)
    : called.Ready sha1 := by
  unfold Master.evalShaCommand at ran
  split at ran
  · cases ran
    exact invariant.nothing command
  · rename_i accepted
    split at ran
    · cases ran
      exact invariant.nothing command
    · obtain ⟨after, stepped, rest⟩ := andThen_ok_iff.mp ran
      have valid : numkeysValid numkeys args = true := by
        simpa using (not_or.mp accepted).2
      exact (invariant.steps stepped).afterScript found valid rest

theorem Master.Invariant.scriptLoad (invariant : m.Invariant sha1) {script : Argument}
    (found : scriptCommand (arguments command) = some (.load script))
    (ran : m.scriptLoad sha1 command script creation = .ok called)
    : called.Ready sha1 := by
  have role : scriptRole sha1 command = .announces (sha1hex sha1 script.1) := by
    rw [scriptRole, found]
  obtain ⟨⟨mid, created⟩, looked, rest⟩ := andThen_ok_iff.mp ran
  have midInvariant := invariant.lookup looked
  dsimp only at rest
  split at rest
  · cases rest
    exact midInvariant.nothing command
  · cases rest
    exact midInvariant.ready (explains_other (by simp [role]) (by simp [role]))

theorem Master.Invariant.scriptFlush (invariant : m.Invariant sha1)
    (found : scriptCommand (arguments command) = some .flush)
    : (m.scriptFlush command).Ready sha1 := by
  have role : scriptRole sha1 command = .forgets := by rw [scriptRole, found]
  have knowledge : Knowledge sha1 [] (m.scriptFlush command).master :=
    ⟨(invariant.informed.repl.mono fun key member => by cases member).congr rfl rfl rfl rfl,
      invariant.informed.aof.mono fun key member => by cases member⟩
  refine .explained knowledge flush_consistent (fun entry member => by cases member)
    ⟨fun uses => ?_, fun _ => rfl, fun key member => by cases member⟩ (fun _ key member => ?_)
  · cases role.symm.trans uses
  · cases member

theorem Master.Invariant.proc (invariant : m.Invariant sha1)
    (ran : m.proc sha1 runid command run = .ok called)
    : called.Ready sha1 := by
  unfold Master.proc at ran
  split at ran
  · obtain ⟨after, stepped, rest⟩ := andThen_ok_iff.mp ran
    cases rest
    exact (invariant.steps stepped).nothing command
  · rename_i found
    exact invariant.evalCommand found ran
  · rename_i found
    exact invariant.evalShaCommand found ran
  · rename_i found
    exact invariant.scriptLoad found ran
  · rename_i found
    cases ran
    exact invariant.scriptFlush found

theorem Called.Ready.propagate (ready : called.Ready sha1)
    (run : called.master.propagate runid dictid called.command called.flags = .ok next)
    : next.Invariant sha1 := by
  cases ready with
  | nowhere invariant flags =>
      rw [flags] at run
      cases run
      exact invariant
  | explained knowledge cache scripts explains some =>
      obtain ⟨informed, cacheEq, same⟩ := knowledge.propagate explains some run
      exact ⟨by rwa [Master.Informed, cacheEq], by rwa [cacheEq], by rwa [same.scripts]⟩

theorem Master.Invariant.call (invariant : m.Invariant sha1)
    (ran : m.call sha1 runid dictid command run = .ok next)
    : next.Invariant sha1 := by
  obtain ⟨called, proc, rest⟩ := andThen_ok_iff.mp ran
  exact (invariant.proc proc).propagate rest

-- Transactions

theorem Master.Invariant.propagatePlain (invariant : m.Invariant sha1)
    {plain : PlainCommand} {flags : PropagateFlags}
    (run : m.propagate runid dictid plain.1 flags = .ok next)
    : next.Invariant sha1 :=
  invariant.of_same
    (invariant.informed.serverStep (.propagate dictid plain flags) run).1
    (invariant.informed.serverStep (.propagate dictid plain flags) run).2

theorem Master.Invariant.execRound (invariant : m.Invariant sha1) {queued : Queued}
    {before after : Bool}
    (run : Master.execRound sha1 runid (m, before) queued = .ok (next, after))
    : next.Invariant sha1 := by
  obtain ⟨multi, started, rest⟩ := andThen_ok_iff.mp run
  have multiInvariant : multi.Invariant sha1 := by
    split at started
    · exact invariant.propagatePlain started
    · cases started
      exact invariant
  obtain ⟨called, ran, last⟩ := andThen_ok_iff.mp rest
  cases last
  exact multiInvariant.call ran

theorem Master.Invariant.execRounds {queue : List Queued} {state after : Master × Bool}
    (invariant : state.1.Invariant sha1)
    (run : queue.foldlM (Master.execRound sha1 runid) state = .ok after)
    : after.1.Invariant sha1 := by
  induction queue generalizing state with
  | nil =>
      cases run
      exact invariant
  | cons queued rest ih =>
      obtain ⟨mid, first, later⟩ := andThen_ok_iff.mp run
      exact ih (invariant.execRound first) later

theorem Master.Invariant.execCommand (invariant : m.Invariant sha1)
    {queue : List Queued} (run : m.execCommand sha1 runid dictid queue = .ok next)
    : next.Invariant sha1 := by
  obtain ⟨⟨after, mustPropagate⟩, rounds, rest⟩ := andThen_ok_iff.mp run
  have afterInvariant := Master.Invariant.execRounds invariant rounds
  dsimp only at rest
  split at rest
  · exact afterInvariant.propagatePlain rest
  · cases rest
    exact afterInvariant

theorem Master.Invariant.step (invariant : m.Invariant sha1) (event : Event)
    (run : m.step sha1 runid event = .ok next)
    : next.Invariant sha1 := by
  cases event with
  | command dictid command run' => exact invariant.call run
  | exec dictid queue => exact invariant.execCommand run
  | server event =>
      obtain ⟨informed, same⟩ := invariant.informed.serverStep event run
      exact invariant.of_same informed same

-- The start of the server

variable (sha1) in
/-- While the append only file is loaded every script comes from the commands loaded so far. -/
structure Master.Loading (m : Master) (file : List PropagatedCommand) : Prop where
  cache : m.cache.Consistent
  scripts
    : ∀ entry ∈ m.scripts,
        entry.1 = sha1hex sha1 entry.2.1 ∧ Known (scriptRole sha1) entry.1 file
  keys : ∀ key ∈ m.cache.dict, Known (scriptRole sha1) (key.map lowerCase) file

/-- There are no replicas and there never were. -/
structure Master.Alone (m : Master) : Prop where
  repl : m.repl = .initial
  log : m.log = []
  departed : m.departed = []

variable {file : List PropagatedCommand}

theorem Master.Alone.lookup (alone : m.Alone) {name : List UInt8}
    (run : (if defined then pure (m, true) else m.luaCreateFunction name body creation)
      = Except.ok (next, created))
    : next.Alone := by
  split at run
  · cases run
    exact alone
  · unfold Master.luaCreateFunction at run
    cases creation with
    | notCompiled =>
        cases run
        exact alone
    | notRun =>
        cases run
        exact ⟨alone.repl, alone.log, alone.departed⟩
    | created =>
        dsimp only at run
        split at run <;> cases run
        exact ⟨alone.repl, alone.log, alone.departed⟩

theorem Master.Alone.afterScript (alone : m.Alone) {sha : Option Argument}
    (ran : m.afterScript command sha run = .ok called)
    : called.master.Alone := by
  unfold Master.afterScript at ran
  cases sha with
  | none =>
      cases ran
      exact alone
  | some sha =>
      dsimp only at ran
      split at ran
      · cases ran
        exact alone
      · obtain ⟨cache, _, rest⟩ := andThen_ok_iff.mp ran
        split at rest
        · cases rest
        · cases rest
          exact ⟨alone.repl, alone.log, alone.departed⟩

theorem Master.Loading.snoc (loading : m.Loading sha1 file)
    (keeps : scriptRole sha1 command ≠ .forgets)
    : m.Loading sha1 (file ++ [command]) where
  cache := loading.cache
  scripts := fun entry member =>
    (loading.scripts entry member).imp id fun known => known.snoc keeps
  keys := fun key member => (loading.keys key member).snoc keeps

theorem Master.Loading.lookup (loading : m.Loading sha1 file)
    (announces : scriptRole sha1 command = .announces (sha1hex sha1 body.1))
    (run : (if defined then pure (m, true)
        else m.luaCreateFunction (sha1hex sha1 body.1) body creation)
      = Except.ok (next, created))
    : next.Loading sha1 (file ++ [command]) := by
  have kept : m.Loading sha1 (file ++ [command]) := loading.snoc (by simp [announces])
  split at run
  · cases run
    exact kept
  · unfold Master.luaCreateFunction at run
    cases creation with
    | notCompiled =>
        cases run
        exact kept
    | notRun =>
        cases run
        exact ⟨kept.cache, kept.scripts, kept.keys⟩
    | created =>
        dsimp only at run
        split at run
        · cases run
        · cases run
          refine ⟨kept.cache, fun entry member => ?_, kept.keys⟩
          rcases List.mem_cons.mp member with rfl | old
          · exact ⟨rfl, .announced announces⟩
          · exact kept.scripts entry old

theorem Master.Loading.afterScript (loading : m.Loading sha1 file) {sha : Argument}
    (ran : m.afterScript command (some sha) run = .ok called)
    : called.master.Loading sha1 file := by
  unfold Master.afterScript at ran
  dsimp only at ran
  split at ran
  · cases ran
    exact loading
  · rename_i missing
    obtain ⟨cache, added, rest⟩ := andThen_ok_iff.mp ran
    obtain ⟨next, again, consistent, keys⟩ := loading.cache.add (by simpa using missing)
    cases added.symm.trans again
    cases looked : m.scripts.find? (fun entry => strcaseEqual sha.1 entry.1) with
    | none =>
        rw [looked] at rest
        cases rest
    | some entry =>
        rw [looked] at rest
        obtain ⟨digest, script⟩ := entry
        cases rest
        obtain ⟨digestEq, known⟩ := loading.scripts _ (List.mem_of_find?_eq_some looked)
        have equal : strcaseEqual sha.1 digest = true := by simpa using List.find?_some looked
        have same := (strcaseEqual_iff _ _).mp equal
        refine ⟨consistent, loading.scripts, fun key member => ?_⟩
        rcases keys key member with rfl | old
        · rw [same, show digest = _ from digestEq, map_lowerCase_sha1hex]
          exact digestEq ▸ known
        · exact loading.keys key old

theorem Master.Loading.proc (loading : m.Loading sha1 file) (alone : m.Alone)
    (ran : m.proc sha1 runid command ⟨creation, [], false, false⟩ = .ok called)
    : called.master.Loading sha1 (file ++ [command]) ∧ called.master.Alone := by
  unfold Master.proc at ran
  split at ran
  · rename_i found
    cases ran
    exact ⟨loading.snoc (by simp [scriptRole, found]), alone⟩
  · rename_i script numkeys args found
    unfold Master.evalCommand at ran
    split at ran
    · rename_i invalid
      cases ran
      have silent : scriptRole sha1 command = .silent := by
        simp only [scriptRole, found]
        rw [if_neg (by simpa using invalid)]
      exact ⟨loading.snoc (by simp [silent]), alone⟩
    · rename_i valid
      have announces : scriptRole sha1 command = .announces (sha1hex sha1 script.1) := by
        simp only [scriptRole, found]
        rw [if_pos (by simpa using valid)]
      obtain ⟨⟨mid, created⟩, looked, rest⟩ := andThen_ok_iff.mp ran
      have midLoading := loading.lookup announces looked
      have midAlone := alone.lookup looked
      dsimp only at rest
      split at rest <;> cases rest <;> exact ⟨midLoading, midAlone⟩
  · rename_i sha numkeys args found
    have kept : m.Loading sha1 (file ++ [command]) := loading.snoc (by simp [scriptRole, found])
    unfold Master.evalShaCommand at ran
    split at ran
    · cases ran
      exact ⟨kept, alone⟩
    · split at ran
      · cases ran
        exact ⟨kept, alone⟩
      · have after
            : m.afterScript command (some sha) ⟨creation, [], false, false⟩ = .ok called :=
          ran
        exact ⟨kept.afterScript after, alone.afterScript after⟩
  · rename_i script found
    have announces : scriptRole sha1 command = .announces (sha1hex sha1 script.1) := by
      simp only [scriptRole, found]
    obtain ⟨⟨mid, created⟩, looked, rest⟩ := andThen_ok_iff.mp ran
    have midLoading := loading.lookup announces looked
    have midAlone := alone.lookup looked
    dsimp only at rest
    split at rest <;> cases rest <;> exact ⟨midLoading, midAlone⟩
  · rename_i found
    cases ran
    exact ⟨⟨flush_consistent, fun entry member => (by cases member),
      fun key member => (by cases member)⟩, alone.repl, alone.log, alone.departed⟩

theorem Master.Alone.knowledge (alone : m.Alone) (keys : List (List UInt8))
    : ReplKnowledge sha1 keys m where
  sound := by
    rw [alone.repl]
    exact initial_sound
  past := fun entry member => by
    rw [alone.log] at member
    cases member
  origins := fun c member => by
    rw [alone.repl] at member
    cases member
  slaves := fun c member => by
    rw [alone.repl] at member
    cases member
  behind := fun replica member => by
    rw [alone.departed] at member
    cases member
  departed := fun replica member => by
    rw [alone.departed] at member
    cases member

theorem startServer_alone (state : AofState) : (startServer state).Alone := ⟨rfl, rfl, rfl⟩

theorem loadCommands_loading {entries : List (PropagatedCommand × Creation)}
    (loading : m.Loading sha1 m.aof.file) (alone : m.Alone)
    (state : m.aof.state = .on ∧ m.aof.child = false ∧ m.aof.diff = [])
    (whole : m.aof.loaded = m.aof.file.length)
    (run : entries.foldlM (Master.loadCommand · sha1 runid) m = .ok next)
    : next.Invariant sha1 := by
  induction entries generalizing m with
  | nil =>
      cases run
      refine ⟨⟨alone.knowledge _, ?_⟩, loading.cache,
        fun entry member => (loading.scripts entry member).1⟩
      · exact ⟨fun _ => ⟨.of_loaded whole.ge, loading.keys⟩,
          fun _ child => (by cases state.2.1.symm.trans child), fun _ => state.2.2⟩
  | cons entry rest ih =>
      obtain ⟨mid, first, later⟩ := andThen_ok_iff.mp run
      obtain ⟨called, ran, last⟩ := andThen_ok_iff.mp first
      obtain ⟨calledLoading, calledAlone⟩ := loading.proc alone ran
      cases last
      refine ih ?_ ?_ ?_ ?_ later
      · exact ⟨calledLoading.cache, calledLoading.scripts, calledLoading.keys⟩
      · exact ⟨calledAlone.repl, calledAlone.log, calledAlone.departed⟩
      · exact state
      · simp [whole]

theorem Reachable.invariant (reached : Reachable sha1 runid m) : m.Invariant sha1 := by
  induction reached with
  | off =>
      refine ⟨⟨(startServer_alone .off).knowledge _, ?_⟩, flush_consistent,
        fun entry member => by cases member⟩
      exact ⟨fun on => (by cases on), fun on => absurd rfl on, fun _ => rfl⟩
  | loaded file run =>
      refine loadCommands_loading ⟨flush_consistent, fun entry member => (by cases member),
        fun key member => (by cases member)⟩ (startServer_alone .on) ⟨rfl, rfl, rfl⟩ rfl run
  | step before event run ih => exact ih.step event run

-- What the readers are sent

variable (sha1) in
/-- Behind the commands that were loaded, every `EVALSHA` of a feed comes after an `EVAL` or a
`SCRIPT LOAD` of the script with no `SCRIPT FLUSH` between them, and a reader that can execute
the loaded commands can execute the feed without meeting an unknown script.
-/
structure Replayable (loaded : Nat) (feed : List PropagatedCommand) : Prop where
  announced : Announced (scriptRole sha1) loaded feed
  replays
    : ∀ table,
        (replay (scriptRole sha1) table (feed.take loaded)).isSome
        → (replay (scriptRole sha1) table feed).isSome

theorem Follows.replayable {keys : List (List UInt8)} {loaded : Nat}
    {feed : List PropagatedCommand} (follows : Follows sha1 keys loaded feed)
    : Replayable sha1 loaded feed :=
  ⟨follows.announced, fun _ start => follows.announced.replays start⟩

end Commands

def sampleSha1 (_ : List UInt8) (_ : Fin 20) : UInt8 := 0xAB

def rawCommand (argv : List (List UInt8)) (few : argv.length < 2 ^ 31)
    (short : ∀ text ∈ argv, text.length < 2 ^ 63)
    : PropagatedCommand where
  argv := argv.map .sds
  argc_lt := by simpa using few
  length_lt := by
    intro o member
    obtain ⟨text, inside, rfl⟩ := List.mem_map.mp member
    exact short text inside

def loadSample : PropagatedCommand :=
  rawCommand [scriptName, loadName, [0x78]] (by decide) (by decide)

/-- `EVALSHA` with the digest in capitals. -/
def evalshaSample : PropagatedCommand :=
  rawCommand [evalshaName, (List.replicate 20 [0x41, 0x42]).flatten, [0x30]] (by decide) (by decide)

def sampleEvents : List Event :=
  [.command 0 loadSample ⟨.created, [], false, false⟩,
    .command 0 evalshaSample ⟨.created, [], true, false⟩,
    .command 0 evalshaSample ⟨.created, [], true, false⟩]

def sampleMaster : Master :=
  match sampleEvents.foldlM (fun m event => m.step sampleSha1 [] event) (startServer .on) with
  | .ok m => m
  | .error _ => startServer .off

theorem Reachable.steps {sha1 : List UInt8 → Fin 20 → UInt8} {runid : List UInt8}
    {m next : Master} (before : Reachable sha1 runid m) (events : List Event)
    (run : events.foldlM (fun m event => m.step sha1 runid event) m = .ok next)
    : Reachable sha1 runid next := by
  induction events generalizing m with
  | nil =>
      cases run
      exact before
  | cons event rest ih =>
      obtain ⟨mid, first, later⟩ := andThen_ok_iff.mp run
      exact ih (.step before event first) later

theorem sampleMaster_reachable : Reachable sampleSha1 [] sampleMaster :=
  (Reachable.loaded [] rfl).steps sampleEvents rfl

end Redis.Scripting
