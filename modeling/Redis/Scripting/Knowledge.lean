import Redis.Scripting.Master

/-! What the readers of a master know: each of them was sent every script whose digest is in the
script cache, behind the last `SCRIPT FLUSH` it was sent.
-/

namespace Redis.Scripting

open Redis.BackgroundRewrite (AofState)
open Redis.Library

section Knowledge

variable (sha1 : List UInt8 → Fin 20 → UInt8)

-- Feeds

/-- A feed explains the digests it uses, and makes the keys known. -/
structure Follows (keys : List (List UInt8)) (loaded : Nat) (feed : List PropagatedCommand)
    : Prop where
  announced : Announced (scriptRole sha1) loaded feed
  known : ∀ key ∈ keys, Known (scriptRole sha1) (key.map lowerCase) feed

variable {sha1} {keys more : List (List UInt8)} {loaded : Nat} {feed : List PropagatedCommand}
  {command : PropagatedCommand}

theorem Follows.mono (follows : Follows sha1 keys loaded feed) (fewer : ∀ key ∈ more, key ∈ keys)
    : Follows sha1 more loaded feed :=
  ⟨follows.announced, fun key member => follows.known key (fewer key member)⟩

theorem Follows.nil : Follows sha1 [] 0 [] :=
  ⟨fun before message after key split => by simp at split, fun key member => by cases member⟩

variable (sha1) in
/-- The command can be sent to readers that know the keys, which then know the others. -/
structure Explains (keys more : List (List UInt8)) (command : PropagatedCommand) : Prop where
  uses : ∀ {key}, scriptRole sha1 command = .uses key → ∃ known ∈ keys, known.map lowerCase = key
  keeps : scriptRole sha1 command = .forgets → more = []
  learns : ∀ key ∈ more, key ∈ keys ∨ scriptRole sha1 command = .announces (key.map lowerCase)

theorem Follows.send (follows : Follows sha1 keys loaded feed)
    (explains : Explains sha1 keys more command)
    : Follows sha1 more loaded (feed ++ [command]) where
  announced := by
    refine follows.announced.snoc fun key uses => ?_
    obtain ⟨known, member, rfl⟩ := explains.uses uses
    exact follows.known known member
  known := fun key member => by
    rcases explains.learns key member with old | announces
    · refine (follows.known key old).snoc fun forgets => ?_
      rw [explains.keeps forgets] at member
      cases member
    · exact .announced announces

-- The append only file

variable (sha1) in
/-- The append only file and the rewrite that is running know the keys. -/
structure AofKnowledge (keys : List (List UInt8)) (aof : AofFeed) : Prop where
  file : aof.state = .on → Follows sha1 keys aof.loaded aof.file
  diff : aof.state ≠ .off → aof.child = true → Follows sha1 keys 0 aof.diff
  idle : aof.child = false → aof.diff = []

variable {aof : AofFeed}

theorem AofKnowledge.mono (knowledge : AofKnowledge sha1 keys aof)
    (fewer : ∀ key ∈ more, key ∈ keys)
    : AofKnowledge sha1 more aof where
  file := fun on => (knowledge.file on).mono fewer
  diff := fun on child => (knowledge.diff on child).mono fewer
  idle := knowledge.idle

theorem AofKnowledge.append (knowledge : AofKnowledge sha1 keys aof)
    (explains : Explains sha1 keys more command)
    : AofKnowledge sha1 more (aof.feedAppendOnlyFile command) := by
  unfold AofFeed.feedAppendOnlyFile
  cases state : aof.state with
  | off =>
      exact ⟨fun on => by simp [state] at on, fun on => absurd state on, knowledge.idle⟩
  | on =>
      refine ⟨fun _ => ?_, fun _ child => ?_, fun child => ?_⟩
      · simpa using (knowledge.file state).send explains
      · change aof.child = true at child
        simpa [child] using (knowledge.diff (by simp [state]) child).send explains
      · change aof.child = false at child
        simpa [child] using knowledge.idle child
  | waitRewrite =>
      refine ⟨fun on => (by simp at on), fun _ child => ?_, fun child => ?_⟩
      · change aof.child = true at child
        simpa [child] using (knowledge.diff (by simp [state]) child).send explains
      · change aof.child = false at child
        simpa [child] using knowledge.idle child

theorem AofKnowledge.startChild (knowledge : AofKnowledge sha1 keys aof)
    (idle : aof.child = false) (state : AofState) (waits : state = .on → aof.state = .on)
    : AofKnowledge sha1 [] { aof with child := true, state } where
  file := fun on => (knowledge.file (waits on)).mono fun key member => by cases member
  diff := fun _ _ => by
    rw [knowledge.idle idle]
    exact .nil
  idle := fun child => by cases child

theorem AofKnowledge.endChild (knowledge : AofKnowledge sha1 keys aof) (state : AofState)
    (stops : state = .on → aof.state = .on)
    : AofKnowledge sha1 keys { aof with child := false, diff := [], state } where
  file := fun on => knowledge.file (stops on)
  diff := fun _ child => by cases child
  idle := fun _ => rfl

theorem AofKnowledge.install (knowledge : AofKnowledge sha1 keys aof) (child : aof.child = true)
    : AofKnowledge sha1 keys
        { aof with
          child := false
          diff := []
          state := if aof.state = .waitRewrite then .on else aof.state
          file := aof.diff
          loaded := 0 } where
  file := fun on => by
    refine knowledge.diff (fun off => ?_) child
    simp [off] at on
  diff := fun _ child => by cases child
  idle := fun _ => rfl

-- The readers of a master

/-- The commands that a reader of the replication stream was fed since its snapshot. The bytes that
a partial resynchronisation loses in a piece of the backlog too long for a string stay counted.
-/
def Master.received (m : Master) (since : Int) : List PropagatedCommand :=
  (m.log.filter (fun entry => since ≤ entry.offset)).map Logged.command

variable (sha1) in
/-- The readers of the replication stream know the keys. -/
structure ReplKnowledge (keys : List (List UInt8)) (m : Master) : Prop where
  sound : m.repl.Sound False
  /-- The log is in the past. -/
  past : ∀ entry ∈ m.log, entry.offset < m.repl.backlog.masterOffset
  /-- A slave that waits for its snapshot was not attached by a partial resynchronisation. -/
  origins
    : ∀ c ∈ m.repl.slaves,
        c.replstate = .waitBgsaveStart ∨ c.replstate = .waitBgsaveEnd → m.origins c.id = none
  slaves
    : ∀ c ∈ m.repl.slaves,
        c.Receives
        → m.since c ≤ m.repl.backlog.masterOffset
          ∧ Follows sha1 keys 0 (m.received (m.since c))
  /-- A replica that left is not ahead of the master. -/
  behind
    : ∀ replica ∈ m.departed,
        replica.since ≤ m.repl.backlog.masterOffset
        ∧ replica.upto ≤ m.repl.backlog.masterOffset
  /-- A replica that left while the present backlog existed can come back. -/
  departed
    : ∀ replica ∈ m.departed,
        m.repl.backlog.buffer.isSome = true
        → m.repl.base ≤ replica.upto
        → Follows sha1 keys 0 (m.received replica.since)

variable {m next : Master} {runid : List UInt8}

theorem ReplKnowledge.mono (knowledge : ReplKnowledge sha1 keys m)
    (fewer : ∀ key ∈ more, key ∈ keys)
    : ReplKnowledge sha1 more m where
  sound := knowledge.sound
  past := knowledge.past
  origins := knowledge.origins
  slaves := fun c member receives =>
    (knowledge.slaves c member receives).imp id fun follows => follows.mono fewer
  behind := knowledge.behind
  departed := fun replica member allocated least =>
    (knowledge.departed replica member allocated least).mono fewer

theorem ReplKnowledge.congr (knowledge : ReplKnowledge sha1 keys m) (repl : next.repl = m.repl)
    (log : next.log = m.log) (origins : next.origins = m.origins)
    (departed : next.departed = m.departed)
    : ReplKnowledge sha1 keys next := by
  obtain ⟨_, _, _, _, _, _, _, _⟩ := next
  cases repl
  cases log
  cases origins
  cases departed
  exact ⟨knowledge.sound, knowledge.past, knowledge.origins, knowledge.slaves, knowledge.behind,
    knowledge.departed⟩

variable (sha1) in
/-- Every reader knows the keys. -/
structure Knowledge (keys : List (List UInt8)) (m : Master) : Prop where
  repl : ReplKnowledge sha1 keys m
  aof : AofKnowledge sha1 keys m.aof

-- Propagation

theorem mem_received {since : Int} (member : command ∈ m.received since)
    : ∃ entry ∈ m.log, since ≤ entry.offset ∧ entry.command = command := by
  obtain ⟨entry, inside, rfl⟩ := List.mem_map.mp member
  obtain ⟨logged, behind⟩ := List.mem_filter.mp inside
  exact ⟨entry, logged, by simpa using behind, rfl⟩

theorem received_none (past : ∀ entry ∈ m.log, entry.offset < m.repl.backlog.masterOffset)
    {since : Int} (present : m.repl.backlog.masterOffset ≤ since)
    : m.received since = [] := by
  rw [List.eq_nil_iff_forall_not_mem]
  intro command member
  obtain ⟨entry, logged, behind, _⟩ := mem_received member
  have before := past entry logged
  omega

theorem received_logged {since : Int} {entry : Logged} (log : next.log = m.log ++ [entry])
    (behind : since ≤ entry.offset)
    : next.received since = m.received since ++ [entry.command] := by
  simp [Master.received, log, behind]

theorem ReplKnowledge.feedSlaves (knowledge : ReplKnowledge sha1 keys m) {dictid : Int32}
    (explains : Explains sha1 keys more command)
    (run : m.feedSlaves runid dictid command = .ok next)
    : ReplKnowledge sha1 more next := by
  obtain ⟨repl, stepped, rest⟩ := andThen_ok_iff.mp run
  obtain ⟨raw, ran, recorded⟩ := andThen_ok_iff.mp stepped
  have numeric : (ReplOp.propagate dictid command).Numeric runid := trivial
  obtain ⟨again, stepped', nextSound⟩ :=
    ReplOp.step_sound knowledge.sound (.propagate dictid command) numeric False.elim
  cases stepped.symm.trans stepped'
  cases rest
  cases recorded
  rcases replicationFeedSlaves_fed knowledge.sound dictid command ran with ⟨freed, rfl⟩ | fed
  · have alone : m.repl.slaves = [] := by
      by_contra some
      have present := knowledge.sound.attached some
      rw [freed] at present
      cases present
    have unfed : (!(m.repl.backlog.buffer.isNone && m.repl.slaves.isEmpty)) = false := by
      simp [freed, alone]
    simp only [unfed]
    refine ⟨nextSound, knowledge.past, knowledge.origins, ?_, knowledge.behind, ?_⟩
    · intro c member
      exact absurd (alone ▸ member) List.not_mem_nil
    · intro replica _ allocated
      change m.repl.backlog.buffer.isSome = true at allocated
      rw [freed] at allocated
      cases allocated
  · have later := fed.offset_lt knowledge.sound nextSound.backlog
    have fedFlag : (!(m.repl.backlog.buffer.isNone && m.repl.slaves.isEmpty)) = true := by
      obtain ⟨buffer, allocated⟩ := Option.isSome_iff_exists.mp fed.before
      simp [allocated]
    simp only [fedFlag, if_true]
    have sent : ∀ since, since ≤ m.repl.backlog.masterOffset
        → Follows sha1 keys 0 (m.received since)
        → Follows sha1 more 0 (Master.received
            { m with
              repl := m.repl.recordFork raw
              log := m.log ++ [⟨m.repl.backlog.masterOffset, command⟩] } since) := by
      intro since behind follows
      rw [received_logged (m := m) rfl behind]
      exact follows.send explains
    refine ⟨nextSound, ?_, ?_, ?_, ?_, ?_⟩
    · intro entry member
      change entry.offset < raw.backlog.masterOffset
      rcases List.mem_append.mp member with old | new
      · exact (knowledge.past entry old).trans later
      · rw [List.mem_singleton.mp new]
        exact later
    · intro c member waits
      obtain ⟨old, inSlaves, id, _, state⟩ := fed.slaves c member
      rw [state] at waits
      exact (congrArg m.origins id).trans (knowledge.origins old inSlaves waits)
    · intro c member receives
      obtain ⟨old, inSlaves, id, start, state⟩ := fed.slaves c member
      have received : old.Receives := ⟨state ▸ receives.1, start ▸ receives.2⟩
      obtain ⟨behind, follows⟩ := knowledge.slaves old inSlaves received
      have since : m.since c = m.since old := by simp [Master.since, id, start]
      refine ⟨?_, ?_⟩
      · exact since.trans_le (behind.trans later.le)
      · exact sent (m.since c) (since.trans_le behind) (since ▸ follows)
    · intro replica member
      obtain ⟨since, upto⟩ := knowledge.behind replica member
      exact ⟨since.trans later.le, upto.trans later.le⟩
    · intro replica member _ least
      refine sent replica.since (knowledge.behind replica member).1 ?_
      exact knowledge.departed replica member fed.before (fed.base ▸ least)

/-- The events around the commands leave the scripts alone, and the cache but for a flush. -/
structure SameScripts (m next : Master) : Prop where
  functions : next.functions = m.functions
  scripts : next.scripts = m.scripts
  cache : next.cache = m.cache ∨ next.cache = replicationScriptCacheFlush

theorem SameScripts.refl (m : Master) : SameScripts m m := ⟨rfl, rfl, Or.inl rfl⟩

theorem SameScripts.trans {last : Master} (first : SameScripts m next)
    (second : SameScripts next last)
    : SameScripts m last where
  functions := second.functions.trans first.functions
  scripts := second.scripts.trans first.scripts
  cache := second.cache.elim (fun same => first.cache.imp same.trans same.trans) Or.inr

theorem feedSlaves_frame {dictid : Int32} (run : m.feedSlaves runid dictid command = .ok next)
    : next.cache = m.cache ∧ next.aof = m.aof ∧ SameScripts m next := by
  obtain ⟨repl, _, rest⟩ := andThen_ok_iff.mp run
  cases rest
  exact ⟨rfl, rfl, rfl, rfl, Or.inl rfl⟩

theorem Knowledge.propagate (knowledge : Knowledge sha1 keys m) {dictid : Int32}
    {flags : PropagateFlags} (explains : Explains sha1 keys more command)
    (some : flags ≠ ⟨true, true⟩ → ∀ key ∈ more, key ∈ keys)
    (run : m.propagate runid dictid command flags = .ok next)
    : Knowledge sha1 more next ∧ next.cache = m.cache ∧ SameScripts m next := by
  obtain ⟨toAof, toRepl⟩ := flags
  have aof : AofKnowledge sha1 more
      (if toAof then m.aof.feedAppendOnlyFile command else m.aof) := by
    cases toAof with
    | true => exact knowledge.aof.append explains
    | false => exact knowledge.aof.mono (some (by simp))
  obtain ⟨fed, fedEq⟩
      : ∃ fed : Master,
          fed = if toAof then { m with aof := m.aof.feedAppendOnlyFile command } else m :=
    ⟨_, rfl⟩
  have fedAof : fed.aof = if toAof then m.aof.feedAppendOnlyFile command else m.aof := by
    rw [fedEq]
    split <;> rfl
  have fedRepl : ReplKnowledge sha1 keys fed := by
    rw [fedEq]
    split
    · exact knowledge.repl.congr rfl rfl rfl rfl
    · exact knowledge.repl
  have fedCache : fed.cache = m.cache := by
    rw [fedEq]
    split <;> rfl
  have fedScripts : SameScripts m fed := by
    rw [fedEq]
    split <;> exact ⟨rfl, rfl, Or.inl rfl⟩
  simp only [Master.propagate, ← fedEq] at run
  cases toRepl with
  | true =>
      obtain ⟨cache, aofEq, scripts⟩ := feedSlaves_frame run
      exact ⟨⟨fedRepl.feedSlaves explains run, by rwa [aofEq, fedAof]⟩, cache.trans fedCache,
        fedScripts.trans scripts⟩
  | false =>
      cases run
      exact ⟨⟨fedRepl.mono (some (by simp)), by rwa [fedAof]⟩, fedCache, fedScripts⟩

-- Replicas that attach and leave

theorem ReplKnowledge.attach (knowledge : ReplKnowledge sha1 keys m) {op : ReplOp}
    {repl : ReplServer} {origins : Nat → Option Int}
    (other : ∀ dictid command, op ≠ .propagate dictid command)
    (numeric : op.Numeric runid)
    (step : op.step runid m.repl = .ok repl)
    (kept : ∀ c ∈ m.repl.slaves, origins c.id = m.origins c.id)
    (full : ∀ {request written fork fresh}, op = .sync request written fork fresh
      → request.resumes runid m.repl.backlog written = false → origins request.id = none)
    (partly : ∀ {request written fork fresh psync} {offset : Int64},
      op = .sync request written fork fresh
      → request.resumes runid m.repl.backlog written = true
      → request.psync = some psync → psync.offset = some offset
      → strcaseEqual psync.runid runid = true
      → ∃ replica ∈ m.departed,
          origins request.id = some replica.since ∧ offset.toInt = replica.upto + 1)
    : ReplKnowledge sha1 (if op.flushesScripts m.repl repl then [] else keys)
        { m with repl, origins } := by
  obtain ⟨next, ran, recorded⟩ := andThen_ok_iff.mp step
  obtain ⟨again, step', nextSound⟩ := ReplOp.step_sound knowledge.sound op numeric False.elim
  cases step.symm.trans step'
  cases recorded
  obtain ⟨offsets, attached⟩ := ReplOp.run_attachment knowledge.sound other ran
  have fewer : ∀ key ∈ (if op.flushesScripts m.repl (m.repl.recordFork next) then [] else keys),
      key ∈ keys := by
    intro key member
    split at member
    · cases member
    · exact member
  have later : m.repl.backlog.masterOffset ≤ next.backlog.masterOffset := by
    cases offsets with
    | same _ offset _ => exact offset.ge
    | created _ _ offset => omega
  -- A slave that is attached is not given an offset ahead of the master.
  have present : ∀ c ∈ next.slaves,
      getPsyncInitialOffset m.repl.backlog ≤ next.backlog.masterOffset := by
    intro c member
    have allocated := nextSound.attached (List.ne_nil_of_mem member)
    unfold getPsyncInitialOffset
    cases offsets with
    | same _ offset before =>
        rw [if_neg (by simpa [Option.isSome_iff_ne_none] using before allocated)]
        exact offset.ge
    | created _ _ offset => split <;> omega
  have fresh : Follows sha1 [] 0 (m.received (getPsyncInitialOffset m.repl.backlog)) := by
    rw [received_none knowledge.past]
    · exact .nil
    · unfold getPsyncInitialOffset
      split <;> omega
  refine ⟨nextSound, ?_, ?_, ?_, ?_, ?_⟩
  · exact fun entry member => (knowledge.past entry member).trans_le later
  · intro c member state
    cases attached c member with
    | kept inSlaves id start waits saves =>
        exact (congrArg origins id).trans
          ((kept _ inSlaves).trans (knowledge.origins _ inSlaves (state.imp waits.mp saves)))
    | prepared inSlaves id waited flushed start =>
        exact (congrArg origins id).trans
          ((kept _ inSlaves).trans (knowledge.origins _ inSlaves (Or.inl waited)))
    | new asked id how =>
        refine (congrArg origins id).trans ?_
        cases how with
        | waiting whole _ => exact full asked whole
        | prepared whole _ _ => exact full asked whole
        | joined whole _ _ _ => exact full asked whole
        | dropped _ online => rcases state with state | state <;> cases online.symm.trans state
        | resumed _ _ _ _ _ _ online =>
            rcases state with state | state <;> cases online.symm.trans state
  · intro c member receives
    have sinceEq : Master.since { m with repl := m.repl.recordFork next, origins } c
        = (origins c.id).getD (c.start.getD 0) := rfl
    rw [sinceEq]
    cases attached c member with
    | @kept old inSlaves id start waits saves =>
        have received : old.Receives :=
          ⟨fun state => receives.1 (waits.mpr state), start ▸ receives.2⟩
        obtain ⟨behind, follows⟩ := knowledge.slaves old inSlaves received
        rw [id, kept old inSlaves, start]
        exact ⟨behind.trans later, follows.mono fewer⟩
    | @prepared old inSlaves id waited flushed start =>
        rw [id, kept old inSlaves, knowledge.origins old inSlaves (Or.inl waited), start,
          if_pos flushed]
        exact ⟨present c member, fresh⟩
    | new asked id how =>
        rw [id]
        cases how with
        | waiting _ state => exact absurd state receives.1
        | dropped lost _ =>
            have told := receives.2
            rw [lost] at told
            cases told
        | prepared whole flushed start =>
            rw [full asked whole, start, if_pos flushed]
            exact ⟨present c member, fresh⟩
        | @joined saving whole inSlaves state start =>
            obtain ⟨given, _⟩ := (knowledge.sound.slaves saving inSlaves).saving state
            obtain ⟨behind, follows⟩ := knowledge.slaves saving inSlaves
              ⟨by simp [state], by simp [given]⟩
            rw [Master.since, knowledge.origins saving inSlaves (Or.inr state), given]
              at behind follows
            rw [full asked whole, start]
            exact ⟨behind.trans later, follows.mono fewer⟩
        | resumed part requested given own accepted start online =>
            obtain ⟨replica, inDeparted, origin, asks⟩ := partly asked part requested given own
            obtain ⟨allocated, least⟩ := knowledge.sound.accepted accepted
            have follows := knowledge.departed replica inDeparted allocated (by omega)
            rw [origin]
            exact ⟨(knowledge.behind replica inDeparted).1.trans later, follows.mono fewer⟩
  · intro replica member
    obtain ⟨since, upto⟩ := knowledge.behind replica member
    exact ⟨since.trans later, upto.trans later⟩
  · intro replica member allocated least
    cases offsets with
    | same base _ before =>
        exact (knowledge.departed replica member (before allocated) (base ▸ least)).mono fewer
    | created _ base offset =>
        have upto := (knowledge.behind replica member).2
        change next.base ≤ replica.upto at least
        omega

/-- The keys that the script cache holds are known. -/
def Master.Informed (sha1 : List UInt8 → Fin 20 → UInt8) (m : Master) : Prop :=
  Knowledge sha1 m.cache.dict m

theorem Master.Informed.attach (informed : m.Informed sha1) {flushes : Bool} {repl : ReplServer}
    {origins : Nat → Option Int}
    (attached : ReplKnowledge sha1 (if flushes then [] else m.cache.dict) { m with repl, origins })
    : Master.Informed sha1
        { m with
          repl
          origins
          cache := if flushes then replicationScriptCacheFlush else m.cache } := by
  cases flushes with
  | true =>
      exact ⟨ReplKnowledge.congr attached rfl rfl rfl rfl,
        informed.aof.mono fun key member => by cases member⟩
  | false => exact ⟨ReplKnowledge.congr attached rfl rfl rfl rfl, informed.aof⟩

theorem sameScripts_flush {flushes : Bool}
    (functions : next.functions = m.functions) (scripts : next.scripts = m.scripts)
    (cache : next.cache = if flushes then replicationScriptCacheFlush else m.cache)
    : SameScripts m next := by
  refine ⟨functions, scripts, ?_⟩
  cases flushes with
  | true => exact Or.inr cache
  | false => exact Or.inl cache

theorem Master.Informed.replicate (informed : m.Informed sha1) {op : ReplOp}
    (other : ∀ dictid command, op ≠ .propagate dictid command)
    (unattached : ∀ request written fork fresh, op ≠ .sync request written fork fresh)
    (run : m.replicate runid op = .ok next)
    : next.Informed sha1 ∧ SameScripts m next := by
  obtain ⟨repl, step, rest⟩ := andThen_ok_iff.mp run
  have numeric : op.Numeric runid := by
    cases op with
    | sync request written fork fresh => exact absurd rfl (unattached request written fork fresh)
    | _ => trivial
  have attached := informed.repl.attach other numeric step (fun _ _ => rfl)
    (fun asked => absurd asked (unattached _ _ _ _))
      (fun asked => absurd asked (unattached _ _ _ _))
  cases rest
  exact ⟨informed.attach attached, sameScripts_flush rfl rfl rfl⟩

section Requests

variable {replica : Option Departed} {request : SyncRequest}

theorem asksHonestly_own {psync : PsyncRequest} {departed : List Departed}
    (honest : asksHonestly runid departed replica request = true)
    (asked : request.psync = some psync) (own : strcaseEqual psync.runid runid = true)
    : ∃ known ∈ departed, ∃ offset,
        replica = some known ∧ psync.offset = some offset ∧ offset.toInt = known.upto + 1 := by
  obtain ⟨name, offset⟩ := psync
  unfold asksHonestly at honest
  cases replica with
  | none => simp [asked, own] at honest
  | some known =>
      cases offset with
      | none => simp [asked] at honest
      | some offset =>
          simp only [asked, Bool.and_eq_true, List.contains_iff_mem, beq_iff_eq] at honest
          exact ⟨known, honest.1, offset, rfl, rfl, honest.2⟩

theorem asksHonestly_numeric {departed : List Departed}
    (honest : asksHonestly runid departed replica request = true)
    : request.badOffset runid = false := by
  unfold SyncRequest.badOffset
  cases asked : request.psync with
  | none => rfl
  | some psync =>
      by_cases own : strcaseEqual psync.runid runid = true
      · obtain ⟨_, _, _, _, given, _⟩ := asksHonestly_own honest asked own
        simp [given]
      · simp [own]

end Requests

theorem Master.Informed.sync (informed : m.Informed sha1) {replica : Option Departed}
    {request : SyncRequest} {written : Bool} {fork : ForkResult} {fresh : Nat → UInt8}
    (run : m.sync runid replica request written fork fresh = .ok next)
    : next.Informed sha1 ∧ SameScripts m next := by
  unfold Master.sync at run
  split at run
  · cases run
    exact ⟨informed, .refl m⟩
  · rename_i accepted
    simp only [Bool.or_eq_true, Bool.not_eq_true', not_or, Bool.not_eq_true, Bool.not_eq_false]
      at accepted
    obtain ⟨unknown, honest⟩ := accepted
    obtain ⟨replicated, ran, rest⟩ := andThen_ok_iff.mp run
    obtain ⟨repl, step, kept⟩ := andThen_ok_iff.mp ran
    cases kept
    cases rest
    refine ⟨informed.attach (informed.repl.attach (by simp) (asksHonestly_numeric honest) step
      ?_ ?_ ?_), sameScripts_flush rfl rfl rfl⟩
    · intro c member
      exact if_neg (by simpa using List.any_eq_false.mp unknown c member)
    · intro _ _ _ _ asked whole
      cases asked
      simp [whole]
    · intro _ _ _ _ psync offset asked part requested given own
      cases asked
      obtain ⟨known, inDeparted, asks, rfl, given', behind⟩ := asksHonestly_own honest requested own
      cases given.symm.trans given'
      exact ⟨known, inDeparted, by simp [part], behind⟩

theorem ReplKnowledge.departure (knowledge : ReplKnowledge sha1 keys m) {c : Slave}
    (member : c ∈ m.repl.slaves) {processed : Nat} {replica : Departed}
    (left : m.departure c processed = some replica)
    : replica.since ≤ m.repl.backlog.masterOffset
      ∧ replica.upto ≤ m.repl.backlog.masterOffset
      ∧ Follows sha1 keys 0 (m.received replica.since) := by
  unfold Master.departure at left
  split at left
  · rename_i online
    obtain ⟨start, given, rfl⟩ := Option.map_eq_some_iff.mp left
    obtain ⟨behind, follows⟩ :=
      knowledge.slaves c member ⟨by simp [online.1], by simp [given]⟩
    have length := ((knowledge.sound.slaves c member).segment given).bound
    have position := (knowledge.sound.offset_eq (List.ne_nil_of_mem member)).2
    refine ⟨behind, ?_, follows⟩
    simp only [List.length_append] at length
    push_cast at length ⊢
    omega
  · cases left

theorem Master.Informed.leave (informed : m.Informed sha1) {id processed : Nat}
    (run : m.leave runid id processed = .ok next)
    : next.Informed sha1 ∧ SameScripts m next := by
  obtain ⟨gone, replicated, rest⟩ := andThen_ok_iff.mp run
  obtain ⟨kept, same⟩ := informed.replicate (by simp) (by simp) replicated
  have fewer : ∀ key ∈ gone.cache.dict, key ∈ m.cache.dict := by
    rcases same.cache with cache | cache <;> rw [cache]
    · exact fun _ member => member
    · exact fun key member => by cases member
  cases replicated
  cases rest
  have leaving : ∀ replica ∈ (m.repl.slaves.filter (fun c => c.id == id)).filterMap
      (m.departure · processed),
      replica.since ≤ m.repl.backlog.masterOffset
      ∧ replica.upto ≤ m.repl.backlog.masterOffset
      ∧ Follows sha1 m.cache.dict 0 (m.received replica.since) := by
    intro replica member
    obtain ⟨c, inside, left⟩ := List.mem_filterMap.mp member
    exact informed.repl.departure (List.mem_filter.mp inside).1 left
  refine ⟨⟨⟨kept.repl.sound, kept.repl.past, kept.repl.origins, kept.repl.slaves, ?_, ?_⟩,
    kept.aof⟩, same.functions, same.scripts, same.cache⟩
  · intro replica member
    rcases List.mem_append.mp member with old | new
    · exact kept.repl.behind replica old
    · exact ⟨(leaving replica new).1, (leaving replica new).2.1⟩
  · intro replica member allocated least
    rcases List.mem_append.mp member with old | new
    · exact kept.repl.departed replica old allocated least
    · exact (leaving replica new).2.2.mono fewer

-- All events around the commands

theorem Master.Informed.rewrite (informed : m.Informed sha1) (forked : Bool)
    : (m.rewriteAppendOnlyFileBackground forked).1.Informed sha1
      ∧ SameScripts m (m.rewriteAppendOnlyFileBackground forked).1 := by
  unfold Master.rewriteAppendOnlyFileBackground
  split
  · exact ⟨informed, .refl m⟩
  · rename_i starts
    simp only [Bool.or_eq_true, not_or, Bool.not_eq_true] at starts
    exact ⟨⟨(informed.repl.mono fun key member => by cases member).congr rfl rfl rfl rfl,
      informed.aof.startChild starts.1 m.aof.state id⟩, rfl, rfl, Or.inr rfl⟩

theorem Master.Informed.start (informed : m.Informed sha1) (opened forked : Bool)
    : (m.startAppendOnly opened forked).Informed sha1
      ∧ SameScripts m (m.startAppendOnly opened forked) := by
  unfold Master.startAppendOnly Master.rewriteAppendOnlyFileBackground
  split
  · by_cases starts : (m.aof.child || !forked) = true
    · rw [if_pos starts]
      exact ⟨informed, .refl m⟩
    · rw [if_neg starts]
      simp only [Bool.or_eq_true, not_or, Bool.not_eq_true] at starts
      exact ⟨⟨(informed.repl.mono fun key member => by cases member).congr rfl rfl rfl rfl,
        informed.aof.startChild starts.1 .waitRewrite (fun on => by cases on)⟩, rfl, rfl,
          Or.inr rfl⟩
  · exact ⟨informed, .refl m⟩

theorem Master.Informed.stop (informed : m.Informed sha1)
    : m.stopAppendOnly.Informed sha1 ∧ SameScripts m m.stopAppendOnly := by
  unfold Master.stopAppendOnly
  split
  · exact ⟨informed, .refl m⟩
  · exact ⟨⟨ReplKnowledge.congr informed.repl rfl rfl rfl rfl,
      informed.aof.endChild .off (fun on => by cases on)⟩, rfl, rfl, Or.inl rfl⟩

theorem Master.Informed.rewriteDone (informed : m.Informed sha1) (installed : Bool)
    : (m.backgroundRewriteDoneHandler installed).Informed sha1
      ∧ SameScripts m (m.backgroundRewriteDoneHandler installed) := by
  unfold Master.backgroundRewriteDoneHandler
  split
  · rename_i child
    cases installed with
    | true =>
        exact ⟨⟨ReplKnowledge.congr informed.repl rfl rfl rfl rfl, informed.aof.install child⟩,
          rfl, rfl, Or.inl rfl⟩
    | false =>
        exact ⟨⟨ReplKnowledge.congr informed.repl rfl rfl rfl rfl,
          informed.aof.endChild m.aof.state id⟩, rfl, rfl, Or.inl rfl⟩
  · exact ⟨informed, .refl m⟩

theorem Master.Informed.cron (informed : m.Informed sha1)
    : m.cron.Informed sha1 ∧ SameScripts m m.cron := by
  unfold Master.cron
  split
  · exact ⟨⟨(informed.repl.mono fun key member => by cases member).congr rfl rfl rfl rfl,
      informed.aof.mono fun key member => by cases member⟩, rfl, rfl, Or.inr rfl⟩
  · exact ⟨informed, .refl m⟩

theorem explains_plain (keys : List (List UInt8)) (command : PlainCommand)
    : Explains sha1 keys keys command.1 := by
  have silent : scriptRole sha1 command.1 = .silent := by rw [scriptRole, command.2]
  exact ⟨fun uses => (by cases silent.symm.trans uses),
    fun forgets => (by cases silent.symm.trans forgets), fun key => Or.inl⟩

theorem Master.Informed.serverStep (informed : m.Informed sha1) (event : ServerEvent)
    (run : m.serverStep runid event = .ok next)
    : next.Informed sha1 ∧ SameScripts m next := by
  cases event with
  | propagate dictid command flags =>
      obtain ⟨knowledge, cache, same⟩ := Knowledge.propagate informed
        (explains_plain m.cache.dict command) (fun _ key => id) run
      exact ⟨by rwa [Master.Informed, cache], same⟩
  | sync replica request written fork fresh => exact informed.sync run
  | leave id processed => exact informed.leave run
  | work op =>
      simp only [Master.serverStep] at run
      split at run
      · rename_i work
        refine informed.replicate ?_ ?_ run
        · rintro dictid command rfl
          cases work
        · rintro request written fork fresh rfl
          cases work
      · cases run
        exact ⟨informed, .refl m⟩
  | rewriteAof forked =>
      cases run
      exact informed.rewrite forked
  | startAppendOnly opened forked =>
      cases run
      exact informed.start opened forked
  | stopAppendOnly =>
      cases run
      exact informed.stop
  | rewriteDone installed =>
      cases run
      exact informed.rewriteDone installed
  | cron =>
      cases run
      exact informed.cron

/-- Whatever happens between commands, the readers know every cached script. -/
theorem Master.Informed.serverSteps (informed : m.Informed sha1) (events : List ServerEvent)
    (run : m.serverSteps runid events = .ok next)
    : next.Informed sha1 ∧ SameScripts m next := by
  induction events generalizing m with
  | nil =>
      cases run
      exact ⟨informed, .refl next⟩
  | cons event rest ih =>
      obtain ⟨mid, first, later⟩ := andThen_ok_iff.mp run
      obtain ⟨midInformed, same⟩ := informed.serverStep event first
      obtain ⟨nextInformed, further⟩ := ih midInformed later
      exact ⟨nextInformed, same.trans further⟩

end Knowledge

end Redis.Scripting
