import Redis.Replication.PartialResync
import Redis.Replication.Server

/-! Every attached slave is sent one gap-free segment of the replication stream. -/

namespace Redis

open Redis.Library

/-- The bytes are at most as many as there are from the one after an offset to the end of the
stream, and they are these if nothing was lost on the way.
-/
structure Segment (whole : Prop) (base : Int) (stream : List UInt8) (offset : Int)
    (bytes : List UInt8)
    : Prop where
  least : base ≤ offset
  bound : offset + bytes.length ≤ base + stream.length
  bytes : whole → bytes = stream.drop (offset - base).toNat

structure Slave.Sound (whole : Prop) (base : Int) (stream : List UInt8) (child : Option RdbTarget)
    (snapshot : Int) (c : Slave)
    : Prop where
  segment : ∀ {offset}, c.start = some offset
    → Segment whole base stream offset (c.drained ++ c.output)
  waiting
    : c.replstate = .waitBgsaveStart
      → c.start = none ∧ c.output = [] ∧ c.drained = [] ∧ c.handler = false ∧ c.rdb = none
  saving
    : c.replstate = .waitBgsaveEnd
      → c.start = some c.psyncInitialOffset
        ∧ c.psyncInitialOffset = snapshot
        ∧ child.isSome = true
        ∧ c.drained = []
        ∧ c.handler = false
        ∧ c.rdb = none
  sending : c.replstate = .sendBulk → c.handler = false
  started : c.replstate ≠ .waitBgsaveStart → c.closeAsap = false → c.start.isSome = true
  given : ∀ {offset}, c.rdb = some offset → c.start = some offset

/-- `whole` stands for: no slave has resumed with a piece of the backlog that a string cannot hold.
-/
structure ReplServer.Sound (whole : Prop) (s : ReplServer) : Prop where
  backlog : s.backlog.Sound s.base s.stream
  attached : s.slaves ≠ [] → s.backlog.buffer.isSome = true
  slaves : ∀ c ∈ s.slaves, c.Sound whole s.base s.stream s.child s.snapshot

section Slaves

variable {whole : Prop} {base : Int} {stream : List UInt8} {child : Option RdbTarget}
  {snapshot : Int} {c : Slave}

theorem Segment.append {offset : Int} {bytes : List UInt8}
    (segment : Segment whole base stream offset bytes) (more : List UInt8)
    : Segment whole base (stream ++ more) offset (bytes ++ more) where
  least := segment.least
  bound := by
    have bound := segment.bound
    simp only [List.length_append]
    push_cast
    omega
  bytes := fun nothing => by
    have bound := segment.bound
    have least := segment.least
    rw [List.drop_append_of_le_length (by omega), ← segment.bytes nothing]

theorem Segment.atEnd (base : Int) (stream : List UInt8)
    : Segment whole base stream (base + stream.length) [] where
  least := by omega
  bound := by simp
  bytes := fun _ => by
    rw [List.drop_eq_nil_of_le]
    omega

theorem Slave.Sound.addReply (sound : c.Sound whole base stream child snapshot)
    (bytes : List UInt8) (receives : c.replstate ≠ .waitBgsaveStart)
    : (c.addReply bytes).Sound whole base (stream ++ bytes) child snapshot where
  segment := fun started => by
    have segment := (sound.segment started).append bytes
    rwa [List.append_assoc] at segment
  waiting := fun state => absurd state receives
  saving := fun state => by
    obtain ⟨start, offset, saved, drained, handler, rdb⟩ := sound.saving state
    have idle : c.replstate ≠ .online := by
      rw [show c.replstate = .waitBgsaveEnd from state]
      decide
    exact ⟨start, offset, saved, drained, by simp [Slave.addReply, handler, idle], rdb⟩
  sending := fun state => by
    have idle : c.replstate ≠ .online := by
      rw [show c.replstate = .sendBulk from state]
      decide
    simp [Slave.addReply, sound.sending state, idle]
  started := sound.started
  given := sound.given

theorem foldl_addReply_sound {stream : List UInt8} {c : Slave} (chunks : List (List UInt8))
    (sound : c.Sound whole base stream child snapshot) (receives : c.replstate ≠ .waitBgsaveStart)
    : (chunks.foldl Slave.addReply c).Sound whole base
      (stream ++ chunks.flatten) child snapshot := by
  induction chunks generalizing c stream with
  | nil => simpa using sound
  | cons chunk rest ih =>
      have next := ih (sound.addReply chunk receives) receives
      rwa [List.append_assoc] at next

theorem Slave.Sound.feed (sound : c.Sound whole base stream child snapshot)
    (chunks : List (List UInt8))
    : (c.feed chunks).Sound whole base (stream ++ chunks.flatten) child snapshot := by
  unfold Slave.feed
  split
  · rename_i waits
    obtain ⟨start, rest⟩ := sound.waiting waits
    exact {
      segment := fun started => by
        rw [start] at started
        cases started
      waiting := sound.waiting
      saving := sound.saving
      sending := sound.sending
      started := sound.started
      given := sound.given }
  · rename_i receives
    exact foldl_addReply_sound chunks sound receives

theorem Slave.Sound.of_waiting (state : c.replstate = .waitBgsaveStart) (start : c.start = none)
    (output : c.output = []) (drained : c.drained = []) (handler : c.handler = false)
    (rdb : c.rdb = none)
    : c.Sound whole base stream child snapshot where
  segment := fun started => by
    rw [start] at started
    cases started
  waiting := fun _ => ⟨start, output, drained, handler, rdb⟩
  saving := fun other => by
    rw [state] at other
    cases other
  sending := fun _ => handler
  started := fun other => absurd state other
  given := fun handed => by
    rw [rdb] at handed
    cases handed

theorem setupSlave_sound {offset : Int} (segment : Segment whole base stream offset c.output)
    (drained : c.drained = []) (handler : c.handler = false) (rdb : c.rdb = none)
    (saved : child.isSome = true) (taken : offset = snapshot)
    : (replicationSetupSlaveForFullResync c offset).Sound whole base stream child snapshot where
  segment := fun started => by
    cases started
    change Segment whole base stream offset (c.drained ++ c.output)
    rw [drained, List.nil_append]
    exact segment
  waiting := fun state => by cases state
  saving := fun _ => ⟨rfl, taken, saved, drained, handler, rdb⟩
  sending := fun state => by cases state
  started := fun _ _ => rfl
  given := fun handed => by
    rw [show (replicationSetupSlaveForFullResync c offset).rdb = c.rdb from rfl, rdb] at handed
    cases handed

theorem Slave.Sound.other_child (sound : c.Sound whole base stream child snapshot)
    (state : c.replstate ≠ .waitBgsaveEnd) (next : Option RdbTarget) (taken : Int)
    : c.Sound whole base stream next taken where
  segment := sound.segment
  waiting := sound.waiting
  saving := fun saving => absurd saving state
  sending := sound.sending
  started := sound.started
  given := sound.given

theorem Slave.Sound.bgsaveDone (sound : c.Sound whole base stream child snapshot)
    {target : RdbTarget} {ok : Bool} {served : Nat → Bool} {next : Slave}
    (done : c.bgsaveDone target ok served snapshot = some next) (taken : Int)
    : next.Sound whole base stream none taken ∧ next.replstate ≠ .waitBgsaveEnd := by
  unfold Slave.bgsaveDone at done
  split at done
  · rename_i state
    obtain ⟨start, offset, _, drained, handler, rdb⟩ := sound.saving state
    have started : c.start = some snapshot := by rw [start, offset]
    cases target with
    | socket =>
        simp only at done
        split at done
        · cases done
          exact ⟨{
            segment := sound.segment
            waiting := fun state => by cases state
            saving := fun state => by cases state
            sending := fun state => by cases state
            started := fun _ _ => by simp [started]
            given := fun handed => by
              cases handed
              exact started }, by simp⟩
        · cases done
    | disk =>
        simp only at done
        split at done
        · cases done
          exact ⟨{
            segment := sound.segment
            waiting := fun state => by cases state
            saving := fun state => by cases state
            sending := fun _ => rfl
            started := fun _ _ => by simp [started]
            given := fun handed => by
              cases handed
              exact started }, by simp⟩
        · cases done
  · rename_i state
    cases done
    exact ⟨sound.other_child state none taken, state⟩

theorem putSlaveOnline_sound (sound : c.Sound whole base stream child snapshot)
    (receives : c.replstate ≠ .waitBgsaveStart)
    : (putSlaveOnline c).Sound whole base stream child snapshot where
  segment := sound.segment
  waiting := fun state => by cases state
  saving := fun state => by cases state
  sending := fun state => by cases state
  started := fun _ => sound.started receives
  given := sound.given

theorem Slave.Sound.drain (sound : c.Sound whole base stream child snapshot) (count : Nat)
    : (c.drain count).Sound whole base stream child snapshot := by
  unfold Slave.drain
  split
  · rename_i installed
    exact {
      segment := fun started => by
        have segment := sound.segment started
        rwa [List.append_assoc, List.take_append_drop]
      waiting := fun state => by
        obtain ⟨_, _, _, handler, _⟩ := sound.waiting state
        rw [installed] at handler
        cases handler
      saving := fun state => by
        obtain ⟨_, _, _, _, handler, _⟩ := sound.saving state
        rw [installed] at handler
        cases handler
      sending := fun state => by
        have handler := sound.sending state
        rw [installed] at handler
        cases handler
      started := sound.started
      given := sound.given }
  · exact sound

end Slaves

section Propagation

variable {whole : Prop} {s : ReplServer} {buffer : List UInt8}

theorem foldlM_feed_ok {s : ReplServer} {buffer : List UInt8} (chunks : List (List UInt8))
    (holds : s.backlog.Holds buffer s.base s.stream)
    : ∃ backlog buffer',
        chunks.foldlM ReplServer.feed s
          = .ok { s with backlog, stream := s.stream ++ chunks.flatten }
        ∧ backlog.Holds buffer' s.base (s.stream ++ chunks.flatten) := by
  induction chunks generalizing s buffer with
  | nil => exact ⟨s.backlog, buffer, by simp, by simpa using holds⟩
  | cons chunk rest ih =>
      obtain ⟨mid, midBuffer, fed, midHolds, _⟩ := holds.feed chunk
      obtain ⟨backlog, buffer', run, last⟩ :=
        ih (s := { s with backlog := mid, stream := s.stream ++ chunk }) midHolds
      refine ⟨backlog, buffer', ?_, by simpa using last⟩
      have one : s.feed chunk = .ok { s with backlog := mid, stream := s.stream ++ chunk } := by
        rw [ReplServer.feed, fed]
        rfl
      rw [List.foldlM_cons, one, ok_andThen, run]
      simp

theorem feedBoth_sound (sound : s.Sound whole) (holds : s.backlog.Holds buffer s.base s.stream)
    (chunks : List (List UInt8))
    : ∃ backlog buffer',
        chunks.foldlM ReplServer.feed s
          = .ok { s with backlog, stream := s.stream ++ chunks.flatten }
        ∧ backlog.Holds buffer' s.base (s.stream ++ chunks.flatten)
        ∧ ReplServer.Sound whole { s with
            backlog
            stream := s.stream ++ chunks.flatten
            slaves := s.slaves.map (Slave.feed chunks) } := by
  obtain ⟨backlog, buffer', run, fed⟩ := foldlM_feed_ok chunks holds
  refine ⟨backlog, buffer', run, fed,
    ⟨Nat.lt_of_le_of_lt (Nat.zero_le _) fed.inside, Or.inr ⟨buffer', fed⟩⟩, fun _ => ?_, ?_⟩
  · simp [fed.allocated]
  · intro c member
    obtain ⟨old, inSlaves, rfl⟩ := List.mem_map.mp member
    exact (sound.slaves old inSlaves).feed chunks

theorem replicationFeedSlaves_sound (sound : s.Sound whole) (dictid : Int32)
    (command : PropagatedCommand)
    : ∃ next,
        replicationFeedSlaves s dictid command.argv = .ok next
        ∧ next.Sound whole
        ∧ next.forks = s.forks := by
  unfold replicationFeedSlaves
  rcases sound.backlog.2 with freed | ⟨buffer, holds⟩
  · have alone : s.slaves = [] := by
      by_contra some
      have present := sound.attached some
      rw [freed] at present
      cases present
    exact ⟨s, by simp [freed, alone], sound, rfl⟩
  · have allocated : s.backlog.buffer.isNone = false := by simp [holds.allocated]
    rw [if_neg (by simp [allocated]), if_neg (by simp [allocated])]
    -- The stream after the SELECT command, if one is due.
    obtain ⟨mid, selected, midSound, midForks, midBuffer, midHolds⟩
        : ∃ mid : ReplServer,
            (if s.slaveseldb ≠ dictid.toInt then do
                let selectcmd ← selectCommand dictid
                let s ← (if s.backlog.buffer.isSome then s.feed selectcmd else pure s)
                pure { s with slaves := s.slaves.map (Slave.feed [selectcmd]) }
              else pure s)
              = .ok mid
            ∧ mid.Sound whole
            ∧ mid.forks = s.forks
            ∧ ∃ buffer, mid.backlog.Holds buffer mid.base mid.stream := by
      split
      · obtain ⟨selectcmd, made⟩ := selectCommand_ok dictid
        obtain ⟨backlog, buffer', run, fed, next⟩ := feedBoth_sound sound holds [selectcmd]
        have one : s.feed selectcmd = [selectcmd].foldlM ReplServer.feed s := by simp
        refine ⟨_, ?_, next, rfl, buffer', fed⟩
        simp only [made, ok_andThen, holds.allocated, Option.isSome_some, if_true, one, run]
        rfl
      · exact ⟨s, rfl, sound, rfl, buffer, holds⟩
    obtain ⟨seldb, seldbEq⟩ : ∃ seldb, seldb = dictid.toInt := ⟨_, rfl⟩
    have seldbSound : ReplServer.Sound whole { mid with slaveseldb := seldb } :=
      ⟨midSound.backlog, midSound.attached, midSound.slaves⟩
    obtain ⟨backlog, buffer', run, fed, next⟩ :=
      feedBoth_sound seldbSound midHolds (commandChunks command.argv)
    refine ⟨_, ?_, next, midForks⟩
    rw [selected, ok_andThen, backlogCommand_ok, ok_andThen, slaveCommand_ok]
    simp only [midHolds.allocated, Option.isSome_some, if_true, ← seldbEq, run, ok_andThen]
    rfl

end Propagation

section Saves

variable {whole : Prop} {s : ReplServer}

theorem ReplServer.Sound.recordFork {next : ReplServer} (sound : next.Sound whole)
    (same : next.forks = s.forks)
    : (s.recordFork next).Sound whole := by
  have kept : (s.recordFork next).snapshot = next.snapshot := by
    simp [ReplServer.recordFork, same]
  refine ⟨sound.backlog, sound.attached, ?_⟩
  rw [kept]
  exact sound.slaves

theorem ReplServer.Sound.filter (sound : s.Sound whole) (keep : Slave → Bool)
    : ReplServer.Sound whole { s with slaves := s.slaves.filter keep } where
  backlog := sound.backlog
  attached := fun some => sound.attached (fun none => some (by simp [none]))
  slaves := fun c member => sound.slaves c (List.mem_filter.mp member).1

theorem ReplServer.Sound.offset_eq (sound : s.Sound whole) (some : s.slaves ≠ [])
    : getPsyncInitialOffset s.backlog = s.base + s.stream.length
      ∧ s.backlog.masterOffset = s.base + s.stream.length := by
  have allocated := sound.attached some
  rcases sound.backlog.2 with freed | ⟨buffer, holds⟩
  · rw [freed] at allocated
    cases allocated
  · rw [getPsyncInitialOffset, holds.allocated]
    exact ⟨holds.offset, holds.offset⟩

theorem setupWaiting_sound {base : Int} {stream : List UInt8} {child : Option RdbTarget}
    {snapshot offset : Int} {c : Slave} (sound : c.Sound whole base stream child snapshot)
    (state : c.replstate ≠ .waitBgsaveEnd) (atEnd : offset = base + stream.length)
    (target : RdbTarget)
    : (if c.waits then replicationSetupSlaveForFullResync c offset else c).Sound whole base stream
        (some target) offset := by
  split
  · rename_i waits
    obtain ⟨_, output, drained, handler, rdb⟩ := sound.waiting (by
      simpa [Slave.waits] using waits)
    refine setupSlave_sound ?_ drained handler rdb rfl rfl
    rw [output, atEnd]
    exact .atEnd base stream
  · exact sound.other_child state _ _

theorem startBgsave_sound (sound : s.Sound whole) (idle : s.child = none) (mincapaEof : Bool)
    (fork : ForkResult)
    : (s.recordFork (startBgsaveForReplication s mincapaEof fork).1).Sound whole
      ∧ (startBgsaveForReplication s mincapaEof fork).1.backlog = s.backlog := by
  have quiet : ∀ c ∈ s.slaves, c.replstate ≠ .waitBgsaveEnd := by
    intro c member state
    obtain ⟨_, _, saved, _⟩ := (sound.slaves c member).saving state
    rw [idle] at saved
    cases saved
  unfold startBgsaveForReplication
  simp only [idle, Option.isSome_none, Bool.false_eq_true, if_false]
  split
  · refine ⟨ReplServer.Sound.recordFork ?_ rfl, rfl⟩
    have kept := sound.filter (fun c => !c.waits)
    exact ⟨kept.backlog, kept.attached, fun c member => idle ▸ kept.slaves c member⟩
  · refine ⟨⟨sound.backlog, ?_, ?_⟩, rfl⟩
    · intro some
      exact sound.attached (fun none => some (by simp [ReplServer.recordFork, none]))
    · intro c member
      obtain ⟨old, inSlaves, rfl⟩ := List.mem_map.mp member
      obtain ⟨initial, offset⟩ := sound.offset_eq (List.ne_nil_of_mem inSlaves)
      simp only [ReplServer.recordFork, ne_eq, Nat.succ_ne_self, not_false_eq_true, if_true]
      rw [initial, ← offset]
      exact setupWaiting_sound (sound.slaves old inSlaves) (quiet old inSlaves) offset _

theorem updateSlaves_sound (sound : s.Sound whole) (ok : Bool) (served : Nat → Bool)
    (fork : ForkResult)
    : (s.recordFork (updateSlavesWaitingBgsave s ok served fork)).Sound whole := by
  unfold updateSlavesWaitingBgsave
  cases running : s.child with
  | none => exact sound.recordFork rfl
  | some target =>
      have done : ReplServer.Sound whole { s with
          child := none
          slaves := s.slaves.filterMap (Slave.bgsaveDone target ok served s.snapshot) } := by
        refine ⟨sound.backlog, ?_, ?_⟩
        · intro some
          refine sound.attached (fun none => some ?_)
          simp [none]
        · intro c member
          obtain ⟨old, inSlaves, handed⟩ := List.mem_filterMap.mp member
          exact ((sound.slaves old inSlaves).bgsaveDone handed s.snapshot).1
      dsimp only
      split
      · exact (startBgsave_sound done rfl _ fork).1
      · exact done.recordFork rfl

end Saves

section Requests

variable {whole : Prop} {s : ReplServer} {runid : List UInt8} {request : SyncRequest} {c : Slave}

theorem ReplServer.Sound.append (sound : s.Sound whole) (allocated : s.backlog.buffer.isSome = true)
    (added : c.Sound whole s.base s.stream s.child s.snapshot)
    : ReplServer.Sound whole { s with slaves := s.slaves ++ [c] } where
  backlog := sound.backlog
  attached := fun _ => allocated
  slaves := fun other member => by
    rcases List.mem_append.mp member with old | new
    · exact sound.slaves other old
    · rw [List.mem_singleton.mp new]
      exact added

theorem createBacklogIfFirst_sound {snapshot : Int} (fresh : Nat → UInt8)
    (positive : 0 < s.backlog.size) (freed : s.backlog.buffer = none) (only : s.slaves = [c])
    (added : c.Sound whole (s.backlog.masterOffset + 1) [] s.child snapshot)
    : ∃ next,
        s.createBacklogIfFirst fresh = .ok next
        ∧ ReplServer.Sound whole { next with snapshot }
        ∧ next.forks = s.forks
        ∧ next.snapshot = s.snapshot
        ∧ next.backlog.masterOffset = s.backlog.masterOffset + 1 := by
  obtain ⟨backlog, created⟩ : ∃ backlog, createReplicationBacklog fresh s.backlog
    = .ok backlog := by
    simp [createReplicationBacklog, freed]
  obtain ⟨held, offset, _⟩ := create_sound positive created
  have allocated : backlog.buffer.isSome = true := by
    simp only [createReplicationBacklog, freed, Option.isSome_none, Bool.false_eq_true, if_false,
      Except.ok.injEq] at created
    rw [← created]
    rfl
  refine ⟨{ s with backlog, base := backlog.masterOffset, stream := [] }, ?_, ?_, rfl, rfl,
    offset⟩
  · rw [ReplServer.createBacklogIfFirst, if_pos (by simp [only, freed]), created]
    rfl
  · refine ⟨held, fun _ => allocated, fun other member => ?_⟩
    rw [only] at member
    rw [List.mem_singleton.mp member, offset]
    exact added

theorem createBacklogIfFirst_none (fresh : Nat → UInt8)
    (allocated : s.backlog.buffer.isSome = true)
    : s.createBacklogIfFirst fresh = .ok s := by
  rw [ReplServer.createBacklogIfFirst, if_neg]
  rintro ⟨_, none⟩
  rw [Option.isNone_iff_eq_none.mp none] at allocated
  cases allocated

/-- A client that has been sent nothing and waits for a background save. -/
structure Slave.Fresh (c : Slave) : Prop where
  state : c.replstate = .waitBgsaveStart
  start : c.start = none
  output : c.output = []
  drained : c.drained = []
  handler : c.handler = false
  rdb : c.rdb = none

theorem Slave.Fresh.sound (fresh : c.Fresh) {base : Int} {stream : List UInt8}
    {child : Option RdbTarget} {snapshot : Int}
    : c.Sound whole base stream child snapshot :=
  .of_waiting fresh.state fresh.start fresh.output fresh.drained fresh.handler fresh.rdb

theorem fullResync_cases (s : ReplServer) (c : Slave) (fork : ForkResult) (fresh : Nat → UInt8)
    : fullResync s c fork fresh = { s with slaves := s.slaves ++ [c] }.createBacklogIfFirst fresh
      ∨ (∃ slave ∈ s.slaves,
          slave.replstate = .waitBgsaveEnd
          ∧ fullResync s c fork fresh
            = { s with
                slaves :=
                  s.slaves
                  ++ [replicationSetupSlaveForFullResync (copyClientOutputBuffer c slave)
                        slave.psyncInitialOffset]
                slaveseldb := -1 }.createBacklogIfFirst fresh)
      ∨ (s.child = none
        ∧ ∃ next started,
            startBgsaveForReplication { s with slaves := s.slaves ++ [c] } c.capaEof fork
              = (next, started)
            ∧ fullResync s c fork fresh
              = if started then next.createBacklogIfFirst fresh else .ok next) := by
  unfold fullResync
  split
  · rename_i running
    split
    · rename_i slave found
      split
      · refine Or.inr (Or.inl ⟨slave, List.mem_of_find?_eq_some found, ?_, by rw [running]⟩)
        simpa using List.find?_some found
      · exact Or.inl (by rw [running])
    · exact Or.inl (by rw [running])
  · rename_i running
    exact Or.inl (by rw [running])
  · rename_i idle
    dsimp only
    split
    · exact Or.inl (by rw [idle])
    · rw [idle]
      split
      · rename_i next started
        exact Or.inr (Or.inr ⟨rfl, next, true, started, by simp⟩)
      · rename_i next failed
        exact Or.inr (Or.inr ⟨rfl, next, false, failed, by simp⟩)

theorem startBgsave_cases (idle : s.child = none) (mincapaEof : Bool) (fork : ForkResult)
    : ∃ slaveseldb,
        startBgsaveForReplication s mincapaEof fork
          = ({ s with slaves := s.slaves.filter (fun c => !c.waits), slaveseldb }, false)
        ∨ ∃ target,
            startBgsaveForReplication s mincapaEof fork
              = ({ s with
                  child := some target
                  forks := s.forks + 1
                  slaveseldb
                  slaves :=
                    s.slaves.map (fun c =>
                      if c.waits then
                        replicationSetupSlaveForFullResync c (getPsyncInitialOffset s.backlog)
                      else c) }, true) := by
  unfold startBgsaveForReplication
  simp only [idle, Option.isSome_none, Bool.false_eq_true, if_false]
  split
  · exact ⟨_, Or.inl rfl⟩
  · exact ⟨_, Or.inr ⟨_, rfl⟩⟩

theorem fullResync_first_sound (sound : s.Sound whole) (client : c.Fresh)
    (freed : s.backlog.buffer = none) (alone : s.slaves = []) (fork : ForkResult)
    (fresh : Nat → UInt8)
    : ∃ next, fullResync s c fork fresh = .ok next ∧ (s.recordFork next).Sound whole := by
  have appended : s.slaves ++ [c] = [c] := by rw [alone, List.nil_append]
  have waits : c.waits = true := by simp [Slave.waits, client.state]
  rcases fullResync_cases s c fork fresh with
    run | ⟨slave, member, _⟩ | ⟨idle, next, started, began, run⟩
  · have added : c.Sound whole (s.backlog.masterOffset + 1) [] s.child s.snapshot := client.sound
    obtain ⟨next, created, held, forks, kept, _⟩ :=
      createBacklogIfFirst_sound (s := { s with slaves := s.slaves ++ [c] }) fresh
        sound.backlog.1 freed appended added
    refine ⟨next, run.trans created, ReplServer.Sound.recordFork ?_ forks⟩
    rw [show s.snapshot = next.snapshot from kept.symm] at held
    exact held
  · rw [alone] at member
    cases member
  · rw [appended] at began
    obtain ⟨slaveseldb, failed | ⟨target, forked⟩⟩ :=
      startBgsave_cases (s := { s with slaves := [c] }) idle c.capaEof fork
    · cases began.symm.trans failed
      refine ⟨_, run, ReplServer.Sound.recordFork ⟨sound.backlog, ?_, ?_⟩ rfl⟩
      · simp [waits]
      · simp [waits]
    · cases began.symm.trans forked
      -- The offset given to the slave is the one the new backlog starts after.
      have given : getPsyncInitialOffset s.backlog = s.backlog.masterOffset + 1 := by
        simp [getPsyncInitialOffset, freed]
      have added
          : (replicationSetupSlaveForFullResync c (s.backlog.masterOffset + 1)).Sound whole
              (s.backlog.masterOffset + 1) [] (some target) (s.backlog.masterOffset + 1) := by
        refine setupSlave_sound ?_ client.drained client.handler client.rdb rfl rfl
        rw [client.output]
        simpa using Segment.atEnd (s.backlog.masterOffset + 1) []
      rw [if_pos rfl] at run
      obtain ⟨next, created, held, forks, _, offset⟩ :=
        createBacklogIfFirst_sound
          (s := { s with
            child := some target
            forks := s.forks + 1
            slaveseldb
            slaves :=
              [c].map (fun c =>
                if c.waits then
                  replicationSetupSlaveForFullResync c (getPsyncInitialOffset s.backlog)
                else c) })
          fresh sound.backlog.1 freed (by simp [waits, given]) added
      refine ⟨next, run.trans created, ?_⟩
      have taken : (s.recordFork next).snapshot = s.backlog.masterOffset + 1 := by
        simp [ReplServer.recordFork, forks, offset]
      rw [← taken] at held
      exact held

theorem fullResync_further_sound (sound : s.Sound whole) (client : c.Fresh)
    (allocated : s.backlog.buffer.isSome = true) (fork : ForkResult) (fresh : Nat → UInt8)
    : ∃ next, fullResync s c fork fresh = .ok next ∧ (s.recordFork next).Sound whole := by
  have appended := sound.append allocated (c := c) client.sound
  rcases fullResync_cases s c fork fresh with
    run | ⟨slave, member, state, run⟩ | ⟨idle, next, started, began, run⟩
  · exact ⟨_, run.trans (createBacklogIfFirst_none fresh allocated), appended.recordFork rfl⟩
  · refine ⟨_, run.trans (createBacklogIfFirst_none fresh allocated),
      ReplServer.Sound.recordFork ?_ rfl⟩
    -- The slave that waits has everything since the snapshot in its buffer.
    have other := sound.slaves slave member
    obtain ⟨start, taken, saved, drained, handler, rdb⟩ := other.saving state
    have segment := other.segment start
    rw [drained, List.nil_append] at segment
    have added := sound.append allocated
      (setupSlave_sound (c := copyClientOutputBuffer c slave) segment client.drained
        client.handler client.rdb saved taken)
    exact ⟨added.backlog, added.attached, added.slaves⟩
  · obtain ⟨nextSound, kept⟩ := startBgsave_sound appended idle c.capaEof fork
    rw [began] at nextSound kept
    refine ⟨next, ?_, nextSound⟩
    cases started with
    | false => exact run
    | true => exact run.trans (createBacklogIfFirst_none fresh (kept ▸ allocated))

theorem fullResync_sound (sound : s.Sound whole) (client : c.Fresh) (fork : ForkResult)
    (fresh : Nat → UInt8)
    : ∃ next, fullResync s c fork fresh = .ok next ∧ (s.recordFork next).Sound whole := by
  rcases sound.backlog.2 with freed | ⟨buffer, holds⟩
  · refine fullResync_first_sound sound client freed ?_ fork fresh
    by_contra some
    have present := sound.attached some
    rw [freed] at present
    cases present
  · exact fullResync_further_sound sound client (by simp [holds.allocated]) fork fresh

theorem client_fresh (plain : request.badOffset runid = false) : (request.client runid).Fresh where
  state := rfl
  start := rfl
  output := by simp [SyncRequest.client, plain]
  drained := rfl
  handler := by simp [SyncRequest.client, plain]
  rdb := rfl

theorem resumed_sound (client : c.Fresh) {buffer : List UInt8}
    (holds : s.backlog.Holds buffer s.base s.stream) {offset : Int}
    (accepted : s.backlog.accepts offset = true) {bytes : List UInt8}
    (fewer : bytes.length ≤ (s.stream.drop (offset - s.base - 1).toNat).length)
    (exactly : whole → bytes = s.stream.drop (offset - s.base - 1).toNat)
    : Slave.Sound whole s.base s.stream s.child s.snapshot
        (Slave.addReply { c with replstate := .online, start := some (offset - 1) } bytes) := by
  obtain ⟨least, most⟩ := (holds.accepts_iff offset).mp accepted
  obtain ⟨short, _⟩ := holds.history_eq
  have position := holds.offset
  refine ⟨fun started => ?_, fun state => (by cases state), fun state => (by cases state),
    fun state => (by cases state), fun _ _ => rfl, fun handed => ?_⟩
  · cases started
    rw [List.length_drop] at fewer
    have all : Segment whole s.base s.stream (offset - 1) bytes :=
      ⟨by omega, by omega, fun nothing => by
        rw [exactly nothing, show offset - 1 - s.base = offset - s.base - 1 by omega]⟩
    simpa [Slave.addReply, client.drained, client.output] using all
  · rw [show (Slave.addReply { c with replstate := .online, start := some (offset - 1) } _).rdb
      = c.rdb from rfl, client.rdb] at handed
    cases handed

theorem Slave.Fresh.dropped_sound (client : c.Fresh) {base : Int}
    {stream : List UInt8} {child : Option RdbTarget} {snapshot : Int}
    : Slave.Sound whole base stream child snapshot
        { c with replstate := .online, closeAsap := true } where
  segment := fun {offset} started => by
    change c.start = some offset at started
    rw [client.start] at started
    cases started
  waiting := fun state => by cases state
  saving := fun state => by cases state
  sending := fun state => by cases state
  started := fun _ kept => by cases kept
  given := fun {offset} handed => by
    change c.rdb = some offset at handed
    rw [client.rdb] at handed
    cases handed

/-- The bytes of the partial resynchronisation that the request asks for fit in their strings. -/
def SyncRequest.Fits (request : SyncRequest) (runid : List UInt8) (b : Backlog) : Prop :=
  ∀ psync offset,
    request.psync = some psync
    → psync.offset = some offset
    → strcaseEqual psync.runid runid = true
    → b.accepts offset.toInt = true
    → b.PiecesFit offset.toInt

theorem masterTry_cases (sound : s.Sound whole) (psync : PsyncRequest) (written : Bool)
    (asked : request.psync = some psync)
    (fits : whole → written = true → request.Fits runid s.backlog)
    : masterTryPartialResynchronization s.backlog runid psync written = .ok .fullResync
      ∨ (s.backlog.buffer.isSome = true
        ∧ masterTryPartialResynchronization s.backlog runid psync written = .ok .dropped)
      ∨ ∃ buffer offset bytes,
          psync.offset = some offset
          ∧ s.backlog.Holds buffer s.base s.stream
          ∧ s.backlog.accepts offset.toInt = true
          ∧ masterTryPartialResynchronization s.backlog runid psync written = .ok (.resumed bytes)
          ∧ bytes.length ≤ (s.stream.drop (offset.toInt - s.base - 1).toNat).length
          ∧ (whole → bytes = s.stream.drop (offset.toInt - s.base - 1).toNat) := by
  unfold masterTryPartialResynchronization
  split
  · exact Or.inl rfl
  · rename_i named
    have own : strcaseEqual psync.runid runid = true := by simpa using named
    cases given : psync.offset with
    | none => exact Or.inl rfl
    | some offset =>
        dsimp only
        split
        · exact Or.inl rfl
        · rename_i accepted
          have accepts : s.backlog.accepts offset.toInt = true := by simpa using accepted
          rcases sound.backlog.2 with freed | ⟨buffer, holds⟩
          · simp [Backlog.accepts, freed] at accepts
          · split
            · exact Or.inr (Or.inl ⟨by simp [holds.allocated], rfl⟩)
            · rename_i sent
              have served : written = true := by simpa using sent
              obtain ⟨bytes, reply, fewer, exactly⟩ := holds.reply accepts
              refine Or.inr (Or.inr ⟨buffer, offset, bytes, rfl, holds, accepts, ?_, fewer,
                fun nothing => exactly.mpr
                  (fits nothing served psync offset asked given own accepts)⟩)
              rw [reply]
              rfl

theorem syncCommand_sound (sound : s.Sound whole) (plain : request.badOffset runid = false)
    (written : Bool) (fits : whole → written = true → request.Fits runid s.backlog)
    (fork : ForkResult) (fresh : Nat → UInt8)
    : ∃ next,
        syncCommand runid s request written fork fresh = .ok next
        ∧ (s.recordFork next).Sound whole := by
  have client := client_fresh plain
  have full := fullResync_sound sound client fork fresh
  unfold syncCommand
  split
  · exact ⟨s, rfl, sound.recordFork rfl⟩
  · split
    · exact ⟨s, rfl, sound.recordFork rfl⟩
    · dsimp only
      cases asked : request.psync with
      | none => exact full
      | some psync =>
          dsimp only
          rcases masterTry_cases sound psync written asked fits with
            tried | ⟨allocated, tried⟩ | ⟨buffer, offset, bytes, given, holds, accepts, tried,
              fewer, exactly⟩
          · rw [tried]
            exact full
          · rw [tried]
            exact ⟨_, rfl, (sound.append allocated client.dropped_sound).recordFork rfl⟩
          · rw [tried]
            rw [given]
            refine ⟨_, rfl, ReplServer.Sound.recordFork ?_ rfl⟩
            exact sound.append (by simp [holds.allocated])
              (resumed_sound client holds accepts fewer exactly)

end Requests

section Runs

variable {whole : Prop} {s : ReplServer} {runid : List UInt8}

theorem ReplServer.Sound.update (sound : s.Sound whole) (id : Nat) {f : Slave → Slave}
    (keeps : ∀ c ∈ s.slaves,
      c.Sound whole s.base s.stream s.child s.snapshot
      → (f c).Sound whole s.base s.stream s.child s.snapshot)
    : (s.update id f).Sound whole where
  backlog := sound.backlog
  attached := fun some => sound.attached (fun none => some (by simp [ReplServer.update, none]))
  slaves := fun c member => by
    obtain ⟨old, inSlaves, rfl⟩ := List.mem_map.mp member
    have before := sound.slaves old inSlaves
    change Slave.Sound whole s.base s.stream s.child s.snapshot (if old.id = id then f old else old)
    split
    · exact keeps old inSlaves before
    · exact before

/-- The requests with the run id of the master come with a number as offset. -/
def ReplOp.Numeric (runid : List UInt8) : ReplOp → Prop
  | .sync request _ _ _ => request.badOffset runid = false
  | _ => True

/-- What a partial resynchronisation sends fits in its strings. -/
def ReplOp.Fits (runid : List UInt8) (s : ReplServer) : ReplOp → Prop
  | .sync request written _ _ => written = true → request.Fits runid s.backlog
  | _ => True

theorem ReplOp.step_sound (sound : s.Sound whole) (op : ReplOp) (numeric : op.Numeric runid)
    (fits : whole → op.Fits runid s)
    : ∃ next, op.step runid s = .ok next ∧ next.Sound whole := by
  suffices ran : ∃ next, op.run runid s = .ok next ∧ (s.recordFork next).Sound whole by
    obtain ⟨next, run, after⟩ := ran
    refine ⟨s.recordFork next, ?_, after⟩
    rw [ReplOp.step, run]
    rfl
  cases op with
  | propagate dictid command =>
      obtain ⟨next, run, after, forks⟩ := replicationFeedSlaves_sound sound dictid command
      exact ⟨next, run, after.recordFork forks⟩
  | sync request written fork fresh =>
      exact syncCommand_sound sound numeric written fits fork fresh
  | bgsave =>
      rw [ReplOp.run]
      split
      · exact ⟨s, rfl, sound.recordFork rfl⟩
      · rename_i idle
        refine ⟨_, rfl, sound.backlog, sound.attached, fun c member => ?_⟩
        have before := sound.slaves c member
        refine before.other_child (fun state => idle ?_) _ _
        obtain ⟨_, _, saved, _⟩ := before.saving state
        exact saved
  | startBgsave fork =>
      rw [ReplOp.run]
      split
      · rename_i due
        refine ⟨_, rfl, (startBgsave_sound sound ?_ _ fork).1⟩
        simp only [Bool.and_eq_true, Option.isNone_iff_eq_none] at due
        exact due.1
      · exact ⟨s, rfl, sound.recordFork rfl⟩
  | bgsaveDone ok served fork => exact ⟨_, rfl, updateSlaves_sound sound ok served fork⟩
  | bulkSent id =>
      refine ⟨_, rfl, ReplServer.Sound.recordFork (sound.update id fun c _ before => ?_) rfl⟩
      split
      · rename_i state
        exact putSlaveOnline_sound before (by simp [state])
      · exact before
  | ack id =>
      refine ⟨_, rfl, ReplServer.Sound.recordFork (sound.update id fun c _ before => ?_) rfl⟩
      split
      · rename_i state
        simp only [Bool.and_eq_true, beq_iff_eq] at state
        exact putSlaveOnline_sound before (by simp [state.2])
      · exact before
  | drain id count =>
      exact ⟨_, rfl,
        ReplServer.Sound.recordFork (sound.update id fun c _ before => before.drain count) rfl⟩
  | disconnect id => exact ⟨_, rfl, (sound.filter _).recordFork rfl⟩
  | resizeBacklog fresh newsize =>
      obtain ⟨resized, _, allocated, _⟩ := resize_sound fresh newsize sound.backlog
      refine ⟨_, rfl, ReplServer.Sound.recordFork ⟨resized, fun some => ?_, sound.slaves⟩ rfl⟩
      rw [allocated]
      exact sound.attached some
  | freeBacklog =>
      rw [ReplOp.run]
      split
      · rename_i alone
        rw [List.isEmpty_iff] at alone
        have freed
            : freeReplicationBacklog s.backlog s.slaves.length
              = .ok { s.backlog with buffer := none } := by
          simp [freeReplicationBacklog, alone]
        rw [freed]
        refine ⟨_, rfl, ReplServer.Sound.recordFork ⟨⟨sound.backlog.1, Or.inl rfl⟩, ?_, ?_⟩ rfl⟩
        · exact fun some => absurd alone some
        · exact sound.slaves
      · exact ⟨s, rfl, sound.recordFork rfl⟩
  | setDiskless on =>
      exact ⟨_, rfl,
        ReplServer.Sound.recordFork ⟨sound.backlog, sound.attached, sound.slaves⟩ rfl⟩

theorem initial_sound : ReplServer.initial.Sound whole :=
  ⟨⟨by decide, Or.inl rfl⟩, fun some => absurd rfl some, fun c member => by cases member⟩

/-- The events behind which the slaves have no gap. -/
def ReplOp.Plain (runid : List UInt8) (s : ReplServer) (op : ReplOp) : Prop :=
  op.Numeric runid ∧ op.Fits runid s

theorem ReplReachable.sound (reached : ReplReachable runid (ReplOp.Plain runid) s)
    : s.Sound True := by
  induction reached with
  | initial => exact initial_sound
  | step before meets run ih =>
      obtain ⟨next, ran, sound⟩ := ReplOp.step_sound ih _ meets.1 fun _ => meets.2
      cases run.symm.trans ran
      exact sound

/-- A slave has been sent, or has in its output buffer, exactly the stream after the offset it
was given up to the present end, and that offset is the one of its snapshot.
-/
def ReplServer.GapFree (s : ReplServer) (c : Slave) : Prop :=
  ∃ offset,
    c.start = some offset
    ∧ s.base ≤ offset
    ∧ offset + (c.drained ++ c.output).length = s.backlog.masterOffset
    ∧ c.drained ++ c.output = s.stream.drop (offset - s.base).toNat
    ∧ (c.replstate = .waitBgsaveEnd → offset = s.snapshot)
    ∧ ∀ taken, c.rdb = some taken → offset = taken

theorem ReplServer.Sound.gapFree (sound : s.Sound True) {c : Slave} (member : c ∈ s.slaves)
    (receives : c.replstate ≠ .waitBgsaveStart) (kept : c.closeAsap = false)
    : s.GapFree c := by
  have slave := sound.slaves c member
  obtain ⟨offset, started⟩ := Option.isSome_iff_exists.mp (slave.started receives kept)
  obtain ⟨least, bound, bytes⟩ := slave.segment started
  refine ⟨offset, started, least, ?_, bytes trivial, fun saving => ?_, fun taken handed => ?_⟩
  · rw [(sound.offset_eq (List.ne_nil_of_mem member)).2, bytes trivial, List.length_drop]
    omega
  · obtain ⟨start, snapshot, _⟩ := slave.saving saving
    rw [started] at start
    cases start
    exact snapshot
  · rw [slave.given handed] at started
    cases started
    rfl

def sampleRunid : List UInt8 := List.replicate 40 0x61

/-- The first slave asks with the run id of the master, and a background save starts. -/
def firstPsync (offset : Option Int64) : ReplOp :=
  .sync
    { id := 1
      psync := some { runid := sampleRunid, offset }
      capaEof := false
      pendingOutput := false }
    true .forked (fun _ => 0)

/-- The state after `firstPsync`. -/
def afterFirstPsync (offset : Option Int64) : ReplServer :=
  match (firstPsync offset).step sampleRunid .initial with
  | .ok s => s
  | .error _ => .initial

end Runs

end Redis
