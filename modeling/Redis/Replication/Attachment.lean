import Redis.Replication.Segments

/-! How the slaves that are attached after an event came to be attached, and what the event
does to the offsets.
-/

namespace Redis

open Redis.Library

-- The ways to be attached

/-- The slave was told where it is in the stream and is sent what is propagated. -/
def Slave.Receives (c : Slave) : Prop := c.replstate ≠ .waitBgsaveStart ∧ c.start.isSome = true

/-- `startBgsaveForReplication` has started a child in this event, which ends with the flush of
the script cache.
-/
def ReplOp.flushesScripts (s next : ReplServer) : ReplOp → Bool
  | .bgsave => false
  | _ => next.forks != s.forks

/-- The request leads to a partial resynchronisation. -/
def SyncRequest.resumes (request : SyncRequest) (runid : List UInt8) (b : Backlog)
    (written : Bool)
    : Bool :=
  match request.psync with
  | none => false
  | some psync =>
      match masterTryPartialResynchronization b runid psync written with
      | .ok (.resumed _) => true
      | _ => false

/-- How the client of a request was attached. -/
inductive NewSlave (runid : List UInt8) (s : ReplServer) (request : SyncRequest)
    (written flushes : Bool) (c : Slave)
    : Prop
  | waiting (full : request.resumes runid s.backlog written = false)
    (state : c.replstate = .waitBgsaveStart)
  | dropped (lost : c.start = none) (state : c.replstate = .online)
  | prepared (full : request.resumes runid s.backlog written = false) (flushed : flushes = true)
    (start : c.start = some (getPsyncInitialOffset s.backlog))
  | joined {other : Slave} (full : request.resumes runid s.backlog written = false)
    (member : other ∈ s.slaves) (saving : other.replstate = .waitBgsaveEnd)
    (start : c.start = some other.psyncInitialOffset)
  | resumed {psync : PsyncRequest} {offset : Int64}
    (partly : request.resumes runid s.backlog written = true)
    (asked : request.psync = some psync) (given : psync.offset = some offset)
    (own : strcaseEqual psync.runid runid = true)
    (accepted : s.backlog.accepts offset.toInt = true)
    (start : c.start = some (offset.toInt - 1)) (state : c.replstate = .online)

/-- How a slave came to be attached after an event. -/
inductive Attachment (runid : List UInt8) (s next : ReplServer) (op : ReplOp) (c : Slave) : Prop
  | kept {old : Slave} (member : old ∈ s.slaves) (id : c.id = old.id) (start : c.start = old.start)
    (waits : c.replstate = .waitBgsaveStart ↔ old.replstate = .waitBgsaveStart)
    (saves : c.replstate = .waitBgsaveEnd → old.replstate = .waitBgsaveEnd)
  | prepared {old : Slave} (member : old ∈ s.slaves) (id : c.id = old.id)
    (waited : old.replstate = .waitBgsaveStart) (flushed : op.flushesScripts s next = true)
    (start : c.start = some (getPsyncInitialOffset s.backlog))
  | new {request : SyncRequest} {written : Bool} {fork : ForkResult} {fresh : Nat → UInt8}
    (asked : op = .sync request written fork fresh) (id : c.id = request.id)
    (how : NewSlave runid s request written (op.flushesScripts s next) c)

variable {whole : Prop} {runid : List UInt8} {s next : ReplServer} {op : ReplOp} {c old : Slave}

-- Slaves that stay attached

theorem Attachment.same (member : c ∈ s.slaves) : Attachment runid s next op c :=
  .kept member rfl rfl .rfl id

theorem Attachment.updated {f : Slave → Slave} (member : old ∈ s.slaves)
    (frame : (f old).id = old.id ∧ (f old).start = old.start
      ∧ (f old).replstate = old.replstate)
    : Attachment runid s next op (f old) := by
  obtain ⟨id, start, state⟩ := frame
  exact .kept member id start (by rw [state]) (by rw [state]; exact fun saves => saves)

theorem Attachment.moved (member : old ∈ s.slaves) (id : c.id = old.id)
    (start : c.start = old.start)
    (before : old.replstate ≠ .waitBgsaveStart)
    (after : c.replstate = .sendBulk ∨ c.replstate = .online)
    : Attachment runid s next op c := by
  refine .kept member id start ?_ ?_
  · rcases after with state | state <;> simp [state, before]
  · rcases after with state | state <;> simp [state]

theorem Slave.foldl_addReply_frame (chunks : List (List UInt8)) (c : Slave)
    : (chunks.foldl Slave.addReply c).id = c.id
      ∧ (chunks.foldl Slave.addReply c).start = c.start
      ∧ (chunks.foldl Slave.addReply c).replstate = c.replstate := by
  induction chunks generalizing c with
  | nil => exact ⟨rfl, rfl, rfl⟩
  | cons chunk rest ih => exact ih (c.addReply chunk)

theorem Slave.feed_frame (chunks : List (List UInt8)) (c : Slave)
    : (c.feed chunks).id = c.id
      ∧ (c.feed chunks).start = c.start
      ∧ (c.feed chunks).replstate = c.replstate := by
  unfold Slave.feed
  split
  · exact ⟨rfl, rfl, rfl⟩
  · exact c.foldl_addReply_frame chunks

theorem Slave.drain_frame (count : Nat) (c : Slave)
    : (c.drain count).id = c.id
      ∧ (c.drain count).start = c.start
      ∧ (c.drain count).replstate = c.replstate := by
  unfold Slave.drain
  split <;> exact ⟨rfl, rfl, rfl⟩

theorem Attachment.putOnline {test : Slave → Prop} [DecidablePred test] {id : Nat}
    (received : ∀ c, test c → c.replstate ≠ .waitBgsaveStart)
    (member : c ∈ (s.update id (fun c => if test c then putSlaveOnline c else c)).slaves)
    : Attachment runid s next op c := by
  obtain ⟨old, inSlaves, rfl⟩ := List.mem_map.mp member
  split
  · dsimp only
    split
    · rename_i met
      exact .moved inSlaves rfl rfl (received old met) (Or.inr rfl)
    · exact .same inSlaves
  · exact .same inSlaves

-- Propagation

/-- The slaves are those of before, with the same connection data. -/
def SameSlaves (s next : ReplServer) : Prop :=
  ∀ c ∈ next.slaves, ∃ old ∈ s.slaves,
    c.id = old.id ∧ c.start = old.start ∧ c.replstate = old.replstate

theorem SameSlaves.feed (same : SameSlaves s next) (chunks : List (List UInt8))
    : SameSlaves s { next with slaves := next.slaves.map (Slave.feed chunks) } := by
  intro c member
  obtain ⟨fed, inSlaves, rfl⟩ := List.mem_map.mp member
  obtain ⟨old, before, id, start, state⟩ := same fed inSlaves
  obtain ⟨fedId, fedStart, fedState⟩ := fed.feed_frame chunks
  exact ⟨old, before, fedId.trans id, fedStart.trans start, fedState.trans state⟩

/-- The bytes of a command are added to the stream, behind a `SELECT` if one is due. -/
structure Fed (s next : ReplServer) (command : PropagatedCommand) : Prop where
  before : s.backlog.buffer.isSome = true
  after : next.backlog.buffer.isSome = true
  base : next.base = s.base
  stream : ∃ select, next.stream = s.stream ++ (select ++ (commandChunks command.argv).flatten)
  slaves : SameSlaves s next

theorem replicationFeedSlaves_fed (sound : s.Sound whole) (dictid : Int32)
    (command : PropagatedCommand)
    (run : replicationFeedSlaves s dictid command.argv = .ok next)
    : (s.backlog.buffer = none ∧ next = s) ∨ Fed s next command := by
  unfold replicationFeedSlaves at run
  rcases sound.backlog.2 with freed | ⟨buffer, holds⟩
  · have alone : s.slaves = [] := by
      by_contra some
      have present := sound.attached some
      rw [freed] at present
      cases present
    simp only [freed, alone, Option.isNone_none, List.isEmpty_nil, Bool.and_self, if_true,
      Except.ok.injEq] at run
    exact Or.inl ⟨freed, run.symm⟩
  · have allocated : s.backlog.buffer.isNone = false := by simp [holds.allocated]
    rw [if_neg (by simp [allocated]), if_neg (by simp [allocated])] at run
    obtain ⟨mid, selected, rest⟩ := andThen_ok_iff.mp run
    -- The SELECT command, if one is due, is fed like the command itself.
    obtain ⟨select, midStream, midBase, midSound, ⟨midBuffer, midHolds⟩, midSlaves⟩
        : ∃ select,
            mid.stream = s.stream ++ select
            ∧ mid.base = s.base
            ∧ mid.Sound whole
            ∧ (∃ buffer, mid.backlog.Holds buffer mid.base mid.stream)
            ∧ SameSlaves s mid := by
      have all : SameSlaves s s := fun c member => ⟨c, member, rfl, rfl, rfl⟩
      split at selected
      · obtain ⟨selectcmd, made⟩ := selectCommand_ok dictid
        obtain ⟨backlog, buffer', fed, held, next⟩ := feedBoth_sound sound holds [selectcmd]
        have one : s.feed selectcmd = [selectcmd].foldlM ReplServer.feed s := by simp
        simp only [made, ok_andThen, holds.allocated, Option.isSome_some, if_true, one, fed]
          at selected
        cases selected
        exact ⟨[selectcmd].flatten, rfl, rfl, next, ⟨buffer', held⟩, all.feed [selectcmd]⟩
      · cases selected
        exact ⟨[], by simp, rfl, sound, ⟨buffer, holds⟩, all⟩
    obtain ⟨seldb, seldbEq⟩ : ∃ seldb, seldb = dictid.toInt := ⟨_, rfl⟩
    have seldbSound : ReplServer.Sound whole { mid with slaveseldb := seldb } :=
      ⟨midSound.backlog, midSound.attached, midSound.slaves⟩
    obtain ⟨backlog, buffer', fed, held, _⟩ :=
      feedBoth_sound seldbSound midHolds (commandChunks command.argv)
    simp only [backlogCommand_ok, slaveCommand_ok, ok_andThen, midHolds.allocated,
      Option.isSome_some, if_true, ← seldbEq, fed] at rest
    cases rest
    refine Or.inr ⟨by simp [holds.allocated], by simp [held.allocated], midBase,
      ⟨select, ?_⟩, ?_⟩
    · change mid.stream ++ (commandChunks command.argv).flatten = _
      rw [midStream, List.append_assoc]
    · have keeps
          : SameSlaves s
              { mid with
                backlog
                slaveseldb := seldb
                stream := mid.stream ++ (commandChunks command.argv).flatten } := midSlaves
      exact keeps.feed _

theorem Fed.offset_lt {command : PropagatedCommand} (fed : Fed s next command)
    (sound : s.Sound whole) (nextSound : next.backlog.Sound next.base next.stream)
    : s.backlog.masterOffset < next.backlog.masterOffset := by
  rcases sound.backlog.2, nextSound.2 with ⟨freed | ⟨_, holds⟩, freedNext | ⟨_, nextHolds⟩⟩
  · have before := fed.before
    simp [freed] at before
  · have before := fed.before
    simp [freed] at before
  · have after := fed.after
    simp [freedNext] at after
  · obtain ⟨select, stream⟩ := fed.stream
    have longer : 0 < (commandChunks command.argv).flatten.length := by simp [commandChunks]
    rw [holds.offset, nextHolds.offset, fed.base, stream]
    simp only [List.length_append]
    push_cast
    omega

-- Background saves

/-- What an event other than a propagation does to the offsets. -/
inductive Offsets (s next : ReplServer) : Prop
  | same (base : next.base = s.base)
    (offset : next.backlog.masterOffset = s.backlog.masterOffset)
    (allocated : next.backlog.buffer.isSome = true → s.backlog.buffer.isSome = true)
  | created (freed : s.backlog.buffer = none) (base : next.base = next.backlog.masterOffset)
    (offset : next.backlog.masterOffset = s.backlog.masterOffset + 1)

theorem Offsets.of_eq (backlog : next.backlog = s.backlog) (base : next.base = s.base)
    : Offsets s next :=
  .same base (by rw [backlog]) (by rw [backlog]; exact id)

theorem Offsets.of_mid {mid : ReplServer} (offsets : Offsets mid next)
    (backlog : mid.backlog = s.backlog) (base : mid.base = s.base)
    : Offsets s next := by
  cases offsets with
  | same sameBase offset allocated =>
      exact .same (sameBase.trans base) (backlog ▸ offset) (backlog ▸ allocated)
  | created freed newBase offset => exact .created (backlog ▸ freed) newBase (backlog ▸ offset)

theorem flushesScripts_of_forked (other : op ≠ .bgsave) (forks : next.forks = s.forks + 1)
    : op.flushesScripts s (s.recordFork next) = true := by
  have more : (s.recordFork next).forks ≠ s.forks := by
    rw [show (s.recordFork next).forks = next.forks from rfl, forks]
    exact Nat.succ_ne_self _
  cases op with
  | bgsave => exact absurd rfl other
  | _ => simpa [ReplOp.flushesScripts] using more

theorem startBgsave_attachment (idle : s.child = none) {mincapaEof : Bool} {fork : ForkResult}
    (member : c ∈ (startBgsaveForReplication s mincapaEof fork).1.slaves)
    : (c ∈ s.slaves ∧ (c.waits = false ∨ fork ≠ .forked))
      ∨ ∃ old ∈ s.slaves,
          old.replstate = .waitBgsaveStart
          ∧ c = replicationSetupSlaveForFullResync old (getPsyncInitialOffset s.backlog)
          ∧ (startBgsaveForReplication s mincapaEof fork).1.forks = s.forks + 1 := by
  obtain ⟨slaveseldb, failed | ⟨target, forked⟩⟩ := startBgsave_cases idle mincapaEof fork
  · rw [failed] at member
    obtain ⟨inSlaves, kept⟩ := List.mem_filter.mp member
    exact Or.inl ⟨inSlaves, Or.inl (by simpa using kept)⟩
  · rw [forked] at member ⊢
    obtain ⟨old, inSlaves, rfl⟩ := List.mem_map.mp member
    split
    · rename_i waits
      exact Or.inr ⟨old, inSlaves, by simpa [Slave.waits] using waits, rfl, rfl⟩
    · rename_i other
      exact Or.inl ⟨inSlaves, Or.inl (by simpa using other)⟩

theorem startBgsave_offsets (mincapaEof : Bool) (fork : ForkResult)
    : (startBgsaveForReplication s mincapaEof fork).1.backlog = s.backlog
      ∧ (startBgsaveForReplication s mincapaEof fork).1.base = s.base := by
  unfold startBgsaveForReplication
  dsimp only
  split
  · exact ⟨rfl, rfl⟩
  · split <;> exact ⟨rfl, rfl⟩

theorem Slave.bgsaveDone_cases {target : RdbTarget} {ok : Bool} {served : Nat → Bool}
    {snapshot : Int} (done : old.bgsaveDone target ok served snapshot = some c)
    : c = old
      ∨ (old.replstate = .waitBgsaveEnd ∧ c.id = old.id ∧ c.start = old.start
        ∧ (c.replstate = .sendBulk ∨ c.replstate = .online)) := by
  unfold Slave.bgsaveDone at done
  split at done
  · rename_i saving
    cases target with
    | socket =>
        dsimp only at done
        split at done <;> cases done
        exact Or.inr ⟨saving, rfl, rfl, Or.inr rfl⟩
    | disk =>
        dsimp only at done
        split at done <;> cases done
        exact Or.inr ⟨saving, rfl, rfl, Or.inl rfl⟩
  · cases done
    exact Or.inl rfl

theorem updateSlaves_attachment {ok : Bool} {served : Nat → Bool} {fork : ForkResult}
    (member : c ∈ (updateSlavesWaitingBgsave s ok served fork).slaves)
    : Attachment runid s (s.recordFork (updateSlavesWaitingBgsave s ok served fork))
        (.bgsaveDone ok served fork) c := by
  unfold updateSlavesWaitingBgsave at member ⊢
  cases running : s.child with
  | none =>
      rw [running] at member
      exact .same member
  | some target =>
      simp only [running] at member ⊢
      have handed : ∀ {mid : Slave},
          mid ∈ s.slaves.filterMap (Slave.bgsaveDone target ok served s.snapshot)
          → ∀ next, Attachment runid s next (.bgsaveDone ok served fork) mid := by
        intro mid inside next
        obtain ⟨old, inSlaves, done⟩ := List.mem_filterMap.mp inside
        rcases Slave.bgsaveDone_cases done with rfl | ⟨saving, id, start, state⟩
        · exact .same inSlaves
        · exact .moved inSlaves id start (by simp [saving]) state
      split at member
      · rename_i waiting
        rw [if_pos waiting]
        rcases startBgsave_attachment rfl member with
          ⟨kept, _⟩ | ⟨mid, inside, waited, rfl, forks⟩
        · exact handed kept _
        · obtain ⟨old, inSlaves, done⟩ := List.mem_filterMap.mp inside
          rcases Slave.bgsaveDone_cases done with rfl | ⟨_, _, _, state⟩
          · exact .prepared inSlaves rfl waited (flushesScripts_of_forked (by simp) forks) rfl
          · rcases state with state | state <;> rw [state] at waited <;> cases waited
      · rename_i none
        rw [if_neg none]
        exact handed member _

theorem updateSlaves_offsets (ok : Bool) (served : Nat → Bool) (fork : ForkResult)
    : (updateSlavesWaitingBgsave s ok served fork).backlog = s.backlog
      ∧ (updateSlavesWaitingBgsave s ok served fork).base = s.base := by
  unfold updateSlavesWaitingBgsave
  split
  · exact ⟨rfl, rfl⟩
  · dsimp only
    split
    · exact startBgsave_offsets _ _
    · exact ⟨rfl, rfl⟩

section Requests

variable {request : SyncRequest} {written : Bool} {fork : ForkResult} {fresh : Nat → UInt8}

theorem createBacklogIfFirst_frame (run : s.createBacklogIfFirst fresh = .ok next)
    : next.slaves = s.slaves ∧ next.forks = s.forks ∧ Offsets s next := by
  unfold ReplServer.createBacklogIfFirst at run
  split at run
  · rename_i first
    obtain ⟨backlog, created, rest⟩ := andThen_ok_iff.mp run
    cases rest
    unfold createReplicationBacklog at created
    split at created
    · cases created
    · cases created
      exact ⟨rfl, rfl, .created (by simpa using first.2) rfl rfl⟩
  · cases run
    exact ⟨rfl, rfl, .of_eq rfl rfl⟩

theorem fullResync_attachment {client : Slave}
    (run : fullResync s client fork fresh = .ok next)
    (waits : client.replstate = .waitBgsaveStart) (id : client.id = request.id)
    (full : request.resumes runid s.backlog written = false)
    : Offsets s next
      ∧ ∀ c ∈ next.slaves,
          Attachment runid s (s.recordFork next) (.sync request written fork fresh) c := by
  rcases fullResync_cases s client fork fresh with
    plain | ⟨other, inSlaves, saving, joining⟩ | ⟨idle, began, started, start, rest⟩
  · obtain ⟨slaves, _, offsets⟩ := createBacklogIfFirst_frame (plain.symm.trans run)
    refine ⟨offsets.of_mid rfl rfl, fun c member => ?_⟩
    rw [slaves] at member
    rcases List.mem_append.mp member with old | new
    · exact .same old
    · rw [List.mem_singleton.mp new]
      exact .new rfl id (.waiting full waits)
  · obtain ⟨slaves, _, offsets⟩ := createBacklogIfFirst_frame (joining.symm.trans run)
    refine ⟨offsets.of_mid rfl rfl, fun c member => ?_⟩
    rw [slaves] at member
    rcases List.mem_append.mp member with old | new
    · exact .same old
    · rw [List.mem_singleton.mp new]
      exact .new rfl id (.joined full inSlaves saving rfl)
  · have attached : ∀ c ∈ began.slaves,
        ∀ next, next.forks = began.forks
          → Attachment runid s (s.recordFork next) (.sync request written fork fresh) c := by
      intro c member next forks
      rw [show began
        = (startBgsaveForReplication { s with slaves := s.slaves ++ [client] } client.capaEof
          fork).1
        by rw [start]] at member forks
      rcases startBgsave_attachment (by exact idle) member with
        ⟨kept, _⟩ | ⟨old, inSlaves, waited, rfl, forked⟩
      · rcases List.mem_append.mp kept with old | new
        · exact .same old
        · rw [List.mem_singleton.mp new]
          exact .new rfl id (.waiting full waits)
      · have flushed
            : (ReplOp.sync request written fork fresh).flushesScripts s (s.recordFork next)
              = true :=
          flushesScripts_of_forked (by simp) (forks.trans forked)
        rcases List.mem_append.mp inSlaves with before | new
        · exact .prepared before rfl waited flushed rfl
        · rw [List.mem_singleton.mp new]
          exact .new rfl id (.prepared full flushed rfl)
    obtain ⟨backlog, base⟩ := startBgsave_offsets (s := { s with slaves := s.slaves ++ [client] })
      client.capaEof fork
    rw [start] at backlog base
    cases started with
    | false =>
        cases rest.symm.trans run
        exact ⟨.of_eq backlog base, fun c member => attached c member _ rfl⟩
    | true =>
        obtain ⟨slaves, forks, offsets⟩ := createBacklogIfFirst_frame (rest.symm.trans run)
        exact ⟨offsets.of_mid backlog base,
          fun c member => attached c (slaves ▸ member) next forks⟩

theorem ReplServer.Sound.accepted (sound : s.Sound whole) {offset : Int}
    (accepted : s.backlog.accepts offset = true)
    : s.backlog.buffer.isSome = true ∧ s.base < offset := by
  rcases sound.backlog.2 with freed | ⟨buffer, holds⟩
  · simp [Backlog.accepts, freed] at accepted
  · obtain ⟨least, _⟩ := (holds.accepts_iff offset).mp accepted
    obtain ⟨short, _⟩ := holds.history_eq
    have position := holds.offset
    exact ⟨by simp [holds.allocated], by omega⟩

theorem masterTry_resumed {b : Backlog} {psync : PsyncRequest} {bytes : List UInt8}
    (tried : masterTryPartialResynchronization b runid psync written = .ok (.resumed bytes))
    : strcaseEqual psync.runid runid = true
      ∧ ∃ offset, psync.offset = some offset ∧ b.accepts offset.toInt = true := by
  unfold masterTryPartialResynchronization at tried
  split at tried
  · cases tried
  · rename_i own
    cases given : psync.offset with
    | none =>
        rw [given] at tried
        cases tried
    | some offset =>
        simp only [given] at tried
        split at tried
        · cases tried
        · rename_i accepted
          exact ⟨by simpa using own, offset, rfl, by simpa using accepted⟩

theorem syncCommand_attachment
    (run : syncCommand runid s request written fork fresh = .ok next)
    : Offsets s next
      ∧ ∀ c ∈ next.slaves,
          Attachment runid s (s.recordFork next) (.sync request written fork fresh) c := by
  unfold syncCommand at run
  split at run
  · cases run
    exact ⟨.of_eq rfl rfl, fun c member => .same member⟩
  · split at run
    · cases run
      exact ⟨.of_eq rfl rfl, fun c member => .same member⟩
    · dsimp only at run
      cases asked : request.psync with
      | none =>
          rw [asked] at run
          exact fullResync_attachment run rfl rfl (by simp [SyncRequest.resumes, asked])
      | some psync =>
          simp only [asked] at run
          obtain ⟨outcome, tried, rest⟩ := andThen_ok_iff.mp run
          cases outcome with
          | fullResync =>
              exact fullResync_attachment rest rfl rfl
                (by simp [SyncRequest.resumes, asked, tried])
          | dropped =>
              cases rest
              refine ⟨.of_eq rfl rfl, fun c member => ?_⟩
              rcases List.mem_append.mp member with old | new
              · exact .same old
              · rw [List.mem_singleton.mp new]
                exact .new rfl rfl (.dropped rfl rfl)
          | resumed bytes =>
              cases rest
              obtain ⟨own, offset, given, accepted⟩ := masterTry_resumed tried
              refine ⟨.of_eq rfl rfl, fun c member => ?_⟩
              rcases List.mem_append.mp member with old | new
              · exact .same old
              · rw [List.mem_singleton.mp new]
                refine .new rfl rfl (.resumed ?_ asked given own accepted ?_ rfl)
                · simp [SyncRequest.resumes, asked, tried]
                · simp [Slave.addReply, given]

end Requests

/-- Behind an event every slave was kept, prepared or is new. -/
theorem ReplOp.run_attachment (sound : s.Sound whole)
    (other : ∀ dictid command, op ≠ .propagate dictid command)
    (run : op.run runid s = .ok next)
    : Offsets s next ∧ ∀ c ∈ next.slaves, Attachment runid s (s.recordFork next) op c := by
  cases op with
  | propagate dictid command => exact absurd rfl (other dictid command)
  | sync request written fork fresh => exact syncCommand_attachment run
  | bgsave =>
      rw [ReplOp.run] at run
      split at run <;> cases run <;> exact ⟨.of_eq rfl rfl, fun c member => .same member⟩
  | startBgsave fork =>
      rw [ReplOp.run] at run
      split at run
      · rename_i due
        simp only [Bool.and_eq_true, Option.isNone_iff_eq_none] at due
        cases run
        obtain ⟨backlog, base⟩ := startBgsave_offsets (s := s) _ fork
        refine ⟨.of_eq backlog base, fun c member => ?_⟩
        rcases startBgsave_attachment due.1 member with
          ⟨kept, _⟩ | ⟨old, inSlaves, waited, rfl, forked⟩
        · exact .same kept
        · exact .prepared inSlaves rfl waited (flushesScripts_of_forked (by simp) forked) rfl
      · cases run
        exact ⟨.of_eq rfl rfl, fun c member => .same member⟩
  | bgsaveDone ok served fork =>
      cases run
      obtain ⟨backlog, base⟩ := updateSlaves_offsets (s := s) ok served fork
      exact ⟨.of_eq backlog base, fun c member => updateSlaves_attachment member⟩
  | bulkSent id =>
      cases run
      exact ⟨.of_eq rfl rfl,
        fun c member => Attachment.putOnline (fun c sending => by simp [sending]) member⟩
  | ack id =>
      cases run
      refine ⟨.of_eq rfl rfl, fun c member => Attachment.putOnline (fun c met => ?_) member⟩
      simp only [Bool.and_eq_true, beq_iff_eq] at met
      simp [met.2]
  | drain id count =>
      cases run
      refine ⟨.of_eq rfl rfl, fun c member => ?_⟩
      obtain ⟨old, inSlaves, rfl⟩ := List.mem_map.mp member
      split
      · exact .updated inSlaves (old.drain_frame count)
      · exact .same inSlaves
  | disconnect id =>
      cases run
      exact ⟨.of_eq rfl rfl, fun c member => .same (List.mem_filter.mp member).1⟩
  | resizeBacklog fresh newsize =>
      cases run
      obtain ⟨_, offset, allocated, _⟩ := resize_sound fresh newsize sound.backlog
      exact ⟨.same rfl offset fun some => allocated.symm.trans some, fun c member => .same member⟩
  | freeBacklog =>
      rw [ReplOp.run] at run
      split at run
      · obtain ⟨backlog, freed, rest⟩ := andThen_ok_iff.mp run
        cases rest
        cases free_cases freed
        exact ⟨.same rfl rfl fun some => (by cases some), fun c member => .same member⟩
      · cases run
        exact ⟨.of_eq rfl rfl, fun c member => .same member⟩
  | setDiskless on =>
      cases run
      exact ⟨.of_eq rfl rfl, fun c member => .same member⟩

end Redis
