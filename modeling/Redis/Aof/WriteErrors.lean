import Redis.Aof.FlushRuns

/-! An error of a write stays until a later flush writes: what that flush finds in the buffer. -/

namespace Redis.AofWrites

open Redis.BackgroundRewrite (AofState)
open Redis.Library (int32 int32_of_lt)
open Redis.Util (sdscatlen sdscatlen_of_lt)

-- Complete writes

/-- The system writes the whole buffer. -/
def WritesAll (s : Writer) (call : FlushCall) : Prop :=
  s.fdOpen = true ∧ s.aofBuf.length < 2 ^ 31 ∧ ∃ n, call.write = some n ∧ s.aofBuf.length ≤ n

/-- An error can be cleared: the file is in use, and a flush that writes has something to write. -/
def Clearable (s : Writer) : Prop :=
  s.lastWriteOk = false →
    s.state ≠ .off ∧ s.aofBuf ≠ []
      ∧ ∀ call, ¬Postpones s call → WritesAll s call
        → ∃ s', s.flushAppendOnlyFile call = some s' ∧ s'.lastWriteOk = true ∧ s'.aofBuf = []

section Complete

variable {s : Writer} {call : FlushCall}

theorem writeBuffer_complete (all : WritesAll s call)
    : ∃ s', s.writeBuffer call = some s' ∧ s'.lastWriteOk = true ∧ s'.aofBuf = [] := by
  obtain ⟨opened, small, n, write, enough⟩ := all
  have complete : s.written call = int32 s.aofBuf.length := by
    rw [Writer.written, if_pos opened, write, int32_of_lt small]
    exact congrArg Nat.cast (Nat.min_eq_right enough)
  exact ⟨(wroteTo s call).writeSucceeded call (s.written call), if_neg (not_not.mpr complete), rfl,
    rfl⟩

theorem flush_complete (nonempty : s.aofBuf ≠ []) (now : ¬Postpones s call) (all : WritesAll s call)
    : ∃ s', s.flushAppendOnlyFile call = some s' ∧ s'.lastWriteOk = true ∧ s'.aofBuf = [] := by
  have some : s.aofBuf.length ≠ 0 := fun zero => nonempty (List.length_eq_zero_iff.mp zero)
  rw [Writer.flushAppendOnlyFile, if_neg some]
  split
  · rename_i busy
    split
    · rename_i first
      exact absurd ⟨busy.1, busy.2.1, busy.2.2, Or.inl first⟩ now
    split
    · rename_i soon
      exact absurd ⟨busy.1, busy.2.1, busy.2.2, Or.inr soon⟩ now
    · exact @writeBuffer_complete { s with delayedFsync := s.delayedFsync + 1 } call all
  · exact writeBuffer_complete all

end Complete

-- Runs

/-- What must hold of an event: the casts are harmless, no rewrite replaces the file while the last
write failed, and the flush of `stopAppendOnly` writes what there is.
-/
def Event.Allowed (s : Writer) : Event → Prop
  | .act action => action.Harmless s
  | .rewriteDone (.switched _ _) => s.child = true → s.hasFd = true → s.lastWriteOk = true
  | .disable call => s.state ≠ .off → s.aofBuf = [] ∨ WritesAll s call
  | _ => True

/-- Every event of a run is allowed in the state before it. -/
def AllowedRun (s : Writer) : List Event → Prop
  | [] => True
  | event :: events => event.Allowed s ∧ ∀ s', s.step event = some s' → AllowedRun s' events

/-- Nothing is left when the file is not in use, and something is after an error. -/
structure Retries (s : Writer) : Prop where
  off : s.state = .off → s.aofBuf = []
  retries : s.lastWriteOk = false → s.aofBuf ≠ []

section Runs

variable {s s' : Writer}

theorem Retries.ok (retries : Retries s) (empty : s.aofBuf = []) : s.lastWriteOk = true :=
  (Bool.eq_false_or_eq_true s.lastWriteOk).resolve_right fun failed => retries.retries failed empty

theorem Retries.feed (retries : Retries s) {buf : List UInt8}
    (harmless : s.aofBuf.length + buf.length < 2 ^ 32)
    : Retries (s.feedAppendOnlyFile buf) := by
  rw [Writer.feedAppendOnlyFile]
  split
  · rename_i on
    refine ⟨fun off => ?_, fun failed => ?_⟩
    · rw [on] at off
      cases off
    · show sdscatlen s.aofBuf buf ≠ []
      rw [sdscatlen_of_lt harmless]
      exact List.append_ne_nil_of_left_ne_nil (retries.retries failed) _
  · exact retries

theorem Retries.flush (retries : Retries s) (flushed : Flushed s s') : Retries s' where
  off off := by
    have empty := retries.off (flushed.state.symm.trans off)
    rw [flushed.empties empty, empty]
  retries := flushed.retries retries.retries

theorem Retries.stop (retries : Retries s) {call : FlushCall}
    (allowed : s.state ≠ .off → s.aofBuf = [] ∨ WritesAll s call)
    (ran : s.stopAppendOnly call = some s')
    : Retries s' := by
  rw [Writer.stopAppendOnly] at ran
  split at ran
  · cases ran
    exact retries
  rename_i used
  obtain ⟨t, flushed, rfl⟩ := Option.map_eq_some_iff.mp ran
  have cleared : t.aofBuf = [] ∧ t.lastWriteOk = true := by
    by_cases empty : s.aofBuf = []
    · have nothing : s.aofBuf.length = 0 := congrArg List.length empty
      rw [Writer.flushAppendOnlyFile, if_pos nothing] at flushed
      cases flushed
      exact ⟨empty, retries.ok empty⟩
    · have all := (allowed used).resolve_left empty
      have now : ¬Postpones s { call with force := true } := fun postpones => by cases postpones.2.1
      obtain ⟨next, complete, ok, none⟩ :=
        @flush_complete s { call with force := true } empty now all
      cases flushed.symm.trans complete
      exact ⟨none, ok⟩
  refine ⟨fun _ => cleared.1, fun failed => ?_⟩
  rw [Writer.closeFile] at failed
  rw [cleared.2] at failed
  cases failed

theorem Retries.start (retries : Retries s) (unixtime : Int) (opens forks : Bool)
    : Retries (s.startAppendOnly unixtime opens forks) := by
  rw [Writer.startAppendOnly]
  split
  · exact retries
  split
  · exact ⟨retries.off, retries.retries⟩
  split
  · exact ⟨retries.off, retries.retries⟩
  · exact ⟨(fun off => by cases off), retries.retries⟩

theorem Retries.rewriteDone (retries : Retries s) {result : Writer.RewriteResult}
    (allowed : Event.Allowed s (.rewriteDone result))
    : Retries (s.backgroundRewriteDoneHandler result) := by
  unfold Writer.backgroundRewriteDoneHandler
  split
  · exact retries
  rename_i child
  cases result with
  | failed closed => exact ⟨retries.off, retries.retries⟩
  | switched content sized =>
      have running := (Bool.not_eq_false _).mp child
      dsimp only
      by_cases used : s.hasFd = true
      · have ok := allowed running used
        rw [Writer.switchFile, if_pos used]
        refine ⟨fun _ => rfl, fun failed => ?_⟩
        cases ok.symm.trans failed
      · rw [Writer.switchFile, if_neg used]
        refine ⟨fun off => ?_, retries.retries⟩
        have same : (if s.state = .waitRewrite then .on else s.state) = AofState.off := off
        split at same
        · cases same
        · exact retries.off same

theorem Retries.step (retries : Retries s) {event : Event} (allowed : event.Allowed s)
    (ran : s.step event = some s')
    : Retries s' := by
  cases event with
  | act action =>
      cases action with
      | append buf =>
          cases ran
          exact retries.feed allowed
      | flush call => exact retries.flush (flush_flushed allowed ran)
  | fork forks =>
      cases ran
      rw [Writer.rewriteAppendOnlyFileBackground]
      split
      · exact retries
      · exact ⟨retries.off, retries.retries⟩
  | rewriteDone result =>
      cases ran
      exact retries.rewriteDone allowed
  | disable call => exact retries.stop allowed ran
  | enable unixtime opens forks =>
      cases ran
      exact retries.start unixtime opens forks

theorem Retries.run (retries : Retries s) {events : List Event} (allowed : AllowedRun s events)
    (ran : s.run events = some s')
    : Retries s' := by
  induction events generalizing s with
  | nil =>
      cases ran
      exact retries
  | cons event events ih =>
      rw [Writer.run, List.foldlM_cons] at ran
      obtain ⟨next, first, rest⟩ := Option.bind_eq_some_iff.mp ran
      exact ih (retries.step allowed.1 first) (allowed.2 next first) rest

theorem Retries.clearable (retries : Retries s) : Clearable s := by
  intro failed
  have nonempty := retries.retries failed
  exact ⟨fun off => nonempty (retries.off off), nonempty, fun call now all =>
    flush_complete nonempty now all⟩

/-- In a run whose events are allowed, an error can be cleared. -/
theorem write_errors_clear (state : AofState) (fsync : FsyncPolicy) (file : List UInt8)
    (unixtime : Int)
    (events : List Event) (allowed : AllowedRun (startWriter state fsync file unixtime) events)
    (s : Writer) (ran : (startWriter state fsync file unixtime).run events = some s)
    : Clearable s := by
  have started : Retries (startWriter state fsync file unixtime) :=
    ⟨fun _ => rfl, fun failed => by cases failed⟩
  exact (started.run allowed ran).clearable

end Runs

-- Errors that stay

def failedWrite : List Event := [.act (.append [1, 2]), .act (.flush (flushes none false))]

theorem write_errors_clear_failed
    : ∃ s, (startWriter .on .everysec [] 0).run failedWrite = some s ∧ s.lastWriteOk = false
      ∧ Clearable s := by
  refine ⟨_, rfl, rfl, write_errors_clear .on .everysec [] 0 failedWrite ?_ _ rfl⟩
  refine ⟨show 0 + 2 < 2 ^ 32 by decide, fun s ran => ⟨Or.inr (Or.inl ?_), fun _ _ => trivial⟩⟩
  cases ran
  decide

/-- After a failed write, a rewrite empties the buffer; or the file is switched off while the disk
is full.
-/
theorem write_errors_stay
    : ¬ ∀ state fsync file unixtime events s,
        (startWriter state fsync file unixtime).run events = some s → Clearable s := by
  intro all
  obtain ⟨s, ran, failed, empty⟩ : ∃ s,
      (startWriter .on .everysec [] 0).run
        (.fork true :: failedWrite ++ [.rewriteDone (.switched [] true)]) = some s
      ∧ s.lastWriteOk = false ∧ s.aofBuf = [] := ⟨_, rfl, rfl, rfl⟩
  exact (all .on .everysec [] 0 _ s ran failed).2.1 empty

end Redis.AofWrites
