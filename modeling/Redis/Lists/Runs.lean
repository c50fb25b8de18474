import Redis.Lists.Serving

/-! Runs of commands: no client stays blocked on a list with elements, unless `SORT ... STORE`
stores a list over a value of another type.
-/

namespace Redis.Lists

variable {K α : Type} [DecidableEq K] {s t : Server K α} {key : K}

def startServer (db : AList (fun _ : K => Value α)) : Server K α where
  db := db
  blockingKeys _ := []
  blocked := []
  readyKeys := []
  signaled _ := false
  clock := 0
  pushed := []
  returned := []
  served := []

/-- The databases have no empty lists. -/
def NoEmptyList (db : AList (fun _ : K => Value α)) : Prop :=
  ∀ key, db.lookup key ≠ some (.list [])

theorem startServer_quiescent {db : AList (fun _ : K => Value α)} (filled : NoEmptyList db)
    : Quiescent (startServer db) := by
  refine ⟨⟨⟨fun _ => rfl, List.nodup_nil, List.Pairwise.nil, ?_⟩, ?_, List.nodup_nil, ?_, ?_⟩, rfl⟩
  · intro b member
    cases member
  · intro key
    simp [startServer]
  · intro key value rest found waiting
    exact absurd rfl waiting
  · intro key found
    exact filled key found

-- Events

theorem runCommand_multi (s : Server K α) (client : Nat) (command : Command K α)
    : SameQueues s (s.runCommand client true command) := by
  cases command with
  | push place key values => exact sameQueues_push s place key values
  | pop place key => exact sameQueues_pop s client place key
  | rpoplpush source target => exact sameQueues_rpoplpush s source target
  | bpop place keys =>
      simp only [Server.runCommand, Server.blockingPopGenericCommand]
      split
      · exact sameQueues_popList s client _ _ _
      · exact .refl s
      · exact .refl s
  | brpoplpush source target =>
      simp only [Server.runCommand, Server.brpoplpushCommand]
      split
      · exact .refl s
      · exact .refl s
      · exact sameQueues_rpoplpush s source target
  | rename nx source target => exact sameQueues_rename s nx source target
  | restore replace key value => exact sameQueues_restore s replace key value
  | sortStore key items => exact sameQueues_sortStore s key items
  | edit key edit => exact sameQueues_editList s key edit
  | set key => exact sameQueues_setKey s key .other
  | del key => exact sameQueues_dbDelete s key

/-- The commands of a transaction are safe, each where it is executed. -/
def CommandsSafe (client : Nat) : Server K α → List (Command K α) → Prop
  | _, [] => True
  | s, command :: commands =>
      CommandSafe s command ∧ CommandsSafe client (s.runCommand client true command) commands

def EventSafe (s : Server K α) : Event K α → Prop
  | .command client command => s.isBlocked client = false → CommandSafe s command
  | .exec client commands => s.isBlocked client = false → CommandsSafe client s commands
  | .timeout _ => True

theorem Handling.runCommands {client : Nat} {commands : List (Command K α)}
    (handling : Handling [] s) (safe : CommandsSafe client s commands)
    : Handling [] (s.runCommands client commands) := by
  induction commands generalizing s with
  | nil => exact handling
  | cons command commands ih =>
      obtain ⟨first, rest⟩ := safe
      have next : Handling [] (s.runCommand client true command) :=
        ⟨handling.agree.same (runCommand_multi s client command),
          handling.ready.runCommand client true command first⟩
      exact ih next rest

theorem Quiescent.timeout (quiescent : Quiescent s) (client : Nat)
    : Quiescent (s.timeoutClient client) := by
  unfold Server.timeoutClient
  split
  · exact quiescent
  · rename_i receiver found
    have member := List.mem_of_find?_eq_some found
    exact ⟨⟨quiescent.handling.agree.unblock member, quiescent.handling.ready.unblock receiver⟩,
      quiescent.noReadyKeys⟩

theorem Quiescent.step (quiescent : Quiescent s) (event : Event K α) (safe : EventSafe s event)
    : Quiescent (s.step event) := by
  cases event with
  | command client command =>
      rw [Server.step]
      split
      · exact quiescent
      · rename_i free
        have unblocked : s.isBlocked client = false := Bool.eq_false_iff.mpr free
        refine Handling.handleClients ⟨?_, ?_⟩
        · exact quiescent.handling.agree.runCommand unblocked false command
        · exact quiescent.handling.ready.runCommand client false command (safe unblocked)
  | exec client commands =>
      rw [Server.step]
      split
      · exact quiescent
      · rename_i free
        exact (quiescent.handling.runCommands (safe (Bool.eq_false_iff.mpr free))).handleClients
  | timeout client => exact quiescent.timeout client

/-- Every event of a run is safe where it happens. -/
def RunSafe : Server K α → List (Event K α) → Prop
  | _, [] => True
  | s, event :: events => EventSafe s event ∧ RunSafe (s.step event) events

theorem Quiescent.run (quiescent : Quiescent s) (events : List (Event K α))
    (safe : RunSafe s events)
    : Quiescent (events.foldl Server.step s) := by
  induction events generalizing s with
  | nil => exact quiescent
  | cons event events ih =>
      obtain ⟨first, rest⟩ := safe
      exact ih (quiescent.step event first) rest

-- Nobody waits for a list that is there

/-- No client is blocked on a key with a list that has elements. -/
def NobodyMissesList (s : Server K α) : Prop :=
  ∀ b ∈ s.blocked, ∀ key ∈ b.keys, ∀ value rest, s.db.lookup key ≠ some (.list (value :: rest))

theorem Quiescent.nobodyMissesList (quiescent : Quiescent s) : NobodyMissesList s := by
  intro b member key onKey value rest found
  obtain ⟨⟨agree, ready⟩, noReadyKeys⟩ := quiescent
  have waiting : s.blockingKeys key ≠ [] := by
    rw [agree.queues]
    have inside : b ∈ waitingOn s.blocked key := List.mem_filter.mpr ⟨member, by simpa using onKey⟩
    simpa using List.ne_nil_of_mem inside
  rcases ready.covered key value rest found waiting with exempt | marked
  · exact exempt
  · rw [ready.signaled, noReadyKeys] at marked
    cases marked

/-- In every run in which no `SORT ... STORE` stores a list over a value at a key for which clients
wait, no client stays blocked on a list with elements.
-/
theorem nobody_waits_for_stored_list (db : AList (fun _ : K => Value α)) (filled : NoEmptyList db)
    (events : List (Event K α)) (safe : RunSafe (startServer db) events)
    : NobodyMissesList (events.foldl Server.step (startServer db)) :=
  ((startServer_quiescent filled).run events safe).nobodyMissesList

/-- A client blocks on a key, and another one pushes to it. -/
theorem nobody_waits_for_stored_list_push
    : NobodyMissesList
        ([Event.command 1 (.bpop .head [7]), .command 2 (.push .tail 7 [5, 6])].foldl Server.step
          (startServer ∅ : Server Nat Nat)) :=
  nobody_waits_for_stored_list ∅ (fun key => by simp) _
    ⟨fun _ => trivial, fun _ => trivial, trivial⟩

/-- A client blocks on a key that first gets a string and then the result of `SORT`. -/
theorem sort_store_wakes_nobody
    : ¬ NobodyMissesList
        ([Event.command 1 (.bpop .head [7]), .command 2 (.set 7),
          .command 2 (.sortStore 7 [5])].foldl
          Server.step (startServer ∅ : Server Nat Nat)) := by
  intro nobody
  exact nobody ⟨1, 0, [7], none, true⟩ (by decide) 7 (by decide) 5 [] (by decide)

end Redis.Lists
