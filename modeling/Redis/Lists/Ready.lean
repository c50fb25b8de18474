import Redis.Lists.Queues

/-! Every key with a list and with waiting clients is marked as ready. -/

namespace Redis.Lists

variable {K α : Type} [DecidableEq K] {s t : Server K α} {key : K}

/-- `server.ready_keys`, the keys of it that a round still has to handle, and `db->ready_keys`
agree; keys with a list and with waiting clients are among them; and there are no empty lists. The
last two may fail for the keys in `allowed`.
-/
structure KeysReady (pending : List K) (allowed : K → Prop) (s : Server K α) : Prop where
  signaled : ∀ key, s.signaled key = true ↔ key ∈ pending ++ s.readyKeys
  nodup : (pending ++ s.readyKeys).Nodup
  covered : ∀ key value rest, s.db.lookup key = some (.list (value :: rest))
    → s.blockingKeys key ≠ [] → allowed key ∨ s.signaled key = true
  nonempty : ∀ key, s.db.lookup key = some (.list []) → allowed key

def nowhere (_ : K) : Prop := False

/-- A list may be stored at the key: no client waits for it, or it is marked as ready. -/
def Storable (s : Server K α) (key : K) : Prop := s.blockingKeys key = [] ∨ s.signaled key = true

section Keys

variable {pending : List K} {allowed : K → Prop}

theorem KeysReady.storable (ready : KeysReady pending allowed s) {items : List α}
    (found : s.db.lookup key = some (.list items))
    : allowed key ∨ Storable s key := by
  cases items with
  | nil => exact .inl (ready.nonempty key found)
  | cons value rest =>
      by_cases waiting : s.blockingKeys key = []
      · exact .inr (.inl waiting)
      · rcases ready.covered key value rest found waiting with exempt | marked
        · exact .inl exempt
        · exact .inr (.inr marked)

theorem KeysReady.weaken (ready : KeysReady pending allowed s) {more : K → Prop}
    (wider : ∀ key, allowed key → more key)
    : KeysReady pending more s := by
  obtain ⟨signaled, nodup, covered, nonempty⟩ := ready
  refine ⟨signaled, nodup, ?_, fun key found => wider key (nonempty key found)⟩
  intro key value rest found waiting
  exact (covered key value rest found waiting).imp_left (wider key)

theorem KeysReady.setItems (ready : KeysReady pending allowed s) {items : List α}
    (room : allowed key ∨ Storable s key) (some : items ≠ [] ∨ allowed key)
    : KeysReady pending allowed (s.setItems key items) := by
  obtain ⟨signaled, nodup, covered, nonempty⟩ := ready
  refine ⟨signaled, nodup, ?_, ?_⟩
  · intro other value rest found waiting
    by_cases same : other = key
    · subst same
      rcases room with exempt | noClients | marked
      · exact .inl exempt
      · exact absurd noClients waiting
      · exact .inr marked
    · rw [Server.setItems, AList.lookup_insert_ne same] at found
      exact covered other value rest found waiting
  · intro other found
    by_cases same : other = key
    · subst same
      rw [Server.setItems, AList.lookup_insert] at found
      rcases some with filled | exempt
      · cases found
        exact absurd rfl filled
      · exact exempt
    · rw [Server.setItems, AList.lookup_insert_ne same] at found
      exact nonempty other found

theorem signal_frame (s : Server K α) (key : K)
    : (s.signalListAsReady key).db = s.db
      ∧ (s.signalListAsReady key).blockingKeys = s.blockingKeys
      ∧ ∀ other, s.signaled other = true → (s.signalListAsReady key).signaled other = true := by
  unfold Server.signalListAsReady
  split
  · exact ⟨rfl, rfl, fun _ marked => marked⟩
  · split
    · exact ⟨rfl, rfl, fun _ marked => marked⟩
    · refine ⟨rfl, rfl, fun other marked => ?_⟩
      by_cases same : other = key
      · simp [same]
      · simp [same, marked]

theorem signal_storable (s : Server K α) (key : K) : Storable (s.signalListAsReady key) key := by
  unfold Server.signalListAsReady
  split
  · rename_i noClients
    exact .inl noClients
  · split
    · rename_i marked
      exact .inr marked
    · exact .inr (by simp)

theorem KeysReady.signal (ready : KeysReady pending allowed s) (key : K)
    : (∀ other, (s.signalListAsReady key).signaled other = true
        ↔ other ∈ pending ++ (s.signalListAsReady key).readyKeys)
      ∧ (pending ++ (s.signalListAsReady key).readyKeys).Nodup := by
  unfold Server.signalListAsReady
  split
  · exact ⟨ready.signaled, ready.nodup⟩
  · split
    · exact ⟨ready.signaled, ready.nodup⟩
    · rename_i unmarked
      have absent : key ∉ pending ++ s.readyKeys := fun member =>
        unmarked ((ready.signaled key).mpr member)
      refine ⟨fun other => ?_, ?_⟩
      · rw [← List.append_assoc, List.mem_append, List.mem_singleton]
        by_cases same : other = key
        · simp [same]
        · simp only [Function.update_of_ne same, same, or_false]
          exact ready.signaled other
      · rw [← List.append_assoc]
        exact List.Nodup.append ready.nodup (List.nodup_singleton key)
          (List.disjoint_singleton.mpr absent)

theorem KeysReady.dbAdd (ready : KeysReady pending allowed s) {value : Value α}
    (filled : value ≠ .list [])
    : KeysReady pending allowed (s.dbAdd key value) := by
  cases value with
  | other =>
      refine ⟨ready.signaled, ready.nodup, ?_, ?_⟩
      · intro other value rest found waiting
        by_cases same : other = key
        · subst same
          rw [Server.dbAdd, AList.lookup_insert] at found
          cases found
        · rw [Server.dbAdd, AList.lookup_insert_ne same] at found
          exact ready.covered other value rest found waiting
      · intro other found
        by_cases same : other = key
        · subst same
          rw [Server.dbAdd, AList.lookup_insert] at found
          cases found
        · rw [Server.dbAdd, AList.lookup_insert_ne same] at found
          exact ready.nonempty other found
  | list items =>
      have marks : KeysReady pending (fun other => allowed other ∨ other = key)
          (s.setItems key items) :=
        (ready.weaken (fun _ => .inl)).setItems (.inl (.inr rfl)) (.inr (.inr rfl))
      obtain ⟨signaled, nodup⟩ := marks.signal key
      obtain ⟨db, queues, kept⟩ := signal_frame (s.setItems key items) key
      refine ⟨signaled, nodup, ?_, ?_⟩
      · intro other value rest found waiting
        change ((s.setItems key items).signalListAsReady key).db.lookup other = _ at found
        change ((s.setItems key items).signalListAsReady key).blockingKeys other ≠ [] at waiting
        rw [db] at found
        rw [queues] at waiting
        by_cases same : other = key
        · subst same
          rcases signal_storable (s.setItems other items) other with noClients | marked
          · rw [queues] at noClients
            exact absurd noClients waiting
          · exact .inr marked
        · rcases marks.covered other value rest found waiting with (exempt | equal) | marked
          · exact .inl exempt
          · exact absurd equal same
          · exact .inr (kept other marked)
      · intro other found
        change ((s.setItems key items).signalListAsReady key).db.lookup other = _ at found
        rw [db] at found
        by_cases same : other = key
        · subst same
          rw [Server.setItems, AList.lookup_insert] at found
          exact absurd (Option.some.inj found) filled
        · rcases marks.nonempty other found with exempt | equal
          · exact exempt
          · exact absurd equal same

theorem KeysReady.dbDelete (ready : KeysReady pending allowed s) (key : K)
    : KeysReady pending allowed (s.dbDelete key) := by
  obtain ⟨signaled, nodup, covered, nonempty⟩ := ready
  refine ⟨signaled, nodup, ?_, ?_⟩
  · intro other value rest found waiting
    by_cases same : other = key
    · subst same
      rw [Server.dbDelete, AList.lookup_erase] at found
      cases found
    · rw [Server.dbDelete, AList.lookup_erase_ne same] at found
      exact covered other value rest found waiting
  · intro other found
    by_cases same : other = key
    · subst same
      rw [Server.dbDelete, AList.lookup_erase] at found
      cases found
    · rw [Server.dbDelete, AList.lookup_erase_ne same] at found
      exact nonempty other found

theorem KeysReady.deleteIfEmpty (ready : KeysReady pending (fun other => other = key) s)
    (room : Storable s key ∨ s.db.lookup key = some (.list []))
    : KeysReady pending nowhere (s.deleteIfEmpty key) := by
  have others : ∀ t : Server K α, KeysReady pending (fun other => other = key) t
      → (∀ value rest, t.db.lookup key = some (.list (value :: rest)) → Storable t key)
      → t.db.lookup key ≠ some (.list [])
      → KeysReady pending nowhere t := by
    intro t ready storable filled
    refine ⟨ready.signaled, ready.nodup, ?_, ?_⟩
    · intro other value rest found waiting
      rcases ready.covered other value rest found waiting with equal | marked
      · subst equal
        rcases storable value rest found with noClients | marked
        · exact absurd noClients waiting
        · exact .inr marked
      · exact .inr marked
    · intro other found
      have equal := ready.nonempty other found
      subst equal
      exact absurd found filled
  unfold Server.deleteIfEmpty
  split
  · refine others _ (ready.dbDelete key) ?_ ?_
    · intro value rest found
      rw [Server.dbDelete, AList.lookup_erase] at found
      cases found
    · rw [Server.dbDelete, AList.lookup_erase]
      simp
  · rename_i filled
    refine others s ready ?_ filled
    intro value rest found
    rcases room with storable | empty
    · exact storable
    · exact absurd empty filled

end Keys

section Commands

theorem dbAdd_setItems (s : Server K α) (key : K) (items : List α)
    : (s.dbAdd key (.list [])).setItems key items = s.dbAdd key (.list items) := by
  simp only [Server.dbAdd, Server.setItems, Server.signalListAsReady]
  split
  · simp
  · split
    · simp
    · simp

theorem pushed_ne_nil (place : Where) (values items : List α) (some : values ≠ [])
    : values.foldl (listTypePush place) items ≠ [] := by
  have longer : ∀ items : List α, items.length
      < (values.foldl (listTypePush place) items).length := by
    induction values with
    | nil => exact absurd rfl some
    | cons value values ih =>
        intro items
        have step : (listTypePush place items value).length = items.length + 1 := by
          cases place <;> simp [listTypePush]
        rw [List.foldl_cons]
        by_cases last : values = []
        · rw [last, List.foldl_nil, step]
          exact Nat.lt_succ_self _
        · exact Nat.lt_trans (by rw [step]; exact Nat.lt_succ_self _) (ih last _)
  intro empty
  have positive := longer items
  rw [empty] at positive
  exact Nat.not_lt_zero _ positive

theorem KeysReady.congr {pending : List K} {allowed : K → Prop}
    (ready : KeysReady pending allowed s) (db : t.db = s.db)
    (blockingKeys : t.blockingKeys = s.blockingKeys) (signaled : t.signaled = s.signaled)
    (readyKeys : t.readyKeys = s.readyKeys)
    : KeysReady pending allowed t := by
  obtain ⟨marks, nodup, covered, nonempty⟩ := ready
  refine ⟨?_, ?_, ?_, ?_⟩
  · rw [signaled, readyKeys]
    exact marks
  · rw [readyKeys]
    exact nodup
  · rw [db, blockingKeys, signaled]
    exact covered
  · rw [db]
    exact nonempty

omit [DecidableEq K] in
theorem not_nowhere {P : Prop} (either : nowhere key ∨ P) : P := either.resolve_left id

theorem KeysReady.push (ready : KeysReady [] nowhere s) (place : Where) (key : K)
    (values : List α)
    : KeysReady [] nowhere (s.pushGenericCommand place key values) := by
  cases values with
  | nil =>
      have same : s.pushGenericCommand place key [] = s := by
        simp only [Server.pushGenericCommand]
      rw [same]
      exact ready
  | cons value values =>
      have filled : ∀ items, (value :: values).foldl (listTypePush place) items ≠ [] :=
        fun items => pushed_ne_nil place (value :: values) items (by simp)
      cases found : s.db.lookup key with
      | none =>
          simp only [Server.pushGenericCommand, found, dbAdd_setItems]
          refine (ready.dbAdd ?_).congr rfl rfl rfl rfl
          intro same
          exact filled [] (Value.list.inj same)
      | some old =>
          cases old with
          | other =>
              simp only [Server.pushGenericCommand, found]
              exact ready
          | list items =>
              simp only [Server.pushGenericCommand, found]
              exact (ready.setItems (ready.storable found) (.inl (filled items))).congr
                rfl rfl rfl rfl

theorem KeysReady.store (ready : KeysReady [] nowhere s) {items rest : List α}
    (found : s.db.lookup key = some (.list items))
    : KeysReady [] nowhere ((s.setItems key rest).deleteIfEmpty key) := by
  have room : Storable s key := not_nowhere (ready.storable found)
  have stored : KeysReady [] (fun other => other = key) (s.setItems key rest) :=
    (ready.weaken (fun _ => False.elim)).setItems (.inl rfl) (.inr rfl)
  exact stored.deleteIfEmpty (.inl room)

theorem KeysReady.popList (ready : KeysReady [] nowhere s) {items rest : List α}
    (found : s.db.lookup key = some (.list items)) (client : Nat) (value : α)
    : KeysReady [] nowhere (s.popList client key value rest) :=
  (ready.store found).congr rfl rfl rfl rfl

theorem KeysReady.pop (ready : KeysReady [] nowhere s) (client : Nat) (place : Where) (key : K)
    : KeysReady [] nowhere (s.popGenericCommand client place key) := by
  unfold Server.popGenericCommand
  split
  · rename_i items found
    split
    · exact ready.popList found client _
    · exact ready
  · exact ready

theorem KeysReady.handlePush {pending : List K} {allowed : K → Prop}
    (ready : KeysReady pending allowed s) (target : K) (value : α)
    : KeysReady pending allowed (s.rpoplpushHandlePush target value) := by
  unfold Server.rpoplpushHandlePush
  split
  · rw [dbAdd_setItems]
    exact ready.dbAdd (by simp)
  · rename_i items found
    exact ready.setItems (ready.storable found) (.inl (by simp))
  · exact ready

theorem handlePush_storable {target : K} {value : α} (room : Storable s key)
    : Storable (s.rpoplpushHandlePush target value) key := by
  have queues := (sameQueues_handlePush s target value).blockingKeys
  rcases room with noClients | marked
  · exact .inl (by rw [queues]; exact noClients)
  · right
    unfold Server.rpoplpushHandlePush
    split
    · exact (signal_frame (s.setItems target []) target).2.2 key marked
    · exact marked
    · exact marked

theorem KeysReady.rpoplpush (ready : KeysReady [] nowhere s) (source target : K)
    : KeysReady [] nowhere (s.rpoplpushCommand source target) := by
  unfold Server.rpoplpushCommand
  split
  · rename_i items found
    have room : Storable s source := not_nowhere (ready.storable found)
    split
    · exact ready
    · split
      · rename_i value rest popped
        have stored : KeysReady [] (fun other => other = source) (s.setItems source rest) :=
          (ready.weaken (fun _ => False.elim)).setItems (.inl rfl) (.inr rfl)
        have moved := stored.handlePush target value
        have stillRoom : Storable (s.setItems source rest) source := room
        exact moved.deleteIfEmpty (.inl (handlePush_storable stillRoom))
      · exact ready
  · exact ready

theorem KeysReady.block (ready : KeysReady [] nowhere s) {keys : List K}
    (empty : ∀ key ∈ keys, ∀ value rest, s.db.lookup key ≠ some (.list (value :: rest)))
    (client : Nat) (target : Option K) (blpop : Bool)
    : KeysReady [] nowhere (s.blockForKeys client keys target blpop) := by
  obtain ⟨signaled, nodup, covered, nonempty⟩ := ready
  refine ⟨signaled, nodup, ?_, nonempty⟩
  intro key value rest found waiting
  have absent : key ∉ keys := fun member => empty key member value rest found
  have queue := (blockForKeys_loop client keys [] s.blockingKeys).2 key
  rw [if_neg (fun both => absent both.1)] at queue
  exact covered key value rest found (fun none => waiting (queue.trans none))

theorem searchPop_nothing {place : Where} {keys : List K}
    (search : searchPop s place keys = .nothing)
    : ∀ key ∈ keys, ∀ value rest, s.db.lookup key ≠ some (.list (value :: rest)) := by
  induction keys with
  | nil => simp
  | cons first keys ih =>
      intro key member value rest found
      rw [searchPop] at search
      rcases List.mem_cons.mp member with rfl | later
      · simp only [found] at search
        cases place with
        | head => cases search
        | tail => cases search
      · refine ih ?_ key later value rest found
        split at search
        · exact search
        · cases search
        · split at search
          · cases search
          · exact search

theorem searchPop_found {place : Where} {keys : List K} {value : α} {rest : List α}
    (search : searchPop s place keys = .found key value rest)
    : ∃ items, s.db.lookup key = some (.list items)
        ∧ listTypePop place items = some (value, rest) := by
  induction keys with
  | nil => cases search
  | cons first keys ih =>
      rw [searchPop] at search
      split at search
      · exact ih search
      · cases search
      · rename_i items found
        split at search
        · rename_i popped
          cases search
          exact ⟨items, found, popped⟩
        · exact ih search

theorem KeysReady.bpop (ready : KeysReady [] nowhere s) (client : Nat) (multi : Bool)
    (place : Where) (keys : List K)
    : KeysReady [] nowhere (s.blockingPopGenericCommand client multi place keys) := by
  unfold Server.blockingPopGenericCommand
  split
  · rename_i key value rest search
    obtain ⟨items, found, _⟩ := searchPop_found search
    exact ready.popList found client value
  · exact ready
  · rename_i search
    split
    · exact ready
    · exact ready.block (searchPop_nothing search) client none _

theorem KeysReady.brpoplpush (ready : KeysReady [] nowhere s) (client : Nat) (multi : Bool)
    (source target : K)
    : KeysReady [] nowhere (s.brpoplpushCommand client multi source target) := by
  unfold Server.brpoplpushCommand
  split
  · rename_i absent
    split
    · exact ready
    · refine ready.block ?_ client (some target) false
      intro key member value rest found
      rw [List.mem_singleton.mp member, absent] at found
      cases found
  · exact ready
  · exact ready.rpoplpush source target

theorem KeysReady.rename (ready : KeysReady [] nowhere s) (nx : Bool) (source target : K)
    : KeysReady [] nowhere (s.renameGenericCommand nx source target) := by
  unfold Server.renameGenericCommand
  split
  · exact ready
  · split
    · exact ready
    · rename_i value found
      split
      · exact ready
      · refine ((ready.dbDelete target).dbAdd ?_).dbDelete source
        rintro rfl
        exact ready.nonempty source found

theorem KeysReady.restore (ready : KeysReady [] nowhere s) (replace : Bool) (key : K)
    {value : Value α} (filled : value ≠ .list [])
    : KeysReady [] nowhere (s.restoreCommand replace key value) := by
  unfold Server.restoreCommand
  split
  · exact ready
  · exact (ready.dbDelete key).dbAdd filled

theorem KeysReady.sortStore (ready : KeysReady [] nowhere s) (key : K) (items : List α)
    (room : items ≠ [] → s.db.lookup key ≠ none → Storable s key)
    : KeysReady [] nowhere (s.sortStore key items) := by
  unfold Server.sortStore
  split
  · exact ready.dbDelete key
  · rename_i filled
    unfold Server.setKey
    split
    · exact ready.dbAdd (fun same => filled (Value.list.inj same))
    · rename_i old found
      exact ready.setItems (.inr (room filled (by rw [found]; simp))) (.inl filled)

theorem KeysReady.edit (ready : KeysReady [] nowhere s) (key : K) (edit : List α → List α)
    : KeysReady [] nowhere (s.editList key edit) := by
  unfold Server.editList
  split
  · rename_i value rest found
    split
    · exact ready
    · rename_i filled
      exact ready.setItems (ready.storable found) (.inl filled)
  · exact ready

theorem KeysReady.set (ready : KeysReady [] nowhere s) (key : K)
    : KeysReady [] nowhere (s.setKey key .other) := by
  have added : KeysReady [] nowhere (s.dbAdd key .other) := ready.dbAdd (by simp)
  unfold Server.setKey
  split
  · exact added
  · exact added

/-- The commands that keep every waiting client informed: no `SORT ... STORE` with a result stores
over a value at a key for which clients wait and which is not marked, and no `RESTORE` brings an
empty list.
-/
def CommandSafe (s : Server K α) : Command K α → Prop
  | .sortStore key items => items ≠ [] → s.db.lookup key ≠ none → Storable s key
  | .restore _ _ value => value ≠ .list []
  | _ => True

/-- A safe command leaves no list with waiting clients unmarked. -/
theorem KeysReady.runCommand (ready : KeysReady [] nowhere s) (client : Nat) (multi : Bool)
    (command : Command K α) (safe : CommandSafe s command)
    : KeysReady [] nowhere (s.runCommand client multi command) := by
  cases command with
  | push place key values => exact ready.push place key values
  | pop place key => exact ready.pop client place key
  | rpoplpush source target => exact ready.rpoplpush source target
  | bpop place keys => exact ready.bpop client multi place keys
  | brpoplpush source target => exact ready.brpoplpush client multi source target
  | rename nx source target => exact ready.rename nx source target
  | restore replace key value => exact ready.restore replace key safe
  | sortStore key items => exact ready.sortStore key items safe
  | edit key edit => exact ready.edit key edit
  | set key => exact ready.set key
  | del key => exact ready.dbDelete key

theorem QueuesAgree.runCommand (agree : QueuesAgree s) {client : Nat}
    (free : s.isBlocked client = false) (multi : Bool) (command : Command K α)
    : QueuesAgree (s.runCommand client multi command) := by
  cases command with
  | push place key values => exact agree.same (sameQueues_push s place key values)
  | pop place key => exact agree.same (sameQueues_pop s client place key)
  | rpoplpush source target => exact agree.same (sameQueues_rpoplpush s source target)
  | bpop place keys =>
      simp only [Server.runCommand, Server.blockingPopGenericCommand]
      split
      · exact agree.same (sameQueues_popList s client _ _ _)
      · exact agree
      · split
        · exact agree
        · exact agree.block free keys none _
  | brpoplpush source target =>
      simp only [Server.runCommand, Server.brpoplpushCommand]
      split
      · split
        · exact agree
        · exact agree.block free [source] (some target) false
      · exact agree
      · exact agree.same (sameQueues_rpoplpush s source target)
  | rename nx source target => exact agree.same (sameQueues_rename s nx source target)
  | restore replace key value => exact agree.same (sameQueues_restore s replace key value)
  | sortStore key items => exact agree.same (sameQueues_sortStore s key items)
  | edit key edit => exact agree.same (sameQueues_editList s key edit)
  | set key => exact agree.same (sameQueues_setKey s key .other)
  | del key => exact agree.same (sameQueues_dbDelete s key)

end Commands

end Redis.Lists
