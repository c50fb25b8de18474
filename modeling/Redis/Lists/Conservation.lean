import Redis.Lists.Runs
import Mathlib.Algebra.BigOperators.Group.Multiset.Basic
import Mathlib.Data.Finmap

/-! Blocking pops lose, duplicate and reorder nothing. -/

namespace Redis.Lists

variable {K α : Type} [DecidableEq K] {s t : Server K α} {key : K} {command : Command K α}
  {items rest : List α} {value : α}

-- The elements of the databases

def Value.elements : Value α → Multiset α
  | .list items => items
  | .other => 0

def elements (db : AList (fun _ : K => Value α)) : Multiset α :=
  (db.entries.map (fun entry => entry.2.elements)).sum

def elementsAt (db : AList (fun _ : K => Value α)) (key : K) : Multiset α :=
  ((db.lookup key).map Value.elements).getD 0

theorem elements_insert (db : AList (fun _ : K => Value α)) (key : K) (value : Value α)
    : elements (db.insert key value) = value.elements + elements (db.erase key) := by
  simp [elements, AList.entries_insert, AList.erase]

theorem elements_split (db : AList (fun _ : K => Value α)) (key : K)
    : elements db = elementsAt db key + elements (db.erase key) := by
  cases found : db.lookup key with
  | none =>
      have absent : key ∉ db := AList.lookup_eq_none.mp found
      have same : db.erase key = db := AList.ext (List.kerase_of_notMem_keys absent)
      simp [elementsAt, found, same]
  | some value =>
      have perm : (db.entries).Perm (⟨key, value⟩ :: (db.erase key).entries) := by
        refine List.lookup_ext db.nodupKeys ?_ ?_
        · exact (AList.insert key value db).nodupKeys
        · intro other stored
          by_cases same : other = key
          · subst same
            rw [List.dlookup_cons_eq]
            exact Iff.of_eq (congrArg (stored ∈ ·) found)
          · rw [List.dlookup_cons_ne _ _ same]
            exact Iff.of_eq (congrArg (stored ∈ ·) (AList.lookup_erase_ne same).symm)
      have sums := (perm.map (fun entry => entry.2.elements)).sum_eq
      rw [List.map_cons, List.sum_cons] at sums
      simpa [elementsAt, found, elements] using sums

theorem elementsAt_list {items : List α} (found : s.db.lookup key = some (.list items))
    : elementsAt s.db key = items := by
  simp [elementsAt, found, Value.elements]

theorem elements_setItems (s : Server K α) (key : K) (items : List α)
    : elements (s.setItems key items).db = items + elements (s.db.erase key) :=
  elements_insert s.db key (.list items)

theorem elements_dbAdd (s : Server K α) (key : K) (items : List α)
    : elements (s.dbAdd key (.list items)).db = items + elements (s.db.erase key) := by
  rw [Server.dbAdd, (signal_frame _ key).1]
  exact elements_insert s.db key (.list items)

theorem elements_deleteIfEmpty (s : Server K α) (key : K)
    : elements (s.deleteIfEmpty key).db = elements s.db := by
  unfold Server.deleteIfEmpty
  split
  · rename_i found
    rw [elements_split s.db key, elementsAt_list found]
    simp [Server.dbDelete]
  · rfl

theorem elements_pushed (place : Where) (values items : List α)
    : ((values.foldl (listTypePush place) items : List α) : Multiset α) = items + values := by
  induction values generalizing items with
  | nil => simp
  | cons value values ih =>
      have one : ((listTypePush place items value : List α) : Multiset α) = {value} + items := by
        cases place with
        | head => rfl
        | tail =>
            rw [listTypePush, ← Multiset.coe_add, add_comm]
            rfl
      rw [List.foldl_cons, ih, one, ← Multiset.cons_coe, ← Multiset.singleton_add]
      abel

theorem elements_popped {place : Where} (popped : listTypePop place items = some (value, rest))
    : (items : Multiset α) = {value} + rest := by
  cases items with
  | nil => cases place <;> cases popped
  | cons first more =>
      cases place with
      | head =>
          cases popped
          rfl
      | tail =>
          obtain ⟨rfl, rfl⟩ := Prod.mk.inj (Option.some.inj popped)
          have whole := List.dropLast_append_getLast (List.cons_ne_nil first more)
          have sums := congrArg (fun items : List α => (items : Multiset α)) whole
          simp only [← Multiset.coe_add] at sums
          rw [← sums, add_comm]
          rfl

theorem elements_handlePush {target : K} (list : s.db.lookup target ≠ some .other)
    : elements (s.rpoplpushHandlePush target value).db = {value} + elements s.db := by
  unfold Server.rpoplpushHandlePush
  rw [elements_split s.db target]
  split
  · rename_i absent
    rw [dbAdd_setItems, elements_dbAdd]
    simp [elementsAt, absent]
  · rename_i items found
    rw [elements_setItems, elementsAt_list found, ← add_assoc]
    rfl
  · rename_i found
    exact absurd found list

theorem handlePush_history (s : Server K α) (target : K) (value : α)
    : (s.rpoplpushHandlePush target value).pushed = s.pushed
      ∧ (s.rpoplpushHandlePush target value).returned = s.returned
      ∧ (s.rpoplpushHandlePush target value).served = s.served := by
  unfold Server.rpoplpushHandlePush
  split
  · rw [dbAdd_setItems]
    unfold Server.dbAdd Server.signalListAsReady
    dsimp only
    split
    · exact ⟨rfl, rfl, rfl⟩
    · split
      · exact ⟨rfl, rfl, rfl⟩
      · exact ⟨rfl, rfl, rfl⟩
  · exact ⟨rfl, rfl, rfl⟩
  · exact ⟨rfl, rfl, rfl⟩

-- Balance

/-- The elements that were there at the start and those pushed since are in the lists or have been
returned.
-/
def Balanced (start : Multiset α) (s : Server K α) : Prop :=
  start + s.pushed = elements s.db + (s.returned.map Prod.snd : List α)

section Balance

variable {start : Multiset α}

omit [DecidableEq K] in
theorem Balanced.congr (balanced : Balanced start s) (db : elements t.db = elements s.db)
    (pushed : t.pushed = s.pushed) (returned : t.returned = s.returned)
    : Balanced start t := by
  unfold Balanced at balanced ⊢
  rw [db, pushed, returned]
  exact balanced

theorem Balanced.push (balanced : Balanced start s) (place : Where) (key : K) (values : List α)
    : Balanced start (s.pushGenericCommand place key values) := by
  unfold Balanced at balanced ⊢
  rw [elements_split s.db key] at balanced
  cases values with
  | nil =>
      simp only [Server.pushGenericCommand]
      rw [elements_split s.db key]
      exact balanced
  | cons value values =>
      cases found : s.db.lookup key with
      | none =>
          have nothing : elementsAt s.db key = 0 := by simp [elementsAt, found]
          have history : (s.dbAdd key (.list [])).returned = s.returned := by
            unfold Server.dbAdd Server.signalListAsReady
            dsimp only
            split
            · rfl
            · split <;> rfl
          have sums : elements ((s.dbAdd key (.list [])).setItems key
              ((value :: values).foldl (listTypePush place) [])).db
              = ((value :: values : List α) : Multiset α) + elements (s.db.erase key) := by
            rw [dbAdd_setItems, elements_dbAdd, elements_pushed]
            simp
          rw [nothing, zero_add] at balanced
          simp only [Server.pushGenericCommand, found, sums]
          rw [← Multiset.coe_add, ← add_assoc, balanced]
          simp only [Server.setItems, history]
          abel
      | some old =>
          cases old with
          | other =>
              simp only [Server.pushGenericCommand, found]
              rw [elements_split s.db key]
              exact balanced
          | list items =>
              rw [elementsAt_list found] at balanced
              simp only [Server.pushGenericCommand, found, elements_setItems, elements_pushed]
              rw [← Multiset.coe_add, ← add_assoc, balanced]
              simp only [Server.setItems]
              abel

theorem Balanced.popList (balanced : Balanced start s) {place : Where}
    (found : s.db.lookup key = some (.list items))
    (popped : listTypePop place items = some (value, rest)) (client : Nat)
    : Balanced start (s.popList client key value rest) := by
  unfold Balanced at balanced ⊢
  rw [elements_split s.db key, elementsAt_list found, elements_popped popped] at balanced
  have stored : elements (s.popList client key value rest).db = rest + elements (s.db.erase key) :=
    (elements_deleteIfEmpty _ key).trans (elements_setItems s key rest)
  have history : (s.popList client key value rest).pushed = s.pushed
      ∧ (s.popList client key value rest).returned = s.returned ++ [(client, value)] := by
    unfold Server.popList Server.deleteIfEmpty Server.deliver
    split <;> exact ⟨rfl, rfl⟩
  rw [stored, history.1, history.2, balanced, List.map_append, ← Multiset.coe_add]
  change _ = _ + (_ + ({value} : Multiset α))
  abel

theorem Balanced.pop (balanced : Balanced start s) (client : Nat) (place : Where) (key : K)
    : Balanced start (s.popGenericCommand client place key) := by
  unfold Server.popGenericCommand
  split
  · rename_i items found
    split
    · rename_i value rest popped
      exact balanced.popList found popped client
    · exact balanced
  · exact balanced

theorem lookup_setItems_ne_other {target : K} {items : List α}
    (list : s.db.lookup target ≠ some .other)
    : (s.setItems key items).db.lookup target ≠ some .other := by
  by_cases same : target = key
  · subst same
    rw [Server.setItems, AList.lookup_insert]
    simp
  · rw [Server.setItems, AList.lookup_insert_ne same]
    exact list

theorem elements_moved {target : K} {place : Where} (found : s.db.lookup key = some (.list items))
    (popped : listTypePop place items = some (value, rest))
    (list : s.db.lookup target ≠ some .other)
    : elements ((s.setItems key rest).rpoplpushHandlePush target value).db = elements s.db := by
  rw [elements_handlePush (lookup_setItems_ne_other list), elements_setItems,
    elements_split s.db key, elementsAt_list found, elements_popped popped]
  abel

theorem Balanced.rpoplpush (balanced : Balanced start s) (source target : K)
    : Balanced start (s.rpoplpushCommand source target) := by
  unfold Server.rpoplpushCommand
  split
  · rename_i items found
    split
    · exact balanced
    · rename_i list
      split
      · rename_i value rest popped
        obtain ⟨pushed, returned, _⟩ := handlePush_history (s.setItems source rest) target value
        have kept : Balanced start ((s.setItems source rest).rpoplpushHandlePush target value) :=
          balanced.congr (elements_moved found popped list) pushed returned
        refine kept.congr (elements_deleteIfEmpty _ source) ?_ ?_
        · unfold Server.deleteIfEmpty
          split <;> rfl
        · unfold Server.deleteIfEmpty
          split <;> rfl
      · exact balanced
  · exact balanced

/-- The commands of this chapter. -/
def Command.isListCommand : Command K α → Bool
  | .push .. | .pop .. | .rpoplpush .. | .bpop .. | .brpoplpush .. => true
  | _ => false

theorem Balanced.runCommand (balanced : Balanced start s) (client : Nat) (multi : Bool)
    (listCommand : command.isListCommand = true)
    : Balanced start (s.runCommand client multi command) := by
  cases command with
  | push place key values => exact balanced.push place key values
  | pop place key => exact balanced.pop client place key
  | rpoplpush source target => exact balanced.rpoplpush source target
  | bpop place keys =>
      simp only [Server.runCommand, Server.blockingPopGenericCommand]
      split
      · rename_i key value rest search
        obtain ⟨items, found, popped⟩ := searchPop_found search
        exact balanced.popList found popped client
      · exact balanced
      · split
        · exact balanced
        · exact balanced.congr rfl rfl rfl
  | brpoplpush source target =>
      simp only [Server.runCommand, Server.brpoplpushCommand]
      split
      · split
        · exact balanced
        · exact balanced.congr rfl rfl rfl
      · exact balanced
      · exact balanced.rpoplpush source target
  | rename | restore | sortStore | edit | set | del => cases listCommand

-- Serving

theorem Balanced.serveFirst (balanced : Balanced start s) (agree : QueuesAgree s)
    {next : Server K α} (served : s.serveFirst key = some next)
    : Balanced start next := by
  obtain ⟨items, receiver, others, value, rest, found, _, _, _, popped, rfl⟩ :=
    serveFirst_some agree served
  have whole : elements s.db = {value} + (rest + elements (s.db.erase key)) := by
    rw [elements_split s.db key, elementsAt_list found, elements_popped popped, add_assoc]
  have taken : elements ((s.setItems key rest).unblockClient receiver).db
      = rest + elements (s.db.erase key) := elements_setItems s key rest
  unfold Server.serveClientBlockedOnList
  split
  · unfold Balanced at balanced ⊢
    simp only [Server.record, Server.deliver, taken, List.map_append, ← Multiset.coe_add]
    rw [whole] at balanced
    refine balanced.trans ?_
    change _ = _ + (_ + ({value} : Multiset α))
    simp only [Server.unblockClient, Server.setItems]
    abel
  · rename_i target _
    split
    · refine balanced.congr ?_ rfl rfl
      have stored : (((s.setItems key rest).unblockClient receiver).setItems key items).db
          = (s.setItems key items).db := AList.insert_insert _
      simp only [Server.record, listTypePush_pop popped]
      rw [stored, elements_setItems, elements_split s.db key, elementsAt_list found]
    · rename_i list
      obtain ⟨pushed, returned, _⟩ :=
        handlePush_history ((s.setItems key rest).unblockClient receiver) target value
      refine balanced.congr ?_ pushed returned
      simp only [Server.record]
      rw [elements_handlePush list, taken, whole]

theorem deleteIfEmpty_history (s : Server K α) (key : K)
    : (s.deleteIfEmpty key).pushed = s.pushed
      ∧ (s.deleteIfEmpty key).returned = s.returned
      ∧ (s.deleteIfEmpty key).served = s.served := by
  unfold Server.deleteIfEmpty
  split
  · exact ⟨rfl, rfl, rfl⟩
  · exact ⟨rfl, rfl, rfl⟩

end Balance

/-- What `handleClientsBlockedOnLists` keeps if serving one client keeps it. -/
structure KeptByServing (P : Server K α → Prop) : Prop where
  serveFirst : ∀ (s next : Server K α) key, QueuesAgree s → P s → s.serveFirst key = some next
    → P next
  marks : ∀ (s : Server K α) signaled readyKeys, P s
    → P { s with signaled := signaled, readyKeys := readyKeys }
  deleteIfEmpty : ∀ (s : Server K α) key, P s → P (s.deleteIfEmpty key)

section KeptByServing

variable {P : Server K α → Prop} {pending : List K}

theorem KeptByServing.serveClients (kept : KeptByServing P) (holds : P s)
    (serving : Serving pending key s) (numclients : Nat)
    : P (serveClients key numclients s) := by
  induction numclients generalizing s with
  | zero => exact holds
  | succ numclients ih =>
      rw [Lists.serveClients]
      split
      · exact holds
      · rename_i next served
        have first := kept.serveFirst s next key serving.agree holds served
        exact ih first (serving.serveFirst served).1

theorem KeptByServing.handleReadyKey (kept : KeptByServing P) (holds : P s)
    (handling : Handling (key :: pending) s)
    : P (s.handleReadyKey key) := by
  have unmarked := kept.marks s (Function.update s.signaled key false) s.readyKeys holds
  unfold Server.handleReadyKey
  dsimp only
  split
  · rename_i items found
    have serving
        : Serving pending key { s with signaled := Function.update s.signaled key false } :=
      ⟨handling.agree.same ⟨rfl, rfl, rfl⟩, handling.ready.unmark, items, found⟩
    exact kept.deleteIfEmpty _ key (kept.serveClients unmarked serving _)
  · exact unmarked

theorem KeptByServing.round (kept : KeptByServing P) (keys : List K) (holds : P s)
    (handling : Handling keys s)
    : P (keys.foldl Server.handleReadyKey s) := by
  induction keys generalizing s with
  | nil => exact holds
  | cons key keys ih => exact ih (kept.handleReadyKey holds handling) handling.handleReadyKey.1

theorem KeptByServing.handleClients (kept : KeptByServing P) (holds : P s)
    (handling : Handling [] s)
    : P s.handleClientsBlockedOnLists := by
  have all : ∀ rounds, P (handleRounds rounds s) := by
    intro rounds
    induction rounds generalizing s with
    | zero => exact holds
    | succ rounds ih =>
        rw [handleRounds]
        split
        · exact holds
        · have started := kept.marks s s.signaled [] holds
          exact ih (kept.round s.readyKeys started handling.start)
            (handling.start.round s.readyKeys).1
  exact all _

end KeptByServing

theorem Balanced.kept (start : Multiset α) : KeptByServing (K := K) (Balanced start) where
  serveFirst _ _ _ agree balanced served := balanced.serveFirst agree served
  marks _ _ _ balanced := balanced.congr rfl rfl rfl
  deleteIfEmpty s key balanced :=
    balanced.congr (elements_deleteIfEmpty s key) (deleteIfEmpty_history s key).1
      (deleteIfEmpty_history s key).2.1

-- Order

/-- The clients that were served, each once and before those that blocked later on the key. -/
structure ServedOnce (s : Server K α) : Prop where
  inOrder : ∀ entry ∈ s.served, ∀ later ∈ entry.waiting, entry.seq < later
  once : (s.served.map (·.seq)).Nodup
  gone : ∀ entry ∈ s.served, entry.seq < s.clock ∧ ∀ b ∈ s.blocked, b.seq ≠ entry.seq
  undone : ∀ entry ∈ s.served, ∀ before after, entry.outcome = .wrongType before after
    → after = before

section ServedOnce

omit [DecidableEq K] in
theorem ServedOnce.congr (servedOnce : ServedOnce s) (served : t.served = s.served)
    (blocked : ∀ b ∈ t.blocked, b ∈ s.blocked ∨ s.clock ≤ b.seq) (clock : s.clock ≤ t.clock)
    : ServedOnce t := by
  obtain ⟨inOrder, once, gone, undone⟩ := servedOnce
  refine ⟨?_, ?_, ?_, ?_⟩
  · rw [served]
    exact inOrder
  · rw [served]
    exact once
  · rw [served]
    intro entry member
    obtain ⟨before, absent⟩ := gone entry member
    refine ⟨Nat.lt_of_lt_of_le before clock, fun b inside => ?_⟩
    rcases blocked b inside with old | new
    · exact absent b old
    · exact Nat.ne_of_gt (Nat.lt_of_lt_of_le before new)
  · rw [served]
    exact undone

omit [DecidableEq K] in
theorem ServedOnce.same (servedOnce : ServedOnce s) (served : t.served = s.served)
    (same : SameQueues s t)
    : ServedOnce t := by
  refine servedOnce.congr served ?_ (Nat.le_of_eq same.clock.symm)
  intro b inside
  rw [same.blocked] at inside
  exact .inl inside

theorem ServedOnce.record (servedOnce : ServedOnce s) {receiver : Blocked K}
    {outcome : Outcome K α} (known : receiver.seq < s.clock)
    (fresh : ∀ entry ∈ s.served, entry.seq ≠ receiver.seq)
    (first : ∀ b ∈ s.blocked, b.seq ≠ receiver.seq ∧ (key ∈ b.keys → receiver.seq < b.seq))
    (undone : ∀ before after, outcome = .wrongType before after → after = before)
    : ServedOnce (s.record receiver key outcome) := by
  obtain ⟨inOrder, once, gone, allUndone⟩ := servedOnce
  refine ⟨?_, ?_, ?_, ?_⟩
  · intro entry member later waits
    rcases List.mem_append.mp member with old | new
    · exact inOrder entry old later waits
    · rw [List.mem_singleton.mp new] at waits ⊢
      obtain ⟨b, inside, rfl⟩ := List.mem_map.mp waits
      obtain ⟨member, onKey⟩ := List.mem_filter.mp inside
      exact (first b member).2 (by simpa using onKey)
  · simp only [Server.record, List.map_append]
    refine List.nodup_append.mpr ⟨once, by simp, ?_⟩
    intro seq inside other last
    obtain ⟨entry, member, rfl⟩ := List.mem_map.mp inside
    have same : other = receiver.seq := by simpa using last
    rw [same]
    exact fresh entry member
  · intro entry member
    rcases List.mem_append.mp member with old | new
    · exact gone entry old
    · rw [List.mem_singleton.mp new]
      exact ⟨known, fun b inside => (first b inside).1⟩
  · intro entry member
    rcases List.mem_append.mp member with old | new
    · exact allUndone entry old
    · rw [List.mem_singleton.mp new]
      exact undone

theorem serve_record (s : Server K α) (receiver : Blocked K) (key : K) (place : Where) (value : α)
    (before rest : List α)
    : ∃ (t : Server K α) (outcome : Outcome K α),
        s.serveClientBlockedOnList receiver key place value before rest
          = t.record receiver key outcome
        ∧ SameQueues s t
        ∧ t.served = s.served
        ∧ ∀ first last, outcome = .wrongType first last
          → first = before ∧ last = listTypePush place rest value := by
  unfold Server.serveClientBlockedOnList
  split
  · refine ⟨_, _, rfl, ⟨rfl, rfl, rfl⟩, rfl, ?_⟩
    intro first last same
    cases same
  · rename_i target _
    split
    · refine ⟨_, _, rfl, ⟨rfl, rfl, rfl⟩, rfl, ?_⟩
      intro first last same
      obtain ⟨rfl, rfl⟩ := Outcome.wrongType.inj same
      exact ⟨rfl, rfl⟩
    · refine ⟨_, _, rfl, sameQueues_handlePush s target value,
        (handlePush_history s target value).2.2, ?_⟩
      intro first last same
      cases same

theorem QueuesAgree.before_others (agree : QueuesAgree s) {receiver b : Blocked K}
    {others : List (Blocked K)} (waiting : waitingOn s.blocked key = receiver :: others)
    (inside : b ∈ s.blocked) (different : b ≠ receiver) (onKey : key ∈ b.keys)
    : receiver.seq < b.seq := by
  have sorted : (receiver :: others).Pairwise (fun earlier later => earlier.seq < later.seq) := by
    rw [← waiting]
    exact agree.ordered.sublist List.filter_sublist
  have waits : b ∈ receiver :: others := by
    rw [← waiting]
    exact List.mem_filter.mpr ⟨inside, by simpa using onKey⟩
  rcases List.mem_cons.mp waits with same | later
  · exact absurd same different
  · exact List.rel_of_pairwise_cons sorted later

theorem QueuesAgree.seq_injective (agree : QueuesAgree s) {b c : Blocked K} (first : b ∈ s.blocked)
    (second : c ∈ s.blocked) (different : b ≠ c)
    : b.seq ≠ c.seq := by
  have apart : (s.blocked.map (·.seq)).Nodup :=
    List.pairwise_map.mpr (agree.ordered.imp (fun before => Nat.ne_of_lt before))
  intro same
  exact different (List.inj_on_of_nodup_map apart first second same)

theorem ServedOnce.serveFirst (servedOnce : ServedOnce s) (agree : QueuesAgree s)
    {next : Server K α} (served : s.serveFirst key = some next)
    : ServedOnce next := by
  obtain ⟨items, receiver, others, value, rest, found, member, waiting, _, popped, rfl⟩ :=
    serveFirst_some agree served
  obtain ⟨t, outcome, result, same, history, undone⟩ :=
    serve_record ((s.setItems key rest).unblockClient receiver) receiver key receiver.place value
      items rest
  have remaining : ∀ b ∈ t.blocked, b ∈ s.blocked ∧ b ≠ receiver := by
    intro b inside
    rw [same.blocked] at inside
    obtain ⟨old, different⟩ := List.mem_filter.mp inside
    refine ⟨old, ?_⟩
    rintro rfl
    simp at different
  rw [result]
  refine ServedOnce.record ?_ ?_ ?_ ?_ ?_
  · exact servedOnce.congr history (fun b inside => .inl (remaining b inside).1)
      (Nat.le_of_eq same.clock.symm)
  · rw [same.clock]
    exact agree.clock receiver member
  · rw [history]
    intro entry old
    exact ((servedOnce.gone entry old).2 receiver member).symm
  · intro b inside
    obtain ⟨old, different⟩ := remaining b inside
    exact ⟨agree.seq_injective old member different, agree.before_others waiting old different⟩
  · intro before after wrong
    obtain ⟨rfl, rfl⟩ := undone before after wrong
    exact listTypePush_pop popped

theorem ServedOnce.kept : KeptByServing (ServedOnce : Server K α → Prop) where
  serveFirst _ _ _ agree servedOnce served := servedOnce.serveFirst agree served
  marks _ _ _ servedOnce := servedOnce.same rfl ⟨rfl, rfl, rfl⟩
  deleteIfEmpty s key servedOnce :=
    servedOnce.same (deleteIfEmpty_history s key).2.2 (sameQueues_deleteIfEmpty s key)

theorem runCommand_served (s : Server K α) (client : Nat) (multi : Bool)
    (listCommand : command.isListCommand = true)
    : (s.runCommand client multi command).served = s.served := by
  have popped : ∀ key value rest, (s.popList client key value rest).served = s.served :=
    fun key value rest => (deleteIfEmpty_history (s.setItems key rest) key).2.2
  have moved : ∀ source target, (s.rpoplpushCommand source target).served = s.served := by
    intro source target
    unfold Server.rpoplpushCommand
    split
    · split
      · rfl
      · split
        · rename_i value rest _
          exact (deleteIfEmpty_history _ source).2.2.trans
            (handlePush_history (s.setItems source rest) target value).2.2
        · rfl
    · rfl
  cases command with
  | push place key values =>
      simp only [Server.runCommand, Server.pushGenericCommand]
      split
      · rfl
      · rfl
      · rfl
      · simp only [Server.setItems, Server.dbAdd, Server.signalListAsReady]
        split
        · rfl
        · split <;> rfl
  | pop place key =>
      simp only [Server.runCommand, Server.popGenericCommand]
      split
      · split
        · exact popped key _ _
        · rfl
      · rfl
  | rpoplpush source target => exact moved source target
  | bpop place keys =>
      simp only [Server.runCommand, Server.blockingPopGenericCommand]
      split
      · exact popped _ _ _
      · rfl
      · split <;> rfl
  | brpoplpush source target =>
      simp only [Server.runCommand, Server.brpoplpushCommand]
      split
      · split <;> rfl
      · rfl
      · exact moved source target
  | rename | restore | sortStore | edit | set | del => cases listCommand

theorem runCommand_blocked (s : Server K α) (client : Nat) (multi : Bool) (command : Command K α)
    : (∀ b ∈ (s.runCommand client multi command).blocked, b ∈ s.blocked ∨ s.clock ≤ b.seq)
      ∧ s.clock ≤ (s.runCommand client multi command).clock := by
  have same : ∀ t : Server K α, SameQueues s t
      → (∀ b ∈ t.blocked, b ∈ s.blocked ∨ s.clock ≤ b.seq) ∧ s.clock ≤ t.clock := by
    intro t same
    rw [same.blocked, same.clock]
    exact ⟨fun b inside => .inl inside, Nat.le_refl _⟩
  have blocks : ∀ keys target blpop,
      (∀ b ∈ (s.blockForKeys client keys target blpop).blocked, b ∈ s.blocked ∨ s.clock ≤ b.seq)
      ∧ s.clock ≤ (s.blockForKeys client keys target blpop).clock := by
    intro keys target blpop
    refine ⟨fun b inside => ?_, Nat.le_succ _⟩
    rcases List.mem_append.mp inside with old | new
    · exact .inl old
    · rw [List.mem_singleton.mp new]
      exact .inr (Nat.le_refl _)
  cases multi with
  | true => exact same _ (runCommand_multi s client command)
  | false =>
      cases command with
      | bpop place keys =>
          simp only [Server.runCommand, Server.blockingPopGenericCommand]
          split
          · exact same _ (sameQueues_popList s client _ _ _)
          · exact same _ (.refl s)
          · exact blocks keys none _
      | brpoplpush source target =>
          simp only [Server.runCommand, Server.brpoplpushCommand]
          split
          · exact blocks [source] (some target) false
          · exact same _ (.refl s)
          · exact same _ (sameQueues_rpoplpush s source target)
      | push place key values => exact same _ (sameQueues_push s place key values)
      | pop place key => exact same _ (sameQueues_pop s client place key)
      | rpoplpush source target => exact same _ (sameQueues_rpoplpush s source target)
      | rename nx source target => exact same _ (sameQueues_rename s nx source target)
      | restore replace key value => exact same _ (sameQueues_restore s replace key value)
      | sortStore key items => exact same _ (sameQueues_sortStore s key items)
      | edit key edit => exact same _ (sameQueues_editList s key edit)
      | set key => exact same _ (sameQueues_setKey s key .other)
      | del key => exact same _ (sameQueues_dbDelete s key)

theorem ServedOnce.runCommand (servedOnce : ServedOnce s) (client : Nat) (multi : Bool)
    (listCommand : command.isListCommand = true)
    : ServedOnce (s.runCommand client multi command) := by
  obtain ⟨blocked, clock⟩ := runCommand_blocked s client multi command
  exact servedOnce.congr (runCommand_served s client multi listCommand) blocked clock

end ServedOnce

-- Runs

/-- What every list command keeps besides the tables. -/
structure Conserved (start : Multiset α) (s : Server K α) : Prop where
  quiescent : Quiescent s
  balanced : Balanced start s
  servedOnce : ServedOnce s

/-- The events with list commands. -/
def Event.isListEvent : Event K α → Bool
  | .command _ proc => proc.isListCommand
  | .exec _ commands => commands.all Command.isListCommand
  | .timeout _ => true

theorem CommandSafe.of_list (listCommand : command.isListCommand = true)
    : CommandSafe s command := by
  cases command with
  | push | pop | rpoplpush | bpop | brpoplpush => trivial
  | rename | restore | sortStore | edit | set | del => cases listCommand

theorem CommandsSafe.of_list {commands : List (Command K α)}
    (listCommands : ∀ command ∈ commands, command.isListCommand = true) (client : Nat)
    : CommandsSafe client s commands := by
  induction commands generalizing s with
  | nil => trivial
  | cons command commands ih =>
      obtain ⟨first, rest⟩ := List.forall_mem_cons.mp listCommands
      exact ⟨.of_list first, ih rest⟩

theorem runCommands_kept {P : Server K α → Prop} {client : Nat} {commands : List (Command K α)}
    (kept : ∀ (s : Server K α), ∀ command ∈ commands, P s → P (s.runCommand client true command))
    (holds : P s)
    : P (s.runCommands client commands) := by
  induction commands generalizing s with
  | nil => exact holds
  | cons command commands ih =>
      have first := kept s command List.mem_cons_self holds
      exact ih (fun s other member => kept s other (List.mem_cons_of_mem _ member)) first

theorem Conserved.handleClients {start : Multiset α} (handling : Handling [] s)
    (balanced : Balanced start s) (servedOnce : ServedOnce s)
    : Conserved start s.handleClientsBlockedOnLists where
  quiescent := handling.handleClients
  balanced := (Balanced.kept start).handleClients balanced handling
  servedOnce := ServedOnce.kept.handleClients servedOnce handling

theorem Conserved.step {start : Multiset α} (conserved : Conserved start s) {event : Event K α}
    (listEvent : event.isListEvent = true)
    : Conserved start (s.step event) := by
  obtain ⟨quiescent, balanced, servedOnce⟩ := conserved
  obtain ⟨agree, ready⟩ := quiescent.handling
  cases event with
  | command client command =>
      have listCommand : command.isListCommand = true := listEvent
      rw [Server.step]
      split
      · exact ⟨quiescent, balanced, servedOnce⟩
      · rename_i free
        refine Conserved.handleClients ⟨?_, ?_⟩ ?_ ?_
        · exact agree.runCommand (Bool.eq_false_iff.mpr free) false command
        · exact ready.runCommand client false command (.of_list listCommand)
        · exact balanced.runCommand client false listCommand
        · exact servedOnce.runCommand client false listCommand
  | exec client commands =>
      have each : ∀ command ∈ commands, command.isListCommand = true := by
        simpa [Event.isListEvent] using listEvent
      rw [Server.step]
      split
      · exact ⟨quiescent, balanced, servedOnce⟩
      · refine Conserved.handleClients ?_ (runCommands_kept ?_ balanced)
          (runCommands_kept ?_ servedOnce)
        · exact quiescent.handling.runCommands (.of_list each client)
        · intro s command member balanced
          exact balanced.runCommand client true (each command member)
        · intro s command member servedOnce
          exact servedOnce.runCommand client true (each command member)
  | timeout client =>
      have next := quiescent.timeout client
      simp only [Server.step, Server.timeoutClient] at next ⊢
      split
      · exact ⟨quiescent, balanced, servedOnce⟩
      · rename_i receiver found
        simp only [found] at next
        refine ⟨next, balanced.congr rfl rfl rfl, servedOnce.congr rfl ?_ (Nat.le_refl _)⟩
        intro b inside
        exact .inl (List.mem_of_mem_filter inside)

theorem Conserved.run {start : Multiset α} (conserved : Conserved start s)
    (events : List (Event K α)) (listEvents : ∀ event ∈ events, event.isListEvent = true)
    : Conserved start (events.foldl Server.step s) := by
  induction events generalizing s with
  | nil => exact conserved
  | cons event events ih =>
      obtain ⟨first, rest⟩ := List.forall_mem_cons.mp listEvents
      exact ih (conserved.step first) rest

/-- The state at a quiescent point of a run of list commands. -/
structure BlockingPopsCorrect (start : Multiset α) (s : Server K α) : Prop where
  /-- The loop of `handleClientsBlockedOnLists` is at its end. -/
  terminated : s.readyKeys = []
  /-- Every element is in one list or was returned to one client. -/
  balanced : Balanced start s
  /-- Clients are served once, in the order in which they blocked, and a pop for a destination of
  the wrong type is undone.
  -/
  servedOnce : ServedOnce s
  /-- The queues have the blocked clients and no others. -/
  queues : ∀ key, s.blockingKeys key = (waitingOn s.blocked key).map (·.client)
  /-- A destination of the wrong type is refused at once if the source is there. -/
  refused : ∀ source target, s.db.lookup target = some .other
    → s.rpoplpushCommand source target = s
  noEmptyList : NoEmptyList s.db

theorem rpoplpush_refused {source target : K} (wrong : s.db.lookup target = some .other)
    : s.rpoplpushCommand source target = s := by
  unfold Server.rpoplpushCommand
  split
  · rw [wrong]
  · rfl

/-- Blocking pops lose, duplicate and reorder nothing. -/
theorem blocking_pops_correct (db : AList (fun _ : K => Value α)) (filled : NoEmptyList db)
    (events : List (Event K α)) (listEvents : ∀ event ∈ events, event.isListEvent = true)
    : BlockingPopsCorrect (elements db) (events.foldl Server.step (startServer db)) := by
  have started : Conserved (elements db) (startServer db) := by
    refine ⟨startServer_quiescent filled, ?_, ?_, List.nodup_nil, ?_, ?_⟩
    · simp [Balanced, startServer]
    · intro entry member
      cases member
    · intro entry member
      cases member
    · intro entry member
      cases member
  obtain ⟨⟨⟨agree, ready⟩, terminated⟩, balanced, servedOnce⟩ := started.run events listEvents
  exact {
    terminated := terminated
    balanced := balanced
    servedOnce := servedOnce
    queues := agree.queues
    refused := fun _ _ wrong => rpoplpush_refused wrong
    noEmptyList := ready.nonempty }

/-- A client waits on two keys with its destination the same as its source, another one pops. -/
theorem blocking_pops_correct_queue
    : BlockingPopsCorrect 0
        ([Event.command 1 (.bpop .head [7, 8, 7]), .command 2 (.brpoplpush 7 7),
          .exec 3 [.push .tail 7 [5, 6], .pop .head 8]].foldl Server.step
            (startServer ∅ : Server Nat Nat)) :=
  blocking_pops_correct ∅ (fun key => by simp) _ (by decide)

end Redis.Lists
