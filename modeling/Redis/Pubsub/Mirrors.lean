import Redis.Pubsub.Subscriptions

/-! Every subscription is stored twice: with the client, and with the channel or among all patterns.
-/

namespace Redis.Pubsub

open Redis.Library

namespace Server

variable {s s' : Server} {r r' : ClientRef} {channel pattern : Robj} {f : Client → Client}

-- Changes of one client

@[simp]
theorem pubsubChannels_modify : (s.modify r f).pubsubChannels = s.pubsubChannels := rfl

@[simp]
theorem pubsubPatterns_modify : (s.modify r f).pubsubPatterns = s.pubsubPatterns := rfl

theorem own_modify_self (live : s.live r = true) : (s.modify r f).own r = f (s.own r) := by
  obtain ⟨c, found⟩ := Option.isSome_iff_exists.mp live
  simp [own, modify, found]

theorem own_modify_other (other : r' ≠ r) : (s.modify r f).own r' = s.own r' := by
  simp [own, modify, Function.update_of_ne other]

theorem own_modify_keeps {α : Type} (field : Client → α) (keeps : ∀ c, field (f c) = field c)
    : field ((s.modify r f).own r') = field (s.own r') := by
  by_cases same : r' = r
  · subst same
    cases found : s.client r' with
    | none => simp [own, modify, found]
    | some c => simp [own, modify, found, keeps]
  · rw [own_modify_other same]

@[simp]
theorem live_modify : (s.modify r f).live r' = s.live r' := by
  by_cases same : r' = r
  · subst same
    simp [live, modify]
  · simp [live, modify, Function.update_of_ne same]

theorem live_of_own (subscribed : s.own r ≠ {}) : s.live r = true := by
  cases found : s.client r with
  | none => exact absurd (by simp [own, found]) subscribed
  | some c => simp [live, found]

theorem live_of_channel (there : channel ∈ (s.own r).channels) : s.live r = true := by
  apply live_of_own
  intro none
  simp [none] at there

theorem live_of_pattern (there : pattern ∈ (s.own r).patterns) : s.live r = true := by
  apply live_of_own
  intro none
  simp [none] at there

/-- At most the subscriptions and the output of one client change. -/
structure Changed (r : ClientRef) (s s' : Server) : Prop where
  others : ∀ r' ≠ r, s'.client r' = s.client r'
  live : s'.live r = s.live r
  pubsub : (s'.own r).pubsub = (s.own r).pubsub
  clients : s'.clients = s.clients

namespace Changed

variable {s'' : Server}

theorem refl : Changed r s s := ⟨fun _ _ => rfl, rfl, rfl, rfl⟩

theorem trans (first : Changed r s s') (second : Changed r s' s'') : Changed r s s'' where
  others r' other := (second.others r' other).trans (first.others r' other)
  live := second.live.trans first.live
  pubsub := second.pubsub.trans first.pubsub
  clients := second.clients.trans first.clients

theorem modify (keeps : ∀ c, (f c).pubsub = c.pubsub) : Changed r s (s.modify r f) where
  others r' other := by simp [Server.modify, Function.update_of_ne other]
  live := live_modify
  pubsub := own_modify_keeps _ keeps
  clients := rfl

theorem own_other (changed : Changed r s s') (other : r' ≠ r) : s'.own r' = s.own r' := by
  rw [own, changed.others r' other, ← own]

end Changed

-- The tables

/-- The patterns of a client in `server.pubsub_patterns`. -/
def patternsOf (s : Server) (r : ClientRef) : List Robj :=
  (s.pubsubPatterns.filter (·.client = r)).map (·.pattern)

/-- What the tables of the server and those of the clients say about each other. -/
structure Tables (s : Server) : Prop where
  channels : ∀ r channel, (s.subscribers channel).count r = (s.own r).channels.count channel
  patterns : ∀ r, s.patternsOf r = (s.own r).patterns
  channelsOnce : ∀ r, (s.own r).channels.Nodup
  patternsOnce : ∀ r, (s.own r).patterns.Nodup
  inhabited : ∀ channel, s.pubsubChannels channel ≠ some []

theorem Tables.congr (tables : Tables s) (channels : s'.pubsubChannels = s.pubsubChannels)
    (patterns : s'.pubsubPatterns = s.pubsubPatterns)
    (ownChannels : ∀ r, (s'.own r).channels = (s.own r).channels)
    (ownPatterns : ∀ r, (s'.own r).patterns = (s.own r).patterns)
    : Tables s' where
  channels r channel := by
    rw [ownChannels, ← tables.channels r channel, subscribers, channels, ← subscribers]
  patterns r := by rw [ownPatterns, ← tables.patterns r, patternsOf, patterns, ← patternsOf]
  channelsOnce r := by rw [ownChannels]; exact tables.channelsOnce r
  patternsOnce r := by rw [ownPatterns]; exact tables.patternsOnce r
  inhabited := by rw [channels]; exact tables.inhabited

theorem Tables.modify (tables : Tables s) (channels : ∀ c, (f c).channels = c.channels)
    (patterns : ∀ c, (f c).patterns = c.patterns)
    : Tables (s.modify r f) :=
  tables.congr rfl rfl (fun _ => own_modify_keeps _ channels) fun _ => own_modify_keeps _ patterns

theorem Tables.listed (tables : Tables s) (there : channel ∈ (s.own r).channels)
    : ∃ clients, s.pubsubChannels channel = some clients ∧ r ∈ clients := by
  have counted : 0 < (s.subscribers channel).count r := by
    rw [tables.channels]
    exact List.count_pos_iff.mpr there
  have mem : r ∈ s.subscribers channel := List.count_pos_iff.mp counted
  cases found : s.pubsubChannels channel with
  | none => simp [subscribers, found] at mem
  | some clients => exact ⟨clients, rfl, by simpa [subscribers, found] using mem⟩

theorem Tables.stored (tables : Tables s) (there : pattern ∈ (s.own r).patterns)
    : ⟨r, pattern⟩ ∈ s.pubsubPatterns := by
  rw [← tables.patterns r] at there
  obtain ⟨⟨client, _⟩, mem, rfl⟩ := List.mem_map.mp there
  obtain ⟨stored, same⟩ := List.mem_filter.mp mem
  obtain rfl : client = r := by simpa using same
  exact stored

-- One channel or pattern

/-- The subscriptions of one kind of a client are the ones that are wanted, those of the other kind
stay, and the tables agree.
-/
structure Resubscribed (r : ClientRef) (taken kept : Client → List Robj) (wanted : Robj → Prop)
    (s s' : Server)
    : Prop where
  tables : Tables s'
  changed : Changed r s s'
  kept : kept (s'.own r) = kept (s.own r)
  taken : ∀ name, name ∈ taken (s'.own r) ↔ wanted name

section Resubscribed

variable {taken kept : Client → List Robj} {wanted wanted' : Robj → Prop}

theorem Resubscribed.none (tables : Tables s)
    : Resubscribed r taken kept (· ∈ taken (s.own r)) s s :=
  ⟨tables, .refl, rfl, fun _ => Iff.rfl⟩

theorem Resubscribed.trans {s'' : Server} (first : Resubscribed r taken kept wanted s s')
    (second : Resubscribed r taken kept wanted' s' s'')
    : Resubscribed r taken kept wanted' s s'' where
  tables := second.tables
  changed := first.changed.trans second.changed
  kept := second.kept.trans first.kept
  taken := second.taken

theorem Resubscribed.wants (first : Resubscribed r taken kept wanted s s')
    (same : ∀ name, wanted name ↔ wanted' name)
    : Resubscribed r taken kept wanted' s s' :=
  { first with taken := fun name => (first.taken name).trans (same name) }

theorem Resubscribed.addReply (first : Resubscribed r taken kept wanted s s')
    (takenKept : ∀ c reply, taken { c with reply } = taken c)
    (keptKept : ∀ c reply, kept { c with reply } = kept c) (reply : Reply)
    : Resubscribed r taken kept wanted s (s'.addReply r reply) where
  tables := first.tables.modify (fun _ => rfl) fun _ => rfl
  changed := first.changed.trans (.modify fun _ => rfl)
  kept := (own_modify_keeps kept fun c => keptKept c _).trans first.kept
  taken name := by
    rw [Server.addReply, own_modify_keeps taken fun c => takenKept c _]
    exact first.taken name

end Resubscribed

-- Channels

theorem Tables.replaceChannel {entry : Option (List ClientRef)} (tables : Tables s)
    (changed : Changed r s s')
    (channels : s'.pubsubChannels = Function.update s.pubsubChannels channel entry)
    (patterns : s'.pubsubPatterns = s.pubsubPatterns)
    (kept : (s'.own r).patterns = (s.own r).patterns) (inhabited : entry ≠ some [])
    (once : (s'.own r).channels.Nodup)
    (here : (entry.getD []).count r = (s'.own r).channels.count channel)
    (elsewhere
      : ∀ other ≠ channel, (s'.own r).channels.count other = (s.own r).channels.count other)
    (others : ∀ r' ≠ r, (entry.getD []).count r' = (s.subscribers channel).count r')
    : Tables s' := by
  have replaced : s'.subscribers channel = entry.getD [] := by simp [subscribers, channels]
  have untouched : ∀ other ≠ channel, s'.subscribers other = s.subscribers other := by
    intro other differs
    simp [subscribers, channels, Function.update_of_ne differs]
  refine ⟨fun r' other => ?_, fun r' => ?_, fun r' => ?_, fun r' => ?_, fun other => ?_⟩
  · by_cases client : r' = r <;> by_cases same : other = channel
    · subst client same
      rw [replaced, here]
    · subst client
      rw [untouched other same, tables.channels, elsewhere other same]
    · subst same
      rw [replaced, others r' client, changed.own_other client, tables.channels]
    · rw [untouched other same, changed.own_other client, tables.channels]
  · rw [patternsOf, patterns, ← patternsOf, tables.patterns]
    by_cases client : r' = r
    · rw [client, kept]
    · rw [changed.own_other client]
  · by_cases client : r' = r
    · rwa [client]
    · rw [changed.own_other client]
      exact tables.channelsOnce r'
  · by_cases client : r' = r
    · rw [client, kept]
      exact tables.patternsOnce r
    · rw [changed.own_other client]
      exact tables.patternsOnce r'
  · rw [channels]
    by_cases same : other = channel
    · rwa [same, Function.update_self]
    · rw [Function.update_of_ne same]
      exact tables.inhabited other

theorem linkChannel_eq (s : Server) (r : ClientRef) (channel : Robj)
    : s.linkChannel r channel
      = { s.modify r fun c => { c with channels := c.channels ++ [channel] } with
          pubsubChannels :=
            Function.update s.pubsubChannels channel (some (s.subscribers channel ++ [r])) } := by
  unfold linkChannel
  cases found : s.pubsubChannels channel <;> simp [subscribers, found]

theorem linkChannel_ok (tables : Tables s) (live : s.live r = true)
    (absent : channel ∉ (s.own r).channels)
    : Resubscribed r Client.channels Client.patterns
        (fun name => name ∈ (s.own r).channels ∨ name = channel) s (s.linkChannel r channel) := by
  have own : (s.linkChannel r channel).own r
      = { s.own r with channels := (s.own r).channels ++ [channel] } := by
    rw [linkChannel_eq]
    exact own_modify_self live
  have changed : Changed r s (s.linkChannel r channel) := by
    rw [linkChannel_eq]
    have one : Changed r s (s.modify r fun c => { c with channels := c.channels ++ [channel] }) :=
      .modify fun _ => rfl
    exact ⟨one.others, one.live, one.pubsub, one.clients⟩
  refine ⟨?_, changed, by rw [own], fun name => by simp [own]⟩
  have listed : (s.linkChannel r channel).pubsubChannels
      = Function.update s.pubsubChannels channel (some (s.subscribers channel ++ [r])) := by
    rw [linkChannel_eq]
  have stored : (s.linkChannel r channel).pubsubPatterns = s.pubsubPatterns := by
    rw [linkChannel_eq]
    rfl
  apply tables.replaceChannel changed listed stored
  · rw [own]
  · simp
  · rw [own]
    exact List.nodup_append.mpr ⟨tables.channelsOnce r, List.nodup_singleton _,
      fun a mem b single same => absent (by rw [← List.mem_singleton.mp single, ← same]; exact mem)⟩
  · simp [own, tables.channels]
  · intro other differs
    simp [own, Ne.symm differs]
  · intro r' client
    simp [Ne.symm client]

theorem unlinkChannel_ok (tables : Tables s) (there : channel ∈ (s.own r).channels)
    : ∃ s',
        s.unlinkChannel r channel = .ok s'
        ∧ Resubscribed r Client.channels Client.patterns
          (fun name => name ∈ (s.own r).channels ∧ name ≠ channel) s s' := by
  obtain ⟨clients, found, mem⟩ := tables.listed there
  have subscribed : s.subscribers channel = clients := by simp [subscribers, found]
  let entry := if (clients.erase r).length = 0 then none else some (clients.erase r)
  have listed : entry.getD [] = clients.erase r := by
    simp only [entry]
    split
    · next empty => exact (List.length_eq_zero_iff.mp empty).symm
    · rfl
  let s' : Server :=
    { s.modify r fun c => { c with channels := c.channels.erase channel } with
      pubsubChannels := Function.update s.pubsubChannels channel entry }
  have own : s'.own r = { s.own r with channels := (s.own r).channels.erase channel } :=
    own_modify_self (live_of_channel there)
  have changed : Changed r s s' := by
    have one : Changed r s
        (s.modify r fun c => { c with channels := c.channels.erase channel }) :=
      .modify fun _ => rfl
    exact ⟨one.others, one.live, one.pubsub, one.clients⟩
  refine ⟨s', ?_, ?_, changed, by rw [own], fun name => ?_⟩
  · simp [unlinkChannel, found, mem, s', entry]
  · have replaced : s'.pubsubChannels = Function.update s.pubsubChannels channel entry := rfl
    apply tables.replaceChannel changed replaced rfl
    · rw [own]
    · simp only [entry]
      split
      · simp
      · next some => exact fun empty => some (by rw [Option.some.inj empty]; rfl)
    · rw [own]
      exact (tables.channelsOnce r).erase channel
    · rw [listed, own, List.count_erase_self, List.count_erase_self, ← subscribed, tables.channels]
    · intro other differs
      rw [own, List.count_erase_of_ne differs]
    · intro r' client
      rw [listed, List.count_erase_of_ne client, subscribed]
  · rw [own, (tables.channelsOnce r).mem_erase_iff, and_comm]

-- Patterns

theorem Tables.replacePatterns (tables : Tables s) (changed : Changed r s s')
    (channels : s'.pubsubChannels = s.pubsubChannels)
    (kept : (s'.own r).channels = (s.own r).channels) (once : (s'.own r).patterns.Nodup)
    (here : s'.patternsOf r = (s'.own r).patterns)
    (others : ∀ r' ≠ r, s'.patternsOf r' = s.patternsOf r')
    : Tables s' := by
  refine ⟨fun r' channel => ?_, fun r' => ?_, fun r' => ?_, fun r' => ?_, ?_⟩
  · rw [subscribers, channels, ← subscribers, tables.channels]
    by_cases client : r' = r
    · rw [client, kept]
    · rw [changed.own_other client]
  · by_cases client : r' = r
    · rwa [client]
    · rw [others r' client, changed.own_other client, tables.patterns]
  · by_cases client : r' = r
    · rw [client, kept]
      exact tables.channelsOnce r
    · rw [changed.own_other client]
      exact tables.channelsOnce r'
  · by_cases client : r' = r
    · rwa [client]
    · rw [changed.own_other client]
      exact tables.patternsOnce r'
  · rw [channels]
    exact tables.inhabited

theorem linkPattern_ok (tables : Tables s) (live : s.live r = true)
    (absent : pattern ∉ (s.own r).patterns)
    : Resubscribed r Client.patterns Client.channels
        (fun name => name ∈ (s.own r).patterns ∨ name = pattern) s (s.linkPattern r pattern) := by
  have own : (s.linkPattern r pattern).own r
      = { s.own r with patterns := (s.own r).patterns ++ [pattern] } := own_modify_self live
  have changed : Changed r s (s.linkPattern r pattern) := by
    have one : Changed r s (s.modify r fun c => { c with patterns := c.patterns ++ [pattern] }) :=
      .modify fun _ => rfl
    exact ⟨one.others, one.live, one.pubsub, one.clients⟩
  have appended : ∀ r',
      (s.linkPattern r pattern).patternsOf r'
        = s.patternsOf r' ++ if r = r' then [pattern] else [] := by
    intro r'
    by_cases client : r = r' <;> simp [patternsOf, linkPattern, client]
  refine ⟨?_, changed, by rw [own], fun name => by simp [own]⟩
  apply tables.replacePatterns changed rfl
  · rw [own]
  · rw [own]
    exact List.nodup_append.mpr ⟨tables.patternsOnce r, List.nodup_singleton _,
      fun a mem b single same => absent (by rw [← List.mem_singleton.mp single, ← same]; exact mem)⟩
  · rw [appended, own, tables.patterns, if_pos rfl]
  · intro r' client
    rw [appended, if_neg (Ne.symm client), List.append_nil]

theorem patternsOf_erase (stored : List PubsubPattern) (r : ClientRef) (pattern : Robj)
    : (((stored.erase ⟨r, pattern⟩).filter (·.client = r)).map (·.pattern))
      = ((stored.filter (·.client = r)).map (·.pattern)).erase pattern := by
  induction stored with
  | nil => rfl
  | cons head rest ih =>
      rcases head with ⟨client, other⟩
      by_cases same : client = r
      · subst same
        by_cases found : other = pattern
        · subst found
          simp
        · have differs : (⟨client, other⟩ : PubsubPattern) ≠ ⟨client, pattern⟩ := by
            simpa using found
          rw [List.erase_cons_tail (by simpa using differs)]
          simp only [List.filter_cons_of_pos, decide_true, List.map_cons]
          rw [ih, List.erase_cons_tail (by simpa using found)]
      · have differs : (⟨client, other⟩ : PubsubPattern) ≠ ⟨r, pattern⟩ := by simp [same]
        rw [List.erase_cons_tail (by simpa using differs),
          List.filter_cons_of_neg (by simpa using same),
          ih, List.filter_cons_of_neg (by simpa using same)]

theorem patternsOf_erase_other {r' : ClientRef} (stored : List PubsubPattern) (other : r' ≠ r)
    (pattern : Robj)
    : (stored.erase ⟨r, pattern⟩).filter (·.client = r') = stored.filter (·.client = r') := by
  rw [← List.erase_filter]
  exact List.erase_of_not_mem fun mem => by simp [Ne.symm other] at mem

/-- An unsubscribed pattern leaves both tables. -/
theorem unlinkPattern_ok (tables : Tables s) (there : pattern ∈ (s.own r).patterns)
    : ∃ s',
        s.unlinkPattern r pattern = .ok s'
        ∧ Resubscribed r Client.patterns Client.channels
          (fun name => name ∈ (s.own r).patterns ∧ name ≠ pattern) s s' := by
  let s' : Server :=
    { s.modify r fun c => { c with patterns := c.patterns.erase pattern } with
      pubsubPatterns := s.pubsubPatterns.erase ⟨r, pattern⟩ }
  have own : s'.own r = { s.own r with patterns := (s.own r).patterns.erase pattern } :=
    own_modify_self (live_of_pattern there)
  have changed : Changed r s s' := by
    have one : Changed r s
        (s.modify r fun c => { c with patterns := c.patterns.erase pattern }) :=
      .modify fun _ => rfl
    exact ⟨one.others, one.live, one.pubsub, one.clients⟩
  refine ⟨s', ?_, ?_, changed, by rw [own], fun name => ?_⟩
  · simp [unlinkPattern, tables.stored there, s']
  · apply tables.replacePatterns changed rfl
    · rw [own]
    · rw [own]
      exact (tables.patternsOnce r).erase pattern
    · rw [own, ← tables.patterns r]
      exact patternsOf_erase s.pubsubPatterns r pattern
    · intro r' client
      exact congrArg (List.map (·.pattern)) (patternsOf_erase_other s.pubsubPatterns client pattern)
  · rw [own, (tables.patternsOnce r).mem_erase_iff, and_comm]

end Server

end Redis.Pubsub
