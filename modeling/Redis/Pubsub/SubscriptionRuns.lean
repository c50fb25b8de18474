import Redis.Pubsub.Delivery

/-! Runs of the commands and of clients that leave: the tables agree, and messages arrive. -/

namespace Redis.Pubsub

open Redis.Library

namespace Server

variable {s s' : Server} {r : ClientRef} {channel pattern : Robj}
  {taken kept : Client → List Robj} {wanted : Robj → Prop}

-- One subscription

theorem pubsubSubscribeChannel_ok (tables : Tables s) (live : s.live r = true) (channel : Robj)
    : Resubscribed r Client.channels Client.patterns
        (fun name => name ∈ (s.own r).channels ∨ name = channel)
        s (s.pubsubSubscribeChannel r channel) := by
  unfold pubsubSubscribeChannel addReplySubscription
  by_cases there : channel ∈ (s.own r).channels
  · rw [if_pos there]
    have same : Resubscribed r Client.channels Client.patterns
        (fun name => name ∈ (s.own r).channels ∨ name = channel) s s := by
      apply (Resubscribed.none tables).wants
      intro name
      exact ⟨.inl, fun wanted => wanted.elim id fun named => named ▸ there⟩
    exact same.addReply (fun _ _ => rfl) (fun _ _ => rfl) _
  · rw [if_neg there]
    exact (linkChannel_ok tables live there).addReply (fun _ _ => rfl) (fun _ _ => rfl) _

theorem pubsubSubscribePattern_ok (tables : Tables s) (live : s.live r = true) (pattern : Robj)
    : Resubscribed r Client.patterns Client.channels
        (fun name => name ∈ (s.own r).patterns ∨ name = pattern)
        s (s.pubsubSubscribePattern r pattern) := by
  unfold pubsubSubscribePattern addReplySubscription
  by_cases there : pattern ∈ (s.own r).patterns
  · rw [if_pos there]
    have same : Resubscribed r Client.patterns Client.channels
        (fun name => name ∈ (s.own r).patterns ∨ name = pattern) s s := by
      apply (Resubscribed.none tables).wants
      intro name
      exact ⟨.inl, fun wanted => wanted.elim id fun named => named ▸ there⟩
    exact same.addReply (fun _ _ => rfl) (fun _ _ => rfl) _
  · rw [if_neg there]
    exact (linkPattern_ok tables live there).addReply (fun _ _ => rfl) (fun _ _ => rfl) _

theorem pubsubUnsubscribeChannel_ok (tables : Tables s) (r : ClientRef) (channel : Robj)
    (notify : Bool)
    : ∃ s' retval,
        s.pubsubUnsubscribeChannel r channel notify = .ok (s', retval)
        ∧ Resubscribed r Client.channels Client.patterns
          (fun name => name ∈ (s.own r).channels ∧ name ≠ channel) s s' := by
  have dropped
      : ∃ s' retval,
          s.dropChannel r channel = .ok (s', retval)
          ∧ Resubscribed r Client.channels Client.patterns
            (fun name => name ∈ (s.own r).channels ∧ name ≠ channel) s s' := by
    unfold dropChannel
    by_cases there : channel ∈ (s.own r).channels
    · obtain ⟨s', unlinked, resubscribed⟩ := unlinkChannel_ok tables there
      exact ⟨s', 1, by rw [if_pos there, unlinked]; rfl, resubscribed⟩
    · refine ⟨s, 0, by rw [if_neg there], (Resubscribed.none tables).wants fun name => ?_⟩
      exact ⟨fun mem => ⟨mem, fun named => there (named ▸ mem)⟩, And.left⟩
  obtain ⟨s', retval, ran, resubscribed⟩ := dropped
  unfold pubsubUnsubscribeChannel
  rw [ran, ok_andThen]
  cases notify with
  | false => exact ⟨s', retval, rfl, resubscribed⟩
  | true =>
      exact ⟨_, retval, rfl, resubscribed.addReply (fun _ _ => rfl) (fun _ _ => rfl) _⟩

theorem pubsubUnsubscribePattern_ok (tables : Tables s) (r : ClientRef) (pattern : Robj)
    (notify : Bool)
    : ∃ s' retval,
        s.pubsubUnsubscribePattern r pattern notify = .ok (s', retval)
        ∧ Resubscribed r Client.patterns Client.channels
          (fun name => name ∈ (s.own r).patterns ∧ name ≠ pattern) s s' := by
  have dropped
      : ∃ s' retval,
          s.dropPattern r pattern = .ok (s', retval)
          ∧ Resubscribed r Client.patterns Client.channels
            (fun name => name ∈ (s.own r).patterns ∧ name ≠ pattern) s s' := by
    unfold dropPattern
    by_cases there : pattern ∈ (s.own r).patterns
    · obtain ⟨s', unlinked, resubscribed⟩ := unlinkPattern_ok tables there
      exact ⟨s', 1, by rw [if_pos there, unlinked]; rfl, resubscribed⟩
    · refine ⟨s, 0, by rw [if_neg there], (Resubscribed.none tables).wants fun name => ?_⟩
      exact ⟨fun mem => ⟨mem, fun named => there (named ▸ mem)⟩, And.left⟩
  obtain ⟨s', retval, ran, resubscribed⟩ := dropped
  unfold pubsubUnsubscribePattern
  rw [ran, ok_andThen]
  cases notify with
  | false => exact ⟨s', retval, rfl, resubscribed⟩
  | true =>
      exact ⟨_, retval, rfl, resubscribed.addReply (fun _ _ => rfl) (fun _ _ => rfl) _⟩

-- Loops over subscriptions

theorem subscribeEach_ok {add : Server → Robj → Server} (tables : Tables s)
    (live : s.live r = true)
    (adds
      : ∀ s name,
          Tables s → s.live r = true
          → Resubscribed r taken kept (fun other => other ∈ taken (s.own r) ∨ other = name) s
            (add s name))
    (names : List Robj)
    : Resubscribed r taken kept (fun other => other ∈ taken (s.own r) ∨ other ∈ names) s
        (names.foldl add s) := by
  induction names generalizing s with
  | nil => exact (Resubscribed.none tables).wants fun other => by simp
  | cons name rest ih =>
      have first := adds s name tables live
      refine (first.trans (ih first.tables (first.changed.live.trans live))).wants fun other => ?_
      rw [first.taken, List.mem_cons, or_assoc]

theorem Resubscribed.drop {s'' : Server} {done : List Robj} {name : Robj}
    (first
      : Resubscribed r taken kept (fun other => other ∈ taken (s.own r) ∧ other ∉ done) s s')
    (second
      : Resubscribed r taken kept (fun other => other ∈ taken (s'.own r) ∧ other ≠ name) s' s'')
    : Resubscribed r taken kept (fun other => other ∈ taken (s.own r) ∧ other ∉ done ++ [name])
        s s'' := by
  refine (first.trans second).wants fun other => ?_
  rw [first.taken, List.mem_append, List.mem_singleton, not_or, and_assoc]

theorem unsubscribeEach_ok {drop : Server → Robj → Except Fault (Server × Nat)}
    (tables : Tables s)
    (drops
      : ∀ s name,
          Tables s
          → ∃ s' retval,
              drop s name = .ok (s', retval)
              ∧ Resubscribed r taken kept (fun other => other ∈ taken (s.own r) ∧ other ≠ name)
                s s')
    (names : List Robj)
    : ∃ s',
        names.foldlM (fun s name => Prod.fst <$> drop s name) s = .ok s'
        ∧ Resubscribed r taken kept (fun other => other ∈ taken (s.own r) ∧ other ∉ names)
          s s' := by
  have start : Resubscribed r taken kept (fun other => other ∈ taken (s.own r) ∧ other ∉ []) s s :=
    (Resubscribed.none tables).wants fun other => by simp
  apply foldlM_list_ok start
  intro done name s' reached
  obtain ⟨s'', retval, dropped, second⟩ := drops s' name reached.tables
  exact ⟨s'', by rw [dropped, map_ok], reached.drop second⟩

theorem unsubscribeCounted_ok {drop : Server → Robj → Except Fault (Server × Nat)}
    (tables : Tables s)
    (drops
      : ∀ s name,
          Tables s
          → ∃ s' retval,
              drop s name = .ok (s', retval)
              ∧ Resubscribed r taken kept (fun other => other ∈ taken (s.own r) ∧ other ≠ name)
                s s')
    (names : List Robj)
    : ∃ s' count,
        names.foldlM
            (fun (s, count) name => do
              let (s, retval) ← drop s name
              return (s, count + retval))
            (s, 0)
          = .ok (s', count)
        ∧ Resubscribed r taken kept (fun other => other ∈ taken (s.own r) ∧ other ∉ names)
          s s' := by
  have start : Resubscribed r taken kept (fun other => other ∈ taken (s.own r) ∧ other ∉ []) s s :=
    (Resubscribed.none tables).wants fun other => by simp
  let inv (done : List Robj) (state : Server × Nat) : Prop :=
    Resubscribed r taken kept (fun other => other ∈ taken (s.own r) ∧ other ∉ done) s state.1
  have looped
      : ∃ final,
          names.foldlM
              (fun (s, count) name => do
                let (s, retval) ← drop s name
                return (s, count + retval))
              (s, 0)
            = .ok final
          ∧ inv names final := by
    apply foldlM_list_ok start
    rintro done name ⟨s', count⟩ reached
    obtain ⟨s'', retval, dropped, second⟩ := drops s' name reached.tables
    refine ⟨(s'', count + retval), ?_, reached.drop second⟩
    dsimp only
    rw [dropped, ok_andThen]
    rfl
  obtain ⟨⟨s', count⟩, ran, resubscribed⟩ := looped
  exact ⟨s', count, ran, resubscribed⟩

theorem pubsubUnsubscribeAllChannels_ok (tables : Tables s) (r : ClientRef)
    (order : IterationOrder) (notify : Bool)
    : ∃ s' count,
        s.pubsubUnsubscribeAllChannels r order notify = .ok (s', count)
        ∧ Resubscribed r Client.channels Client.patterns (fun _ => False) s s' := by
  obtain ⟨s', count, ran, resubscribed⟩ := unsubscribeCounted_ok tables
    (fun s name tables => s.pubsubUnsubscribeChannel_ok tables r name notify)
    (order.keys (s.own r).channels)
  have emptied : Resubscribed r Client.channels Client.patterns (fun _ => False) s s' := by
    refine resubscribed.wants fun name => ?_
    rw [(order.perm (s.own r).channels).mem_iff]
    simp
  unfold pubsubUnsubscribeAllChannels
  rw [ran, ok_andThen]
  refine ⟨_, count, rfl, ?_⟩
  split
  · exact emptied.addReply (fun _ _ => rfl) (fun _ _ => rfl) _
  · exact emptied

theorem pubsubUnsubscribeAllPatterns_ok (tables : Tables s) (r : ClientRef) (notify : Bool)
    : ∃ s' count,
        s.pubsubUnsubscribeAllPatterns r notify = .ok (s', count)
        ∧ Resubscribed r Client.patterns Client.channels (fun _ => False) s s' := by
  obtain ⟨s', count, ran, resubscribed⟩ := unsubscribeCounted_ok tables
    (fun s name tables => s.pubsubUnsubscribePattern_ok tables r name notify) (s.own r).patterns
  have emptied : Resubscribed r Client.patterns Client.channels (fun _ => False) s s' :=
    resubscribed.wants fun name => by simp
  unfold pubsubUnsubscribeAllPatterns
  rw [ran, ok_andThen]
  refine ⟨_, count, rfl, ?_⟩
  split
  · exact emptied.addReply (fun _ _ => rfl) (fun _ _ => rfl) _
  · exact emptied

-- Commands

structure Consistent (s : Server) : Prop where
  tables : Tables s
  flagged : ∀ r, (s.own r).pubsub = true ↔ (s.own r).clientSubscriptionsCount ≠ 0
  once : s.clients.Nodup
  listed : ∀ r, r ∈ s.clients ↔ s.live r = true

theorem clientSubscriptionsCount_ne_zero {c : Client}
    : c.clientSubscriptionsCount ≠ 0 ↔ c.channels ≠ [] ∨ c.patterns ≠ [] := by
  rw [Client.clientSubscriptionsCount, ne_eq, Nat.add_eq_zero_iff, List.length_eq_zero_iff,
    List.length_eq_zero_iff, not_and_or]

theorem Consistent.changed (consistent : Consistent s) (tables : Tables s')
    (others : ∀ r' ≠ r, s'.client r' = s.client r') (live : s'.live r = s.live r)
    (clients : s'.clients = s.clients)
    (flagged : (s'.own r).pubsub = true ↔ (s'.own r).clientSubscriptionsCount ≠ 0)
    : Consistent s' where
  tables := tables
  flagged r' := by
    by_cases same : r' = r
    · rwa [same]
    · rw [own, others r' same, ← own]
      exact consistent.flagged r'
  once := by rw [clients]; exact consistent.once
  listed r' := by
    rw [clients, consistent.listed]
    by_cases same : r' = r
    · rw [same, live]
    · rw [Server.live, Server.live, others r' same]

theorem Consistent.deliver (consistent : Consistent s) (replies : List (ClientRef × Reply))
    : Consistent (s.deliver replies) := by
  obtain ⟨channels, patterns, clients⟩ := s.deliver_tables replies
  have own : ∀ r,
      ((s.deliver replies).own r).channels = (s.own r).channels
      ∧ ((s.deliver replies).own r).patterns = (s.own r).patterns
      ∧ ((s.deliver replies).own r).pubsub = (s.own r).pubsub := by
    intro r
    rw [Server.own, deliver_client, Server.own]
    cases s.client r <;> exact ⟨rfl, rfl, rfl⟩
  refine ⟨consistent.tables.congr channels patterns (fun r => (own r).1) fun r => (own r).2.1,
    fun r => ?_, ?_, fun r => ?_⟩
  · rw [(own r).2.2, Client.clientSubscriptionsCount, (own r).1, (own r).2.1]
    exact consistent.flagged r
  · rw [clients]
    exact consistent.once
  · rw [clients, consistent.listed, Server.live, Server.live, deliver_client, Option.isSome_map]

theorem Consistent.setFlag (consistent : Consistent s) (changed : Changed r s s')
    (tables : Tables s') (live : s.live r = true)
    (subscribed : (s'.own r).clientSubscriptionsCount ≠ 0)
    : Consistent (s'.modify r fun c => { c with pubsub := true }) := by
  have kept : Tables (s'.modify r fun c => { c with pubsub := true }) :=
    tables.modify (fun _ => rfl) fun _ => rfl
  apply consistent.changed kept
  · intro r' other
    rw [← changed.others r' other]
    simp [Server.modify, Function.update_of_ne other]
  · rw [live_modify, changed.live]
  · exact changed.clients
  · rw [own_modify_self (changed.live.trans live)]
    exact iff_of_true rfl subscribed

theorem Consistent.clearFlag (consistent : Consistent s) (changed : Changed r s s')
    (tables : Tables s')
    (shrunk
      : (s'.own r).clientSubscriptionsCount ≠ 0 → (s.own r).clientSubscriptionsCount ≠ 0)
    : Consistent (s'.clearPubsubFlag r) := by
  unfold clearPubsubFlag
  by_cases none : (s'.own r).clientSubscriptionsCount = 0
  · rw [if_pos none]
    have kept : Tables (s'.modify r fun c => { c with pubsub := false }) :=
      tables.modify (fun _ => rfl) fun _ => rfl
    apply consistent.changed kept
    · intro r' other
      rw [← changed.others r' other]
      simp [Server.modify, Function.update_of_ne other]
    · rw [live_modify, changed.live]
    · exact changed.clients
    · have count
          : ((s'.modify r fun c => { c with pubsub := false }).own r).clientSubscriptionsCount
            = 0 := by
        have keeps : ∀ c : Client,
            { c with pubsub := false }.clientSubscriptionsCount = c.clientSubscriptionsCount :=
          fun _ => rfl
        rw [own_modify_keeps _ keeps, none]
      refine iff_of_false ?_ (not_not.mpr count)
      cases found : s'.client r <;> simp [Server.own, Server.modify, found]
  · rw [if_neg none]
    apply consistent.changed tables changed.others changed.live changed.clients
    rw [changed.pubsub, consistent.flagged]
    exact iff_of_true (shrunk none) none

theorem subscribeCommand_ok (consistent : Consistent s) (live : s.live r = true)
    (channels : List Robj)
    : Consistent (s.subscribeCommand r channels) := by
  unfold subscribeCommand
  cases channels with
  | nil => exact consistent.deliver [(r, .wrongNumberOfArguments)]
  | cons first rest =>
      rw [if_neg (List.cons_ne_nil first rest)]
      have added := subscribeEach_ok consistent.tables live
        (fun s name tables live => s.pubsubSubscribeChannel_ok tables live name) (first :: rest)
      apply consistent.setFlag added.changed added.tables live
      rw [clientSubscriptionsCount_ne_zero]
      have mem : first ∈ first :: rest := List.mem_cons_self
      exact .inl (List.ne_nil_of_mem ((added.taken first).mpr (.inr mem)))

theorem psubscribeCommand_ok (consistent : Consistent s) (live : s.live r = true)
    (patterns : List Robj)
    : Consistent (s.psubscribeCommand r patterns) := by
  unfold psubscribeCommand
  cases patterns with
  | nil => exact consistent.deliver [(r, .wrongNumberOfArguments)]
  | cons first rest =>
      rw [if_neg (List.cons_ne_nil first rest)]
      have added := subscribeEach_ok consistent.tables live
        (fun s name tables live => s.pubsubSubscribePattern_ok tables live name) (first :: rest)
      apply consistent.setFlag added.changed added.tables live
      rw [clientSubscriptionsCount_ne_zero]
      have mem : first ∈ first :: rest := List.mem_cons_self
      exact .inr (List.ne_nil_of_mem ((added.taken first).mpr (.inr mem)))

theorem Resubscribed.shrunk (resubscribed : Resubscribed r taken kept wanted s s')
    (fewer : ∀ name, wanted name → name ∈ taken (s.own r))
    (left : taken (s'.own r) ≠ [] ∨ kept (s'.own r) ≠ [])
    : taken (s.own r) ≠ [] ∨ kept (s.own r) ≠ [] := by
  refine left.imp (fun some => ?_) fun some => by rwa [← resubscribed.kept]
  obtain ⟨name, mem⟩ := List.exists_mem_of_ne_nil _ some
  exact List.ne_nil_of_mem (fewer name ((resubscribed.taken name).mp mem))

theorem unsubscribeCommand_ok (consistent : Consistent s) (r : ClientRef)
    (order : IterationOrder) (channels : List Robj)
    : ∃ s', s.unsubscribeCommand r order channels = .ok s' ∧ Consistent s' := by
  have dropped
      : ∃ s' wanted,
          (if channels = [] then Prod.fst <$> s.pubsubUnsubscribeAllChannels r order true
            else
              channels.foldlM
                (fun s channel => Prod.fst <$> s.pubsubUnsubscribeChannel r channel true) s)
            = .ok s'
          ∧ Resubscribed r Client.channels Client.patterns wanted s s'
          ∧ ∀ name, wanted name → name ∈ (s.own r).channels := by
    by_cases all : channels = []
    · obtain ⟨s', count, ran, resubscribed⟩ :=
        pubsubUnsubscribeAllChannels_ok consistent.tables r order true
      exact ⟨s', _, by rw [if_pos all, ran, map_ok], resubscribed, fun _ => False.elim⟩
    · obtain ⟨s', ran, resubscribed⟩ := unsubscribeEach_ok consistent.tables
        (fun s name tables => s.pubsubUnsubscribeChannel_ok tables r name true) channels
      exact ⟨s', _, by rw [if_neg all, ran], resubscribed, fun _ => And.left⟩
  obtain ⟨s', wanted, ran, resubscribed, fewer⟩ := dropped
  refine ⟨s'.clearPubsubFlag r, by rw [unsubscribeCommand, ran, map_ok], ?_⟩
  apply consistent.clearFlag resubscribed.changed resubscribed.tables
  rw [clientSubscriptionsCount_ne_zero, clientSubscriptionsCount_ne_zero]
  exact resubscribed.shrunk fewer

theorem punsubscribeCommand_ok (consistent : Consistent s) (r : ClientRef)
    (patterns : List Robj)
    : ∃ s', s.punsubscribeCommand r patterns = .ok s' ∧ Consistent s' := by
  have dropped
      : ∃ s' wanted,
          (if patterns = [] then Prod.fst <$> s.pubsubUnsubscribeAllPatterns r true
            else
              patterns.foldlM
                (fun s pattern => Prod.fst <$> s.pubsubUnsubscribePattern r pattern true) s)
            = .ok s'
          ∧ Resubscribed r Client.patterns Client.channels wanted s s'
          ∧ ∀ name, wanted name → name ∈ (s.own r).patterns := by
    by_cases all : patterns = []
    · obtain ⟨s', count, ran, resubscribed⟩ :=
        pubsubUnsubscribeAllPatterns_ok consistent.tables r true
      exact ⟨s', _, by rw [if_pos all, ran, map_ok], resubscribed, fun _ => False.elim⟩
    · obtain ⟨s', ran, resubscribed⟩ := unsubscribeEach_ok consistent.tables
        (fun s name tables => s.pubsubUnsubscribePattern_ok tables r name true) patterns
      exact ⟨s', _, by rw [if_neg all, ran], resubscribed, fun _ => And.left⟩
  obtain ⟨s', wanted, ran, resubscribed, fewer⟩ := dropped
  refine ⟨s'.clearPubsubFlag r, by rw [punsubscribeCommand, ran, map_ok], ?_⟩
  apply consistent.clearFlag resubscribed.changed resubscribed.tables
  rw [clientSubscriptionsCount_ne_zero, clientSubscriptionsCount_ne_zero]
  exact fun left => (resubscribed.shrunk fewer left.symm).symm

theorem publishCommand_eq (s : Server) (stringmatch : Robj → Robj → Bool) (r : ClientRef)
    (channel message : Robj)
    : s.publishCommand stringmatch r channel message
      = s.deliver (s.deliveries stringmatch channel message
        ++ [(r, .integer (s.deliveries stringmatch channel message).length)]) := by
  rw [publishCommand, pubsubPublishMessage_eq, deliver_append]
  rfl

-- Clients that come and go

theorem createClient_ok (consistent : Consistent s) (free : s.live r = false)
    : Consistent (s.createClient r) := by
  have absent : s.client r = none := by simpa [live] using free
  have own : ∀ r', (s.createClient r).own r' = s.own r' := by
    intro r'
    by_cases same : r' = r
    · subst same
      simp [createClient, Server.own, absent]
    · simp [createClient, Server.own, Function.update_of_ne same]
  refine ⟨consistent.tables.congr rfl rfl (fun r' => by rw [own]) fun r' => by rw [own],
    fun r' => ?_, ?_, fun r' => ?_⟩
  · rw [own]
    exact consistent.flagged r'
  · refine List.nodup_append.mpr ⟨consistent.once, List.nodup_singleton r, ?_⟩
    rintro client mem other single rfl
    rw [List.mem_singleton.mp single, consistent.listed, free] at mem
    cases mem
  · rw [createClient, List.mem_append, consistent.listed, List.mem_singleton]
    by_cases same : r' = r
    · simp [live, same]
    · simp [live, same]

theorem freeClient_ok (consistent : Consistent s) (r : ClientRef) (order : IterationOrder)
    : ∃ s', s.freeClient r order = .ok s' ∧ Consistent s' ∧ s'.live r = false := by
  obtain ⟨s₁, _, first, noChannels⟩ :=
    pubsubUnsubscribeAllChannels_ok consistent.tables r order false
  obtain ⟨s₂, _, second, noPatterns⟩ :=
    pubsubUnsubscribeAllPatterns_ok noChannels.tables r false
  have changed : Changed r s s₂ := noChannels.changed.trans noPatterns.changed
  let s' : Server :=
    { s₂ with client := Function.update s₂.client r none, clients := s₂.clients.erase r }
  have channels : (s₂.own r).channels = [] := by
    rw [noPatterns.kept]
    exact List.eq_nil_iff_forall_not_mem.mpr fun name => (noChannels.taken name).mp
  have patterns : (s₂.own r).patterns = [] :=
    List.eq_nil_iff_forall_not_mem.mpr fun name => (noPatterns.taken name).mp
  have freed : s'.own r = {} := by simp [s', own]
  have others : ∀ r' ≠ r, s'.own r' = s₂.own r' := by
    intro r' other
    simp [s', own, Function.update_of_ne other]
  have ran : s.freeClient r order = .ok s' := by
    rw [freeClient, first, ok_andThen]
    dsimp only
    rw [second, ok_andThen]
    rfl
  refine ⟨s', ran, ?_, by simp [s', live]⟩
  refine ⟨noPatterns.tables.congr rfl rfl (fun r' => ?_) fun r' => ?_, fun r' => ?_, ?_, fun r' =>
    ?_⟩
  · by_cases same : r' = r
    · rw [same, freed, channels]
    · rw [others r' same]
  · by_cases same : r' = r
    · rw [same, freed, patterns]
    · rw [others r' same]
  · by_cases same : r' = r
    · rw [same, freed]
      decide
    · rw [others r' same, changed.own_other same]
      exact consistent.flagged r'
  · rw [show s'.clients = s.clients.erase r from congrArg (List.erase · r) changed.clients]
    exact consistent.once.erase r
  · rw [show s'.clients = s.clients.erase r from congrArg (List.erase · r) changed.clients,
      consistent.once.mem_erase_iff, consistent.listed]
    by_cases same : r' = r
    · simp [same, s', live]
    · simp [same, s', live, changed.others r' same]

-- Runs

theorem init_ok : Consistent init where
  tables := ⟨fun _ _ => rfl, fun _ => rfl, fun _ => .nil, fun _ => .nil, fun _ => nofun⟩
  flagged _ := by simp [init, own, Client.clientSubscriptionsCount]
  once := .nil
  listed _ := by simp [init, live]

theorem step_ok (consistent : Consistent s) (stringmatch : Robj → Robj → Bool) (event : Event)
    : ∃ s', s.step stringmatch event = .ok s' ∧ Consistent s' := by
  unfold step
  by_cases possible : event.possible s = true
  · rw [if_pos possible]
    cases event with
    | createClient r =>
        exact ⟨_, rfl, createClient_ok consistent (by simpa [Event.possible] using possible)⟩
    | subscribe r channels => exact ⟨_, rfl, subscribeCommand_ok consistent possible channels⟩
    | unsubscribe r order channels => exact unsubscribeCommand_ok consistent r order channels
    | psubscribe r patterns => exact ⟨_, rfl, psubscribeCommand_ok consistent possible patterns⟩
    | punsubscribe r patterns => exact punsubscribeCommand_ok consistent r patterns
    | publish r channel message =>
        refine ⟨_, rfl, ?_⟩
        rw [publishCommand_eq]
        exact consistent.deliver _
    | freeClient r order =>
        obtain ⟨s', ran, kept, _⟩ := freeClient_ok consistent r order
        exact ⟨s', ran, kept⟩
  · rw [if_neg possible]
    exact ⟨s, rfl, consistent⟩

theorem run_ok (stringmatch : Robj → Robj → Bool) (events : List Event)
    : ∃ s, run stringmatch events = .ok s ∧ Consistent s := by
  have start : Consistent init := init_ok
  let inv (_ : List Event) (s : Server) : Prop := Consistent s
  have looped : ∃ s, run stringmatch events = .ok s ∧ inv events s :=
    foldlM_list_ok start fun _ event s consistent => step_ok consistent stringmatch event
  exact looped

-- The tables mirror each other, and messages arrive

/-- Every subscription is stored exactly twice, and nothing else is stored. -/
structure Mirrored (s : Server) : Prop where
  channels
    : ∀ r c channel,
        s.client r = some c
        → (s.subscribers channel).count r = if channel ∈ c.channels then 1 else 0
  patterns
    : ∀ r c pattern,
        s.client r = some c
        → s.pubsubPatterns.count ⟨r, pattern⟩ = if pattern ∈ c.patterns then 1 else 0
  once : ∀ r c, s.client r = some c → c.channels.Nodup ∧ c.patterns.Nodup
  inhabited : ∀ channel, s.pubsubChannels channel ≠ some []
  channelsLive : ∀ channel, ∀ r ∈ s.subscribers channel, s.live r = true
  patternsLive : ∀ pat ∈ s.pubsubPatterns, s.live pat.client = true
  flagged
    : ∀ r c, s.client r = some c → (c.pubsub = true ↔ c.channels ≠ [] ∨ c.patterns ≠ [])
  /-- `server.clients` holds each client that was not freed once. -/
  listed : s.clients.Nodup ∧ ∀ r, r ∈ s.clients ↔ s.live r = true

/-- How many messages the clients receive for one that is published. -/
def receivers (s : Server) (stringmatch : Robj → Robj → Bool) (channel message : Robj) : Nat :=
  (s.clients.map fun r => ((s.own r).received stringmatch channel message).length).sum

/-- Each client gets the messages that its subscriptions ask for, and who published gets their
number.
-/
structure Published (s s' : Server) (stringmatch : Robj → Robj → Bool) (r : ClientRef)
    (channel message : Robj)
    : Prop where
  client
    : ∀ r',
        s'.client r'
        = (s.client r').map fun c =>
          { c with
            reply := c.reply ++ c.received stringmatch channel message
              ++ if r' = r then [.integer (s.receivers stringmatch channel message)] else [] }
  tables
    : s'.pubsubChannels = s.pubsubChannels ∧ s'.pubsubPatterns = s.pubsubPatterns
      ∧ s'.clients = s.clients

theorem Consistent.mirrored (consistent : Consistent s) : Mirrored s := by
  have found : ∀ {r c}, s.client r = some c → s.own r = c := fun there => by simp [own, there]
  have tables := consistent.tables
  refine ⟨fun r c channel there => ?_, fun r c pattern there => ?_, fun r c there => ?_,
    tables.inhabited, fun channel r mem => ?_, fun pat mem => ?_, fun r c there => ?_,
    consistent.once, consistent.listed⟩
  · rw [tables.channels, found there]
    have once := tables.channelsOnce r
    rw [found there] at once
    exact once.count
  · have counted : s.pubsubPatterns.count ⟨r, pattern⟩ = (s.patternsOf r).count pattern := by
      rw [patternsOf, List.count, List.count, List.countP_map, List.countP_filter]
      refine List.countP_congr fun pat _ => ?_
      rcases pat with ⟨client, other⟩
      simp [and_comm]
    have once := tables.patternsOnce r
    rw [found there] at once
    rw [counted, tables.patterns, found there]
    exact once.count
  · have channels := tables.channelsOnce r
    have patterns := tables.patternsOnce r
    rw [found there] at channels patterns
    exact ⟨channels, patterns⟩
  · have counted : 0 < (s.own r).channels.count channel := by
      rw [← tables.channels]
      exact List.count_pos_iff.mpr mem
    exact live_of_channel (List.count_pos_iff.mp counted)
  · have own : pat.pattern ∈ (s.own pat.client).patterns := by
      rw [← tables.patterns]
      exact List.mem_map.mpr ⟨pat, List.mem_filter.mpr ⟨mem, by simp⟩, rfl⟩
    exact live_of_pattern own
  · have flagged := consistent.flagged r
    rwa [found there, clientSubscriptionsCount_ne_zero] at flagged

theorem Consistent.published (consistent : Consistent s) (stringmatch : Robj → Robj → Bool)
    (r : ClientRef) (channel message : Robj)
    : Published s (s.publishCommand stringmatch r channel message) stringmatch r channel
        message := by
  have tables := consistent.tables
  have count
      : s.receivers stringmatch channel message
        = (s.deliveries stringmatch channel message).length := by
    rw [← sum_repliesFor consistent.once (s.deliveries stringmatch channel message) fun d mem =>
      (consistent.listed d.1).mpr (live_of_deliveries tables mem)]
    simp only [receivers, repliesFor_deliveries tables]
  rw [publishCommand_eq]
  refine ⟨fun r' => ?_, s.deliver_tables _⟩
  rw [deliver_client, repliesFor_append, repliesFor_deliveries tables, count]
  cases found : s.client r' with
  | none => rfl
  | some c =>
      have own : s.own r' = c := by simp [Server.own, found]
      have integer : ∀ reply, repliesFor r' [(r, reply)] = if r' = r then [reply] else [] := by
        intro reply
        by_cases same : r = r'
        · simp [repliesFor, same]
        · simp [repliesFor, same, Ne.symm same]
      rw [own, integer, Option.map_some, Option.map_some, List.append_assoc]

end Server

end Redis.Pubsub
