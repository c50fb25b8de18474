import Mathlib.Data.Finset.Basic
import Mathlib.Algebra.BigOperators.Group.Finset.Basic
import Redis.Pubsub.Mirrors

/-! A published message reaches every client once for each of its subscriptions that fit. -/

namespace Redis.Pubsub

open Redis.Library

theorem robj_lawfulBEq : LawfulBEq Robj := inferInstance

attribute [local instance] robj_lawfulBEq

/-- What a client receives for a message that is published. -/
def Client.received (stringmatch : Robj → Robj → Bool) (channel message : Robj) (c : Client)
    : List Reply :=
  (if channel ∈ c.channels then [.message channel message] else [])
  ++ (c.patterns.filter (stringmatch · channel)).map (.pmessage · channel message)

namespace Server

variable {s : Server} {r : ClientRef} {channel message : Robj} {stringmatch : Robj → Robj → Bool}

-- Deliveries

/-- Replies are appended to the outputs of several clients, one after the other. -/
def deliver (s : Server) (replies : List (ClientRef × Reply)) : Server :=
  replies.foldl (fun s d => s.addReply d.1 d.2) s

/-- The replies of a sequence that are for one client. -/
def repliesFor (r : ClientRef) (replies : List (ClientRef × Reply)) : List Reply :=
  (replies.filter (·.1 = r)).map (·.2)

theorem deliver_append (s : Server) (first second : List (ClientRef × Reply))
    : s.deliver (first ++ second) = (s.deliver first).deliver second := List.foldl_append

theorem repliesFor_append (r : ClientRef) (first second : List (ClientRef × Reply))
    : repliesFor r (first ++ second) = repliesFor r first ++ repliesFor r second := by
  simp [repliesFor]

theorem deliver_tables (s : Server) (replies : List (ClientRef × Reply))
    : (s.deliver replies).pubsubChannels = s.pubsubChannels
      ∧ (s.deliver replies).pubsubPatterns = s.pubsubPatterns
      ∧ (s.deliver replies).clients = s.clients := by
  induction replies generalizing s with
  | nil => exact ⟨rfl, rfl, rfl⟩
  | cons head rest ih => exact ih (s.addReply head.1 head.2)

theorem deliver_client (s : Server) (replies : List (ClientRef × Reply)) (r : ClientRef)
    : (s.deliver replies).client r
      = (s.client r).map fun c => { c with reply := c.reply ++ repliesFor r replies } := by
  induction replies generalizing s with
  | nil => cases found : s.client r <;> simp [deliver, repliesFor, found]
  | cons head rest ih =>
      rw [deliver, List.foldl_cons, ← deliver, ih]
      by_cases same : head.1 = r
      · subst same
        cases found : s.client head.1 <;> simp [addReply, modify, repliesFor, found]
      · have kept : (s.addReply head.1 head.2).client r = s.client r := by
          simp [addReply, modify, Function.update_of_ne (Ne.symm same)]
        have skipped : repliesFor r (head :: rest) = repliesFor r rest := by
          simp [repliesFor, same]
        rw [kept, skipped]

-- One message

/-- Everything that `pubsubPublishMessage` sends, in its order. -/
def deliveries (s : Server) (stringmatch : Robj → Robj → Bool) (channel message : Robj)
    : List (ClientRef × Reply) :=
  (s.subscribers channel).map (fun r => (r, .message channel message))
  ++ (s.pubsubPatterns.filter (stringmatch ·.pattern channel)).map
    fun pat => (pat.client, .pmessage pat.pattern channel message)

/-- Publishing delivers one message for each subscription that fits. -/
theorem pubsubPublishMessage_eq (s : Server) (stringmatch : Robj → Robj → Bool)
    (channel message : Robj)
    : s.pubsubPublishMessage stringmatch channel message
      = (s.deliver (s.deliveries stringmatch channel message),
        (s.deliveries stringmatch channel message).length) := by
  have subscribed : ∀ (clients : List ClientRef) (s : Server) (n : Nat),
      clients.foldl (fun sn r => (sn.1.addReply r (.message channel message), sn.2 + 1)) (s, n)
        = (s.deliver (clients.map fun r => (r, .message channel message)), n + clients.length) := by
    intro clients
    induction clients with
    | nil => exact fun s n => rfl
    | cons r rest ih =>
        intro s n
        rw [List.foldl_cons, ih, List.map_cons, List.length_cons, Nat.add_right_comm, Nat.add_assoc]
        rfl
  have matching : ∀ (stored : List PubsubPattern) (s : Server) (n : Nat),
      stored.foldl
          (fun sn pat =>
            if stringmatch pat.pattern channel then
              (sn.1.addReply pat.client (.pmessage pat.pattern channel message), sn.2 + 1)
            else sn)
          (s, n)
        = (s.deliver ((stored.filter (stringmatch ·.pattern channel)).map
            fun pat => (pat.client, .pmessage pat.pattern channel message)),
          n + (stored.filter (stringmatch ·.pattern channel)).length) := by
    intro stored
    induction stored with
    | nil => exact fun s n => rfl
    | cons pat rest ih =>
        intro s n
        rw [List.foldl_cons]
        dsimp only
        by_cases fits : stringmatch pat.pattern channel = true
        · rw [if_pos fits, ih, List.filter_cons, if_pos fits, List.map_cons, List.length_cons,
            Nat.add_right_comm, Nat.add_assoc]
          rfl
        · rw [if_neg fits, ih, List.filter_cons, if_neg fits]
  have patterns : ∀ replies, (s.deliver replies).pubsubPatterns = s.pubsubPatterns :=
    fun replies => (s.deliver_tables replies).2.1
  have published
      : s.pubsubPublishMessage stringmatch channel message
        = (fun sent : Server × Nat =>
            sent.1.pubsubPatterns.foldl
              (fun sn pat =>
                if stringmatch pat.pattern channel then
                  (sn.1.addReply pat.client (.pmessage pat.pattern channel message), sn.2 + 1)
                else sn)
              sent)
            ((s.subscribers channel).foldl
              (fun sn r => (sn.1.addReply r (.message channel message), sn.2 + 1)) (s, 0)) := rfl
  rw [published, subscribed]
  dsimp only
  rw [matching, patterns, ← deliver_append, deliveries, List.length_append, List.length_map,
    List.length_map, Nat.zero_add]

theorem repliesFor_deliveries (tables : Tables s) (stringmatch : Robj → Robj → Bool)
    (channel message : Robj) (r : ClientRef)
    : repliesFor r (s.deliveries stringmatch channel message)
      = (s.own r).received stringmatch channel message := by
  have once
      : (s.subscribers channel).filter (· = r)
        = if channel ∈ (s.own r).channels then [r] else [] := by
    rw [List.filter_eq, tables.channels]
    split
    · next there => rw [List.count_eq_one_of_mem (tables.channelsOnce r) there]; rfl
    · next absent => rw [List.count_eq_zero_of_not_mem absent]; rfl
  rw [deliveries, repliesFor_append, Client.received]
  congr 1
  · have mapped
        : repliesFor r ((s.subscribers channel).map fun r => (r, Reply.message channel message))
          = ((s.subscribers channel).filter (· = r)).map fun _ => .message channel message := by
      simp [repliesFor, List.filter_map, Function.comp_def]
    rw [mapped, once]
    split <;> rfl
  · rw [← tables.patterns r, patternsOf]
    simp only [repliesFor, List.filter_map, List.map_map, List.filter_filter, Function.comp_def,
      Bool.and_comm]

theorem live_of_deliveries (tables : Tables s) {d : ClientRef × Reply}
    (mem : d ∈ s.deliveries stringmatch channel message)
    : s.live d.1 = true := by
  have replied : d.2 ∈ repliesFor d.1 (s.deliveries stringmatch channel message) :=
    List.mem_map.mpr ⟨d, List.mem_filter.mpr ⟨mem, by simp⟩, rfl⟩
  rw [repliesFor_deliveries tables] at replied
  apply live_of_own
  intro none
  simp [none, Client.received] at replied

theorem sum_repliesFor {clients : List ClientRef} (once : clients.Nodup)
    (replies : List (ClientRef × Reply)) (known : ∀ d ∈ replies, d.1 ∈ clients)
    : (clients.map fun r => (repliesFor r replies).length).sum = replies.length := by
  have counted : ∀ r, (repliesFor r replies).length = (replies.map (·.1)).count r := by
    intro r
    rw [repliesFor, List.length_map, List.count, List.countP_map, List.countP_eq_length_filter]
    rfl
  have covered : ∀ r ∈ (Multiset.ofList (replies.map (·.1))), r ∈ clients.toFinset := by
    intro r mem
    obtain ⟨d, there, rfl⟩ := List.mem_map.mp (Multiset.mem_coe.mp mem)
    exact List.mem_toFinset.mpr (known d there)
  calc (clients.map fun r => (repliesFor r replies).length).sum
      = ∑ r ∈ clients.toFinset, (Multiset.ofList (replies.map (·.1))).count r := by
        simp only [counted, List.sum_toFinset _ once, Multiset.coe_count]
    _ = replies.length := by
        rw [Multiset.sum_count_eq_card covered, Multiset.coe_card, List.length_map]

end Server

end Redis.Pubsub
