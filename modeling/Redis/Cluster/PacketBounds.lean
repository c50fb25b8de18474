import Redis.Cluster.PacketBytes

/-! Which packets are processed within their bounds. -/

namespace Redis.Cluster

open Redis.Library

variable {s : ClusterState}

section Accesses

variable {packet : List UInt8} {pos len : Nat}

@[simp] theorem access_ok : access packet pos len = .ok () ↔ pos + len ≤ packet.length := by
  unfold access
  split
  · simp [*]
  · simp [*]

@[simp] theorem accessString_ok : accessString packet pos = .ok () ↔ 0 ∈ packet.drop pos := by
  unfold accessString
  split
  · simp [*]
  · simp [*]

theorem accessWhen_ok {condition : Bool} {read : Except Fault Unit} (ok : read = .ok ())
    : accessWhen condition read = .ok () := by
  unfold accessWhen
  split
  · exact ok
  · rfl

theorem foldl_bytes_lt (bytes : List UInt8) (start : Nat)
    : bytes.foldl (fun number byte => number * 256 + byte.toNat) start
      < (start + 1) * 256 ^ bytes.length := by
  induction bytes generalizing start with
  | nil => simp
  | cons byte bytes ih =>
      have small : byte.toNat < 256 := byte.toNat_lt
      calc (byte :: bytes).foldl (fun number byte => number * 256 + byte.toNat) start
          < (start * 256 + byte.toNat + 1) * 256 ^ bytes.length := ih _
        _ ≤ ((start + 1) * 256) * 256 ^ bytes.length := Nat.mul_le_mul_right _ (by omega)
        _ = (start + 1) * 256 ^ (byte :: bytes).length := by
          rw [List.length_cons, Nat.pow_succ, Nat.mul_assoc, Nat.mul_comm 256]

theorem uintAt_lt (packet : List UInt8) (pos len : Nat) : uintAt packet pos len < 256 ^ len := by
  have bounded := foldl_bytes_lt (bytesAt packet pos len) 0
  have short : (bytesAt packet pos len).length ≤ len := List.length_take_le _ _
  rw [Nat.zero_add, Nat.one_mul] at bounded
  exact Nat.lt_of_lt_of_le bounded (Nat.pow_le_pow_right (by decide) short)

theorem totlen_append (first : 8 ≤ packet.length) (bytes : List UInt8)
    : totlen (packet ++ bytes) = totlen packet := by
  unfold totlen uintAt bytesAt
  rw [List.drop_append_of_le_length (by omega),
    List.take_append_of_le_length (by rw [List.length_drop]; omega)]

end Accesses

section Gossip

variable {env : ClusterEnv} {sender : Option NodeRef} {packet : List UInt8}

/-- The address of an entry ends inside the packet. -/
def AddressEnds (packet : List UInt8) (entry : Nat) : Prop :=
  0 ∈ packet.drop (gossipIpPos entry)

theorem accessGossips_ok {debug : Bool} {entries : List Nat}
    (room : ∀ entry ∈ entries, gossipPos entry + gossipSize ≤ packet.length)
    (ends : ∀ entry ∈ entries, AddressEnds packet entry)
    : accessGossips env debug sender packet s entries = .ok () := by
  induction entries generalizing s with
  | nil => rfl
  | cons entry entries ih =>
      have here := room entry (by simp)
      rw [gossipSize] at here
      have string : accessString packet (gossipIpPos entry) = .ok () :=
        accessString_ok.mpr (ends entry (by simp))
      have name : access packet (gossipPos entry) 40 = .ok () := access_ok.mpr (by omega)
      have port : access packet (gossipPos entry + 94) 4 = .ok () := access_ok.mpr (by omega)
      have first : accessGossip env debug sender packet s entry = .ok () := by
        rw [accessGossip, name, ok_andThen, port, ok_andThen, accessWhen_ok string, ok_andThen,
          accessWhen_ok string]
      rw [accessGossips, first, ok_andThen]
      exact ih (fun other member => room other (by simp [member]))
        fun other member => ends other (by simp [member])

theorem addressEnds_of_debug {entries : List Nat}
    (read : accessGossips env true sender packet s entries = .ok ())
    : ∀ entry ∈ entries, AddressEnds packet entry := by
  induction entries generalizing s with
  | nil => simp
  | cons entry entries ih =>
      simp only [accessGossips, accessGossip, accessWhen, if_true, andThen_ok_iff] at read
      obtain ⟨_, ⟨_, _, _, _, _, string, _⟩, rest⟩ := read
      rintro other (_ | ⟨_, member⟩)
      · exact accessString_ok.mp string
      · exact ih rest other member

end Gossip

section Packets

variable {server : BusServer} {packet : List UInt8} {arrival : ClusterState.Arrival}
  {senderConfigEpoch : Nat}

/-- What a packet needs for its data to be read inside it. -/
def DataWithin (packet : List UInt8) : Prop :=
  match packetType packet with
  | .ping | .pong | .meet =>
      packet.length = clusterMsgMinLen + gossipSize * gossipCount packet
      → ∀ entry < gossipCount packet, AddressEnds packet entry
  | .publish =>
      clusterMsgMinLen + 8 ≤ packet.length
      ∧ (packet.length = explen packet
        → packet.length = clusterMsgMinLen + 8 + channelLen packet + messageLen packet)
  | _ => True

/-- The packets that are processed within their bounds. -/
structure WithinBounds (packet : List UInt8) : Prop where
  header : clusterMsgMinLen ≤ packet.length
  data : version packet = 0 → DataWithin packet

theorem explen_gossip (count : Nat) (small : count < 256 ^ 2)
    : (clusterMsgMinLen + gossipSize * count) % 2 ^ 32
      = clusterMsgMinLen + gossipSize * count := by
  simp only [clusterMsgMinLen, gossipSize]
  omega

theorem gossipCount_lt (packet : List UInt8) : gossipCount packet < 256 ^ 2 :=
  uintAt_lt packet 14 2

theorem accessGossipSection_ok {linkNode : Option NodeRef}
    (length : packet.length = clusterMsgMinLen + gossipSize * gossipCount packet)
    (ends : ∀ entry < gossipCount packet, AddressEnds packet entry)
    : accessGossipSection server linkNode packet s = .ok () := by
  refine accessGossips_ok ?_ ?_
  · intro entry member
    have inside := List.mem_range.mp member
    have whole : gossipSize * (entry + 1) ≤ gossipSize * gossipCount packet :=
      Nat.mul_le_mul_left _ inside
    rw [Nat.mul_succ] at whole
    rw [gossipPos, length]
    omega
  · intro entry member
    exact ends entry (List.mem_range.mp member)

theorem accessPing_ok {sender : Option NodeRef} {isPing isMeet : Bool}
    (length : packet.length = clusterMsgMinLen + gossipSize * gossipCount packet)
    (ends : ∀ entry < gossipCount packet, AddressEnds packet entry)
    : accessPing server packet s arrival sender senderConfigEpoch isPing isMeet = .ok () := by
  unfold accessPing
  split
  · exact accessGossipSection_ok length ends
  · rfl

theorem accessData_ok {sender : Option NodeRef} (length : packet.length = explen packet)
    (data : DataWithin packet)
    : accessData server packet s arrival sender senderConfigEpoch = .ok () := by
  have gossip := explen_gossip (gossipCount packet) (gossipCount_lt packet)
  unfold DataWithin at data
  unfold explen at length data
  unfold accessData
  cases type : packetType packet with
  | ping => simp only [type, gossip] at length data; exact accessPing_ok length (data length)
  | pong => simp only [type, gossip] at length data; exact accessPing_ok length (data length)
  | meet => simp only [type, gossip] at length data; exact accessPing_ok length (data length)
  | fail =>
      simp only [type] at length
      exact accessWhen_ok (access_ok.mpr (Nat.le_of_eq length.symm))
  | publish =>
      simp only [type] at length data
      have whole := data.2 length
      have channel
          : access packet (clusterMsgMinLen + 8) (channelLen packet) = .ok () :=
        access_ok.mpr (by omega)
      have body
          : access packet (clusterMsgMinLen + 8 + channelLen packet) (messageLen packet)
            = .ok () :=
        access_ok.mpr (by omega)
      exact accessWhen_ok (by rw [channel, ok_andThen, body])
  | update =>
      simp only [type, updateSize] at length
      have epoch : access packet clusterMsgMinLen 8 = .ok () := access_ok.mpr (by omega)
      have name : access packet (clusterMsgMinLen + 8) 40 = .ok () := access_ok.mpr (by omega)
      have slots
          : access packet (clusterMsgMinLen + 48) (redisClusterSlots / 8) = .ok () :=
        access_ok.mpr (by rw [redisClusterSlots]; omega)
      dsimp only
      rw [epoch, ok_andThen]
      exact accessWhen_ok (by rw [name, ok_andThen, slots])
  | failoverAuthRequest => rfl
  | failoverAuthAck => rfl
  | mfstart => rfl
  | unknown => rfl

theorem accessChecked_ok
    (header : clusterMsgMinLen ≤ packet.length) (length : packet.length = explen packet)
    (data : DataWithin packet)
    : accessChecked server packet s arrival = .ok () := by
  have head : access packet 0 clusterMsgMinLen = .ok () := access_ok.mpr (by omega)
  rw [accessChecked, head, ok_andThen]
  cases s.clusterLookupNode (message packet).sender with
  | none => exact accessData_ok length data
  | some sender =>
      dsimp only
      split
      · exact accessData_ok length data
      · exact accessData_ok length data

theorem accessLengths_ok (header : clusterMsgMinLen ≤ packet.length) (data : DataWithin packet)
    : accessLengths packet = .ok () := by
  have count : access packet 14 2 = .ok () := by
    rw [clusterMsgMinLen] at header
    exact access_ok.mpr (by omega)
  unfold DataWithin at data
  unfold accessLengths
  cases type : packetType packet with
  | ping => exact count
  | pong => exact count
  | meet => exact count
  | publish =>
      simp only [type] at data
      have room := data.1
      have channel : access packet clusterMsgMinLen 4 = .ok () := access_ok.mpr (by omega)
      have body : access packet (clusterMsgMinLen + 4) 4 = .ok () := access_ok.mpr (by omega)
      dsimp only
      rw [channel, ok_andThen, body]
  | _ => rfl

theorem WithinBounds.processed (within : WithinBounds packet)
    (announced : totlen packet = packet.length)
    : ∃ state, clusterProcessPacketBytes server packet = .ok state := by
  have header := within.header
  have room : ∀ {pos len}, pos + len ≤ clusterMsgMinLen → access packet pos len = .ok () :=
    fun inside => access_ok.mpr (Nat.le_trans inside header)
  unfold clusterProcessPacketBytes
  rw [room (by decide), ok_andThen, room (by decide), ok_andThen, room (by decide), ok_andThen]
  split
  · exact ⟨_, rfl⟩
  · rw [room (by decide), ok_andThen]
    split
    · exact ⟨_, rfl⟩
    · rename_i current
      have data := within.data (Decidable.not_not.mp current)
      split
      · exact ⟨_, rfl⟩
      · rw [accessLengths_ok header data, ok_andThen]
        split
        · exact ⟨_, rfl⟩
        · rename_i expected
          have length : packet.length = explen packet :=
            announced.symm.trans (Decidable.not_not.mp expected)
          dsimp only
          rw [accessChecked_ok header length data, ok_andThen]
          exact ⟨_, rfl⟩

/-- A server that knows the sender of a packet, logs what it does and has subscribers. -/
def listeningServer (packet : List UInt8) : BusServer where
  state := ClusterState.clusterInit (.still 6379) (message packet).sender false
  env := .still 6379
  arrival := ⟨none, [], none⟩
  debug := true
  subscribers := true

theorem listeningServer_knows (packet : List UInt8)
    : (listeningServer packet).state.clusterLookupNode (message packet).sender = some 0 := by
  have own : ((listeningServer packet).state.nodes 0).any (·.name == (message packet).sender)
      = true := beq_self_eq_true _
  exact List.find?_cons_of_pos own

theorem accessPing_reads {r : NodeRef} {isPing isMeet : Bool} (debug : server.debug = true)
    (noLink : arrival.linkNode = none)
    (read : accessPing server packet s arrival (some r) senderConfigEpoch isPing isMeet = .ok ())
    : ∀ entry < gossipCount packet, AddressEnds packet entry := by
  have valid : ∀ s : ClusterState,
      (s.processHandshake server.env arrival (message packet) (some r)).1 = true := by
    intro s
    rw [ClusterState.processHandshake, noLink]
  simp only [accessPing, ClusterState.gossipStart, valid, if_true, accessGossipSection, debug]
    at read
  intro entry inside
  exact addressEnds_of_debug read entry (List.mem_range.mpr inside)

theorem dataWithin_of_read {r : NodeRef}
    (debug : server.debug = true) (noLink : arrival.linkNode = none)
    (subscribers : server.subscribers = true) (lengths : accessLengths packet = .ok ()) (read
      : packet.length = explen packet
        → accessData server packet s arrival (some r) senderConfigEpoch = .ok ())
    : DataWithin packet := by
  have gossip := explen_gossip (gossipCount packet) (gossipCount_lt packet)
  unfold accessData at read
  unfold accessLengths at lengths
  unfold DataWithin
  cases type : packetType packet with
  | ping =>
      simp only [explen, type, gossip] at read
      exact fun length => accessPing_reads debug noLink (read length)
  | pong =>
      simp only [explen, type, gossip] at read
      exact fun length => accessPing_reads debug noLink (read length)
  | meet =>
      simp only [explen, type, gossip] at read
      exact fun length => accessPing_reads debug noLink (read length)
  | publish =>
      simp only [type, andThen_ok_iff] at lengths
      obtain ⟨_, _, lengths⟩ := lengths
      have room := access_ok.mp lengths
      refine ⟨room, fun length => ?_⟩
      simp only [type, accessWhen, subscribers, if_true, andThen_ok_iff] at read
      obtain ⟨_, _, body⟩ := read length
      have inside := access_ok.mp body
      simp only [explen, type, publishSize] at length
      have wrapped := Nat.mod_le
        (clusterMsgMinLen + (16 - 8) + channelLen packet + messageLen packet) (2 ^ 32)
      omega
  | _ => trivial

theorem WithinBounds.of_processed (announced : totlen packet = packet.length)
    (size : packet.length = 8 ∨ clusterMsgMinLen ≤ packet.length)
    (processed : ∀ server, ∃ state, clusterProcessPacketBytes server packet = .ok state)
    : WithinBounds packet := by
  obtain ⟨state, ran⟩ := processed (listeningServer packet)
  unfold clusterProcessPacketBytes at ran
  rw [andThen_ok_iff] at ran
  obtain ⟨_, _, ran⟩ := ran
  rw [andThen_ok_iff] at ran
  obtain ⟨_, _, ran⟩ := ran
  rw [andThen_ok_iff] at ran
  obtain ⟨_, flags, ran⟩ := ran
  have long : 2202 + 2 ≤ packet.length := access_ok.mp flags
  have header : clusterMsgMinLen ≤ packet.length := size.resolve_left (by omega)
  refine ⟨header, fun current => ?_⟩
  rw [if_neg (by omega), andThen_ok_iff] at ran
  obtain ⟨_, _, ran⟩ := ran
  rw [if_neg (Decidable.not_not.mpr current), if_neg (by omega), andThen_ok_iff] at ran
  obtain ⟨_, lengths, ran⟩ := ran
  have noLink : ({ (listeningServer packet).arrival with
      linkNode := (listeningServer packet).arrival.linkNode.filter
        (listeningServer packet).state.live } : ClusterState.Arrival).linkNode = none := rfl
  by_cases expected : totlen packet = explen packet
  · rw [if_neg (Decidable.not_not.mpr expected)] at ran
    dsimp only at ran
    rw [andThen_ok_iff] at ran
    obtain ⟨_, checked, _⟩ := ran
    rw [accessChecked, andThen_ok_iff] at checked
    obtain ⟨_, _, data⟩ := checked
    rw [listeningServer_knows] at data
    dsimp only at data
    split at data
    · exact dataWithin_of_read rfl noLink rfl lengths fun _ => data
    · exact dataWithin_of_read rfl noLink rfl lengths fun _ => data
  · exact @dataWithin_of_read (listeningServer packet).state (listeningServer packet) packet _ 0 0
      rfl noLink rfl lengths fun length => absurd (announced.trans length) expected

end Packets

-- The link

/-- What `clusterReadHandler` has of a packet between two rounds: not yet its length, its first
eight bytes, or more of a packet that has a header.
-/
def PartOfPacket (rcvbuf : List UInt8) : Prop :=
  rcvbuf.length < 8
  ∨ rcvbuf.length = 8 ∧ totlen rcvbuf ≠ 8
  ∨ 8 < rcvbuf.length ∧ rcvbuf.length < totlen rcvbuf ∧ clusterMsgMinLen ≤ totlen rcvbuf

/-- A packet that is passed has the length it announces; it is without a header only if that is
eight.
-/
structure WholePacket (packet : List UInt8) : Prop where
  announced : totlen packet = packet.length
  size : packet.length = 8 ∨ clusterMsgMinLen ≤ packet.length

namespace BusLink

variable {link : BusLink} {bytes : List UInt8} {valid : Bool}

structure Sound (link : BusLink) : Prop where
  passed : ∀ packet ∈ link.passed, WholePacket packet
  waiting : link.freed = false → PartOfPacket link.rcvbuf

/-- The bytes of a link, in the order of their arrival. -/
def received (link : BusLink) : List UInt8 := link.passed.flatten ++ link.rcvbuf ++ link.unread

theorem readlen_long (long : 8 < link.rcvbuf.length)
    (waiting : link.rcvbuf.length < totlen link.rcvbuf)
    : readlen link.rcvbuf
      = some (min (totlen link.rcvbuf - link.rcvbuf.length) clusterMsgSize) := by
  have small : totlen link.rcvbuf < 256 ^ 4 := uintAt_lt _ _ _
  have exact_ : (totlen link.rcvbuf + 2 ^ 32 - link.rcvbuf.length) % 2 ^ 32
      = totlen link.rcvbuf - link.rcvbuf.length := by omega
  rw [readlen, if_neg (by omega), if_neg (by omega), exact_]

theorem receive_part (part : PartOfPacket link.rcvbuf) {len : Nat}
    (asked : readlen link.rcvbuf = some len) (some : bytes ≠ []) (fits : bytes.length ≤ len)
    : if 8 ≤ (link.rcvbuf ++ bytes).length
          ∧ (link.rcvbuf ++ bytes).length = totlen (link.rcvbuf ++ bytes) then
        WholePacket (link.rcvbuf ++ bytes)
      else PartOfPacket (link.rcvbuf ++ bytes) := by
  have positive := List.length_pos_of_ne_nil some
  have lengths : (link.rcvbuf ++ bytes).length = link.rcvbuf.length + bytes.length :=
    List.length_append
  unfold PartOfPacket at part ⊢
  rcases part with short | ⟨first, other⟩ | ⟨long, waiting, header⟩
  · rw [readlen, if_pos short, Option.some.injEq] at asked
    split
    · rename_i whole
      exact ⟨whole.2.symm, .inl (by omega)⟩
    · rename_i open_
      by_cases first : (link.rcvbuf ++ bytes).length = 8
      · exact .inr (.inl ⟨first, by omega⟩)
      · exact .inl (by omega)
  · have same := totlen_append (Nat.le_of_eq first.symm) bytes
    have small : totlen link.rcvbuf < 256 ^ 4 := uintAt_lt _ _ _
    rw [readlen, if_neg (by omega)] at asked
    split at asked
    · cases asked
    · rename_i checked
      have header : clusterMsgMinLen ≤ totlen link.rcvbuf := by
        by_contra less
        exact checked ⟨first, .inr (Nat.lt_of_not_le less)⟩
      rw [Option.some.injEq] at asked
      have large : 2208 ≤ totlen link.rcvbuf := header
      have rest : (totlen link.rcvbuf + 2 ^ 32 - link.rcvbuf.length) % 2 ^ 32
          = totlen link.rcvbuf - link.rcvbuf.length := by omega
      rw [rest] at asked
      rw [same]
      split
      · rename_i whole
        exact ⟨same.trans whole.2.symm, .inr (by omega)⟩
      · rename_i open_
        exact .inr (.inr ⟨by omega, by omega, header⟩)
  · have same := totlen_append (Nat.le_of_lt long) bytes
    rw [readlen_long long waiting, Option.some.injEq] at asked
    rw [same]
    split
    · rename_i whole
      exact ⟨same.trans whole.2.symm, .inr (by omega)⟩
    · rename_i open_
      exact .inr (.inr ⟨by omega, by omega, header⟩)

theorem receive_bytes (front : link.unread.take bytes.length = bytes)
    (ok : (link.receive bytes valid).freed = false)
    : (link.receive bytes valid).received = link.received := by
  have whole : bytes ++ link.unread.drop bytes.length = link.unread := by
    conv => lhs; arg 1; rw [← front]
    exact List.take_append_drop _ _
  unfold receive at ok ⊢
  dsimp only at ok ⊢
  split
  · rename_i passed
    rw [if_pos passed] at ok
    have valid : valid = true := by simpa using ok
    simp [received, valid, whole]
  · simp [received, whole]

theorem receive_sound (sound : link.Sound) (opened : link.freed = false) {len : Nat}
    (asked : readlen link.rcvbuf = some len) (some : bytes ≠ []) (fits : bytes.length ≤ len)
    : (link.receive bytes valid).Sound := by
  have part := receive_part (sound.waiting opened) asked some fits
  unfold receive
  dsimp only
  split at part
  · rename_i whole
    rw [if_pos whole]
    refine ⟨?_, ?_⟩
    · intro packet member
      rcases List.mem_append.mp member with before | last
      · exact sound.passed packet before
      · rw [List.mem_singleton.mp last]
        exact part
    · intro kept
      have valid : valid = true := by simpa using kept
      rw [valid]
      exact .inl (show 0 < 8 by decide)
  · rename_i open_
    rw [if_neg open_]
    exact ⟨sound.passed, fun _ => part⟩

/-- What a step does to the bytes of a link. -/
structure Advanced (event : BusEvent) (link next : BusLink) : Prop where
  sound : next.Sound
  received : next.freed = false → next.received = link.received ++ arrived [event]
  opened : next.freed = false → link.freed = false

theorem read_advanced (sound : link.Sound) (opened : link.freed = false) (nread : Nat)
    (valid : Bool)
    : Advanced (.read nread valid) link (link.read nread valid) := by
  unfold read
  cases asked : readlen link.rcvbuf with
  | none => exact ⟨⟨sound.passed, nofun⟩, nofun, nofun⟩
  | some len =>
      dsimp only
      cases taken : link.unread.take (min nread len) with
      | nil => exact ⟨sound, fun _ => (List.append_nil _).symm, id⟩
      | cons byte bytes =>
          have length := congrArg List.length taken
          rw [List.length_take] at length
          have front : link.unread.take (byte :: bytes).length = byte :: bytes := by
            rw [← length, ← List.take_take, List.take_length, taken]
          refine ⟨receive_sound sound opened asked (by simp) (by omega), ?_, fun _ => opened⟩
          intro kept
          rw [receive_bytes front kept]
          exact (List.append_nil _).symm

theorem step_advanced (sound : link.Sound) (event : BusEvent)
    : Advanced event link (link.step event) := by
  cases event with
  | arrive bytes =>
      refine ⟨⟨sound.passed, sound.waiting⟩, fun _ => ?_, id⟩
      simp [step, received, arrived]
  | read nread valid =>
      rw [step]
      split
      · rename_i freed
        exact ⟨sound, fun opened => absurd freed (by simp [opened]), id⟩
      · rename_i opened
        exact read_advanced sound (Bool.not_eq_true _ ▸ opened) nread valid
  | ioError => exact ⟨⟨sound.passed, nofun⟩, nofun, nofun⟩

theorem arrived_cons (event : BusEvent) (events : List BusEvent)
    : arrived (event :: events) = arrived [event] ++ arrived events := by
  cases event <;> simp [arrived]

theorem run_advanced (events : List BusEvent) (sound : link.Sound)
    : (link.run events).Sound
      ∧ ((link.run events).freed = false
        → link.freed = false ∧ (link.run events).received = link.received ++ arrived events) := by
  induction events generalizing link with
  | nil => exact ⟨sound, fun opened => ⟨opened, (List.append_nil _).symm⟩⟩
  | cons event events ih =>
      have advanced := step_advanced sound event
      obtain ⟨after, rest⟩ := ih advanced.sound
      refine ⟨after, fun opened => ?_⟩
      obtain ⟨kept, same⟩ := rest opened
      refine ⟨advanced.opened kept, ?_⟩
      rw [arrived_cons, ← List.append_assoc, ← advanced.received kept]
      exact same

theorem createClusterLink_sound : createClusterLink.Sound :=
  ⟨by simp [createClusterLink], fun _ => .inl (by decide)⟩

end BusLink

/-- The packets that `clusterReadHandler` passes on are the bytes that arrived, cut at the lengths
that they announce. Processing one reads inside it, whatever the state of the server, exactly when
the packet has a header and its data lies in it.
-/
theorem packets_read_within_bounds (events : List BusEvent)
    : let link := createClusterLink.run events
      (link.freed = false → link.passed.flatten ++ link.rcvbuf ++ link.unread = arrived events)
      ∧ ∀ packet ∈ link.passed,
          totlen packet = packet.length
          ∧ ((∀ server, ∃ state, clusterProcessPacketBytes server packet = .ok state)
            ↔ WithinBounds packet) := by
  obtain ⟨sound, received⟩ := BusLink.run_advanced events BusLink.createClusterLink_sound
  refine ⟨fun opened => (received opened).2, fun packet member => ?_⟩
  obtain ⟨announced, size⟩ := sound.passed packet member
  exact ⟨announced, .of_processed announced size, fun within _ => within.processed announced⟩

/-- Eight bytes that announce a length of eight. -/
def headlessPacket : List UInt8 := [0x52, 0x43, 0x6D, 0x62, 0, 0, 0, 8]

/-- They are passed on as a packet, and its type is read behind them. -/
theorem headless_packet_read_outside
    : let link := createClusterLink.run [.arrive headlessPacket, .read 8 true]
      link.passed = [headlessPacket]
      ∧ ∀ server, clusterProcessPacketBytes server headlessPacket = .error .outOfBounds := by
  refine ⟨by decide, fun server => ?_⟩
  have outside : access headlessPacket 12 2 = .error .outOfBounds := by decide
  have length : access headlessPacket 4 4 = .ok () := by decide
  rw [clusterProcessPacketBytes, length, ok_andThen, outside]
  rfl

end Redis.Cluster
