import Redis.Cluster.GossipSection
import Redis.Cluster.Commands
import Redis.Library.Faults

/-! The bytes of the cluster bus: `clusterReadHandler`, the checks of `clusterProcessPacket`, and
the places of a packet that its processing reads.
-/

namespace Redis.Cluster

open Redis.Library

-- The layout of a packet

/-- `CLUSTERMSG_MIN_LEN`: the header, which is in front of the data. -/
def clusterMsgMinLen : Nat := 2208

/-- `sizeof(clusterMsgDataGossip)`. -/
def gossipSize : Nat := 104

/-- `sizeof(clusterMsgDataFail)`. -/
def failSize : Nat := 40

/-- `sizeof(clusterMsgDataPublish)`, with its eight bytes of `bulk_data`. -/
def publishSize : Nat := 16

/-- `sizeof(clusterMsgDataUpdate)`. -/
def updateSize : Nat := 2096

/-- `sizeof(clusterMsg)`. -/
def clusterMsgSize : Nat := clusterMsgMinLen + updateSize

/-- `len` bytes from a place on; behind the end of the packet there are none. -/
def bytesAt (packet : List UInt8) (pos len : Nat) : List UInt8 := (packet.drop pos).take len

/-- `ntohs`, `ntohl` and `ntohu64`. -/
def uintAt (packet : List UInt8) (pos len : Nat) : Nat :=
  (bytesAt packet pos len).foldl (fun number byte => number * 256 + byte.toNat) 0

def stringAt (packet : List UInt8) (pos : Nat) : List UInt8 :=
  (packet.drop pos).takeWhile (· != 0)

def bitmapTestBit (bitmap : List UInt8) (pos : Nat) : Bool :=
  (bitmap.getD (pos / 8) 0).toNat.testBit (pos % 8)

def slotsAt (packet : List UInt8) (pos : Nat) (slot : Slot) : Bool :=
  bitmapTestBit (bytesAt packet pos (redisClusterSlots / 8)) slot

/-- The bits of a `flags` field. -/
def nodeFlags (flags : Nat) : NodeFlags where
  master := flags.testBit 0
  slave := flags.testBit 1
  pfail := flags.testBit 2
  fail := flags.testBit 3
  myself := flags.testBit 4
  handshake := flags.testBit 5
  noaddr := flags.testBit 6
  meet := flags.testBit 7

/-- `CLUSTERMSG_TYPE_PING` and so on. -/
inductive ClusterMsgType where
  | ping | pong | meet | fail | publish | failoverAuthRequest | failoverAuthAck | update | mfstart
  | unknown
deriving DecidableEq, Repr

def clusterMsgType : Nat → ClusterMsgType
  | 0 => .ping
  | 1 => .pong
  | 2 => .meet
  | 3 => .fail
  | 4 => .publish
  | 5 => .failoverAuthRequest
  | 6 => .failoverAuthAck
  | 7 => .update
  | 8 => .mfstart
  | _ => .unknown

section Fields

variable (packet : List UInt8)

def totlen : Nat := uintAt packet 4 4

def version : Nat := uintAt packet 8 2

def packetType : ClusterMsgType := clusterMsgType (uintAt packet 12 2)

def gossipCount : Nat := uintAt packet 14 2

def channelLen : Nat := uintAt packet clusterMsgMinLen 4

def messageLen : Nat := uintAt packet (clusterMsgMinLen + 4) 4

/-- Where a gossip entry stands, and where its address stands. -/
def gossipPos (entry : Nat) : Nat := clusterMsgMinLen + gossipSize * entry

def gossipIpPos (entry : Nat) : Nat := gossipPos entry + 48

/-- `clusterMsgDataGossip`. -/
def gossipAt (entry : Nat) : Gossip where
  nodename := bytesAt packet (gossipPos entry) 40
  ip := stringAt packet (gossipIpPos entry)
  port := uintAt packet (gossipPos entry + 94) 2
  flags := nodeFlags (uintAt packet (gossipPos entry + 96) 2)

def gossipSection : List Gossip := (List.range (gossipCount packet)).map (gossipAt packet)

/-- `union clusterMsgData`. A packet of an unknown type says no more than its header, as one of type
PUBLISH.
-/
def messageData : ClusterMsgData :=
  match packetType packet with
  | .ping => .ping (gossipSection packet)
  | .pong => .pong (gossipSection packet)
  | .meet => .meet (gossipSection packet)
  | .fail => .fail (bytesAt packet clusterMsgMinLen 40)
  | .publish | .unknown => .publish
  | .failoverAuthRequest => .failoverAuthRequest
  | .failoverAuthAck => .failoverAuthAck
  | .update =>
      .update (uintAt packet clusterMsgMinLen 8) (bytesAt packet (clusterMsgMinLen + 8) 40)
        (slotsAt packet (clusterMsgMinLen + 48))
  | .mfstart => .mfstart

/-- `clusterMsg`: the message that a packet is. -/
def message : ClusterMsg where
  sender := bytesAt packet 40 40
  currentEpoch := uintAt packet 16 8
  configEpoch := uintAt packet 24 8
  offset := (uintAt packet 32 8 : Int).bmod (2 ^ 64)
  myslots := slotsAt packet 80
  slaveof := bytesAt packet 2128 40
  port := uintAt packet 2200 2
  flags := nodeFlags (uintAt packet 2202 2)
  paused := (uintAt packet 2205 1).testBit 0
  forceack := (uintAt packet 2205 1).testBit 1
  data := messageData packet

-- Reading

/-- `len` bytes are read from a place on. -/
def access (pos len : Nat) : Except Fault Unit :=
  if pos + len ≤ packet.length then .ok () else .error .outOfBounds

/-- The string at a place is read, with the zero byte that ends it. -/
def accessString (pos : Nat) : Except Fault Unit :=
  if 0 ∈ packet.drop pos then .ok () else .error .outOfBounds

end Fields

def accessWhen (condition : Bool) (read : Except Fault Unit) : Except Fault Unit :=
  if condition then read else .ok ()

/-- What the processing of a packet depends on. -/
structure BusServer where
  state : ClusterState
  env : ClusterEnv
  arrival : ClusterState.Arrival
  /-- `server.verbosity` is `REDIS_DEBUG`. -/
  debug : Bool
  /-- There are subscribers of channels or of patterns. -/
  subscribers : Bool

section Gossip

variable (env : ClusterEnv) (debug : Bool) (sender : Option NodeRef) (packet : List UInt8)

/-- `clusterProcessGossipSection` compares the address of an entry with `strcasecmp`, or hands it to
`clusterStartHandshake`.
-/
def usesAddress (s : ClusterState) (g : Gossip) : Bool :=
  match s.clusterLookupNode g.nodename with
  | some node =>
      ((s.handleFailureReport env sender node g.flags).nodes node).any fun n =>
        n.flags.fail || n.flags.pfail
  | none =>
      sender.isSome && !g.flags.noaddr
        && !(s.clusterBlacklistCleanup env).blacklisted g.nodename

def accessGossip (s : ClusterState) (entry : Nat) : Except Fault Unit := do
  access packet (gossipPos entry) 40
  access packet (gossipPos entry + 94) 4
  accessWhen debug (accessString packet (gossipIpPos entry))
  accessWhen (usesAddress env sender s (gossipAt packet entry))
    (accessString packet (gossipIpPos entry))

/-- What is read by the loop of `clusterProcessGossipSection`. -/
def accessGossips : ClusterState → (entries : List Nat) → Except Fault Unit
  | _, [] => .ok ()
  | s, entry :: entries => do
      accessGossip env debug sender packet s entry
      accessGossips (s.processGossip env sender (gossipAt packet entry)) entries

end Gossip

/-- `clusterProcessGossipSection`. -/
def accessGossipSection (server : BusServer) (linkNode : Option NodeRef) (packet : List UInt8)
    (s : ClusterState) : Except Fault Unit :=
  accessGossips server.env server.debug
    (linkNode.or (s.clusterLookupNode (message packet).sender)) packet s
    (List.range (gossipCount packet))

section Packet

variable (server : BusServer) (packet : List UInt8)

/-- The expected length, in 32 bits. -/
def explen : Nat :=
  match packetType packet with
  | .ping | .pong | .meet => (clusterMsgMinLen + gossipSize * gossipCount packet) % 2 ^ 32
  | .fail => clusterMsgMinLen + failSize
  | .publish =>
      (clusterMsgMinLen + (publishSize - 8) + channelLen packet + messageLen packet) % 2 ^ 32
  | .failoverAuthRequest | .failoverAuthAck | .mfstart => clusterMsgMinLen
  | .update => clusterMsgMinLen + updateSize
  | .unknown => totlen packet

def accessLengths : Except Fault Unit :=
  match packetType packet with
  | .ping | .pong | .meet => access packet 14 2
  | .publish => do
      access packet clusterMsgMinLen 4
      access packet (clusterMsgMinLen + 4) 4
  | _ => .ok ()

/-- What is read when a PING, PONG or MEET is processed. -/
def accessPing (s : ClusterState) (arrival : ClusterState.Arrival) (sender : Option NodeRef)
    (senderConfigEpoch : Nat) (isPing isMeet : Bool) : Except Fault Unit :=
  match s.gossipStart server.env arrival (message packet) sender senderConfigEpoch isPing
      isMeet with
  | some start => accessGossipSection server arrival.linkNode packet start
  | none => .ok ()

def accessData (s : ClusterState) (arrival : ClusterState.Arrival) (sender : Option NodeRef)
    (senderConfigEpoch : Nat) : Except Fault Unit :=
  match packetType packet with
  | .ping => accessPing server packet s arrival sender senderConfigEpoch true false
  | .pong => accessPing server packet s arrival sender senderConfigEpoch false false
  | .meet => accessPing server packet s arrival sender senderConfigEpoch false true
  | .fail => accessWhen sender.isSome (access packet clusterMsgMinLen 40)
  | .publish =>
      accessWhen server.subscribers do
        access packet (clusterMsgMinLen + 8) (channelLen packet)
        access packet (clusterMsgMinLen + 8 + channelLen packet) (messageLen packet)
  | .update => do
      access packet clusterMsgMinLen 8
      accessWhen sender.isSome do
        access packet (clusterMsgMinLen + 8) 40
        access packet (clusterMsgMinLen + 48) (redisClusterSlots / 8)
  | .failoverAuthRequest | .failoverAuthAck | .mfstart | .unknown => .ok ()

/-- What is read behind the checks of the length. The fields of the header are read where they are
needed.
-/
def accessChecked (s : ClusterState) (arrival : ClusterState.Arrival) : Except Fault Unit := do
  access packet 0 clusterMsgMinLen
  match s.clusterLookupNode (message packet).sender with
  | none => accessData server packet s arrival none 0
  | some sender =>
      if s.nodeInHandshake sender then accessData server packet s arrival (some sender) 0
      else
        accessData server packet (s.updateSender (message packet) sender) arrival (some sender)
          (message packet).configEpoch

/-- `clusterProcessPacket` for the bytes of a packet. -/
def clusterProcessPacketBytes : Except Fault ClusterState := do
  access packet 4 4
  access packet 12 2
  access packet 2202 2
  if totlen packet < 16 then return server.state
  access packet 8 2
  if version packet ≠ 0 then return server.state
  if packet.length < totlen packet then return server.state
  accessLengths packet
  if totlen packet ≠ explen packet then return server.state
  let arrival :=
    { server.arrival with linkNode := server.arrival.linkNode.filter server.state.live }
  accessChecked server packet server.state arrival
  return server.state.clusterProcessPacket server.env server.arrival (message packet)

end Packet

-- `clusterReadHandler`

/-- `clusterLink`, with the bytes that wait in the socket. The packets that were handed to
`clusterProcessPacket` are not part of the program.
-/
structure BusLink where
  rcvbuf : List UInt8
  unread : List UInt8
  passed : List (List UInt8)
  freed : Bool

def createClusterLink : BusLink := ⟨[], [], [], false⟩

inductive BusEvent where
  /-- Bytes arrive in the socket. -/
  | arrive (bytes : List UInt8)
  /-- A round of the loop of `clusterReadHandler` in which `read` returns at most so many bytes. If
  it has a packet processed, `clusterProcessPacket` returns whether the link is valid.
  -/
  | read (nread : Nat) (valid : Bool)
  /-- `read` returns an error other than `EAGAIN`. -/
  | ioError

/-- The bytes that a round asks for; `none` when the signature or the length is wrong. -/
def readlen (rcvbuf : List UInt8) : Option Nat :=
  if rcvbuf.length < 8 then some (8 - rcvbuf.length)
  else if rcvbuf.length = 8
      ∧ (bytesAt rcvbuf 0 4 ≠ [0x52, 0x43, 0x6D, 0x62] ∨ totlen rcvbuf < clusterMsgMinLen) then
    none
  else some (min ((totlen rcvbuf + 2 ^ 32 - rcvbuf.length) % 2 ^ 32) clusterMsgSize)

namespace BusLink

variable (link : BusLink)

def receive (bytes : List UInt8) (valid : Bool) : BusLink :=
  let rcvbuf := link.rcvbuf ++ bytes
  let unread := link.unread.drop bytes.length
  if 8 ≤ rcvbuf.length ∧ rcvbuf.length = totlen rcvbuf then
    { rcvbuf := if valid then [] else rcvbuf
      unread := unread
      passed := link.passed ++ [rcvbuf]
      freed := !valid }
  else { link with rcvbuf := rcvbuf, unread := unread }

/-- A round of the loop; nothing to read is `EAGAIN`. -/
def read (nread : Nat) (valid : Bool) : BusLink :=
  match readlen link.rcvbuf with
  | none => { link with freed := true }
  | some len =>
      match link.unread.take (min nread len) with
      | [] => link
      | byte :: bytes => link.receive (byte :: bytes) valid

def step : BusEvent → BusLink
  | .arrive bytes => { link with unread := link.unread ++ bytes }
  | .read nread valid => if link.freed then link else link.read nread valid
  | .ioError => { link with freed := true }

def run (events : List BusEvent) : BusLink := events.foldl step link

end BusLink

def arrived : List BusEvent → List UInt8
  | [] => []
  | .arrive bytes :: events => bytes ++ arrived events
  | _ :: events => arrived events

end Redis.Cluster
