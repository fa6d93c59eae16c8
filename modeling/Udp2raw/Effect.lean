import Udp2raw.Core.Program
import Udp2raw.Pipeline.Job

/-!
# Faults and effects of the event handlers

Client and server are programs over their own state with the same faults and the
same log of effects. The log holds what the properties speak about: the
plaintexts that were built or opened, the jobs handed to the pipeline and the
completions applied to a connection.
-/

namespace Udp2raw

open Program

/-- `HUGE_DATA_LEN`. -/
def hugeDataLen : Nat := 65535 + 100

/-- `MAX_CONV_NUM`. -/
def maxConvNum : Nat := 10000

/-- `HEARTBEAT_INTERVAL_MS`. -/
def heartbeatIntervalMs : UInt64 := 600

/-- Where a handler can stop without a successor state. -/
inductive Fault where
  /-- A receive parser aborted on a packet. -/
  | packet (p : Checked.Panic)
  /-- The anti-replay window was indexed out of range. -/
  | window (p : Checked.Panic)
  /-- A slot number outside its vector. -/
  | index
  /-- `expect` or `unwrap` of an empty slot or a missing entry. -/
  | unwrap
  /-- A counter went below zero. -/
  | underflow
  deriving DecidableEq, Repr

/-- `CycleReason`: why the client starts its next attempt. -/
inductive CycleReason where
  | startup
  | attemptFailed
  | sessionLost
  | forced
  | probationExpired
  | operatorRollback
  deriving DecidableEq, Repr

/-- A call of the client into its endpoint controller. -/
inductive EndpointCall where
  | onSessionEnded
  | onCycle (now : UInt64) (reason : CycleReason)
  | onAuthenticated
  | onAuthenticatedActivity (now : UInt64) (data : Bool)
  | requestRefresh
  deriving DecidableEq, Repr

/-- What a handler does besides changing its state. -/
inductive Effect where
  /-- A packet without tunnel payload was given to `send_raw` with these headers. -/
  | sendEmpty (info : PacketInfo)
  /-- `send_bare` built this plaintext. -/
  | sealBare (plain : Bytes)
  /-- A bare packet was decrypted to this plaintext. -/
  | openBare (plain : Bytes)
  /-- `prepare_safer_into` on a connection with these ids built this plaintext. -/
  | prepared (myId oppsiteId : UInt32) (ptype : UInt8) (payload plain : Bytes)
  /-- A job was handed to the pipeline. -/
  | submit (job : Job)
  /-- `transmit_safer` on a connection with these ids, for a completion with this key. -/
  | transmit (key : JobKey) (myId oppsiteId : UInt32) (wire : Bytes)
  /-- `accept_safer_offset` on the connection `target`, for a completion with this key; the
  result is the type and the payload. -/
  | check (key target : JobKey) (myId oppsiteId : UInt32) (plain : Bytes)
      (result : Option (UInt8 × Bytes))
  /-- `after_recv` on the connection `target`, for a completion with this key. -/
  | afterRecv (key target : JobKey)
  /-- A connection drew a new id. -/
  | newId (id : UInt32)
  /-- A connection incarnation began. -/
  | incarnation (key : JobKey)
  /-- A server connection became ready with these ids. -/
  | ready (slot : Nat) (myId oppsiteId : UInt32)
  /-- A server connection was recovered onto a new address with these ids. -/
  | recovered (slot : Nat) (myId oppsiteId : UInt32)
  /-- A datagram was sent on a local socket. -/
  | sockSend (sidx : Nat) (data : Bytes)
  /-- The client sent a datagram to a local peer. -/
  | udpSend (peer : IpAddr × UInt16) (data : Bytes)
  /-- The client entered `Handshake2` with these ids. -/
  | met (myId oppsiteId : UInt32)
  /-- The client became ready because it accepted this plaintext. -/
  | authenticated (plain : Bytes)
  /-- The client called its endpoint controller. -/
  | endpoint (call : EndpointCall)
  /-- The client selected this endpoint for its next attempt. -/
  | selected (dst : IpAddr × UInt16)
  /-- The client connected the easy-faketcp socket. -/
  | connect (dst : IpAddr × UInt16)
  /-- The client gave a handshake message to `send_raw` with these headers. -/
  | sendBare (info : PacketInfo)
  /-- A branch the source logs as one that should not happen. -/
  | unexpected
  deriving DecidableEq, Repr

/-- The length checks on a received packet, and the bytes that are kept. -/
def clampPacket (fixGro : Bool) (buf : Bytes) : Option Bytes :=
  if buf.length = hugeDataLen + 1 then if fixGro then some (buf.take hugeDataLen) else none
  else if buf.length > maxDataLen ∧ fixGro = false then none
  else some buf

/-- A result of the receive parsers. -/
def packet {σ α : Type} (x : Except Checked.Panic α) : Program σ Effect Fault α :=
  ofExcept (x.mapError .packet)

/-- The abort is one of the receive parsers on the bytes of a packet. -/
def Fault.FromPacket : Fault → Prop
  | .packet _ => True
  | _ => False

/-- Parsing makes no step. -/
theorem runs_packet {σ α : Type} {R : σ → List Effect → σ → Prop} {s : σ}
    {x : Except Checked.Panic α} {Q : α → σ → Prop} (h : ∀ a, x = .ok a → Q a s) :
    Runs R Fault.FromPacket s (packet x) Q := by
  refine runs_ofExcept (fun e he => ?_) fun a ha => h a ?_
  · cases x with
    | error p => cases he; trivial
    | ok a => cases he
  · cases x with
    | error p => cases ha
    | ok b => cases ha; rfl

/-- Log effects without changing the state. -/
def emit {σ : Type} (out : List Effect) : Program σ Effect Fault Unit := act id out

/-- A packet that was prepared on a connection goes to the pipeline. -/
def handIn (key : JobKey) (info : ConnInfo) (ptype : UInt8) (payload plain : Bytes) :
    List Effect :=
  [.prepared info.myId info.oppsiteId ptype payload plain, .submit (.encrypt key plain)]

/-- The three ids of a bare plaintext that is a handshake. -/
def handshakeOf (plain : Bytes) : Option (UInt32 × UInt32 × UInt32) :=
  (Wire.parseBare plain).bind Wire.parseHandshake

end Udp2raw
