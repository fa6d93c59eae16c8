import Udp2raw.Client.Handlers

/-!
# Steps of the client

Everything a handler does to the client is one of the steps below, together with
the facts that made the handler do it. A completion is applied to the client as
it is when the step is taken, which need not be as it was when the completion
arrived: the relation has a parameter for what is known of the key then.
-/

namespace Udp2raw

/-- Effects that touch neither a connection nor the pipeline. -/
def Effect.Inert : Effect → Prop
  | .openBare _ | .sendEmpty _ | .sendBare _ | .connect _ | .udpSend _ _ | .endpoint _
  | .unexpected => True
  | _ => False

/-- The client does not yet know the id of its server. -/
def ClientState.Early (state : ClientState) : Prop := state ≠ .handshake2 ∧ state ≠ .ready

namespace Client

open Conn

/-- Neither the state nor the incarnation nor the session changes. -/
structure Same (c d : Client) : Prop extends SameConn c.info d.info where
  state : d.state = c.state
  generation : d.generation = c.generation

/-- A handshake packet of the client, as a plaintext. -/
def handshakePlain (cfg : ClientCfg) (c : Client) (iv padding : UInt64) (id2 : UInt32) : Bytes :=
  Wire.buildBare iv padding (Wire.buildHandshake c.info.myId id2 cfg.constId)

/-- One step of a handler, with its effects; `cause` is the completion that is handled. -/
inductive Step (cfg : ClientCfg) (G : JobKey → Client → Prop) (cause : Option Done) :
    Client → List Effect → Client → Prop where
  | quiet {c d : Client} {out : List Effect} (same : Same c d) (inert : ∀ e ∈ out, e.Inert) :
      Step cfg G cause c out d
  | toIdle {c : Client} (reason : CycleReason) (id : UInt32) :
      Step cfg G cause c
        [.endpoint .onSessionEnded, .newId id, .incarnation (c.toIdle reason id).key]
        (c.toIdle reason id)
  | select {c : Client} (id : UInt32) (switchTo : Option (IpAddr × UInt16)) (now : UInt64)
      (state : c.state = .idle) :
      Step cfg G cause c
        [.newId id, .incarnation (c.selectEndpoint cfg id switchTo).key,
          .endpoint (.onCycle now c.cycleReason),
          .selected (c.selectEndpoint cfg id switchTo).remote]
        (c.selectEndpoint cfg id switchTo)
  /-- An attempt starts, or its TCP handshake ends. -/
  | advance {c d : Client} {out : List Effect} (same : SameConn c.info d.info)
      (early : c.state.Early) (next : d.state.Early) (generation : d.generation = c.generation)
      (inert : ∀ e ∈ out, e.Inert) : Step cfg G cause c out d
  /-- The first handshake packet. -/
  | hello {c d : Client} {out : List Effect} {iv padding : UInt64} (same : Same c d)
      (inert : ∀ e ∈ out, e.Inert) (state : c.state = .handshake1) :
      Step cfg G cause c (out ++ [.sealBare (c.handshakePlain cfg iv padding 0)]) d
  /-- A handshake that names the client's id brings the server's id. -/
  | meet {c d : Client} {plain : Bytes} {id k : UInt32} (state : c.state = .handshake1)
      (named : handshakeOf plain = some (id, c.info.myId, k))
      (same : SameConn { c.info with oppsiteId := id } d.info) (next : d.state = .handshake2)
      (generation : d.generation = c.generation) :
      Step cfg G cause c [.openBare plain, .met c.info.myId id] d
  /-- The second handshake packet. -/
  | confirm {c d : Client} {iv padding : UInt64} (same : Same c d) (state : c.state = .handshake2) :
      Step cfg G cause c [.sealBare (c.handshakePlain cfg iv padding c.info.oppsiteId)] d
  /-- An accepted plaintext makes the client ready. -/
  | authenticate {c d : Client} {plain : Bytes} {seq : UInt64} (state : c.state = .handshake2)
      (addressed : Addressed c.info plain seq) (body : (Wire.parseSaferBody plain).isSome)
      (same : SameConn c.info d.info) (next : d.state = .ready)
      (generation : d.generation = c.generation) {key : JobKey} {plains : List Bytes}
      {recv : RecvMeta} (because : cause = some (.decrypted key plains recv))
      (mem : plain ∈ plains) :
      Step cfg G cause c [.authenticated plain, .endpoint .onAuthenticated] d
  /-- A ready client prepares a packet and hands it to the pipeline. -/
  | prepare {c : Client} {ptype : UInt8} {payload : Bytes} {info : ConnInfo}
      (state : c.state = .ready) (htype : ptype = typeHeartbeat ∨ ptype = typeData)
      (same : SameConn (prepareSafer c.info ptype payload).2 info) :
      Step cfg G cause c (handIn c.key c.info ptype payload (prepareSafer c.info ptype payload).1)
        (c.withInfo info)
  /-- A received packet goes to the pipeline. -/
  | receive {c : Client} (wire : Bytes) (recv : RecvMeta)
      (state : c.state = .handshake2 ∨ c.state = .ready) :
      Step cfg G cause c [.submit (.decrypt c.key wire recv)] c
  /-- A completed encryption leaves if its incarnation is still the current one. -/
  | transmit {c : Client} {key : JobKey} (wire : Bytes) (raw : RawInfo) (state : c.state = .ready)
      (current : key.generation = c.generation)
      (because : cause = some (.encrypted key (some wire))) :
      Step cfg G cause c [.transmit key c.info.myId c.info.oppsiteId wire] (c.withRaw raw)
  /-- A decrypted plaintext is checked. -/
  | check {c : Client} {key : JobKey} {plain : Bytes} {now : UInt64}
      {r : Option (UInt8 × Nat)} {info : ConnInfo} {plains : List Bytes} {recv : RecvMeta}
      (guard : G key c) (result : acceptSaferOffset c.info plain cfg.hbMode now = .ok (r, info))
      (because : cause = some (.decrypted key plains recv)) (mem : plain ∈ plains) :
      Step cfg G cause c
        [.check key c.key c.info.myId c.info.oppsiteId plain
          (r.map fun p => (p.1, plain.drop p.2))]
        (c.withInfo info)
  | afterRecv {c : Client} {key : JobKey} {plains : List Bytes} {recv : RecvMeta} (raw : RawInfo)
      (guard : G key c) (because : cause = some (.decrypted key plains recv)) :
      Step cfg G cause c [.afterRecv key c.key] (c.withRaw raw)

end Client

end Udp2raw
