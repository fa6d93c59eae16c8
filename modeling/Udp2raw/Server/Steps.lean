import Udp2raw.Server.Handlers

/-!
# Steps of the server

Everything a handler does to the server is one of the steps below, together with
the facts that made the handler do it. Invariants are proved once per step.
-/

namespace Udp2raw

/-- Effects that touch neither a connection nor the pipeline. -/
def Effect.Quiet : Effect → Prop
  | .openBare _ | .sendEmpty _ | .sockSend _ _ => True
  | _ => False

namespace Server

open Conn

/-- One step of a handler, with its effects; `cause` is the completion that is handled. -/
inductive Step (cfg : ServerCfg) (cause : Option Done) :
    Server → List Effect → Server → Prop where
  | note {s : Server} {out : List Effect} (quiet : ∀ e ∈ out, e.Quiet) : Step cfg cause s out s
  | book {s : Server} (cursor : Nat) (last : UInt64) :
      Step cfg cause s [] { s with clearCursor := cursor, lastConnClear := last }
  | info {s : Server} {slot : Nat} {c : ServerConn} {info : ConnInfo}
      (hc : s.conns.get? slot = some c) (same : SameConn c.info info) :
      Step cfg cause s [] (s.setConn slot (c.withInfo info))
  /-- A new connection for an initial handshake from a new address. -/
  | create {s : Server} {c : ServerConn} {random : UInt64} (state : c.state = .handshake1)
      (convs : c.convs = {}) (generation : c.generation = s.nextGeneration)
      (serial : c.serial = s.created)
      (antiReplay : c.info.antiReplay = .new cfg.disableAntiReplay random)
      (unknown : s.byAddr.lookup c.addr = none) (room : s.conns.live < maxHandshakeConnNum) :
      Step cfg cause s [.newId c.info.myId, .incarnation (c.key (s.addConn c).2)] (s.addConn c).1
  /-- The answer to an initial handshake. -/
  | reply {s : Server} {slot : Nat} {c : ServerConn} {raw : RawInfo} {plain : Bytes}
      {id k : UInt32} {iv padding : UInt64} (hc : s.conns.get? slot = some c)
      (state : c.state = .handshake1) (initial : handshakeOf plain = some (id, 0, k)) :
      Step cfg cause s
        [.openBare plain,
          .sealBare (Wire.buildBare iv padding (Wire.buildHandshake c.info.myId id cfg.constId))]
        (s.setConn slot (c.withInfo { c.info with raw := raw }))
  /-- A handshake that names the connection's id brings the client's id. -/
  | claim {s : Server} {slot : Nat} {c : ServerConn} {raw : RawInfo} {plain : Bytes}
      {id k : UInt32} (hc : s.conns.get? slot = some c) (state : c.state = .handshake1)
      (named : handshakeOf plain = some (id, c.info.myId, k)) :
      Step cfg cause s [.openBare plain]
        (s.setConn slot (c.withInfo { c.info with oppsiteId := id, raw := raw }))
  /-- A connection that may not become ready goes idle. -/
  | refuse {s : Server} {slot : Nat} {c : ServerConn} (k : UInt32)
      (hc : s.conns.get? slot = some c) (state : c.state = .handshake1) :
      Step cfg cause s []
        (s.setConn slot (c.giveUp k))
  | goReady {s : Server} {slot : Nat} {c : ServerConn} {plain : Bytes} {k : UInt32}
      (now : UInt64) (hc : s.conns.get? slot = some c) (state : c.state = .handshake1)
      (named : handshakeOf plain = some (c.info.oppsiteId, c.info.myId, k))
      (unknown : s.byConstId.lookup k = none)
      (room : s.readyNum < maxReadyConnNum) :
      Step cfg cause s [.openBare plain, .ready slot c.info.myId c.info.oppsiteId]
        (s.goReady slot c k now)
  | recover {s : Server} {slot ori : Nat} {c oc : ServerConn} {plain : Bytes} {k : UInt32}
      (hc : s.conns.get? slot = some c) (ho : s.conns.get? ori = some oc)
      (state : c.state = .handshake1) (ready : oc.state = .ready) (ne : ori ≠ slot)
      (named : handshakeOf plain = some (c.info.oppsiteId, c.info.myId, k)) :
      Step cfg cause s
        [.openBare plain, .recovered ori c.info.myId c.info.oppsiteId,
          .incarnation ⟨ori, s.nextGeneration⟩]
        (s.recover slot ori c oc)
  /-- A ready connection prepares a packet and hands it to the pipeline. -/
  | prepare {s : Server} {slot : Nat} {c : ServerConn} {ptype : UInt8} {payload : Bytes}
      (hc : s.conns.get? slot = some c) (state : c.state = .ready)
      (htype : ptype = typeHeartbeat ∨ ptype = typeData) :
      Step cfg cause s
        (handIn (c.key slot) c.info ptype payload (Conn.prepareSafer c.info ptype payload).1)
        (s.setConn slot (c.withInfo (Conn.prepareSafer c.info ptype payload).2))
  /-- A ready connection hands a received packet to the pipeline. -/
  | receive {s : Server} {slot : Nat} {c : ServerConn} {raw : RawInfo} {wire : Bytes}
      {recv : RecvMeta} (hc : s.conns.get? slot = some c) (state : c.state = .ready) :
      Step cfg cause s [.submit (.decrypt (c.key slot) wire recv)]
        (s.setConn slot (c.withInfo { c.info with raw := raw }))
  /-- A completed encryption leaves on the connection of its key. -/
  | transmit {s : Server} {key : JobKey} {c : ServerConn} {raw : RawInfo} {wire : Bytes}
      (hc : s.conns.get? key.slot = some c) (state : c.state = .ready)
      (current : c.generation = key.generation)
      (because : cause = some (.encrypted key (some wire))) :
      Step cfg cause s [.transmit key c.info.myId c.info.oppsiteId wire]
        (s.setConn key.slot (c.withInfo { c.info with raw := raw }))
  /-- A decrypted plaintext is checked by the connection of its key. -/
  | check {s : Server} {key : JobKey} {c : ServerConn} {plain : Bytes} {now : UInt64}
      {r : Option (UInt8 × Nat)} {info : ConnInfo} {plains : List Bytes} {recv : RecvMeta}
      (hc : s.conns.get? key.slot = some c) (state : c.state = .ready)
      (current : c.generation = key.generation)
      (result : Conn.acceptSaferOffset c.info plain cfg.hbMode now = .ok (r, info))
      (because : cause = some (.decrypted key plains recv)) (mem : plain ∈ plains) :
      Step cfg cause s
        [.check key (c.key key.slot) c.info.myId c.info.oppsiteId plain
          (r.map fun p => (p.1, plain.drop p.2))]
        (s.setConn key.slot (c.withInfo info))
  | afterRecv {s : Server} {key : JobKey} {c : ServerConn} {raw : RawInfo}
      {plains : List Bytes} {recv : RecvMeta}
      (hc : s.conns.get? key.slot = some c) (state : c.state = .ready)
      (current : c.generation = key.generation)
      (because : cause = some (.decrypted key plains recv)) :
      Step cfg cause s [.afterRecv key (c.key key.slot)]
        (s.setConn key.slot (c.withInfo { c.info with raw := raw }))
  | openSock {s : Server} {slot : Nat} {c : ServerConn} {conv : UInt32} (now : UInt64)
      (hc : s.conns.get? slot = some c) (state : c.state = .ready)
      (unused : c.convs.findDataByConv conv = none) :
      Step cfg cause s [] (s.openSock slot c conv now)
  | openSockUnregistered {s : Server} (slot : Nat) (c : ServerConn) (conv : UInt32) :
      Step cfg cause s [] (s.openSockUnregistered slot c conv)
  | touchConv {s : Server} {slot : Nat} {c : ServerConn} {conv : UInt32} {now : UInt64}
      (hc : s.conns.get? slot = some c) (state : c.state = .ready) :
      Step cfg cause s [] (s.setConn slot { c with convs := c.convs.updateActiveTime conv now })
  | expireConvs {s : Server} {slot : Nat} {c : ServerConn} (now : UInt64)
      (hc : s.conns.get? slot = some c) (state : c.state = .ready) :
      Step cfg cause s [] (s.expireConvs slot c now)
  | drop {s : Server} {slot : Nat} {c : ServerConn} (order : List Nat → List Nat)
      (hc : s.conns.get? slot = some c) : Step cfg cause s [] (s.dropConn slot c order)

/-- The new connection is still there when the established one has been replaced. -/
theorem get?_recover_slot {s : Server} {slot ori : Nat} {c oc : ServerConn}
    (hc : s.conns.get? slot = some c) (ho : s.conns.get? ori = some oc) (hne : ori ≠ slot) :
    (s.conns.set ori (oc.takeOver c s.nextGeneration)).get? slot = some c := by
  rw [Slab.get?_set ho, if_neg (Ne.symm hne), hc]

/-- What the slab holds after a recovery. -/
theorem get?_recover {s : Server} {slot ori : Nat} {c oc : ServerConn}
    (hc : s.conns.get? slot = some c) (ho : s.conns.get? ori = some oc) (hne : ori ≠ slot)
    (i : Nat) :
    (s.recover slot ori c oc).conns.get? i =
      if i = slot then some { c.giveUp 0 with addr := oc.addr }
      else if i = ori then some (oc.takeOver c s.nextGeneration)
      else s.conns.get? i := by
  change (Slab.set (Slab.set s.conns ori _) slot _).get? i = _
  rw [Slab.get?_set (get?_recover_slot hc ho hne), Slab.get?_set ho]

/-- The slot vector never shrinks. -/
theorem Step.length_le {cfg : ServerCfg} {cause : Option Done} {s t : Server} {out : List Effect}
    (h : Step cfg cause s out t) : s.conns.slots.length ≤ t.conns.slots.length := by
  cases h with
  | create => exact s.conns.length_le_alloc _
  | drop order hc => exact (s.conns.length_release _).ge
  | recover =>
    refine Nat.le_of_eq ?_
    change _ = (Slab.set (Slab.set s.conns _ _) _ _).slots.length
    rw [Slab.length_set, Slab.length_set]
  | note | book | openSockUnregistered => exact Nat.le_refl _
  | _ => exact (Slab.length_set _ _ _).ge

end Server

end Udp2raw
