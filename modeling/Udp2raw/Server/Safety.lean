import Udp2raw.Server.Runs

/-!
# Safety of the server

Over every sequence of received packets, completions, local datagrams and timer
ticks, the connection tables agree, the sockets belong to the conversations that
opened them, and no handler reaches an abort outside the packet parsers.
-/

namespace Udp2raw

namespace Server

open Program

/-- The states a server reaches from its start by handling possible events. -/
inductive Reachable (cfg : ServerCfg) : Server → Prop where
  | initial : Reachable cfg {}
  | event {s t : Server} {ev : ServerEvent} {out : List Effect} :
      Reachable cfg s → ev.Possible s → ev.handle cfg s = .ok ((), t, out) → Reachable cfg t

/-- The state after an event; an aborted handler leaves nothing behind. -/
def after (s : Server) (cfg : ServerCfg) (ev : ServerEvent) : Server :=
  match ev.handle cfg s with
  | .ok (_, t, _) => t
  | .error _ => s

variable {cfg : ServerCfg} {s : Server}

theorem Reachable.after (h : Reachable cfg s) (ev : ServerEvent) (hev : ev.Possible s) :
    Reachable cfg (s.after cfg ev) := by
  unfold Server.after
  split
  · next t out hok => exact h.event hev hok
  · exact h

variable {out : List Effect} {t : Server}

/-- An event keeps the server sound. -/
theorem Sound.event (h : s.Sound) {ev : ServerEvent} (hev : ev.Possible s)
    (hok : ev.handle cfg s = .ok ((), t, out)) : t.Sound := by
  obtain ⟨hsteps, -⟩ := (does_handle h hev).ok hok
  exact hsteps.invariant (fun _ _ _ hstep hs => hs.step hstep) h

/-- Every reachable server is sound. -/
theorem Reachable.sound (h : Reachable cfg s) : s.Sound := by
  induction h with
  | initial => exact .initial
  | event _ hev hok ih => exact ih.event hev hok

/-- No step takes a branch that should not happen. -/
theorem Step.expected {cause : Option Done} (h : Step cfg cause s out t) :
    ∀ e ∈ out, e ≠ .unexpected := by
  cases h with
  | note quiet =>
    rintro e he rfl
    exact quiet _ he
  | _ => simp [handIn]

/-- A handler aborts at most in the packet parsers and takes no unexpected branch. -/
def Orderly (cfg : ServerCfg) (s : Server) (ev : ServerEvent) : Prop :=
  (∀ e, ev.handle cfg s = .error e → e.FromPacket) ∧
    ∀ t out, ev.handle cfg s = .ok ((), t, out) → Effect.unexpected ∉ out

/-- A sound server is orderly. -/
theorem Sound.orderly (h : s.Sound) {ev : ServerEvent} (hev : ev.Possible s) :
    Orderly cfg s ev := by
  refine ⟨fun e he => (does_handle h hev).error he, fun t out hok hmem => ?_⟩
  obtain ⟨hsteps, -⟩ := (does_handle h hev).ok hok
  exact hsteps.forall_out (fun _ _ _ => Step.expected) _ hmem rfl

/-- The connection tables agree in every reachable state: each address and, for ready
connections, each const id is listed exactly for its slot, the ready count and the free list
are exact, and the limits hold. So no handler indexes or unwraps a missing slot or counts
below zero, and no branch that should not happen is taken. -/
theorem tables_consistent (h : Reachable cfg s) :
    (∀ a slot, s.byAddr.lookup a = some slot ↔ ∃ c, s.conns.get? slot = some c ∧ c.addr = a) ∧
    (∀ k slot, s.byConstId.lookup k = some slot ↔
      ∃ c, s.conns.get? slot = some c ∧ c.state = .ready ∧ c.info.oppsiteConstId = k) ∧
    s.readyNum = s.conns.count isReady ∧ s.readyNum ≤ 1000 ∧
    s.conns.free.Nodup ∧ (∀ i, i ∈ s.conns.free ↔ s.conns.slots[i]? = some none) ∧
    (s.conns.count fun _ => true) ≤ 10000 ∧
    ∀ ev : ServerEvent, ev.Possible s → Orderly cfg s ev := by
  have hs := h.sound
  refine ⟨hs.byAddr, hs.byConstId, hs.readyNum, hs.readyNum_le, s.conns.nodup, s.conns.mem_free,
    ?_, fun ev hev => hs.orderly hev⟩
  rw [← Slab.live_eq_count]
  exact hs.live_le

/-- A server in UDP mode that decrypts by doing nothing. -/
def plainCfg : ServerCfg :=
  { ctx := { rawMode := .udp, isV6 := false, isClient := false, filterPort := 2000 }
    constId := 3, decrypt := some }

/-- The draws of a first connection, whose id is 5. -/
def firstDraws : PacketOracle :=
  { seeds := ⟨1, 2, 3, 4⟩, connSeeds := ⟨1, 2, 3, 4⟩, random := 70, freshId := 5
    createTime := 10, readyTime := 20, iv := 0, padding := 0, roll := 0, encrypt := some }

/-- UDP packet from 10.0.0.1:1000 with the initial handshake of client 7, const id 9. -/
def helloPacket : Bytes :=
  [69, 0, 0, 57, 0, 0, 0, 0, 64, 17, 102, 178, 10, 0, 0, 1, 10, 0, 0, 2] ++
  [3, 232, 7, 208, 0, 37, 109, 233] ++ List.replicate 16 0 ++
  [98, 0, 0, 0, 7, 0, 0, 0, 0, 0, 0, 0, 9]

/-- The second handshake of the same client, which names connection 5. -/
def confirmPacket : Bytes :=
  [69, 0, 0, 57, 0, 0, 0, 0, 64, 17, 102, 178, 10, 0, 0, 1, 10, 0, 0, 2] ++
  [3, 232, 7, 208, 0, 37, 104, 233] ++ List.replicate 16 0 ++
  [98, 0, 0, 0, 7, 0, 0, 0, 5, 0, 0, 0, 9]

/-- The server after both handshakes. -/
def readyServer : Server :=
  (Server.after {} plainCfg (.raw firstDraws helloPacket {})).after plainCfg
    (.raw firstDraws confirmPacket {})

theorem reachable_readyServer : Reachable plainCfg readyServer :=
  (Reachable.initial.after (.raw firstDraws helloPacket {}) trivial).after
    (.raw firstDraws confirmPacket {}) trivial

/-- After a complete handshake the connection is ready in slot 0 and both tables list it. -/
theorem tables_consistent_after_handshake :
    readyServer.byConstId.lookup 9 = some 0 ∧
      (∃ c, readyServer.conns.get? 0 = some c ∧ c.state = .ready ∧ c.info.oppsiteConstId = 9) ∧
      1 ≤ readyServer.readyNum ∧ readyServer.readyNum ≤ 1000 := by
  obtain ⟨-, hconst, -, hmax, -⟩ := tables_consistent reachable_readyServer
  have hlookup : readyServer.byConstId.lookup 9 = some 0 := by decide
  exact ⟨hlookup, (hconst 9 0).mp hlookup, by decide, hmax⟩

/-- The effect hands a datagram of the conversation of `cs` on for the connection `c`. -/
def CarriesReply (cs : ConvSock) (c : ServerConn) (datagrams : List Bytes) (e : Effect) : Prop :=
  ∃ seq roller data, data ∈ datagrams ∧
    e ∈ handIn (c.key cs.connSlot) c.info typeData (Wire.buildDataPayload cs.conv data)
      (Wire.buildSafer
        { myId := c.info.myId, oppsiteId := c.info.oppsiteId, seq := seq, ptype := typeData
          roller := roller }
        (Wire.buildDataPayload cs.conv data))

/-- What a socket delivers is only handed on for its own connection and conversation. -/
theorem onSockReadable_replies {sidx : Nat} {cs : ConvSock} {c : ServerConn}
    (hcs : s.socks.get? sidx = some cs) (hc : s.conns.get? cs.connSlot = some c)
    (hs : c.state = .ready) (datagrams : List Bytes)
    (hok : onSockReadable sidx datagrams s = .ok ((), t, out)) :
    ∀ e ∈ out, CarriesReply cs c datagrams e := by
  -- the connection keeps its key and its ids while the datagrams are prepared
  let J : Server → Prop := fun u => ∃ b, u.conns.get? cs.connSlot = some b ∧ b.state = .ready ∧
    b.generation = c.generation ∧ b.info.myId = c.info.myId ∧
    b.info.oppsiteId = c.info.oppsiteId
  have hruns : Runs (fun _ out _ => ∀ e ∈ out, CarriesReply cs c datagrams e) (fun _ => True) s
      (onSockReadable sidx datagrams) fun _ => J := by
    refine runs_get_bind ?_
    rw [Slab.get?_eq_some.mp hcs]
    refine runs_forEach (fun data hdata u hu => ?_) ⟨c, hc, hs, rfl, rfl, rfl⟩
    obtain ⟨b, hb, hbs, hbg, hbm, hbo⟩ := hu
    refine runs_ite (fun _ => runs_pure ⟨b, hb, hbs, hbg, hbm, hbo⟩) fun _ => ?_
    refine runs_slot? (Slab.lt_of_get? hb) ?_
    rw [hb]
    dsimp only
    rw [if_neg (not_not.mpr hbs), Conn.prepareSaferData_eq]
    refine runs_act (fun e he => ?_) ⟨_, get?_setConn hb _, hbs, hbg, hbm, hbo⟩
    refine ⟨b.info.antiReplay.nextSendSeq, b.info.myRoller, data, hdata, ?_⟩
    simpa only [handIn, ServerConn.key, Conn.prepareSafer, Conn.nextHeader, hbg, hbm, hbo] using he
  exact (hruns.ok hok).1.forall_out fun _ _ _ hstep => hstep

/-- Sockets are owned in every reachable state: an occupied entry exists exactly for each
conversation a ready connection lists, each belongs to one slot and conversation, and the free
list is exact. What is read from a socket leaves only on the connection that opened it, which
is still there and ready, and under its conversation. -/
theorem sockets_owned (h : Reachable cfg s) :
    (∀ i slot v, (∃ cs, s.socks.get? i = some cs ∧ cs.connSlot = slot ∧ cs.conv = v) ↔
      ∃ c, s.conns.get? slot = some c ∧ c.state = .ready ∧
        c.convs.findDataByConv v = some i) ∧
    (∀ i cs, s.socks.get? i = some cs → ∃! p : Nat × UInt32,
      ∃ c, s.conns.get? p.1 = some c ∧ c.convs.findDataByConv p.2 = some i) ∧
    s.socks.free.Nodup ∧ (∀ i, i ∈ s.socks.free ↔ s.socks.slots[i]? = some none) ∧
    (∀ i j c d, s.conns.get? i = some c → s.conns.get? j = some d → c.serial = d.serial →
      i = j) ∧
    (∀ i cs, s.socks.get? i = some cs → ∃ c, s.conns.get? cs.connSlot = some c ∧
      c.state = .ready ∧ c.serial = cs.serial ∧
      ∀ datagrams t out, (ServerEvent.sock i datagrams).handle cfg s = .ok ((), t, out) →
        ∀ e ∈ out, CarriesReply cs c datagrams e) ∧
    ∀ ev : ServerEvent, ev.Possible s → Orderly cfg s ev := by
  have hs := h.sound
  refine ⟨fun i slot v => ⟨?_, ?_⟩, fun i cs hi => ?_, s.socks.nodup, s.socks.mem_free,
    fun i j c d => hs.inj, fun i cs hi => ?_, fun ev hev => hs.orderly hev⟩
  · rintro ⟨cs, hi, rfl, rfl⟩
    obtain ⟨c, hc, hr, hv, -⟩ := hs.owner hi
    exact ⟨c, hc, hr, hv⟩
  · rintro ⟨c, hc, -, hv⟩
    exact (hs.entry hc hv).2
  · obtain ⟨c, hc, -, hv, -⟩ := hs.owner hi
    refine ⟨(cs.connSlot, cs.conv), ⟨c, hc, hv⟩, ?_⟩
    rintro ⟨slot, v⟩ ⟨d, hd, hdv⟩
    obtain ⟨-, cs', hi', rfl, rfl⟩ := hs.entry hd hdv
    rw [hi] at hi'
    rw [Option.some.inj hi']
  · obtain ⟨c, hc, hr, -, hserial⟩ := hs.owner hi
    exact ⟨c, hc, hr, hserial, fun datagrams t out hok =>
      onSockReadable_replies hi hc hr datagrams hok⟩

/-- A data packet of conversation 6 on the ready connection, whose socket opens. -/
def dataEvent : ServerEvent :=
  .done { dropRoll := 0, seqRoll := 0, plain := fun _ => ⟨30, 30, .opened⟩ }
    (.decrypted ⟨0, 1⟩
      [Wire.buildSafer { myId := 7, oppsiteId := 5, seq := 1, ptype := typeData, roller := 0 }
        (Wire.buildDataPayload 6 [1, 2])] {})

/-- The first socket belongs to the connection in slot 0 and to conversation 6. -/
theorem sockets_owned_first_conv :
    (readyServer.after plainCfg dataEvent).socks.get? 0 = some ⟨0, 6, 0⟩ ∧
      ∃ c, (readyServer.after plainCfg dataEvent).conns.get? 0 = some c ∧ c.state = .ready ∧
        c.convs.findDataByConv 6 = some 0 := by
  have hsock : (readyServer.after plainCfg dataEvent).socks.get? 0 = some ⟨0, 6, 0⟩ := by
    decide +kernel
  obtain ⟨howned, -⟩ := sockets_owned (reachable_readyServer.after dataEvent trivial)
  exact ⟨hsock, (howned 0 0 6).mp ⟨_, hsock, rfl, rfl⟩⟩

end Server

end Udp2raw
