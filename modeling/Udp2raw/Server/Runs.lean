import Udp2raw.Server.Sockets
import Udp2raw.Server.Tables

/-!
# Handlers are made of steps

Each handler is cut into steps once. The cut uses the invariants of the tables
and the sockets: they are why no read of a slot aborts and why the branches that
should not happen are not taken. A handler can still abort in the packet parsers.
-/

namespace Udp2raw

namespace Server

open Program

/-- The invariants of the server state. -/
structure Sound (s : Server) : Prop extends s.Consistent, s.OwnsSockets, s.Numbered

theorem Sound.initial : Sound {} := ⟨.initial, .initial, .initial⟩

theorem Sound.step {cfg : ServerCfg} {cause : Option Done} {s t : Server} {out : List Effect}
    (h : s.Sound) (hstep : Step cfg cause s out t) : t.Sound :=
  ⟨h.toConsistent.step hstep, h.toOwnsSockets.step hstep, h.toNumbered.step hstep⟩

variable {cfg : ServerCfg} {cause : Option Done} {s : Server}

/-- Handlers are cut into steps and abort only in the parsers. -/
abbrev Does (cfg : ServerCfg) (cause : Option Done) {α : Type} (s : Server) (m : ServerM α)
    (Q : α → Server → Prop) : Prop :=
  Runs (Step cfg cause) Fault.FromPacket s m Q

/-- Sound states stay sound, and existing slots stay in range. -/
theorem Sound.keep {α : Type} {m : ServerM α} {Q : α → Server → Prop} (hs : s.Sound)
    (h : Does cfg cause s m Q) {n : Nat} (hn : n ≤ s.conns.slots.length) :
    Does cfg cause s m fun _ t => t.Sound ∧ n ≤ t.conns.slots.length :=
  (Runs.keep (I := fun t => t.Sound ∧ n ≤ t.conns.slots.length)
    (fun _ _ _ hstep ht => ⟨ht.1.step hstep, ht.2.trans hstep.length_le⟩) h ⟨hs, hn⟩).mono
    fun _ _ ht => ht.1

theorem does_emit {out : List Effect} (h : ∀ e ∈ out, e.Quiet) {Q : Unit → Server → Prop}
    (hq : Q () s) : Does cfg cause s (emit out) Q :=
  runs_act (.note h) hq

section

variable {R : Server → List Effect → Server → Prop} {E : Fault → Prop}

theorem runs_slot? {slot : Nat} (hlt : slot < s.conns.slots.length) {β : Type}
    {f : Option ServerConn → ServerM β} {Q : β → Server → Prop}
    (h : Runs R E s (f (s.conns.get? slot)) Q) : Runs R E s (slot? slot >>= f) Q := by
  refine Runs.bind (R := fun r t => r = s.conns.get? slot ∧ t = s) ?_ ?_
  · refine runs_get_bind ?_
    have he : s.conns.slots[slot]? = some (s.conns.get? slot) := by
      simp [Slab.get?, List.getElem?_eq_getElem hlt]
    rw [he]
    exact runs_pure ⟨rfl, rfl⟩
  · rintro r t ⟨rfl, rfl⟩
    exact h

theorem runs_conn {slot : Nat} {c : ServerConn} (hc : s.conns.get? slot = some c) {β : Type}
    {f : ServerConn → ServerM β} {Q : β → Server → Prop} (h : Runs R E s (f c) Q) :
    Runs R E s (conn slot >>= f) Q := by
  refine Runs.bind (R := fun d t => d = c ∧ t = s) ?_ ?_
  · refine runs_slot? (Slab.lt_of_get? hc) ?_
    rw [hc]
    exact runs_pure ⟨rfl, rfl⟩
  · rintro d t ⟨rfl, rfl⟩
    exact h

end

variable {slot : Nat} {c : ServerConn} {key : JobKey}

theorem conn_apply (hc : s.conns.get? slot = some c) : conn slot s = .ok (c, s, []) := by
  have hs : slot? slot s = .ok (some c, s, []) := by
    change (get >>= _) s = _
    rw [get_bind_apply, Slab.get?_eq_some.mp hc]
    rfl
  exact bind_apply hs

/-- Writing a connection back is the step it was read for. -/
theorem does_putConn {out : List Effect} (hstep : Step cfg cause s out (s.setConn slot c))
    {Q : Unit → Server → Prop} (hq : Q () (s.setConn slot c)) :
    Does cfg cause s (putConn slot c out) Q :=
  runs_act hstep hq

theorem get?_setConn (hc : s.conns.get? slot = some c) (b : ServerConn) :
    (s.setConn slot b).conns.get? slot = some b :=
  Slab.get?_set_self hc b

/-- A heartbeat only advances the connection's send counter. -/
theorem does_sendHeartbeat (hc : s.conns.get? slot = some c) (hr : c.state = .ready) :
    Does cfg cause s (sendHeartbeat cfg slot) fun _ t =>
      ∃ info, t.conns.get? slot = some (c.withInfo info) := by
  refine runs_conn hc ?_
  exact does_putConn (.prepare hc hr (.inl rfl)) ⟨_, get?_setConn hc _⟩

theorem does_refuse (hc : s.conns.get? slot = some c) (hs : c.state = .handshake1)
    (k : ServerConn → UInt32) : Does cfg cause s (refuse slot k) fun _ _ => True := by
  refine runs_conn hc ?_
  exact does_putConn (.refuse _ hc hs) trivial

/-- A handshake becomes ready in steps. -/
theorem does_preReady (h : s.Sound) (hc : s.conns.get? slot = some c) (hs : c.state = .handshake1)
    {plain : Bytes} {k : UInt32}
    (named : handshakeOf plain = some (c.info.oppsiteId, c.info.myId, k)) (now : UInt64) :
    Does cfg cause s (preReady cfg now slot k plain) fun _ _ => True := by
  refine runs_get_bind ?_
  cases hk : s.byConstId.lookup k with
  | none =>
    refine runs_ite (fun _ => does_refuse hc hs _) fun hroom => ?_
    refine runs_conn hc ?_
    refine Runs.bind (runs_act (.goReady now hc hs named hk (Nat.lt_of_not_le hroom))
      (Q := fun _ t => t = s.goReady slot c k now) rfl) ?_
    rintro _ t rfl
    exact (does_sendHeartbeat (Slab.get?_set_self hc _) rfl).mono fun _ _ _ => trivial
  | some ori =>
    obtain ⟨oc, ho, hready, -⟩ := (h.byConstId k ori).mp hk
    have hne : ori ≠ slot := by
      rintro rfl
      rw [hc] at ho
      obtain rfl := Option.some.inj ho
      rw [hs] at hready
      cases hready
    dsimp only
    rw [if_neg hne]
    refine runs_conn ho ?_
    rw [if_neg (not_not.mpr hready)]
    refine runs_conn hc ?_
    refine runs_ite (fun _ => does_refuse hc hs _) fun _ => ?_
    refine Runs.bind (runs_act (.recover hc ho hs hready hne named)
      (Q := fun _ t => t = s.recover slot ori c oc) rfl) ?_
    rintro _ t rfl
    have ho' : (s.recover slot ori c oc).conns.get? ori =
        some (oc.takeOver c s.nextGeneration) := by
      rw [get?_recover hc ho hne, if_neg hne, if_pos rfl]
    refine (does_sendHeartbeat ho' hready).bind ?_
    rintro _ t ⟨info, ht⟩
    refine runs_conn ht ?_
    refine does_putConn ?_ trivial
    exact .info ht (.of_eq rfl rfl rfl rfl)

/-- A packet of a handshake is handled in steps. -/
theorem does_onHandshake1 (h : s.Sound) (hc : s.conns.get? slot = some c)
    (hs : c.state = .handshake1) {plain payload : Bytes} (hp : Wire.parseBare plain = some payload)
    (o : PacketOracle) :
    Does cfg cause s (onHandshake1 cfg o slot plain payload) fun _ _ => True := by
  have hof : handshakeOf plain = Wire.parseHandshake payload := by simp [handshakeOf, hp]
  refine runs_conn hc ?_
  cases hh : Wire.parseHandshake payload with
  | none => exact does_emit (by simp [Effect.Quiet]) trivial
  | some ids =>
    obtain ⟨id, me, k⟩ := ids
    dsimp only
    by_cases hzero : me = 0
    · rw [if_pos hzero]
      refine does_putConn ?_ trivial
      unfold Conn.sendHandshake Conn.sendBare
      dsimp only
      split <;> exact .reply hc hs (hof.trans (hzero ▸ hh))
    · rw [if_neg hzero]
      by_cases hme : me = c.info.myId
      · rw [if_pos hme]
        have hstep : Step cfg cause s [.openBare plain] (s.setConn slot
            (c.withInfo { c.info with oppsiteId := id, raw := syncSeq cfg c.info.raw })) :=
          .claim hc hs (hof.trans (hme ▸ hh))
        refine Runs.bind (does_putConn hstep (Q := fun _ t => t = s.setConn slot _) rfl) ?_
        rintro _ t rfl
        exact does_preReady (h.step hstep) (get?_setConn hc _) hs (hof.trans (hme ▸ hh)) _
      · rw [if_neg hme]
        exact does_emit (by simp [Effect.Quiet]) trivial

/-- A SYN is handled in steps. -/
theorem does_onSyn (h : s.Sound) {a : Addr} {slotOpt : Option Nat}
    (hslot : s.byAddr.lookup a = slotOpt) (o : PacketOracle) (buf : Bytes) (ll : SockaddrLl) :
    Does cfg cause s (onSyn cfg o buf ll slotOpt) fun _ _ => True := by
  refine Runs.bind (R := fun _ t => t = s) (m := notReady slotOpt) ?_ ?_
  · cases slotOpt with
    | none => exact runs_pure rfl
    | some slot =>
      obtain ⟨c, hc, -⟩ := (h.byAddr a slot).mp hslot
      refine runs_slot? (Slab.lt_of_get? hc) ?_
      rw [hc]
      exact runs_pure rfl
  · rintro notReady t rfl
    refine runs_ite (fun _ => ?_) fun _ => runs_pure trivial
    refine Runs.bind (runs_packet (Q := fun _ u => u = t) fun _ _ => rfl) ?_
    rintro ⟨tmp, data⟩ u rfl
    cases data with
    | none => exact runs_pure trivial
    | some data =>
      refine runs_ite (fun _ => runs_pure trivial) fun _ => ?_
      refine runs_ite (fun _ => runs_pure trivial) fun _ => ?_
      refine runs_ite (fun _ => ?_) fun _ => runs_pure trivial
      exact does_emit (by simp [Effect.Quiet]) trivial

theorem does_onNewAddress (h : s.Sound) {a : Addr} (hnew : s.byAddr.lookup a = none)
    (o : PacketOracle) (buf : Bytes) (ll : SockaddrLl) :
    Does cfg cause s (onNewAddress cfg o buf ll a) fun _ _ => True := by
  refine runs_get_bind ?_
  refine runs_ite (fun _ => runs_pure trivial) fun hroom => ?_
  refine Runs.bind (runs_packet (Q := fun _ u => u = s) fun _ _ => rfl) ?_
  rintro ⟨tmp, data⟩ u rfl
  cases data with
  | none => exact runs_pure trivial
  | some data =>
    refine runs_ite (fun _ => runs_pure trivial) fun _ => ?_
    cases hopen : Conn.openBare cfg.decrypt data with
    | none => exact runs_pure trivial
    | some plain =>
      cases hp : Wire.parseBare plain with
      | none =>
        dsimp only
        simp only [hp, Option.bind_none]
        exact does_emit (by simp [Effect.Quiet]) trivial
      | some payload =>
        cases hh : Wire.parseHandshake payload with
        | none =>
          dsimp only
          simp only [hp, hh, Option.bind_some, Option.map_none]
          exact does_emit (by simp [Effect.Quiet]) trivial
        | some ids =>
          obtain ⟨id, zero, k⟩ := ids
          dsimp only
          simp only [hp, hh, Option.bind_some, Option.map_some]
          refine runs_ite (fun _ => does_emit (by simp [Effect.Quiet]) trivial) fun _ => ?_
          have hstep : Step cfg cause u _ (u.addConn (newConn cfg o u tmp a)).1 :=
            .create rfl rfl rfl rfl rfl hnew (Nat.lt_of_not_le hroom)
          refine Runs.bind (runs_act hstep (Q := fun _ t => t = (u.addConn _).1) rfl) ?_
          rintro _ t rfl
          refine does_onHandshake1 (h.step hstep) (c := newConn cfg o u tmp a) ?_ rfl hp o
          change (u.conns.alloc _).1.get? (u.conns.alloc _).2 = _
          rw [Slab.get?_alloc, if_pos rfl]

theorem does_onKnownAddress (h : s.Sound) (hc : s.conns.get? slot = some c) (o : PacketOracle)
    (buf : Bytes) (ll : SockaddrLl) :
    Does cfg cause s (onKnownAddress cfg o buf ll slot) fun _ _ => True := by
  refine runs_conn hc ?_
  cases hs : c.state with
  | handshake1 =>
    refine Runs.bind (runs_packet (Q := fun _ u => u = s) fun _ _ => rfl) ?_
    rintro ⟨raw, data⟩ u rfl
    have hstep : Step cfg cause u [] (u.setConn slot (c.withInfo { c.info with raw := raw })) :=
      .info hc (.of_eq rfl rfl rfl rfl)
    refine Runs.bind (does_putConn hstep (Q := fun _ t => t = u.setConn slot _) rfl) ?_
    rintro _ t rfl
    cases data with
    | none => exact runs_pure trivial
    | some data =>
      refine runs_ite (fun _ => runs_pure trivial) fun _ => ?_
      cases hopen : Conn.openBare cfg.decrypt data with
      | none => exact runs_pure trivial
      | some plain =>
        dsimp only
        cases hp : Wire.parseBare plain with
        | none => exact does_emit (by simp [Effect.Quiet]) trivial
        | some payload =>
          exact does_onHandshake1 (h.step hstep) (get?_setConn hc _) hs hp o
  | ready =>
    refine Runs.bind (runs_packet (Q := fun _ u => u = s) fun _ _ => rfl) ?_
    rintro ⟨raw, data⟩ u rfl
    cases data with
    | none =>
      refine does_putConn ?_ trivial
      exact .info hc (.of_eq rfl rfl rfl rfl)
    | some data => exact does_putConn (.receive hc hs) trivial
  | idle => exact runs_pure trivial

/-- A raw packet is handled in steps. -/
theorem does_onRawPacket (h : s.Sound) (o : PacketOracle) (buf : Bytes) (ll : SockaddrLl) :
    Does cfg cause s (onRawPacket cfg o buf ll) fun _ _ => True := by
  unfold onRawPacket
  cases clampPacket cfg.fixGro buf with
  | none => exact runs_pure trivial
  | some buf =>
    refine Runs.bind (runs_packet (Q := fun _ u => u = s) fun _ _ => rfl) ?_
    rintro peek u rfl
    cases peek with
    | none => exact runs_pure trivial
    | some peek =>
      refine runs_get_bind ?_
      refine runs_ite (fun _ => does_onSyn h rfl o buf ll) fun _ => ?_
      cases hslot : u.byAddr.lookup (peek.srcIp, peek.srcPort) with
      | none => exact does_onNewAddress h hslot o buf ll
      | some slot =>
        obtain ⟨c, hc, -⟩ := (h.byAddr _ slot).mp hslot
        exact does_onKnownAddress h hc o buf ll

/-- The key names a ready connection of its generation. -/
def Current (key : JobKey) (s : Server) : Prop :=
  ∃ c, s.conns.get? key.slot = some c ∧ c.state = .ready ∧ c.generation = key.generation

/-- A key that passes the check is current. -/
theorem current_of_validReady (h : validReady s key = true) : Current key s := by
  unfold validReady at h
  split at h
  · next c hc =>
      simp only [Bool.and_eq_true, beq_iff_eq, decide_eq_true_eq] at h
      exact ⟨c, hc, h.2, h.1⟩
  · cases h

/-- A connection stays current when its slot is rewritten in place. -/
theorem current_setConn {b : ServerConn} (hc : s.conns.get? key.slot = some c)
    (hs : b.state = .ready) (hg : b.generation = key.generation) :
    Current key (s.setConn key.slot b) :=
  ⟨b, get?_setConn hc b, hs, hg⟩

/-- Data is relayed in steps. -/
theorem does_relayData (h : s.Sound) (hc : s.conns.get? key.slot = some c) (hs : c.state = .ready)
    (hg : c.generation = key.generation) {conv : UInt32} {sidx : Nat}
    (hv : c.convs.findDataByConv conv = some sidx) (now : UInt64) (data : Bytes) :
    Does cfg cause s (relayData now key.slot conv data) fun _ t => t.Sound ∧ Current key t := by
  refine runs_conn hc ?_
  rw [hv]
  have hstep : Step cfg cause s []
      (s.setConn key.slot { c with convs := c.convs.updateActiveTime conv now }) :=
    .touchConv hc hs
  refine Runs.bind (does_putConn hstep (Q := fun _ t => t = s.setConn key.slot _) rfl) ?_
  rintro _ t rfl
  have hpost := And.intro (h.step hstep)
    (current_setConn hc (b := { c with convs := c.convs.updateActiveTime conv now }) hs hg)
  refine runs_get_bind ?_
  obtain ⟨-, cs, hcs, -⟩ := h.entry hc hv
  have hsock : (s.setConn key.slot
      { c with convs := c.convs.updateActiveTime conv now }).socks.slots[sidx]? =
        some (some cs) := Slab.get?_eq_some.mp hcs
  rw [hsock]
  exact does_emit (by simp [Effect.Quiet]) hpost

/-- The connection of a new socket lists it under its conversation. -/
theorem get?_openSock (hc : s.conns.get? slot = some c) (conv : UInt32) (now : UInt64) :
    ∃ b sidx, (s.openSock slot c conv now).conns.get? slot = some b ∧ b.state = c.state ∧
      b.generation = c.generation ∧ b.convs.findDataByConv conv = some sidx :=
  ⟨_, _, Slab.get?_set_self hc _, rfl, rfl,
    (ConvManager.findDataByConv_insert _ _ _ _ _).trans (if_pos rfl)⟩

/-- Data is handled in steps, and the key stays current. -/
theorem does_onData (h : s.Sound) (hk : Current key s) (o : PlainOracle) (conv : UInt32)
    (data : Bytes) :
    Does cfg cause s (onData o key.slot conv data) fun _ t => t.Sound ∧ Current key t := by
  obtain ⟨c, hc, hs, hg⟩ := hk
  refine runs_conn hc ?_
  cases hv : c.convs.findDataByConv conv with
  | some sidx =>
    have hused : c.convs.isConvUsed conv = true := by
      simpa [ConvManager.isConvUsed, ConvManager.findDataByConv] using
        Option.isSome_iff_exists.mpr ⟨sidx, hv⟩
    rw [if_pos hused]
    exact does_relayData h hc hs hg hv o.now data
  | none =>
    have hused : ¬ c.convs.isConvUsed conv = true := by
      rw [ConvManager.isConvUsed, ← ConvManager.findDataByConv, hv]
      simp
    rw [if_neg hused]
    refine runs_ite (fun _ => runs_pure ⟨h, c, hc, hs, hg⟩) fun _ => ?_
    cases o.sock with
    | failed => exact runs_pure ⟨h, c, hc, hs, hg⟩
    | unregistered =>
      have hstep : Step cfg cause s [] (s.openSockUnregistered key.slot c conv) :=
        .openSockUnregistered _ _ _
      exact runs_act hstep ⟨h.step hstep, c, hc, hs, hg⟩
    | opened =>
      have hstep : Step cfg cause s [] (s.openSock key.slot c conv o.now) :=
        .openSock o.now hc hs hv
      refine Runs.bind (runs_act hstep (Q := fun _ t => t = s.openSock key.slot c conv o.now)
        rfl) ?_
      rintro _ t rfl
      obtain ⟨b, sidx, hb, hbs, hbg, hbv⟩ := get?_openSock hc conv o.now
      exact does_relayData (h.step hstep) hb (hbs.trans hs) (hbg.trans hg) hbv o.now data

theorem does_onReadyPacket (h : s.Sound) (hk : Current key s) (o : PlainOracle) (ptype : UInt8)
    (payload : Bytes) :
    Does cfg cause s (onReadyPacket cfg o key.slot ptype payload) fun _ t =>
      t.Sound ∧ Current key t := by
  obtain ⟨c, hc, hs, hg⟩ := hk
  have hstep : Step cfg cause s [] (s.setConn key.slot
      (c.withInfo { c.info with lastHbRecvTime := o.now })) := .info hc (.of_eq rfl rfl rfl rfl)
  have hpost := And.intro (h.step hstep)
    (current_setConn hc (b := c.withInfo { c.info with lastHbRecvTime := o.now }) hs hg)
  refine runs_conn hc ?_
  refine runs_ite (fun _ => does_putConn hstep hpost) fun _ => ?_
  refine runs_ite (fun _ => runs_pure ⟨h, c, hc, hs, hg⟩) fun _ => ?_
  cases Wire.parseDataPayload payload with
  | none => exact runs_pure ⟨h, c, hc, hs, hg⟩
  | some p =>
    obtain ⟨conv, data⟩ := p
    dsimp only
    by_cases hmode : cfg.hbMode = 0
    · rw [if_pos hmode]
      refine Runs.bind (does_putConn hstep (Q := fun _ t => t.Sound ∧ Current key t) hpost) ?_
      rintro _ t ⟨ht, hk⟩
      exact does_onData ht hk o conv data
    · rw [if_neg hmode]
      exact does_onData h ⟨c, hc, hs, hg⟩ o conv data

/-- A batch is handled in steps. -/
theorem does_acceptAll (h : s.Sound) (hk : Current key s) (o : Nat → PlainOracle)
    {batch : List Bytes} {recv : RecvMeta} (because : cause = some (.decrypted key batch recv))
    (plains : List Bytes) (hsub : ∀ p ∈ plains, p ∈ batch) :
    Does cfg cause s (acceptAll cfg o key plains) fun _ t => t.Sound ∧ Current key t := by
  induction plains generalizing s o with
  | nil => exact runs_pure ⟨h, hk⟩
  | cons plain rest ih =>
    obtain ⟨c, hc, hs, hg⟩ := hk
    obtain ⟨r, info, hr, -⟩ :=
      Conn.acceptSaferOffset_cases c.info plain cfg.hbMode (o 0).rollerTime
    have hstep : Step cfg cause s _ (s.setConn key.slot (c.withInfo info)) :=
      .check hc hs hg hr because (hsub plain List.mem_cons_self)
    have hrest : ∀ p ∈ rest, p ∈ batch := fun p hp => hsub p (List.mem_cons_of_mem _ hp)
    have hpost := And.intro (h.step hstep) (current_setConn hc (b := c.withInfo info) hs hg)
    refine runs_conn hc ?_
    rw [hr]
    refine runs_ok_bind rfl ?_
    cases r with
    | none =>
      refine Runs.bind (does_putConn hstep (Q := fun _ t => t.Sound ∧ Current key t) hpost) ?_
      rintro _ t ⟨ht, hk⟩
      exact ih ht hk _ hrest
    | some p =>
      obtain ⟨ptype, off⟩ := p
      refine Runs.bind (does_putConn hstep (Q := fun _ t => t.Sound ∧ Current key t) hpost) ?_
      rintro _ t ⟨ht, hk⟩
      refine (does_onReadyPacket ht hk (o 0) ptype (plain.drop off)).bind ?_
      rintro _ u ⟨hu, hk⟩
      refine (ih hu hk _ hrest).bind ?_
      rintro _ v hv
      exact runs_pure hv

/-- The end of a job is handled in steps. -/
theorem does_onDone (h : s.Sound) (o : DoneOracle) (d : Done) :
    Does cfg (some d) s (onDone cfg o d) fun _ _ => True := by
  cases d with
  | encrypted key wire =>
    cases wire with
    | none => exact runs_pure trivial
    | some wire =>
      refine runs_get_bind ?_
      refine runs_ite (fun hv => ?_) fun _ => runs_pure trivial
      obtain ⟨c, hc, hs, hg⟩ := current_of_validReady hv
      refine runs_conn hc ?_
      exact does_putConn (.transmit hc hs hg rfl) trivial
  | decrypted key plains recv =>
    refine runs_get_bind ?_
    refine runs_ite (fun hv => ?_) fun _ => runs_pure trivial
    refine (does_acceptAll h (current_of_validReady hv) o.plain rfl plains fun _ => id).bind ?_
    rintro any t ⟨-, c, hc, hs, hg⟩
    refine runs_ite (fun _ => ?_) fun _ => runs_pure trivial
    refine runs_conn hc ?_
    exact does_putConn (.afterRecv hc hs hg rfl) trivial

/-- A datagram from the socket of a conversation finds its connection ready. -/
theorem does_onSockPacket (hc : s.conns.get? slot = some c) (hs : c.state = .ready) (conv : UInt32)
    (data : Bytes) :
    Does cfg cause s (onSockPacket slot conv data) fun _ t =>
      ∃ b, t.conns.get? slot = some b ∧ b.state = .ready := by
  refine runs_ite (fun _ => runs_pure ⟨c, hc, hs⟩) fun _ => ?_
  refine runs_slot? (Slab.lt_of_get? hc) ?_
  rw [hc]
  dsimp only
  rw [if_neg (not_not.mpr hs), Conn.prepareSaferData_eq]
  refine does_putConn (.prepare hc hs (.inr rfl)) ?_
  exact ⟨_, get?_setConn hc _, hs⟩

theorem does_onSockReadable (h : s.Sound) {sidx : Nat} (hlt : sidx < s.socks.slots.length)
    (datagrams : List Bytes) :
    Does cfg cause s (onSockReadable sidx datagrams) fun _ _ => True := by
  refine runs_get_bind ?_
  have he : s.socks.slots[sidx]? = some (s.socks.get? sidx) := by
    simp [Slab.get?, List.getElem?_eq_getElem hlt]
  rw [he]
  cases hcs : s.socks.get? sidx with
  | none => exact runs_pure trivial
  | some cs =>
    obtain ⟨c, hc, hs, -⟩ := h.owner hcs
    refine (runs_forEach (J := fun t => ∃ b, t.conns.get? cs.connSlot = some b ∧
      b.state = .ready) (fun data _ t ht => ?_) ⟨c, hc, hs⟩).mono fun _ _ _ => trivial
    obtain ⟨b, hb, hbs⟩ := ht
    exact does_onSockPacket hb hbs cs.conv data

/-- The sockets a conversation table lists are inside the socket vector. -/
theorem Sound.sidx_lt (h : s.Sound) (hc : s.conns.get? slot = some c) {v : UInt32} {i : Nat}
    (hv : c.convs.findDataByConv v = some i) : i < s.socks.slots.length := by
  obtain ⟨-, cs, hcs, -⟩ := h.entry hc hv
  exact Slab.lt_of_get? hcs

/-- A connection is erased in steps. -/
theorem does_eraseConn (h : s.Sound) (hc : s.conns.get? slot = some c)
    (order : List Nat → List Nat) : Does cfg cause s (eraseConn order slot) fun _ _ => True := by
  refine runs_slot? (Slab.lt_of_get? hc) ?_
  rw [hc]
  refine runs_get_bind ?_
  have hcount := Slab.count_release hc isReady
  have hready : ¬ (c.state = .ready ∧ s.readyNum = 0) := by
    rintro ⟨hr, hzero⟩
    have hb : isReady c = true := by simp [isReady, hr]
    rw [hb, if_pos rfl, ← h.readyNum] at hcount
    omega
  rw [if_neg hready, if_neg]
  · exact runs_act (.drop order hc) trivial
  · simp only [List.any_eq_true, decide_eq_true_eq, not_exists, not_and, Nat.not_le]
    intro i hi
    change i ∈ reorder order (Table.values c.convs.convToData) at hi
    rw [(reorder_perm order _).mem_iff, Table.mem_values] at hi
    obtain ⟨v, hv⟩ := hi
    exact h.sidx_lt hc hv

theorem does_clearLoop (h : s.Sound) (now : UInt64) (order : List Nat → List Nat)
    (visits quota : Nat) (hv : visits ≤ s.conns.slots.length) :
    Does cfg cause s (clearLoop now order visits quota) fun _ t => t.Sound := by
  induction visits generalizing s quota with
  | zero => exact runs_pure h
  | succ visits ih =>
    cases quota with
    | zero => exact runs_pure h
    | succ quota =>
      refine runs_get_bind ?_
      generalize hslot : (if s.clearCursor ≥ s.conns.slots.length then 0
        else s.clearCursor) = slot
      have hlt : slot < s.conns.slots.length := by
        split at hslot <;> omega
      have hstep : Step cfg cause s [] { s with clearCursor := slot + 1 } :=
        .book (slot + 1) s.lastConnClear
      refine Runs.bind (runs_act hstep
        (Q := fun _ t => t = { s with clearCursor := slot + 1 }) rfl) ?_
      rintro _ t rfl
      have ht := h.step hstep
      refine runs_slot? (s := { s with clearCursor := slot + 1 }) hlt ?_
      dsimp only
      cases hc : s.conns.get? slot with
      | none => exact ih ht _ (Nat.le_of_succ_le hv)
      | some c =>
        dsimp only
        by_cases hkeep : (!keepsConn now c) = true
        · rw [if_pos hkeep]
          refine (ht.keep (does_eraseConn ht hc order) (Nat.le_of_succ_le hv)).bind ?_
          rintro _ u ⟨hu, hlen⟩
          exact ih hu _ hlen
        · rw [if_neg hkeep]
          exact ih ht _ (Nat.le_of_succ_le hv)

/-- The collector sweeps in steps. -/
theorem does_clearInactiveConns (h : s.Sound) (now : UInt64) (order : List Nat → List Nat) :
    Does cfg cause s (clearInactiveConns now order) fun _ t => t.Sound := by
  refine runs_get_bind ?_
  refine runs_ite (fun _ => runs_pure h) fun _ => ?_
  have hstep : Step cfg cause s [] { s with lastConnClear := now } := .book s.clearCursor now
  refine Runs.bind (runs_act hstep (Q := fun _ t => t = { s with lastConnClear := now }) rfl) ?_
  rintro _ t rfl
  exact does_clearLoop (h.step hstep) now order _ _ (Nat.le_refl _)

theorem does_timerSlot (h : s.Sound) (now : UInt64) (hlt : slot < s.conns.slots.length) :
    Does cfg cause s (timerSlot cfg now slot) fun _ _ => True := by
  refine runs_slot? hlt ?_
  cases hc : s.conns.get? slot with
  | none => exact runs_pure trivial
  | some c =>
    refine runs_ite (fun _ => runs_pure trivial) fun hs => ?_
    have hs := not_not.mp hs
    refine runs_get_bind ?_
    rw [if_neg]
    · have hstep : Step cfg cause s [] (s.expireConvs slot c now) := .expireConvs now hc hs
      refine Runs.bind (runs_act hstep (Q := fun _ t => t = s.expireConvs slot c now) rfl) ?_
      rintro _ t rfl
      have hc' : (s.expireConvs slot c now).conns.get? slot =
          some { c with convs := (c.convs.clearInactive now).2 } := Slab.get?_set_self hc _
      refine runs_conn hc' ?_
      refine runs_ite (fun _ => runs_pure trivial) fun _ => ?_
      refine (does_sendHeartbeat hc' hs).bind ?_
      rintro _ t ⟨info, ht⟩
      refine runs_conn ht ?_
      refine does_putConn ?_ trivial
      exact .info ht (.of_eq rfl rfl rfl rfl)
    · simp only [List.any_eq_true, List.mem_map, decide_eq_true_eq, not_exists, not_and,
        Nat.not_le]
      rintro i ⟨p, hp, rfl⟩
      exact h.sidx_lt hc ((c.convs.clearInactive_expired now).held p hp)

theorem does_timerSlots (h : s.Sound) (now : UInt64) :
    Does cfg cause s (timerSlots cfg now) fun _ _ => True := by
  refine runs_get_bind ?_
  refine (runs_forEach (J := fun u => u.Sound ∧ s.conns.slots.length ≤ u.conns.slots.length)
    (fun slot hslot u hu => ?_) ⟨h, Nat.le_refl _⟩).mono fun _ _ _ => trivial
  have hlt := (List.mem_range.mp hslot).trans_le hu.2
  exact hu.1.keep (does_timerSlot hu.1 now hlt) hu.2

/-- The timer is handled in steps. -/
theorem does_onTimer (h : s.Sound) (now : UInt64) (order : List Nat → List Nat) :
    Does cfg cause s (onTimer cfg now order) fun _ _ => True := by
  refine (does_clearInactiveConns h now order).bind fun _ t ht => ?_
  exact does_timerSlots ht now

/-- Every possible event is handled by steps of the server, and its handler aborts at most
in the packet parsers. -/
theorem does_handle (h : s.Sound) {ev : ServerEvent} (hev : ev.Possible s) :
    Does cfg ev.cause s (ev.handle cfg) fun _ _ => True := by
  cases ev with
  | raw o buf ll => exact does_onRawPacket h o buf ll
  | done o d => exact does_onDone h o d
  | sock sidx datagrams => exact does_onSockReadable h hev datagrams
  | timer now order => exact does_onTimer h now order

end Server

end Udp2raw
