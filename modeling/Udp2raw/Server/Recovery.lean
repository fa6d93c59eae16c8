import Udp2raw.Generation.Server

/-!
# Recovery of a connection

A client that comes back under a new address is recognised by its const id: the
established connection takes over the new address and the new connection gives
up with the old one. What follows is the whole effect of that branch of
`pre_ready`, and what it leaves alone.
-/

namespace Udp2raw

namespace Server

open Program

variable {cfg : ServerCfg} {s : Server}

/-! ## Generations -/

/-- The states of a server, with its effects so far. -/
inductive Logged (cfg : ServerCfg) : List Effect → Server → Prop where
  | initial : Logged cfg [] {}
  | event {log out : List Effect} {s t : Server} {ev : ServerEvent} :
      Logged cfg log s → ev.Possible s → ev.handle cfg s = .ok ((), t, out) →
      Logged cfg (log ++ out) t

variable {log : List Effect} {slot : Nat} {c : ServerConn}

theorem Logged.sound (h : Logged cfg log s) : s.Sound := by
  induction h with
  | initial => exact .initial
  | event _ hev hok ih => exact ih.event hev hok

/-- Generations are given out one after another. -/
theorem Step.generations {cause : Option Done} {t : Server} {out : List Effect}
    (h : Step cfg cause s out t) :
    (incarnations out = [] ∧ t.nextGeneration = s.nextGeneration) ∨
    ∃ key, incarnations out = [key] ∧ key.generation = s.nextGeneration ∧
      t.nextGeneration = s.nextGeneration + 1 := by
  cases h with
  | note quiet =>
    refine .inl ⟨List.filterMap_eq_nil_iff.mpr fun e he => ?_, rfl⟩
    have := quiet e he
    cases e <;> first | rfl | exact this.elim
  | create _ _ generation => exact .inr ⟨_, rfl, generation, rfl⟩
  | recover => exact .inr ⟨_, rfl, rfl, rfl⟩
  | _ => exact .inl ⟨rfl, rfl⟩

/-- The `i`-th incarnation has generation `i`, up to the width of the counter. -/
structure Issued (log : List Effect) (s : Server) : Prop where
  next : s.nextGeneration = .ofNat ((incarnations log).length + 1)
  earlier : ∀ key ∈ incarnations log,
    ∃ i < (incarnations log).length, key.generation = .ofNat (i + 1)

/-- A step issues the next generation or none. -/
theorem Issued.step {log out : List Effect} {cause : Option Done} {t : Server}
    (h : Issued log s) (hstep : Step cfg cause s out t) : Issued (log ++ out) t := by
  rcases hstep.generations with ⟨hout, hnext⟩ | ⟨key, hout, hkey, hnext⟩
  · refine ⟨?_, ?_⟩
    · rw [incarnations_append, hout, List.append_nil, hnext, h.next]
    · rw [incarnations_append, hout, List.append_nil]
      exact h.earlier
  · refine ⟨?_, fun other hmem => ?_⟩
    · rw [incarnations_append, hout, List.length_append, hnext, h.next]
      simp [UInt64.ofNat_add]
    · rw [incarnations_append, hout] at hmem ⊢
      rw [List.length_append, List.length_singleton]
      rcases List.mem_append.mp hmem with hmem | hmem
      · obtain ⟨i, hi, hgen⟩ := h.earlier other hmem
        exact ⟨i, Nat.lt_succ_of_lt hi, hgen⟩
      · obtain rfl := List.mem_singleton.mp hmem
        exact ⟨_, Nat.lt_succ_self _, hkey.trans h.next⟩

/-- A logged server has issued its generations in order. -/
theorem Logged.issued (h : Logged cfg log s) : Issued log s := by
  induction h with
  | initial => exact ⟨rfl, by simp [incarnations]⟩
  | event hlog hev hok ih =>
    obtain ⟨hsteps, -⟩ := (does_handle hlog.sound hev).ok hok
    exact hsteps.history (fun _ _ _ _ hstep hi => hi.step hstep) ih

/-- The next generation is unused until the counter has gone round. -/
theorem Issued.fresh (h : Issued log s) (hcount : (incarnations log).length < 2 ^ 64) :
    ∀ key ∈ incarnations log, key.generation ≠ s.nextGeneration := by
  intro key hmem heq
  obtain ⟨i, hi, hgen⟩ := h.earlier key hmem
  have hnat := congrArg UInt64.toNat (hgen.symm.trans (heq.trans h.next))
  rw [UInt64.toNat_ofNat', UInt64.toNat_ofNat'] at hnat
  omega

/-! ## The branch -/

/-- The established connection after its heartbeat has been prepared. -/
def greeted (cfg : ServerCfg) (d : ServerConn) : ServerConn :=
  d.withInfo (Conn.prepareSafer d.info typeHeartbeat (if cfg.hbMode = 0 then [] else cfg.hbBuf)).2

/-- The established connection after the recovery. -/
def recovered (cfg : ServerCfg) (now : UInt64) (c oc : ServerConn) (generation : UInt64) :
    ServerConn :=
  (greeted cfg (oc.takeOver c generation)).withInfo
    { (greeted cfg (oc.takeOver c generation)).info with lastHbRecvTime := now }

/-- The one packet a recovery sends. -/
def greeting (cfg : ServerCfg) (ori : Nat) (d : ServerConn) : List Effect :=
  handIn (d.key ori) d.info typeHeartbeat (if cfg.hbMode = 0 then [] else cfg.hbBuf)
    (Conn.prepareSafer d.info typeHeartbeat (if cfg.hbMode = 0 then [] else cfg.hbBuf)).1

theorem sendHeartbeat_apply (hc : s.conns.get? slot = some c) :
    sendHeartbeat cfg slot s = .ok ((), s.setConn slot (greeted cfg c), greeting cfg slot c) := by
  unfold sendHeartbeat
  rw [bind_apply (conn_apply hc)]
  rfl

/-- A known constant id moves its ready connection to the new address. -/
theorem preReady_recovers {ori : Nat} {oc : ServerConn} {k : UInt32} {now : UInt64} {plain : Bytes}
    (hk : s.byConstId.lookup k = some ori) (hne : ori ≠ slot) (hc : s.conns.get? slot = some c)
    (ho : s.conns.get? ori = some oc) (hready : oc.state = .ready)
    (htime : ¬ c.info.lastStateTime < oc.info.lastStateTime) :
    preReady cfg now slot k plain s =
      .ok ((), ((s.recover slot ori c oc).setConn ori
          (greeted cfg (oc.takeOver c s.nextGeneration))).setConn ori
          (recovered cfg now c oc s.nextGeneration),
        [.openBare plain, .recovered ori c.info.myId c.info.oppsiteId,
          .incarnation ⟨ori, s.nextGeneration⟩] ++
          greeting cfg ori (oc.takeOver c s.nextGeneration)) := by
  have ho' : (s.recover slot ori c oc).conns.get? ori = some (oc.takeOver c s.nextGeneration) := by
    rw [get?_recover hc ho hne, if_neg hne, if_pos rfl]
  unfold preReady
  rw [get_bind_apply, hk]
  dsimp only
  rw [if_neg hne, bind_apply (conn_apply ho), if_neg (not_not.mpr hready),
    bind_apply (conn_apply hc), if_neg htime]
  refine bind_eq_ok.mpr ⟨(), _, _, _, rfl, ?_, rfl⟩
  refine bind_eq_ok.mpr ⟨(), _, _, _, sendHeartbeat_apply ho', ?_, (List.append_nil _).symm⟩
  rw [bind_apply (conn_apply (get?_setConn ho' _))]
  rfl

/-- No positive sequence number counts as seen, and none will before it is accepted. -/
def Unseen (a : AntiReplay) : Prop :=
  (∀ seq, 1 ≤ seq → ∃ b, a.isValid seq = .ok (true, b)) ∧ (a.disabled = false → a.Tracks [])

/-- The receive side starts over at a reset, whatever happens to the send counter. -/
theorem unseen_reInit (a : AntiReplay) : Unseen a.reInit.nextSeqForSend.2 := by
  have htracks : a.disabled = false → a.reInit.nextSeqForSend.2.Tracks [] := by
    intro henabled
    have h := AntiReplay.tracks_reInit henabled
    exact ⟨⟨h.enabled, h.bound, h.marked⟩, h.maximum, h.only⟩
  refine ⟨fun seq hseq => ?_, htracks⟩
  cases hd : a.disabled with
  | true =>
    refine ⟨a.reInit.nextSeqForSend.2, ?_⟩
    unfold AntiReplay.isValid
    exact if_pos hd
  | false =>
    obtain ⟨v, b, hv, -, hiff, -⟩ := (htracks hd).isValid hseq
    have htrue : v = true := hiff.mpr ⟨by simp, .inl hseq⟩
    exact ⟨b, htrue ▸ hv⟩

/-- What a recovery does: the connection `oc` in `ori` goes on under the address of the new
connection `c` in `slot`, and nothing else moves. -/
structure Recovers (s : Server) (slot ori : Nat) (c oc : ServerConn) (t : Server)
    (out : List Effect) : Prop where
  /-- Conversations, const id and state stay, the send counter goes on, and the rest comes from
  the new connection. -/
  established : ∃ d, t.conns.get? ori = some d ∧ d.convs = oc.convs ∧ d.state = .ready ∧
    d.info.oppsiteConstId = oc.info.oppsiteConstId ∧
    d.info.antiReplay.nextSendSeq = oc.info.antiReplay.nextSendSeq + 1 ∧
    d.addr = c.addr ∧ d.info.myId = c.info.myId ∧ d.info.oppsiteId = c.info.oppsiteId ∧
    d.info.raw = { c.info.raw with rstReceived := 0, disabled := false } ∧
    Unseen d.info.antiReplay ∧ d.generation = s.nextGeneration
  newcomer : ∃ e, t.conns.get? slot = some e ∧ e.state = .idle ∧ e.addr = oc.addr ∧
    e.info.oppsiteConstId = 0 ∧ ∀ v, e.convs.findDataByConv v = none
  heartbeat : ∃ plain, submitted out = [.encrypt ⟨ori, s.nextGeneration⟩ plain]
  others : ∀ i, i ≠ slot → i ≠ ori → t.conns.get? i = s.conns.get? i
  length : t.conns.slots.length = s.conns.slots.length
  free : t.conns.free = s.conns.free
  socks : t.socks = s.socks
  readyNum : t.readyNum = s.readyNum
  byConstId : t.byConstId = s.byConstId
  byAddr : ∀ a, t.byAddr.lookup a =
    if a = oc.addr then some slot else if a = c.addr then some ori else s.byAddr.lookup a

/-- That move is a recovery. -/
theorem recovers_preReady {ori : Nat} {oc : ServerConn} {k : UInt32} {plain : Bytes} (hs : s.Sound)
    (hk : s.byConstId.lookup k = some ori) (hne : ori ≠ slot) (hc : s.conns.get? slot = some c)
    (hstate : c.state = .handshake1) (ho : s.conns.get? ori = some oc) (hready : oc.state = .ready)
    (htime : ¬ c.info.lastStateTime < oc.info.lastStateTime) (now : UInt64) :
    ∃ t out, preReady cfg now slot k plain s = .ok ((), t, out) ∧
      Recovers s slot ori c oc t out := by
  have hget := get?_recover hc ho hne
  have ho' : (s.recover slot ori c oc).conns.get? ori = some (oc.takeOver c s.nextGeneration) := by
    rw [hget, if_neg hne, if_pos rfl]
  have ho'' : ((s.recover slot ori c oc).setConn ori
      (greeted cfg (oc.takeOver c s.nextGeneration))).conns.get? ori = some _ :=
    get?_setConn ho' _
  -- only the established slot is written again behind the recovery
  have hfinal : ∀ i, (((s.recover slot ori c oc).setConn ori
      (greeted cfg (oc.takeOver c s.nextGeneration))).setConn ori
      (recovered cfg now c oc s.nextGeneration)).conns.get? i =
        if i = ori then some (recovered cfg now c oc s.nextGeneration)
        else (s.recover slot ori c oc).conns.get? i := by
    intro i
    change (Slab.set _ _ _).get? i = _
    rw [Slab.get?_set ho'']
    change (if i = ori then _ else (Slab.set _ _ _).get? i) = _
    rw [Slab.get?_set ho']
    split_ifs <;> rfl
  refine ⟨_, _, preReady_recovers hk hne hc ho hready htime, ?_⟩
  refine
    { established := ⟨_, (hfinal ori).trans (if_pos rfl), rfl, hready, rfl, rfl, rfl, rfl, rfl,
        rfl, unseen_reInit _, rfl⟩
      newcomer := ⟨{ c.giveUp 0 with addr := oc.addr }, (hfinal slot).trans ?_, rfl, rfl, rfl,
        fun v => ?_⟩
      heartbeat := ⟨_, rfl⟩
      others := fun i hi hi' => ?_
      length := ?_
      free := ?_
      socks := rfl
      readyNum := rfl
      byConstId := rfl
      byAddr := fun a => ?_ }
  · rw [if_neg (Ne.symm hne), hget, if_pos rfl]
  · -- a connection that is not ready lists no socket
    cases hv : c.convs.findDataByConv v with
    | none => exact hv
    | some i =>
      obtain ⟨hr, -⟩ := hs.entry hc hv
      rw [hstate] at hr
      cases hr
  · rw [hfinal, if_neg hi', hget, if_neg hi, if_neg hi']
  · change (Slab.set (Slab.set (Slab.set (Slab.set s.conns _ _) _ _) _ _) _ _).slots.length = _
    simp only [Slab.length_set]
  · change (Slab.set (Slab.set (Slab.set (Slab.set s.conns _ _) _ _) _ _) _ _).free = _
    simp only [Slab.set_free]
  · change ((s.byAddr.insert c.addr ori).insert oc.addr slot).lookup a = _
    rw [Table.lookup_insert, Table.lookup_insert]

/-- In every consistent state, a second handshake whose const id belongs to another connection
finds that connection ready; unless the new connection is the older one, the established one is
recovered, under a generation no earlier connection had. -/
theorem recovery_preserves_session {log : List Effect} (hs : s.Sound) (hlog : Issued log s)
    {slot ori : Nat} {c : ServerConn} {k : UInt32} (hc : s.conns.get? slot = some c)
    (hstate : c.state = .handshake1) (hk : s.byConstId.lookup k = some ori) :
    ∃ oc, s.conns.get? ori = some oc ∧ oc.state = .ready ∧ oc.info.oppsiteConstId = k ∧
      ori ≠ slot ∧ ((incarnations log).length < 2 ^ 64 →
        ∀ key ∈ incarnations log, key.generation ≠ s.nextGeneration) ∧
      (¬ c.info.lastStateTime < oc.info.lastStateTime → ∀ now plain, ∃ t out,
        preReady cfg now slot k plain s = .ok ((), t, out) ∧ Recovers s slot ori c oc t out) := by
  obtain ⟨oc, ho, hready, hconst⟩ := (hs.byConstId k ori).mp hk
  have hne : ori ≠ slot := by
    rintro rfl
    rw [hc] at ho
    cases ho
    rw [hstate] at hready
    cases hready
  exact ⟨oc, ho, hready, hconst, hne, hlog.fresh, fun htime now plain =>
    recovers_preReady hs hk hne hc hstate ho hready htime now⟩

/-! ## A run -/

theorem Logged.after (h : Logged cfg log s) (ev : ServerEvent) (hev : ev.Possible s) :
    ∃ log, Logged cfg log (s.after cfg ev) := by
  unfold Server.after
  split
  · next t out hok => exact ⟨_, h.event hev hok⟩
  · exact ⟨log, h⟩

/-- The first handshake of the same client from port 1001. -/
def movedPacket : Bytes :=
  [69, 0, 0, 57, 0, 0, 0, 0, 64, 17, 102, 178, 10, 0, 0, 1, 10, 0, 0, 2] ++
  [3, 233, 7, 208, 0, 37, 109, 232] ++ List.replicate 16 0 ++
  [98, 0, 0, 0, 7, 0, 0, 0, 0, 0, 0, 0, 9]

/-- The ready server with a second connection that waits for its handshake. -/
def movedServer : Server :=
  readyServer.after plainCfg (.raw { firstDraws with freshId := 6 } movedPacket {})

theorem recovery_preserves_session_moved :
    ∃ c oc t out, movedServer.conns.get? 1 = some c ∧ movedServer.conns.get? 0 = some oc ∧
      preReady plainCfg 50 1 9 [] movedServer = .ok ((), t, out) ∧
      Recovers movedServer 1 0 c oc t out := by
  have hstart : Logged plainCfg [] {} := .initial
  obtain ⟨_, hhello⟩ := hstart.after (.raw firstDraws helloPacket {}) trivial
  obtain ⟨_, hready⟩ := hhello.after (.raw firstDraws confirmPacket {}) trivial
  obtain ⟨log, hlog⟩ := hready.after (.raw { firstDraws with freshId := 6 } movedPacket {}) trivial
  have hlog : Logged plainCfg log movedServer := hlog
  have hsome : (movedServer.conns.get? 1).any (fun c => decide (c.state = .handshake1) &&
      decide (c.info.lastStateTime = 10)) = true := by decide
  have hold : (movedServer.conns.get? 0).any (fun c =>
      decide (c.info.lastStateTime = 10)) = true := by decide
  rw [Option.any_eq_true] at hsome
  obtain ⟨c, hc, hfields⟩ := hsome
  rw [Bool.and_eq_true, decide_eq_true_eq, decide_eq_true_eq] at hfields
  have hknown : movedServer.byConstId.lookup 9 = some 0 := by decide
  obtain ⟨oc, ho, -, -, -, -, hrecover⟩ :=
    @recovery_preserves_session plainCfg _ _ hlog.sound hlog.issued _ _ _ _ hc hfields.1 hknown
  rw [ho, Option.any_some, decide_eq_true_eq] at hold
  have htime : ¬ c.info.lastStateTime < oc.info.lastStateTime := by
    rw [hfields.2, hold]
    decide
  obtain ⟨t, out, hrun, hrecovers⟩ := hrecover htime 50 []
  exact ⟨c, oc, t, out, hc, ho, hrun, hrecovers⟩

end Server

end Udp2raw
