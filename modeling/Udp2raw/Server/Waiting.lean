import Udp2raw.Server.Collector

/-!
# Connections that wait for their handshake

Whatever arrives, a connection in `Handshake1` answers the client that created it:
its packets go back to the client's address, from where the server listens.
-/

namespace Udp2raw

/-- What the events of a run bring. -/
def Supply.ofEvents (cfg : ServerCfg) (evs : List ServerEvent) : Supply where
  latest := -1
  drawn id := ∃ o wire ll, .raw o wire ll ∈ evs ∧ o.freshId = id
  resets := ∃ o wire ll buf, .raw o wire ll ∈ evs ∧ clampPacket cfg.fixGro wire = some buf ∧
    cfg.ctx.Disables buf

/-- Only the address and the envelope matter. -/
theorem ServerConn.Faces.of_envelope {cfg : ServerCfg} {c d : ServerConn} (h : c.Faces cfg)
    (haddr : d.addr = c.addr)
    (henvelope : d.info.raw.sendInfo.envelope = c.info.raw.sendInfo.envelope) : d.Faces cfg := by
  simp only [PacketInfo.envelope, PacketInfo.dst, Prod.mk.injEq] at henvelope
  obtain ⟨⟨hsrc, hport⟩, ⟨hip, hdstPort⟩, hsyn, hack⟩ := henvelope
  exact
    { dst := by rw [PacketInfo.dst, hip, hdstPort, haddr]; exact h.dst
      srcPort := by rw [hport, haddr]; exact h.srcPort
      flags := by rw [hsyn, hack]; exact h.flags
      bound := hsrc ▸ h.bound
      srcFamily := hsrc ▸ h.srcFamily
      dstFamily := hip ▸ h.dstFamily }

namespace Server

open Program

/-- Every connection that waits can answer its client. -/
def AllWait (cfg : ServerCfg) (w : Supply) (s : Server) : Prop :=
  ∀ slot c, s.conns.get? slot = some c → c.state = .handshake1 →
    c.Faces cfg ∧ w.drawn c.info.myId ∧ (c.info.raw.disabled = true → w.resets)

variable {cfg : ServerCfg} {w : Supply} {s t : Server} {passes : List (Server × UInt64)}

/-- After a change those that wait can still answer. -/
theorem Changes.allWait (h : Changes cfg w s t) (hs : AllWait cfg w s) : AllWait cfg w t := by
  intro slot d hd hstate
  rcases h.conns slot d hd with ⟨j, c, hc, hfollows⟩ | hnew
  · obtain ⟨hwaiting, haddr, hid, henvelope⟩ := hfollows.waiting hstate
    obtain ⟨hfaces, hdrawn, hdisabled⟩ := hs j c hc hwaiting
    refine ⟨hfaces.of_envelope haddr henvelope, ?_, fun hd => ?_⟩
    · rwa [hid]
    · exact (hfollows.disabled hstate hd).elim hdisabled id
  · exact ⟨hnew.faces, hnew.drawn, hnew.disabled⟩

variable {out : List Effect} {evs : List ServerEvent}

theorem AllWait.of_alters {α : Type} {m : ServerM α} {Q : α → Server → Prop} {a : α}
    (hs : AllWait cfg w s) (h : Alters cfg w s m Q) (hok : m s = .ok (a, t, out)) :
    AllWait cfg w t :=
  (h.ok hok).1.invariant (fun _ _ _ hstep => hstep.allWait) hs

/-- The collector only removes connections. -/
theorem AllWait.clearInactiveConns {now : UInt64} {order : List Nat → List Nat}
    (hs : AllWait cfg w s) (hok : Server.clearInactiveConns now order s = .ok ((), t, out)) :
    AllWait cfg w t := by
  by_cases hdue : s.Effective now
  · obtain ⟨seen, hsweep, -⟩ := sweep_of_clearInactiveConns hdue hok
    intro slot c hc
    rcases hsweep.cases slot with hsame | ⟨_, -, -, hnone⟩
    · exact hs slot c (hsame.symm.trans hc)
    · rw [hnone] at hc
      cases hc
  · unfold Server.clearInactiveConns at hok
    rw [get_bind_apply, if_pos (Nat.not_lt.mp hdue)] at hok
    cases hok
    exact hs

theorem AllWait.handle {ev : ServerEvent} (hs : AllWait cfg (.ofEvents cfg evs) s) (hev : ev ∈ evs)
    (hok : ev.handle cfg s = .ok ((), t, out)) : AllWait cfg (.ofEvents cfg evs) t := by
  cases ev with
  | raw o wire ll =>
    have hid : (Supply.ofEvents cfg evs).drawn o.freshId := ⟨o, wire, ll, hev, rfl⟩
    refine hs.of_alters (alters_onRawPacket (le_latest _) (le_latest _) hid ?_ ll) hok
    exact fun buf hclamp hdisables => ⟨o, wire, ll, buf, hev, hclamp, hdisables⟩
  | done o d => exact hs.of_alters (alters_onDone fun _ _ _ _ _ _ => le_latest _) hok
  | sock sidx datagrams => exact hs.of_alters (alters_onSockReadable sidx datagrams) hok
  | timer now order =>
    obtain ⟨_, u, _, _, hclear, hslots, -⟩ := bind_eq_ok.mp hok
    exact (hs.clearInactiveConns hclear).of_alters (alters_timerSlots now) hslots

/-- Along a run those that wait can still answer. -/
theorem Run.allWait {all : List ServerEvent} (h : Run cfg s evs passes t) (hall : evs ⊆ all)
    (hs : AllWait cfg (.ofEvents cfg all) s) : AllWait cfg (.ofEvents cfg all) t := by
  induction h with
  | nil => exact hs
  | cons _ handled _ ih =>
    obtain ⟨hev, hrest⟩ := List.cons_subset.mp hall
    exact ih hrest (hs.handle hev handled)

/-- In every run, whatever arrives, a connection that waits for its handshake answers the client
that created it, under an id that was drawn, and is disabled only if a reset arrived. -/
theorem waiting_connections_answer (hrun : Run cfg {} evs passes s) {slot : Nat} {c : ServerConn}
    (hc : s.conns.get? slot = some c) (hstate : c.state = .handshake1) :
    let w := Supply.ofEvents cfg evs
    c.Faces cfg ∧ w.drawn c.info.myId ∧ (c.info.raw.disabled = true → w.resets) :=
  hrun.allWait (List.Subset.refl _) (fun _ _ h => by simp at h) slot c hc hstate

/-- After its first packet a client waits in slot 0. -/
theorem waiting_connections_answer_hello :
    ∃ c, waitingServer.conns.get? 0 = some c ∧ c.state = .handshake1 ∧ c.Faces plainCfg := by
  obtain ⟨_, hhello⟩ := handle_after plainCfg {} (.raw firstDraws helloPacket {}) (by decide)
  have hrun : Run plainCfg {} [.raw firstDraws helloPacket {}] [] waitingServer :=
    .cons trivial hhello (.nil _)
  have hwaits : (waitingServer.conns.get? 0).any (·.state = .handshake1) = true := by decide
  obtain ⟨c, hc, hstate⟩ := (Option.any_eq_true _ _).mp hwaits
  have hstate := of_decide_eq_true hstate
  exact ⟨c, hc, hstate, (waiting_connections_answer hrun hc hstate).1⟩

end Server

end Udp2raw
