import Udp2raw.Raw.Filter
import Udp2raw.Server.Handlers

/-!
# Routing received packets

The server finds the connection of a packet from what `peek` says, before it
parses the packet for that connection. Both readings name the same sender, so a
packet is parsed by the connection of the address it is recorded under.
-/

namespace Udp2raw

namespace Server

open Program

/-- What `on_raw_packet` does with a packet from the sender in `r`. -/
def routeTo (cfg : ServerCfg) (o : PacketOracle) (buf : Bytes) (ll : SockaddrLl)
    (r : PacketInfo) : ServerM Unit := do
  let slotOpt := (← get).byAddr.lookup (r.srcIp, r.srcPort)
  if cfg.ctx.rawMode = .fakeTcp ∧ r.syn = true then onSyn cfg o buf ll slotOpt
  else match slotOpt with
    | none => onNewAddress cfg o buf ll (r.srcIp, r.srcPort)
    | some slot => onKnownAddress cfg o buf ll slot

/-- Of the sender only the address counts, and the SYN flag where there is one. -/
theorem routeTo_congr {cfg : ServerCfg} {o : PacketOracle} {buf : Bytes} {ll : SockaddrLl}
    {r r' : PacketInfo} (hip : r.srcIp = r'.srcIp) (hport : r.srcPort = r'.srcPort)
    (hsyn : cfg.ctx.rawMode = .fakeTcp → r.syn = r'.syn) :
    routeTo cfg o buf ll r = routeTo cfg o buf ll r' := by
  unfold routeTo
  rw [hip, hport]
  by_cases hm : cfg.ctx.rawMode = .fakeTcp
  · rw [hsyn hm]
  · simp only [hm, false_and, if_false]

/-- A packet goes where its `peek` says. -/
theorem onRawPacket_of_peek {cfg : ServerCfg} {o : PacketOracle} {wire buf : Bytes}
    {ll : SockaddrLl} {p : PeekInfo} {r : PacketInfo}
    (hclamp : clampPacket cfg.fixGro wire = some buf) (hpeek : cfg.ctx.peek buf = .ok (some p))
    (hip : p.srcIp = r.srcIp) (hport : p.srcPort = r.srcPort)
    (hsyn : cfg.ctx.rawMode = .fakeTcp → p.syn = r.syn) :
    onRawPacket cfg o wire ll = routeTo cfg o buf ll r := by
  have hroute : onRawPacket cfg o wire ll = routeTo cfg o buf ll
      { r with srcIp := p.srcIp, srcPort := p.srcPort, syn := p.syn } := by
    funext s
    unfold onRawPacket
    rw [hclamp]
    refine (bind_apply (a := some p) ?_).trans rfl
    rw [hpeek]
    rfl
  exact hroute.trans (routeTo_congr hip hport hsyn)

end Server

/-- The three receive filters agree on every packet, in every mode, family and role and from
every connection state: what `parse_recv` accepts, the kernel filter accepts, fragments apart;
`peek` accepts it and reports the sender, and for FakeTCP the SYN flag, that `parse_recv`
records; so the server routes the packet by the recorded sender. -/
theorem receive_filters_agree (ctx : RawCtx) (raw after : RawInfo) (buf data : Bytes)
    (ll : SockaddrLl) (hfirst : ctx.isV6 = false → fragmentOffset buf = 0)
    (h : ctx.parseRecv raw buf ll = .ok (after, some data)) :
    Bpf.accepts (filterProgram ctx.rawMode ctx.isV6 ctx.filterPort) buf = true ∧
    (∃ p, ctx.peek buf = .ok (some p) ∧ p.srcIp = after.recvInfo.srcIp ∧
      p.srcPort = after.recvInfo.srcPort ∧
      (ctx.rawMode = .fakeTcp → p.syn = after.recvInfo.syn)) ∧
    ∀ (cfg : ServerCfg) (o : PacketOracle) (wire : Bytes), cfg.ctx = ctx →
      clampPacket cfg.fixGro wire = some buf →
      Server.onRawPacket cfg o wire ll = Server.routeTo cfg o buf ll after.recvInfo := by
  obtain ⟨ip, seg, hip, hseg, -, hcarries⟩ := RawCtx.parseRecv_carries h
  obtain ⟨p, hpeek, hpip, hpport, hpsyn⟩ := RawCtx.peek_of_parseRecv h
  refine ⟨RawCtx.filterProgram_accepts (parseIp_reads hip).1 hseg hcarries hfirst,
    ⟨p, hpeek, hpip, hpport, hpsyn⟩, ?_⟩
  rintro cfg o wire rfl hclamp
  exact Server.onRawPacket_of_peek hclamp hpeek hpip hpport hpsyn

/-- A SYN to a FakeTCP server on port 2: the filter lets it through and `peek` reports its
sender. -/
theorem receive_filters_agree_syn :
    let ctx : RawCtx := { rawMode := .fakeTcp, isV6 := false, isClient := false, filterPort := 2 }
    let buf : Bytes := [0x45, 0, 0, 40, 0, 0, 0, 0, 64, 6, 0x66, 0xce, 10, 0, 0, 1, 10, 0, 0, 2] ++
      [0, 1, 0, 2, 0, 0, 0, 0, 0, 0, 0, 0, 0x50, 0x02, 0, 0, 0, 0, 0, 0]
    ∃ after, ctx.parseRecv (.new .fakeTcp false ⟨1, 2, 3, 4⟩) buf {} = .ok (after, some []) ∧
      fragmentOffset buf = 0 ∧ Bpf.accepts (filterProgram .fakeTcp false 2) buf = true := by
  intro ctx buf
  have haccept : ((ctx.parseRecv (.new .fakeTcp false ⟨1, 2, 3, 4⟩) buf {}).toOption.bind
      Prod.snd) = some [] := by decide
  have hfirst : fragmentOffset buf = 0 := by decide
  cases hr : ctx.parseRecv (.new .fakeTcp false ⟨1, 2, 3, 4⟩) buf {} with
  | error e =>
    rw [hr] at haccept
    cases haccept
  | ok r =>
    rw [hr] at haccept
    obtain ⟨after, data⟩ := r
    obtain rfl : data = some [] := haccept
    exact ⟨after, rfl, hfirst,
      (receive_filters_agree ctx _ after buf [] {} (fun _ => hfirst) hr).1⟩

end Udp2raw
