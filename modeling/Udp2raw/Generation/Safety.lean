import Udp2raw.Generation.Client
import Udp2raw.Generation.Guard
import Udp2raw.Generation.Server

/-!
# Both ends guard their connections by generations

The laws of a party for the server and for the client, and the property of every
run of either with any number of workers. The server keeps it in all runs. The
client does not: `on_timer`, called while a batch is being applied, can end the
incarnation the batch belongs to.
-/

namespace Udp2raw

open Program

namespace Server

/-- The server's handlers. -/
def party (cfg : ServerCfg) : Party Server ServerEvent DoneOracle where
  handle := ServerEvent.handle cfg
  completion := .done
  cause := ServerEvent.cause

variable {cfg : ServerCfg} {s t : Server}

/-- An encrypted packet is dropped, or leaves on the ready connection of its key. -/
theorem onDone_encrypted {o : DoneOracle} {key : JobKey} {wire : Option Bytes}
    {out : List Effect} (h : onDone cfg o (.encrypted key wire) s = .ok ((), t, out)) :
    out = [] ∨ ∃ v packet, s.ledger.conns key.slot = some v ∧ v.key = key ∧
      wire = some packet ∧ out = [.transmit key v.myId v.oppsiteId packet] := by
  cases wire with
  | none =>
    cases h
    exact .inl rfl
  | some packet =>
    by_cases hv : validReady s key = true
    · obtain ⟨c, hc, -, hg⟩ := current_of_validReady hv
      rw [onDone, get_bind_apply, if_pos hv, bind_apply (conn_apply hc)] at h
      refine .inr ⟨c.incarnation key.slot, packet, ledger_conns hc, ?_, rfl, ?_⟩
      · exact congrArg (JobKey.mk key.slot) hg
      · cases h
        rfl
    · rw [onDone, get_bind_apply, if_neg hv] at h
      cases h
      exact .inl rfl

/-- The server is lawful. -/
theorem party_lawful (cfg : ServerCfg) :
    (party cfg).Lawful ledger (fun _ => True) Sound fun s ev => ev.Possible s where
  cause _ _ := rfl
  steps s ev t out hs hev _ hok := by
    obtain ⟨hsteps, -⟩ := (does_handle hs hev).ok hok
    exact ⟨hsteps.simulate fun _ _ _ h => h.ledger,
      hsteps.invariant (fun _ _ _ hstep hs => hs.step hstep) hs, fun _ _ => trivial,
      hsteps.forall_out fun _ _ _ h => h.from⟩
  sends _ _ _ _ _ _ _ hok := onDone_encrypted hok

end Server

namespace Client

/-- The client's handlers. -/
def party (cfg : ClientCfg) : Party Client ClientEvent ClientDoneOracle where
  handle := ClientEvent.handle cfg
  completion := .done
  cause := ClientEvent.cause

variable {cfg : ClientCfg} {c d : Client}

/-- An encrypted packet is dropped, or leaves on the ready incarnation of its key. -/
theorem onDone_encrypted {o : ClientDoneOracle} {key : JobKey} {wire : Option Bytes}
    {out : List Effect} (hslot : key.slot = 0)
    (h : onDone cfg o (.encrypted key wire) c = .ok ((), d, out)) :
    out = [] ∨ ∃ v packet, c.ledger.conns key.slot = some v ∧ v.key = key ∧
      wire = some packet ∧ out = [.transmit key v.myId v.oppsiteId packet] := by
  cases wire with
  | none =>
    cases h
    exact .inl rfl
  | some packet =>
    rw [onDone, get_bind_apply] at h
    by_cases hv : key.generation = c.generation ∧ c.state = .ready
    · rw [if_pos hv] at h
      obtain ⟨slot, g⟩ := key
      obtain rfl : slot = 0 := hslot
      obtain rfl : g = c.generation := hv.1
      refine .inr ⟨c.incarnation, packet, rfl, rfl, rfl, ?_⟩
      cases h
      rfl
    · rw [if_neg hv] at h
      cases h
      exact .inl rfl

/-- The client is lawful. -/
theorem party_lawful (cfg : ClientCfg) :
    (party cfg).Lawful ledger (fun key => key.slot = 0) (fun _ => True)
      fun c ev => ev.Stays cfg c where
  cause _ _ := rfl
  steps c ev d out _ stays hvalid hok := by
    obtain ⟨hsteps, -⟩ := (does_handle_current stays).ok hok
    refine ⟨hsteps.simulate fun _ _ _ h => h.ledger hvalid, trivial, fun key hk => ?_,
      hsteps.forall_out fun _ _ _ h => h.from⟩
    exact hsteps.forall_out (fun _ _ _ h => h.slot) _ (mem_incarnations.mp hk) key rfl
  sends _ _ _ _ _ _ hslot hok := onDone_encrypted hslot hok

end Client

/-- A server starts with empty books. -/
theorem Server.books_start : (ledger {}).Books [] where
  live slot v h := by
    simp [Server.ledger] at h
  generation := rfl
  older := nofun
  unique := .nil
  known := nofun
  sealed _ _ _ _ := nofun
  ordered := .nil
  legal := trivial

/-- A client starts with its first incarnation. -/
theorem Client.books_start {c : Client} (hg : c.generation = 1) (id : UInt32) :
    c.ledger.Books (born id) where
  live slot v h := by
    have hcur : current 0 (born id) = some ⟨0, 1⟩ := by simp [current, incarnations, born]
    have hkey : c.incarnation.key = ⟨0, 1⟩ := congrArg (JobKey.mk 0) hg
    simp only [Client.ledger] at h
    split at h
    · next hs => rw [hs, ← Option.some.inj h, hcur, hkey]
    · cases h
  generation := by
    rw [Client.ledger, hg]
    rfl
  older key hm := by
    rw [Client.ledger, hg, List.mem_singleton.mp hm]
    change (1 : UInt64).toNat < (2 : UInt64).toNat
    decide
  unique := by simp [incarnations, born]
  known := nofun
  sealed _ _ _ _ := nofun
  ordered := .nil
  legal := ⟨trivial, by simp [Legal, incarnations], trivial⟩

/-- In every run of the server, and in every run of the client that stays in its incarnation
while a batch makes it ready, with any number of workers and until the 64-bit counters are used
up: transmitted packets carry the ids their connection has at that moment, their sequence
numbers increase within an incarnation, completions are applied to the incarnation that
submitted their job, and no key names two incarnations. -/
theorem generation_guard (enc : Bytes → Option Bytes) (dec : Bytes → List Bytes) (threads : Nat) :
    (∀ (cfg : ServerCfg) (h : Host Server),
      Host.Reachable (process enc dec) (Server.party cfg) threads {} []
        (fun s ev => ev.Possible s) h →
      NoWrap h.effects → Guarded (process enc dec) h.log) ∧
    ∀ (cfg : ClientCfg) (disableAntiReplay : Bool) (seeds : RawSeeds) (random : UInt64)
      (id : UInt32) (remote : IpAddr × UInt16) (ll : SockaddrLl) (h : Host Client),
      Host.Reachable (process enc dec) (Client.party cfg) threads
        (Client.start cfg disableAntiReplay seeds random id remote ll) (Client.born id)
        (fun c ev => ev.Stays cfg c) h →
      NoWrap h.effects → Guarded (process enc dec) h.log := by
  constructor
  · intro cfg h hr hwrap
    exact (hr.inv (Server.party_lawful cfg) .initial Server.books_start rfl (fun _ _ => trivial)
      (by simp) hwrap).guarded
  · intro cfg disableAntiReplay seeds random id remote ll h hr hwrap
    refine (hr.inv (Client.party_lawful cfg) trivial (Client.books_start rfl id) rfl ?_ ?_
      hwrap).guarded
    · intro key hm
      rw [List.mem_singleton.mp hm]
    · simp [Client.born, Effect.From]

/-- A client in FakeTCP mode that decrypts by doing nothing and gives up at the first RST. -/
def tcpCfg : ClientCfg :=
  { ctx := { rawMode := .fakeTcp, isV6 := false, isClient := true, maxRstAllowed := 0 }
    constId := 9, sourceIp := some (.v4 #v[10, 0, 0, 1]), sourcePort := some 1000
    decrypt := some }

/-- A client of 10.0.0.2:2000 whose first id is 6. -/
def firstClient : Client :=
  .start tcpCfg false ⟨1, 2, 3, 4⟩ 70 6 (.v4 #v[10, 0, 0, 2], 2000) {}

/-- What `on_timer` reads at `now`; new ids count from `id`. -/
def tick (now : UInt64) (id : UInt32) : TimerOracle :=
  { now := now, disabledId := id, selectId := id + 1, endId := id + 2, synSeq := 100
    encrypt := some }

/-- An IP header from 10.0.0.2 to 10.0.0.1, and the ports 2000 and 1000. -/
def fromServer (length ipSum : UInt8) : Bytes :=
  [69, 0, 0, length, 0, 0, 0, 0, 64, 6, 102, ipSum, 10, 0, 0, 2, 10, 0, 0, 1] ++ [7, 208, 3, 232]

/-- SYN-ACK with number 500, acknowledging 101. -/
def synAckPacket : Bytes :=
  fromServer 40 206 ++ [0, 0, 1, 244, 0, 0, 0, 101, 80, 18, 0, 0, 141, 191, 0, 0]

/-- The server's handshake: connection 5 answers client 7. -/
def replyPacket : Bytes :=
  fromServer 69 177 ++ [0, 0, 1, 245, 0, 0, 0, 130, 80, 16, 0, 0, 28, 134, 0, 0] ++
  List.replicate 16 0 ++ [98, 0, 0, 0, 5, 0, 0, 0, 7, 0, 0, 0, 3]

/-- A heartbeat of connection 5 to client 7 with sequence number 1. -/
def heartbeatPacket : Bytes :=
  fromServer 58 188 ++ [0, 0, 2, 18, 0, 0, 0, 159, 80, 16, 0, 0, 37, 74, 0, 0] ++
  [0, 0, 0, 5, 0, 0, 0, 7, 0, 0, 0, 0, 0, 0, 0, 1, 104, 0]

/-- A RST. -/
def rstPacket : Bytes :=
  fromServer 40 206 ++ [0, 0, 2, 36, 0, 0, 0, 0, 80, 4, 0, 0, 142, 2, 0, 0]

/-- A packet arrives at the client. -/
def arrives (now : UInt64) (buf : Bytes) : HostAction ClientEvent ClientDoneOracle :=
  .event (.raw ⟨now, tick now 20⟩ buf {})

/-- The client connects, receives a heartbeat and `late`, and handles the first completion. -/
def connectRun (late : List (HostAction ClientEvent ClientDoneOracle)) :
    List (HostAction ClientEvent ClientDoneOracle) :=
  [.event (.timer (tick 2000 6)), arrives 2001 synAckPacket, arrives 2002 replyPacket,
    arrives 2003 heartbeatPacket, .submit] ++ late ++
  [.thread .collect, .complete ⟨0, 0, fun _ => ⟨2005, 2005, 2005, 2005, tick 2005 30⟩⟩]

/-- A server with one worker completes a handshake and transmits its first heartbeat. -/
def greetRun : List (HostAction ServerEvent DoneOracle) :=
  [.event (.raw Server.firstDraws Server.helloPacket {}),
    .event (.raw Server.firstDraws Server.confirmPacket {}), .submit, .thread .collect,
    .thread .drain, .thread (.worker 0), .thread (.worker 0), .thread .tryRecv, .thread .tryRecv,
    .complete ⟨0, 0, fun _ => ⟨30, 30, .failed⟩⟩]

/-- The server's first heartbeat leaves with the ids 5 and 7, and the batch that makes the
client ready is applied to the incarnation that received it. -/
theorem generation_guard_first_packets :
    (∃ h : Host Server,
      Host.Reachable (process some ([·])) (Server.party Server.plainCfg) 1 {} []
        (fun s ev => ev.Possible s) h ∧ NoWrap h.effects ∧
      (∃ wire, .transmit ⟨0, 1⟩ 5 7 wire ∈ h.effects) ∧ Guarded (process some ([·])) h.log) ∧
    ∃ h : Host Client,
      Host.Reachable (process some ([·])) (Client.party tcpCfg) 0 firstClient (Client.born 6)
        (fun c ev => ev.Stays tcpCfg c) h ∧ NoWrap h.effects ∧
      .afterRecv ⟨0, 2⟩ ⟨0, 2⟩ ∈ h.effects ∧ Guarded (process some ([·])) h.log := by
  constructor
  · have hrun : (Transition.run (Host.stayStep (fun s ev => ServerEvent.Possible s ev)
        (process some ([·])) (Server.party Server.plainCfg)) (.new 1 {} []) greetRun).any
        (fun h => decide (NoWrap h.effects ∧
          .transmit ⟨0, 1⟩ 5 7 [0, 0, 0, 5, 0, 0, 0, 7, 0, 0, 0, 0, 0, 0, 0, 7, 104, 0] ∈
            h.effects)) = true := by decide +kernel
    obtain ⟨h, hr, hcheck⟩ := (Option.any_eq_true _ _).mp hrun
    obtain ⟨hwrap, hsent⟩ := of_decide_eq_true hcheck
    have hreach := Host.reachable_of_run hr
    exact ⟨h, hreach, hwrap, ⟨_, hsent⟩,
      (generation_guard some ([·]) 1).1 Server.plainCfg h hreach hwrap⟩
  · have hrun : (Transition.run (Host.stayStep (fun c ev => ClientEvent.Stays tcpCfg c ev)
        (process some ([·])) (Client.party tcpCfg)) (.new 0 firstClient (Client.born 6))
        (connectRun [])).any (fun h => decide (NoWrap h.effects ∧
          .afterRecv ⟨0, 2⟩ ⟨0, 2⟩ ∈ h.effects)) = true := by decide +kernel
    obtain ⟨h, hr, hcheck⟩ := (Option.any_eq_true _ _).mp hrun
    obtain ⟨hwrap, hafter⟩ := of_decide_eq_true hcheck
    have hreach := Host.reachable_of_run hr
    exact ⟨h, hreach, hwrap, hafter,
      (generation_guard some ([·]) 0).2 tcpCfg false ⟨1, 2, 3, 4⟩ 70 6 _ {} h hreach hwrap⟩

/-- A RST that is received behind the first heartbeat, before the heartbeat's completion is
handled: the completion makes the client ready, `on_timer` ends that incarnation at once and
selects the next, and `after_recv` then writes the headers of the old batch into it. -/
theorem generation_guard_can_fail :
    ∃ h : Host Client,
      Host.Reachable (process some ([·])) (Client.party tcpCfg) 0 firstClient (Client.born 6)
        (fun _ _ => True) h ∧ NoWrap h.effects ∧
      .afterRecv ⟨0, 2⟩ ⟨0, 4⟩ ∈ h.effects ∧ ¬ Guarded (process some ([·])) h.log := by
  have hrun : (Transition.run (Host.stayStep (fun _ _ => True)
      (process some ([·])) (Client.party tcpCfg)) (.new 0 firstClient (Client.born 6))
      (connectRun [arrives 2004 rstPacket, .submit])).any (fun h => decide (NoWrap h.effects ∧
        .afterRecv ⟨0, 2⟩ ⟨0, 4⟩ ∈ h.effects)) = true := by decide +kernel
  obtain ⟨h, hr, hcheck⟩ := (Option.any_eq_true _ _).mp hrun
  obtain ⟨hwrap, hafter⟩ := of_decide_eq_true hcheck
  refine ⟨h, Host.reachable_of_run hr, hwrap, hafter, fun hguard => ?_⟩
  cases target_of_legal hguard.legal hafter

end Udp2raw
