import Udp2raw.Generation.Safety

/-!
# Commands of the operator reach the endpoint controller

An accepted command sends the client to `Idle` with a reason of its own, and the
next tick hands that reason to the controller. `go_idle` leaves a disabled raw
connection disabled; the tick then goes to `Idle` once more, with the reason of a
failed attempt, before it gets to the controller.
-/

namespace Udp2raw

open Program

/-- The reason of the first call of `on_cycle` in a log. -/
def nextCycle (log : List Effect) : Option CycleReason :=
  log.findSome? fun e => match e with
    | .endpoint (.onCycle _ reason) => some reason
    | _ => none

/-- The reason an accepted command gives for the next attempt. -/
def FifoCommand.reason : FifoCommand → Option CycleReason
  | .reconnect => some .forced
  | .rollback true => some .operatorRollback
  | .rollback false | .promote => none

/-- Whether the event is a command of the operator. -/
def ClientEvent.isFifo : ClientEvent → Bool
  | .fifo .. => true
  | _ => false

/-- Whether the event is a timer tick. -/
def ClientEvent.isTimer : ClientEvent → Bool
  | .timer _ => true
  | _ => false

theorem nextCycle_append (a b : List Effect) :
    nextCycle (a ++ b) = (nextCycle a).or (nextCycle b) := by
  unfold nextCycle
  rw [List.findSome?_append]

namespace Client

variable {cfg : ClientCfg} {c d : Client} {out : List Effect}

/-- The client is idle and has not yet told the controller why. -/
structure Owes (c : Client) (reason : CycleReason) : Prop where
  state : c.state = .idle
  unselected : c.attemptEndpointSelected = false
  reason : c.cycleReason = reason

/-- The reason the next tick gives to the controller. -/
def dueReason (c : Client) : CycleReason :=
  if c.info.raw.disabled then .attemptFailed else c.cycleReason

/-- An accepted command leaves its reason with an idle client. -/
theorem onFifo_owes {command : FifoCommand} {reason : CycleReason} {id : UInt32}
    (accepted : command.reason = some reason) (h : onFifo id command c = .ok ((), d, out)) :
    d.Owes reason ∧ d.info.raw = c.info.raw ∧ nextCycle out = none := by
  match command with
  | .reconnect | .rollback true =>
    cases accepted
    cases h
    exact ⟨⟨rfl, rfl, rfl⟩, rfl, rfl⟩
  | .rollback false | .promote => cases accepted

/-- A datagram from a local peer only concerns the conversations of an idle client. -/
theorem onUdpPacket_idle (hs : c.state = .idle) {now : UInt64} {newConv : UInt32} {data : Bytes}
    {peer : IpAddr × UInt16} (h : onUdpPacket now newConv data peer c = .ok ((), d, out)) :
    out = [] ∧ ∃ convs, d = { c with convs := convs } := by
  unfold onUdpPacket at h
  by_cases hlong : data.length = maxDataLen + 1
  · rw [if_pos hlong] at h
    cases h
    exact ⟨rfl, _, rfl⟩
  rw [if_neg hlong] at h
  obtain ⟨conv, e, first, rest, hconv, h, rfl⟩ := bind_eq_ok.mp h
  have hfirst : first = [] ∧ ∃ convs, e = { c with convs := convs } := by
    unfold convFor at hconv
    rw [get_bind_apply] at hconv
    cases hfind : c.convs.findConvByData peer with
    | some known =>
      rw [hfind] at hconv
      cases hconv
      exact ⟨rfl, _, rfl⟩
    | none =>
      rw [hfind] at hconv
      dsimp only at hconv
      split_ifs at hconv <;> cases hconv <;> exact ⟨rfl, _, rfl⟩
  obtain ⟨rfl, convs, rfl⟩ := hfirst
  cases conv with
  | none =>
    cases h
    exact ⟨rfl, _, rfl⟩
  | some conv =>
    obtain ⟨_, e, first, more, hact, hmore, rfl⟩ := bind_eq_ok.mp h
    cases hact
    rw [get_bind_apply, if_neg (by simp [hs])] at hmore
    cases hmore
    exact ⟨rfl, _, rfl⟩

/-- Between two ticks an idle client stays as it is. -/
theorem handle_idle (hs : c.state = .idle) {ev : ClientEvent} (htimer : ev.isTimer = false)
    (hfifo : ev.isFifo = false) (h : ev.handle cfg c = .ok ((), d, out)) :
    out = [] ∧ ∃ convs, d = { c with convs := convs } := by
  cases ev with
  | raw o buf ll =>
    simp only [ClientEvent.handle, onRawPacket] at h
    cases hclamp : clampPacket cfg.fixGro buf with
    | none =>
      rw [hclamp] at h
      cases h
      exact ⟨rfl, _, rfl⟩
    | some buf =>
      rw [hclamp] at h
      dsimp only at h
      rw [get_bind_apply, if_pos hs] at h
      cases h
      exact ⟨rfl, _, rfl⟩
  | done o done =>
    match done with
    | .encrypted _ none =>
      cases h
      exact ⟨rfl, _, rfl⟩
    | .encrypted key (some wire) =>
      simp only [ClientEvent.handle, onDone] at h
      rw [get_bind_apply, if_neg (by simp [hs])] at h
      cases h
      exact ⟨rfl, _, rfl⟩
    | .decrypted key plains recv =>
      simp only [ClientEvent.handle, onDone] at h
      rw [get_bind_apply, if_neg (by simp [hs])] at h
      cases h
      exact ⟨rfl, _, rfl⟩
  | udp now newConv data peer => exact onUdpPacket_idle hs h
  | timer o => cases htimer
  | fifo command id => cases hfifo

/-- Ending a disabled connection makes its reason the one that is due. -/
theorem endDisabled_owes {reason : CycleReason} (hc : c.Owes reason) {o : TimerOracle}
    (h : endDisabled o c = .ok ((), d, out)) : d.Owes c.dueReason ∧ nextCycle out = none := by
  unfold endDisabled at h
  rw [get_bind_apply] at h
  by_cases hdis : c.info.raw.disabled = true
  · rw [if_pos hdis] at h
    cases h
    refine ⟨⟨rfl, rfl, ?_⟩, rfl⟩
    rw [dueReason, if_pos hdis, hc.state]
    rfl
  · rw [if_neg hdis] at h
    cases h
    exact ⟨⟨hc.state, hc.unselected, by rw [dueReason, if_neg hdis]⟩, rfl⟩

/-- A tick of an idle client that has selected no endpoint calls the controller. -/
theorem attempt_cycles {reason : CycleReason} (hc : c.Owes reason) {o : TimerOracle} {go : Bool}
    (h : attempt cfg o c = .ok (go, d, out)) : nextCycle out = some reason := by
  unfold attempt at h
  rw [get_bind_apply, if_pos hc.state] at h
  obtain ⟨_, e, first, rest, hselect, -, rfl⟩ := bind_eq_ok.mp h
  unfold select at hselect
  rw [get_bind_apply, if_neg (by simp [hc.unselected])] at hselect
  cases hselect
  rw [← hc.reason]
  rfl

/-- The timer runs the cycle that is owed. -/
theorem onTimer_cycles {reason : CycleReason} (hc : c.Owes reason) {o : TimerOracle}
    (h : onTimer cfg o c = .ok ((), d, out)) : nextCycle out = some c.dueReason := by
  unfold onTimer at h
  obtain ⟨_, e, first, rest, hact, hrest, rfl⟩ := bind_eq_ok.mp h
  cases hact
  obtain ⟨_, f, ended, later, hend, hlater, rfl⟩ := bind_eq_ok.mp hrest
  obtain ⟨go, g, tried, last, hattempt, -, rfl⟩ := bind_eq_ok.mp hlater
  obtain ⟨hf, hnone⟩ := endDisabled_owes (c := c.maintain o.now) ⟨hc.1, hc.2, hc.3⟩ hend
  rw [nextCycle_append, nextCycle_append, nextCycle_append, hnone, attempt_cycles hf hattempt]
  rfl

/-- What the controller hears first after a reason was left, and when. -/
theorem nextCycle_run {reason : CycleReason} (evs : List ClientEvent) (hc : c.Owes reason)
    (free : ∀ ev ∈ evs, ev.isFifo = false)
    (h : forEach (ClientEvent.handle cfg) evs c = .ok ((), d, out)) :
    nextCycle out = if evs.any (·.isTimer) then some c.dueReason else none := by
  induction evs generalizing c out with
  | nil =>
    cases h
    rfl
  | cons ev evs ih =>
    obtain ⟨_, e, first, rest, hev, hrest, rfl⟩ := bind_eq_ok.mp h
    rw [nextCycle_append]
    by_cases htimer : ev.isTimer = true
    · obtain ⟨o, rfl⟩ : ∃ o, ev = .timer o := by
        cases ev <;> first | exact ⟨_, rfl⟩ | cases htimer
      rw [onTimer_cycles hc hev]
      rfl
    · have htimer : ev.isTimer = false := by simpa using htimer
      obtain ⟨rfl, convs, rfl⟩ :=
        handle_idle hc.state htimer (free ev (List.mem_cons_self ..)) hev
      have howes : Owes { c with convs := convs } reason := ⟨hc.state, hc.unselected, hc.reason⟩
      rw [ih howes (fun ev hev => free ev (List.mem_cons_of_mem _ hev)) hrest,
        List.any_cons, htimer]
      rfl

end Client

/-- The next call of `on_cycle` after an accepted command is made with the command's reason, from
every state and through every later sequence of packets, completions, datagrams and ticks, exactly
if the raw connection was not disabled when the command came (or no tick followed it). -/
theorem command_reaches_controller_iff {cfg : ClientCfg} {c d : Client} {command : FifoCommand}
    {reason : CycleReason} {id : UInt32} {evs : List ClientEvent} {log : List Effect}
    (accepted : command.reason = some reason) (free : ∀ ev ∈ evs, ev.isFifo = false)
    (run : forEach (ClientEvent.handle cfg) (.fifo command id :: evs) c = .ok ((), d, log)) :
    (∀ r, nextCycle log = some r → r = reason) ↔
      c.info.raw.disabled = false ∨ ∀ ev ∈ evs, ev.isTimer = false := by
  obtain ⟨_, e, first, rest, hfifo, hrun, rfl⟩ := bind_eq_ok.mp run
  obtain ⟨howes, hraw, hnone⟩ := Client.onFifo_owes accepted hfifo
  have hlog : nextCycle (first ++ rest) =
      if evs.any (·.isTimer) then some e.dueReason else none := by
    rw [nextCycle_append, hnone, Client.nextCycle_run evs howes free hrun]
    rfl
  have hne : reason ≠ .attemptFailed := by
    match command with
    | .reconnect | .rollback true => cases accepted; decide
    | .rollback false | .promote => cases accepted
  rw [hlog, Client.dueReason, hraw, howes.reason]
  by_cases htick : evs.any (·.isTimer) = true
  · rw [if_pos htick]
    have hsome : ¬ ∀ ev ∈ evs, ev.isTimer = false := by
      obtain ⟨ev, hev, ht⟩ := List.any_eq_true.mp htick
      exact fun h => by simp [h ev hev] at ht
    cases hdis : c.info.raw.disabled with
    | false => simp
    | true => simpa [hsome] using hne.symm
  · rw [if_neg htick]
    have hnot : ∀ ev ∈ evs, ev.isTimer = false := by simpa using htick
    simp only [reduceCtorEq, false_implies, implies_true, true_iff]
    exact .inr hnot

/-- A `reconnect` before the first attempt: the first tick reports it. -/
theorem command_reaches_controller_iff_reconnect :
    ∃ d log, forEach (ClientEvent.handle tcpCfg) [.fifo .reconnect 9, .timer (tick 2000 10)]
        firstClient = .ok ((), d, log) ∧
      nextCycle log = some .forced ∧ ∀ r, nextCycle log = some r → r = .forced := by
  have hrun : ((forEach (ClientEvent.handle tcpCfg) [.fifo .reconnect 9, .timer (tick 2000 10)]
      firstClient).toOption.any fun r => nextCycle r.2.2 = some .forced) = true := by
    decide +kernel
  obtain ⟨_, d, log, hlog, hnext⟩ :=
    exists_ok (p := fun _ _ log => nextCycle log = some .forced) hrun
  exact ⟨d, log, hlog, of_decide_eq_true hnext,
    (command_reaches_controller_iff rfl (by simp [ClientEvent.isFifo]) hlog).mpr (.inl rfl)⟩

/-- A client that has sent its SYN is disabled by a RST; the operator's `reconnect` that follows
is reported to the controller as a failed attempt. -/
theorem command_lost_when_disabled :
    ∃ c before d log,
      forEach (ClientEvent.handle tcpCfg)
        [.timer (tick 2000 6), .raw ⟨2001, tick 2001 20⟩ rstPacket {}] firstClient =
          .ok ((), c, before) ∧
      forEach (ClientEvent.handle tcpCfg) [.fifo .reconnect 9, .timer (tick 2400 30)] c =
        .ok ((), d, log) ∧ nextCycle log = some .attemptFailed := by
  have hrun : ((forEach (ClientEvent.handle tcpCfg)
      [.timer (tick 2000 6), .raw ⟨2001, tick 2001 20⟩ rstPacket {}] firstClient).toOption.any
        fun r => (forEach (ClientEvent.handle tcpCfg)
          [.fifo .reconnect 9, .timer (tick 2400 30)] r.2.1).toOption.any
            fun r => nextCycle r.2.2 = some .attemptFailed) = true := by
    decide +kernel
  obtain ⟨_, c, before, hbefore, hlater⟩ := exists_ok
    (p := fun _ c _ => (forEach (ClientEvent.handle tcpCfg)
      [.fifo .reconnect 9, .timer (tick 2400 30)] c).toOption.any
        fun r => nextCycle r.2.2 = some .attemptFailed) hrun
  obtain ⟨_, d, log, hlog, hnext⟩ :=
    exists_ok (p := fun _ _ log => nextCycle log = some .attemptFailed) hlater
  exact ⟨c, before, d, log, hbefore, hlog, of_decide_eq_true hnext⟩

end Udp2raw
