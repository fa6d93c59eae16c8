import Udp2raw.Core.Cursor
import Udp2raw.Server.Safety
import Udp2raw.Server.Stamps

/-!
# The connection collector

A pass of `clear_inactive_conns` goes on from the slot where the last one
stopped. A slot that stays occupied comes closer with every effective pass, even
while the slab grows and its holes are refilled, so an expired connection is
erased before the cursor has gone round once.
-/

namespace Udp2raw

/-- Ready without a heartbeat for more than 240 s and without conversations, or not ready for
more than 10 s. -/
def ServerConn.Expired (now : UInt64) (c : ServerConn) : Prop :=
  (c.state = .ready ∧ 240000 < now.toNat - c.info.lastHbRecvTime.toNat ∧ c.convs.isEmpty = true) ∨
  (c.state ≠ .ready ∧ 10000 < now.toNat - c.info.lastStateTime.toNat)

namespace Server

open Program

variable {now : UInt64} {c : ServerConn} {out : List Effect} {s t : Server}
  {order : List Nat → List Nat}

/-- On timestamps that are not in the future the wrapping difference is the exact one. -/
theorem sub_le_iff {time limit : UInt64} (h : time ≤ now) :
    now - time ≤ limit ↔ now.toNat - time.toNat ≤ limit.toNat := by
  rw [UInt64.le_iff_toNat_le, UInt64.toNat_sub_of_le _ _ h]

/-- The timestamp of something that is overdue is not in the future. -/
theorem le_of_lt_sub {time : UInt64} {n : Nat} (h : n < now.toNat - time.toNat) : time ≤ now := by
  rw [UInt64.le_iff_toNat_le]
  omega

/-- The collector does not keep an expired connection. -/
theorem keepsConn_of_expired (h : c.Expired now) : keepsConn now c = false := by
  unfold keepsConn
  rcases h with ⟨hstate, hlate, hempty⟩ | ⟨hstate, hlate⟩
  · have hdue : ¬ now - c.info.lastHbRecvTime ≤ serverConnTimeoutMs := by
      rw [sub_le_iff (le_of_lt_sub hlate)]
      exact Nat.not_le.mpr hlate
    rw [hstate]
    simp [hdue, hempty]
  · have hdue : ¬ now - c.info.lastStateTime ≤ serverHandshakeTimeoutMs := by
      rw [sub_le_iff (le_of_lt_sub hlate)]
      exact Nat.not_le.mpr hlate
    cases hs : c.state with
    | ready => exact absurd hs hstate
    | idle | handshake1 => simp [hdue]

/-- What it does not keep has expired. -/
theorem expired_of_keepsConn (hby : c.By now) (h : keepsConn now c = false) : c.Expired now := by
  unfold keepsConn at h
  cases hs : c.state with
  | ready =>
    rw [hs] at h
    simp only [Bool.or_eq_false_iff, decide_eq_false_iff_not, Bool.not_eq_false'] at h
    rw [sub_le_iff hby.1] at h
    exact .inl ⟨hs, Nat.not_le.mp h.1, h.2⟩
  | idle | handshake1 =>
    rw [hs] at h
    simp only [decide_eq_false_iff_not] at h
    rw [sub_le_iff hby.2] at h
    exact .inr ⟨by simp [hs], Nat.not_le.mp h⟩

/-! ## One pass -/

/-- The slot the collector looks at next. -/
def nextSlot (s : Server) : Nat := Cursor.position s.conns.slots.length s.clearCursor

/-- The server once the collector has turned to the next slot. -/
def advance (s : Server) : Server := { s with clearCursor := s.nextSlot + 1 }

/-- The slots a pass looks at and what it finds there. -/
inductive Sweep (now : UInt64) (order : List Nat → List Nat) :
    Server → List (Nat × Option ServerConn) → Server → Prop where
  | nil (s : Server) : Sweep now order s [] s
  | hole {s t : Server} {seen : List (Nat × Option ServerConn)}
      (empty : s.conns.get? s.nextSlot = none) (rest : Sweep now order s.advance seen t) :
      Sweep now order s ((s.nextSlot, none) :: seen) t
  | keep {s t : Server} {seen : List (Nat × Option ServerConn)} {c : ServerConn}
      (found : s.conns.get? s.nextSlot = some c) (keeps : keepsConn now c = true)
      (rest : Sweep now order s.advance seen t) :
      Sweep now order s ((s.nextSlot, some c) :: seen) t
  | erase {s t : Server} {seen : List (Nat × Option ServerConn)} {c : ServerConn}
      (found : s.conns.get? s.nextSlot = some c) (drops : keepsConn now c = false)
      (rest : Sweep now order (s.advance.dropConn s.nextSlot c order) seen t) :
      Sweep now order s ((s.nextSlot, some c) :: seen) t

theorem slot?_eq_ok {slot : Nat} {r : Option ServerConn} (h : slot? slot s = .ok (r, t, out)) :
    r = s.conns.get? slot ∧ t = s := by
  unfold slot? at h
  rw [get_bind_apply] at h
  cases hslot : s.conns.slots[slot]? with
  | none =>
    rw [hslot] at h
    cases h
  | some c =>
    rw [hslot] at h
    cases h
    exact ⟨by rw [Slab.get?, hslot]; rfl, rfl⟩

/-- Erasing drops the connection. -/
theorem eraseConn_eq_ok {slot : Nat} (hc : s.conns.get? slot = some c)
    (h : eraseConn order slot s = .ok ((), t, out)) : t = s.dropConn slot c order := by
  unfold eraseConn at h
  obtain ⟨r, u, first, rest, hslot, h, -⟩ := bind_eq_ok.mp h
  obtain ⟨rfl, rfl⟩ := slot?_eq_ok hslot
  rw [hc] at h
  dsimp only at h
  rw [get_bind_apply] at h
  split_ifs at h
  · cases h
  · cases h
  · cases h
    rfl

/-- The loop is a sweep that finds at most `quota` connections and starts if it may. -/
theorem sweep_of_clearLoop {visits quota : Nat}
    (h : clearLoop now order visits quota s = .ok ((), t, out)) :
    ∃ seen, Sweep now order s seen t ∧ (seen.filterMap Prod.snd).length ≤ quota ∧
      (0 < visits → 0 < quota → seen ≠ []) := by
  induction visits generalizing quota s out with
  | zero =>
    cases h
    exact ⟨[], .nil _, Nat.zero_le _, fun hlt => absurd hlt (Nat.lt_irrefl 0)⟩
  | succ visits ih =>
    cases quota with
    | zero =>
      cases h
      exact ⟨[], .nil _, Nat.le_refl 0, fun _ hlt => absurd hlt (Nat.lt_irrefl 0)⟩
    | succ quota =>
      unfold clearLoop at h
      rw [get_bind_apply] at h
      obtain ⟨_, u, _, _, hact, h, -⟩ := bind_eq_ok.mp h
      have hu : u = s.advance := by
        cases hact
        rfl
      subst hu
      obtain ⟨r, v, _, _, hslot, h, -⟩ := bind_eq_ok.mp h
      obtain ⟨hr, rfl⟩ := slot?_eq_ok hslot
      change r = s.conns.get? s.nextSlot at hr
      cases r with
      | none =>
        obtain ⟨seen, hsweep, hcount, -⟩ := ih h
        exact ⟨_, .hole hr.symm hsweep, hcount, fun _ _ => List.cons_ne_nil _ _⟩
      | some c =>
        dsimp only at h
        by_cases hkeep : keepsConn now c = true
        · rw [hkeep, if_neg (by simp)] at h
          obtain ⟨seen, hsweep, hcount, -⟩ := ih h
          exact ⟨_, .keep hr.symm hkeep hsweep, Nat.succ_le_succ hcount,
            fun _ _ => List.cons_ne_nil _ _⟩
        · rw [Bool.not_eq_true] at hkeep
          rw [hkeep, if_pos (show (!false) = true from rfl)] at h
          obtain ⟨_, w, _, _, herase, h, -⟩ := bind_eq_ok.mp h
          obtain rfl := eraseConn_eq_ok (s := s.advance) hr.symm herase
          obtain ⟨seen, hsweep, hcount, -⟩ := ih h
          exact ⟨_, .erase hr.symm hkeep hsweep, Nat.succ_le_succ hcount,
            fun _ _ => List.cons_ne_nil _ _⟩

namespace Sweep

variable {now : UInt64} {order : List Nat → List Nat} {s t : Server}
  {seen : List (Nat × Option ServerConn)}

/-- The slots are visited in turn. -/
theorem tour (h : Sweep now order s seen t) :
    Cursor.Tour s.conns.slots.length s.clearCursor (seen.map Prod.fst) t.clearCursor := by
  induction h with
  | nil s => exact .nil _
  | hole _ _ ih | keep _ _ _ ih => exact .cons ih
  | erase _ _ _ ih =>
    rw [show (Server.dropConn _ _ _ order).conns.slots.length = _ from
      Slab.length_release _ _] at ih
    exact .cons ih

/-- A slot is as it was, or its connection has been erased. -/
theorem cases (h : Sweep now order s seen t) (i : Nat) :
    t.conns.get? i = s.conns.get? i ∨
      ∃ c, s.conns.get? i = some c ∧ keepsConn now c = false ∧ t.conns.get? i = none := by
  induction h with
  | nil s => exact .inl rfl
  | hole _ _ ih | keep _ _ _ ih => exact ih
  | @erase s t seen c found drops _ ih =>
    have hdrop : (s.advance.dropConn s.nextSlot c order).conns.get? i =
        if i = s.nextSlot then none else s.conns.get? i := Slab.get?_release _ _ _
    rw [hdrop] at ih
    by_cases hi : i = s.nextSlot
    · subst hi
      rw [if_pos rfl] at ih
      rcases ih with ih | ⟨_, hnone, -⟩
      · exact .inr ⟨c, found, drops, ih⟩
      · cases hnone
    · rw [if_neg hi] at ih
      exact ih

/-- What is no longer kept does not survive a visit. -/
theorem erases (h : Sweep now order s seen t) {i : Nat} {c : ServerConn}
    (hi : i ∈ seen.map Prod.fst) (hc : s.conns.get? i = some c) (hdrop : keepsConn now c = false) :
    t.conns.get? i = none := by
  induction h with
  | nil s => simp at hi
  | hole empty _ ih =>
    rcases List.mem_cons.mp hi with rfl | hi
    · rw [hc] at empty
      cases empty
    · exact ih hi hc
  | keep found keeps _ ih =>
    rcases List.mem_cons.mp hi with rfl | hi
    · rw [hc] at found
      cases found
      rw [hdrop] at keeps
      cases keeps
    · exact ih hi hc
  | @erase s t seen d found drops rest ih =>
    have hget : ∀ j, (s.advance.dropConn s.nextSlot d order).conns.get? j =
        if j = s.nextSlot then none else s.conns.get? j := fun j => Slab.get?_release _ _ _
    by_cases hne : i = s.nextSlot
    · have hnone := hget i
      rw [if_pos hne] at hnone
      rcases rest.cases i with hsame | ⟨_, -, -, hgone⟩
      · exact hsame.trans hnone
      · exact hgone
    · rcases List.mem_cons.mp hi with heq | hi
      · exact absurd heq hne
      · refine ih hi ?_
        rw [hget, if_neg hne]
        exact hc

theorem created (h : Sweep now order s seen t) : t.created = s.created := by
  induction h with
  | nil => rfl
  | hole _ _ ih | keep _ _ _ ih | erase _ _ _ ih => exact ih

theorem inherits (h : Sweep now order s seen t) : Inherits s t := by
  refine ⟨h.created, fun {i d} hd => ?_⟩
  rcases h.cases i with hsame | ⟨_, -, -, hnone⟩
  · exact ⟨d, hsame.symm.trans hd, rfl⟩
  · rw [hnone] at hd
    cases hd

end Sweep

/-- The pass is not suppressed by the rate limit. -/
def Effective (s : Server) (now : UInt64) : Prop :=
  connClearIntervalMs < now.toNat - s.lastConnClear.toNat

instance (s : Server) (now : UInt64) : Decidable (s.Effective now) :=
  inferInstanceAs (Decidable (_ < _))

/-- What an effective pass does. -/
theorem sweep_of_clearInactiveConns (hdue : s.Effective now)
    (h : clearInactiveConns now order s = .ok ((), t, out)) :
    ∃ seen, Sweep now order { s with lastConnClear := now } seen t ∧
      (seen.filterMap Prod.snd).length ≤ s.conns.live / 50 + 1 ∧
      (0 < s.conns.live → seen ≠ []) := by
  unfold clearInactiveConns at h
  rw [get_bind_apply, if_neg (Nat.not_le.mpr hdue)] at h
  obtain ⟨_, u, _, _, hact, h, -⟩ := bind_eq_ok.mp h
  cases hact
  obtain ⟨seen, hsweep, hcount, hstart⟩ := sweep_of_clearLoop h
  refine ⟨seen, hsweep, hcount.trans (Nat.min_le_left _ _), fun hlive => hstart ?_ ?_⟩
  · exact Nat.lt_of_lt_of_le hlive (Nat.sub_le _ _)
  · exact Nat.lt_min.mpr ⟨Nat.succ_pos _, hlive⟩

/-! ## Runs -/

end Server

/-- What an event reads from the clock, in order. -/
def ServerEvent.readings : ServerEvent → List UInt64
  | .raw o _ _ => [o.createTime, o.readyTime]
  | .done o (.decrypted _ plains _) =>
    (List.range plains.length).flatMap fun i => [(o.plain i).rollerTime, (o.plain i).now]
  | .done _ (.encrypted ..) | .sock .. => []
  | .timer now _ => [now]

/-- The time of the effective pass an event runs. -/
def ServerEvent.pass (s : Server) : ServerEvent → Option UInt64
  | .timer now _ => if s.Effective now then some now else none
  | .raw .. | .done .. | .sock .. => none

namespace Server

open Program

/-- A finite run: its events and, for each effective pass, the server it found and its time. -/
inductive Run (cfg : ServerCfg) :
    Server → List ServerEvent → List (Server × UInt64) → Server → Prop where
  | nil (s : Server) : Run cfg s [] [] s
  | cons {s t u : Server} {ev : ServerEvent} {evs : List ServerEvent}
      {passes : List (Server × UInt64)} {out : List Effect} (possible : ev.Possible s)
      (handled : ev.handle cfg s = .ok ((), t, out)) (rest : Run cfg t evs passes u) :
      Run cfg s (ev :: evs) (((ev.pass s).map (s, ·)).toList ++ passes) u

variable {cfg : ServerCfg} {s t : Server} {b : UInt64}

theorem le_latest (r : UInt64) : r ≤ -1 := by
  rw [UInt64.le_iff_toNat_le]
  exact Nat.le_of_lt_succ r.toNat_lt

variable {ev : ServerEvent} {out : List Effect} {now : UInt64} {serial : Nat}
  {order : List Nat → List Nat} {passes : List (Server × UInt64)} {evs : List ServerEvent}

/-- An event without an effective pass is calm. -/
theorem calm_handle (hpass : ev.pass s = none) (hread : ∀ r ∈ ev.readings, r ≤ b)
    (hok : ev.handle cfg s = .ok ((), t, out)) : Calm b s t := by
  cases ev with
  | raw o buf ll =>
    exact .of_alters (alters_onRawPacket (hread _ (by simp [ServerEvent.readings]))
      (hread _ (by simp [ServerEvent.readings])) trivial (fun _ _ _ => trivial) ll) hok
  | done o d =>
    refine .of_alters (alters_onDone ?_) hok
    rintro key plains recv rfl i hi
    refine hread _ (List.mem_flatMap.mpr ⟨i, List.mem_range.mpr hi, ?_⟩)
    exact List.mem_cons_of_mem _ List.mem_cons_self
  | sock sidx datagrams => exact .of_alters (@alters_onSockReadable cfg _ _ sidx datagrams) hok
  | timer now order =>
    simp only [ServerEvent.pass, ite_eq_right_iff, reduceCtorEq, imp_false] at hpass
    have hpasses : Alters cfg (.upTo b) s (onTimer cfg now order) fun _ _ => True := by
      refine Runs.bind (R := fun _ _ => True) ?_ fun _ _ _ => alters_timerSlots now
      refine runs_get_bind ?_
      rw [if_pos (Nat.not_lt.mp hpass)]
      exact runs_pure trivial
    exact .of_alters hpasses hok

/-- The event of an effective pass is the pass, followed by what is calm. -/
theorem pass_handle (hpass : ev.pass s = some now) (hok : ev.handle cfg s = .ok ((), t, out)) :
    s.Effective now ∧ ∃ order u first rest, clearInactiveConns now order s = .ok ((), u, first) ∧
      timerSlots cfg now u = .ok ((), t, rest) ∧ ∀ b, Calm b u t := by
  cases ev with
  | raw | done | sock => cases hpass
  | timer time order =>
    simp only [ServerEvent.pass, Option.ite_none_right_eq_some, Option.some.injEq] at hpass
    obtain ⟨hdue, rfl⟩ := hpass
    obtain ⟨_, u, first, rest, hclear, hslots, -⟩ := bind_eq_ok.mp hok
    exact ⟨hdue, order, u, first, rest, hclear, hslots,
      fun b => .of_alters (alters_timerSlots time) hslots⟩

/-- Handling an event leaves a gone connection gone. -/
theorem Gone.event (h : Gone serial s) (hs : s.Sound) (hev : ev.Possible s)
    (hok : ev.handle cfg s = .ok ((), t, out)) : Gone serial t := by
  obtain ⟨hsteps, -⟩ := (does_handle hs hev).ok hok
  exact hsteps.invariant (fun _ _ _ hstep hg => hg.step hstep) h

/-- A sweep keeps the server sound. -/
theorem sound_clearInactiveConns (hs : s.Sound)
    (hok : clearInactiveConns now order s = .ok ((), t, out)) : t.Sound := by
  have hdoes : Does plainCfg none s (clearInactiveConns now order) fun _ t => t.Sound :=
    does_clearInactiveConns hs now order
  exact (hdoes.ok hok).2

theorem Gone.timerSlots (h : Gone serial s) (hs : s.Sound)
    (hok : timerSlots cfg now s = .ok ((), t, out)) : Gone serial t := by
  have hdoes : Does cfg none s (Server.timerSlots cfg now) fun _ _ => True :=
    does_timerSlots hs now
  exact (hdoes.ok hok).1.invariant (fun _ _ _ hstep hg => hg.step hstep) h

theorem Run.sound (h : Run cfg s evs passes t) (hs : s.Sound) : t.Sound := by
  induction h with
  | nil => exact hs
  | cons possible handled _ ih => exact ih (hs.event possible handled)

/-- What is gone stays gone along a run. -/
theorem Run.gone (h : Run cfg s evs passes t) (hs : s.Sound) (hg : Gone serial s) :
    Gone serial t := by
  induction h with
  | nil => exact hg
  | cons possible handled _ ih =>
    exact ih (hs.event possible handled) (hg.event hs possible handled)

/-- A pass writes no timestamps. -/
theorem Sweep.stamped {seen : List (Nat × Option ServerConn)} (h : Sweep now order s seen t)
    (hs : s.Stamped b) : t.Stamped b := by
  intro i c hc
  rcases h.cases i with hsame | ⟨_, -, -, hnone⟩
  · exact hs i c (hsame.symm.trans hc)
  · rw [hnone] at hc
    cases hc

/-- Along a run no stamp is later than the clock. -/
theorem Run.stamped (h : Run cfg s evs passes t) (hs : s.Stamped b)
    (hread : ∀ r ∈ evs.flatMap ServerEvent.readings, r ≤ b) : t.Stamped b := by
  induction h with
  | nil => exact hs
  | @cons s t u ev evs passes out _ handled _ ih =>
    have hfirst : ∀ r ∈ ev.readings, r ≤ b := fun r hr => hread r (List.mem_append_left _ hr)
    refine ih ?_ fun r hr => hread r (List.mem_append_right _ hr)
    cases hpass : ev.pass s with
    | none => exact (calm_handle hpass hfirst handled).stamped hs
    | some now =>
      obtain ⟨hdue, order, v, _, _, hclear, -, hcalm⟩ := pass_handle hpass handled
      obtain ⟨seen, hsweep, -⟩ := sweep_of_clearInactiveConns hdue hclear
      exact (hcalm b).stamped (hsweep.stamped hs)

/-- The pass found the connection of this serial in the slot, expired. -/
def FoundExpired (slot serial : Nat) (p : Server × UInt64) : Prop :=
  ∃ c, p.1.conns.get? slot = some c ∧ c.serial = serial ∧ c.Expired p.2

/-- An effective pass that leaves an expired connection brings the cursor closer to it. -/
theorem ahead_pass {u : Server} {slot bound : Nat} (hs : s.Sound) (hdue : s.Effective now)
    (hclear : clearInactiveConns now order s = .ok ((), u, out))
    (hfound : FoundExpired slot serial (s, now)) (hbound : s.conns.slots.length ≤ bound) :
    Gone serial u ∨
      Cursor.ahead bound u.clearCursor slot + 1 ≤ Cursor.ahead bound s.clearCursor slot := by
  obtain ⟨c, hc, rfl, hexpired⟩ := hfound
  obtain ⟨seen, hsweep, -, hstart⟩ := sweep_of_clearInactiveConns hdue hclear
  by_cases hmem : slot ∈ seen.map Prod.fst
  · left
    have hnone := hsweep.erases hmem hc (keepsConn_of_expired hexpired)
    exact hs.toNumbered.gone (t := u) hc hsweep.inherits hnone
  · right
    have htour := hsweep.tour.ahead_le (Slab.lt_of_get? hc) hbound hmem
    have hvisits : 0 < (seen.map Prod.fst).length := by
      rw [List.length_map]
      exact List.length_pos_iff.mpr (hstart (Slab.live_pos hc))
    change _ ≤ Cursor.ahead bound s.clearCursor slot at htour
    omega

/-- While the connection stays, every effective pass of a run brings the cursor closer. -/
theorem Run.ahead_le {slot bound : Nat} {d : ServerConn} (h : Run cfg s evs passes t) (hs : s.Sound)
    (hfound : ∀ p ∈ passes, FoundExpired slot serial p)
    (hbound : ∀ p ∈ passes, p.1.conns.slots.length ≤ bound) (hd : t.conns.get? slot = some d)
    (hserial : d.serial = serial) :
    Cursor.ahead bound t.clearCursor slot + passes.length ≤
      Cursor.ahead bound s.clearCursor slot := by
  induction h with
  | nil => exact Nat.le_refl _
  | @cons s t u ev evs passes out possible handled rest ih =>
    have hrest := ih (hs.event possible handled)
      (fun p hp => hfound p (List.mem_append_right _ hp))
      (fun p hp => hbound p (List.mem_append_right _ hp)) hd
    cases hpass : ev.pass s with
    | none =>
      have hcalm := calm_handle (b := -1) hpass (fun r _ => le_latest r) handled
      rw [hcalm.clearCursor] at hrest
      exact hrest
    | some now =>
      rw [hpass] at hfound hbound
      have hmem : (s, now) ∈ ((some now).map (s, ·)).toList ++ passes := List.mem_cons_self
      obtain ⟨hdue, order, v, _, _, hclear, hslots, hcalm⟩ := pass_handle hpass handled
      rcases ahead_pass hs hdue hclear (hfound _ hmem) (hbound _ hmem) with hgone | hcloser
      · have hgone := hgone.timerSlots (sound_clearInactiveConns hs hclear) hslots
        exact absurd hserial ((rest.gone (hs.event possible handled) hgone).2 hd)
      · rw [(hcalm 0).clearCursor] at hrest
        simp only [Option.map_some, Option.toList_some, List.cons_append, List.nil_append,
          List.length_cons]
        omega

/-- A pass at `now` erases only expired connections and leaves the others as they are, and it
looks at a bounded number of connections. -/
structure Precise (now : UInt64) (s t : Server) : Prop where
  expired : ∀ slot c, s.conns.get? slot = some c → t.conns.get? slot ≠ some c → c.Expired now
  bounded : ∃ order seen, Sweep now order { s with lastConnClear := now } seen t ∧
    (seen.filterMap Prod.snd).length ≤ s.conns.live / 50 + 1

/-- In every run, a connection that each of `bound` effective passes found expired in its slot is
not there any more, where `bound` is the largest length of the slot vector during these passes;
and a pass whose clock is not behind an earlier reading is precise. -/
theorem collector_prompt_and_precise {before during : List ServerEvent}
    {earlier : List (Server × UInt64)} (hbefore : Run cfg {} before earlier s)
    (hduring : Run cfg s during passes t) :
    (∀ slot serial bound, 0 < bound → bound ≤ passes.length →
      (∀ p ∈ passes, p.1.conns.slots.length ≤ bound) →
      (∀ p ∈ passes, FoundExpired slot serial p) →
      ∀ d, t.conns.get? slot = some d → d.serial ≠ serial) ∧
    ∀ now order u out, (∀ r ∈ (before ++ during).flatMap ServerEvent.readings, r ≤ now) →
      t.Effective now → clearInactiveConns now order t = .ok ((), u, out) → Precise now t u := by
  have hs : s.Sound := hbefore.sound .initial
  constructor
  · intro slot serial bound hpos hpasses hbound hfound d hd hserial
    have hahead := hduring.ahead_le hs hfound hbound hd hserial
    -- a first pass shows that the slot is below the bound
    obtain ⟨p, hp⟩ := List.exists_mem_of_length_pos (Nat.lt_of_lt_of_le hpos hpasses)
    obtain ⟨c, hc, -⟩ := hfound p hp
    have hlt := Cursor.ahead_lt (Nat.lt_of_lt_of_le (Slab.lt_of_get? hc) (hbound p hp))
      s.clearCursor
    omega
  · intro now order u out hclock hdue hclear
    rw [List.flatMap_append] at hclock
    have hstart : ({} : Server).Stamped now := by
      intro i c hc
      simp at hc
    have hmid := hbefore.stamped hstart fun r hr => hclock r (List.mem_append_left _ hr)
    have ht := hduring.stamped hmid fun r hr => hclock r (List.mem_append_right _ hr)
    obtain ⟨seen, hsweep, hcount, -⟩ := sweep_of_clearInactiveConns hdue hclear
    refine ⟨fun slot c hc hne => ?_, order, seen, hsweep, hcount⟩
    rcases hsweep.cases slot with hsame | ⟨e, he, hdrop, -⟩
    · exact absurd (hsame.trans hc) hne
    · cases hc.symm.trans he
      exact expired_of_keepsConn (ht slot c hc) hdrop

/-- The state after an event that does not abort. -/
theorem handle_after (cfg : ServerCfg) (s : Server) (ev : ServerEvent)
    (h : (ev.handle cfg s).toOption.isSome = true) :
    ∃ out, ev.handle cfg s = .ok ((), s.after cfg ev, out) := by
  unfold Server.after
  cases hok : ev.handle cfg s with
  | error e =>
    rw [hok] at h
    cases h
  | ok r => exact ⟨r.2.2, rfl⟩

/-- The server with one connection that waits for its handshake. -/
def waitingServer : Server := Server.after {} plainCfg (.raw firstDraws helloPacket {})

/-- The hello of the same client from port 1001. -/
def otherHello : Bytes := putU16 (putU16 helloPacket 20 1001) 26 0x6de8

/-- The server with a second such connection, in slot 1. -/
def twoWaiting : Server := waitingServer.after plainCfg (.raw firstDraws otherHello {})

/-- A slot whose connection waits since more than ten seconds is found expired. -/
theorem foundExpired_of_waiting {slot : Nat} {p : Server × UInt64}
    (h : (p.1.conns.get? slot).any (fun c => c.serial == serial && decide (c.state ≠ .ready) &&
      decide (10000 < p.2.toNat - c.info.lastStateTime.toNat)) = true) :
    FoundExpired slot serial p := by
  obtain ⟨c, hc, h⟩ := (Option.any_eq_true _ _).mp h
  simp only [Bool.and_eq_true, beq_iff_eq, decide_eq_true_eq] at h
  exact ⟨c, hc, h.1.1, .inr ⟨h.1.2, h.2⟩⟩

/-- Twenty seconds later the cursor is on slot 0: the first pass leaves slot 1, the second one
erases it. -/
theorem collector_prompt_and_precise_two_slots :
    FoundExpired 1 1 (twoWaiting.after plainCfg (.timer 20000 id), 22000) ∧
      ∀ d, ((twoWaiting.after plainCfg (.timer 20000 id)).after plainCfg
        (.timer 22000 id)).conns.get? 1 = some d → d.serial ≠ 1 := by
  have hfirst : FoundExpired 1 1 (twoWaiting, 20000) := foundExpired_of_waiting (by decide +kernel)
  have hsecond : FoundExpired 1 1 (twoWaiting.after plainCfg (.timer 20000 id), 22000) :=
    foundExpired_of_waiting (by decide +kernel)
  obtain ⟨_, hhello⟩ := handle_after plainCfg {} (.raw firstDraws helloPacket {}) (by decide)
  obtain ⟨_, hother⟩ := handle_after plainCfg waitingServer (.raw firstDraws otherHello {})
    (by decide +kernel)
  obtain ⟨_, htimer⟩ := handle_after plainCfg twoWaiting (.timer 20000 id) (by decide +kernel)
  obtain ⟨_, hagain⟩ := handle_after plainCfg (twoWaiting.after plainCfg (.timer 20000 id))
    (.timer 22000 id) (by decide +kernel)
  have hbefore : Run plainCfg {}
      [.raw firstDraws helloPacket {}, .raw firstDraws otherHello {}] [] twoWaiting :=
    .cons trivial hhello (.cons trivial hother (.nil _))
  have hduring : Run plainCfg twoWaiting [.timer 20000 id, .timer 22000 id] _ _ :=
    .cons trivial htimer (.cons trivial hagain (.nil _))
  have hpass : (ServerEvent.timer 20000 id).pass twoWaiting = some 20000 := by decide +kernel
  have hpass' : (ServerEvent.timer 22000 id).pass (twoWaiting.after plainCfg (.timer 20000 id)) =
      some 22000 := by decide +kernel
  rw [hpass, hpass'] at hduring
  exact ⟨hsecond, (collector_prompt_and_precise hbefore hduring).1 1 1 2 (by decide) (Nat.le_refl 2)
    (List.forall_mem_cons.mpr ⟨by decide +kernel, List.forall_mem_singleton.mpr
      (by decide +kernel)⟩)
    (List.forall_mem_cons.mpr ⟨hfirst, List.forall_mem_singleton.mpr hsecond⟩)⟩

end Server

end Udp2raw
