import Udp2raw.Server.Steps

/-!
# Ownership of the local sockets

A local socket belongs to one conversation of one connection, and the connection
to the conversation table that lists it. The two directions hold together: each
occupied entry of the socket slab is listed by its connection, and each listed
socket is occupied by an entry that points back.
-/

namespace Udp2raw

namespace Server

/-- Sockets and conversation tables point at each other. -/
structure OwnsSockets (s : Server) : Prop where
  owner : ∀ {i cs}, s.socks.get? i = some cs → ∃ c, s.conns.get? cs.connSlot = some c ∧
    c.state = .ready ∧ c.convs.findDataByConv cs.conv = some i ∧ c.serial = cs.serial
  entry : ∀ {slot c v i}, s.conns.get? slot = some c → c.convs.findDataByConv v = some i →
    c.state = .ready ∧ ∃ cs, s.socks.get? i = some cs ∧ cs.connSlot = slot ∧ cs.conv = v

theorem OwnsSockets.initial : OwnsSockets {} := by
  refine ⟨fun h => ?_, fun h => ?_⟩
  · simp at h
  · simp at h

variable {slot : Nat} {c : ServerConn} {s t : Server}

/-- Two conversations of a connection never share a socket. -/
theorem OwnsSockets.conv_inj (h : s.OwnsSockets) (hc : s.conns.get? slot = some c) {u v : UInt32}
    {i : Nat} (hu : c.convs.findDataByConv u = some i) (hv : c.convs.findDataByConv v = some i) :
    u = v := by
  obtain ⟨-, cs, hcs, -, rfl⟩ := h.entry hc hu
  obtain ⟨-, cs', hcs', -, rfl⟩ := h.entry hc hv
  rw [hcs] at hcs'
  rw [Option.some.inj hcs']

/-- Only the slab, its states, conversations and serials matter for ownership. -/
theorem OwnsSockets.congr (h : s.OwnsSockets) (hsocks : t.socks = s.socks)
    (hback : ∀ {slot c}, t.conns.get? slot = some c → (∀ v, c.convs.findDataByConv v = none) ∨
      ∃ d, s.conns.get? slot = some d ∧ (d.state = .ready → c.state = .ready) ∧
        ∀ v, c.convs.findDataByConv v = d.convs.findDataByConv v)
    (hforth : ∀ {slot d}, s.conns.get? slot = some d → d.state = .ready →
      ∃ c, t.conns.get? slot = some c ∧ c.state = .ready ∧
        (∀ v, c.convs.findDataByConv v = d.convs.findDataByConv v) ∧ c.serial = d.serial) :
    t.OwnsSockets := by
  refine ⟨fun {i cs} hi => ?_, fun {slot c v i} hc hv => ?_⟩
  · rw [hsocks] at hi
    obtain ⟨d, hd, hr, hfind, hserial⟩ := h.owner hi
    obtain ⟨c, hc, hr', hsame, hserial'⟩ := hforth hd hr
    exact ⟨c, hc, hr', (hsame _).trans hfind, hserial'.trans hserial⟩
  · rcases hback hc with hnone | ⟨d, hd, hr, hsame⟩
    · rw [hnone] at hv
      cases hv
    · rw [hsame] at hv
      obtain ⟨hready, hcs⟩ := h.entry hd hv
      exact ⟨hr hready, hsocks ▸ hcs⟩

/-- Replacing a connection by one with the same conversations that is ready if it was. -/
theorem OwnsSockets.setConn (h : s.OwnsSockets) {b : ServerConn} (hc : s.conns.get? slot = some c)
    (hready : c.state = .ready → b.state = .ready)
    (hfind : ∀ v, b.convs.findDataByConv v = c.convs.findDataByConv v)
    (hserial : b.serial = c.serial) : (s.setConn slot b).OwnsSockets := by
  refine h.congr rfl (fun {i d} hd => ?_) fun {i d} hd hr => ?_
  · change (s.conns.set slot b).get? i = some d at hd
    rw [Slab.get?_set hc] at hd
    by_cases hi : i = slot
    · rw [if_pos hi] at hd
      obtain rfl := Option.some.inj hd
      exact .inr ⟨c, hi ▸ hc, hready, hfind⟩
    · rw [if_neg hi] at hd
      exact .inr ⟨d, hd, id, fun _ => rfl⟩
  · change ∃ e, (s.conns.set slot b).get? i = some e ∧ _
    rw [Slab.get?_set hc]
    by_cases hi : i = slot
    · subst hi
      rw [hc] at hd
      obtain rfl := Option.some.inj hd
      exact ⟨b, if_pos rfl, hready hr, hfind, hserial⟩
    · rw [if_neg hi]
      exact ⟨d, hd, hr, fun _ => rfl, rfl⟩

theorem OwnsSockets.withInfo (h : s.OwnsSockets) (hc : s.conns.get? slot = some c)
    (info : ConnInfo) : (s.setConn slot (c.withInfo info)).OwnsSockets :=
  h.setConn hc id (fun _ => rfl) rfl

theorem OwnsSockets.goReady {s : Server} (h : s.OwnsSockets) {slot : Nat} {c : ServerConn}
    (hc : s.conns.get? slot = some c) (k : UInt32) (now : UInt64) :
    (s.goReady slot c k now).OwnsSockets := by
  have h' := h.setConn (b := c.becomeReady k now) hc (fun _ => rfl) (fun _ => rfl) rfl
  exact ⟨h'.owner, h'.entry⟩

/-- A new connection has no socket, and no socket has its slot. -/
theorem OwnsSockets.addConn (h : s.OwnsSockets) (hconvs : c.convs = {}) :
    (s.addConn c).1.OwnsSockets := by
  have hempty := s.conns.get?_alloc_index c
  refine h.congr rfl (fun {i d} hd => ?_) fun {i d} hd hr => ?_
  · change (s.conns.alloc c).1.get? i = some d at hd
    rw [Slab.get?_alloc] at hd
    by_cases hi : i = (s.conns.alloc c).2
    · rw [if_pos hi] at hd
      obtain rfl := Option.some.inj hd
      refine .inl fun v => ?_
      rw [hconvs]
      rfl
    · rw [if_neg hi] at hd
      exact .inr ⟨d, hd, id, fun _ => rfl⟩
  · have hi : i ≠ (s.conns.alloc c).2 := by
      rintro rfl
      rw [hempty] at hd
      cases hd
    refine ⟨d, ?_, hr, fun _ => rfl, rfl⟩
    change (s.conns.alloc c).1.get? i = some d
    rw [Slab.get?_alloc, if_neg hi, hd]

/-- Recovery moves addresses and ids, not conversations. -/
theorem OwnsSockets.recover {s : Server} (h : s.OwnsSockets) {slot ori : Nat} {c oc : ServerConn}
    (hc : s.conns.get? slot = some c) (ho : s.conns.get? ori = some oc)
    (hstate : c.state = .handshake1) (hne : ori ≠ slot) :
    (s.recover slot ori c oc).OwnsSockets := by
  have h1 := h.setConn (b := oc.takeOver c s.nextGeneration) ho id (fun _ => rfl) rfl
  have h2 := h1.setConn (b := { c.giveUp 0 with addr := oc.addr })
    (get?_recover_slot hc ho hne) (by simp [hstate]) (fun _ => rfl) rfl
  exact ⟨h2.owner, h2.entry⟩

/-- Opening a socket for an unused conversation. -/
theorem OwnsSockets.openSock (h : s.OwnsSockets) (hc : s.conns.get? slot = some c)
    (hready : c.state = .ready) {conv : UInt32} (hunused : c.convs.findDataByConv conv = none)
    (now : UInt64) : (s.openSock slot c conv now).OwnsSockets := by
  generalize hcs : ({ connSlot := slot, conv := conv, serial := c.serial } : ConvSock) = cs
  generalize hb : { c with convs := c.convs.insert conv (s.socks.alloc cs).2 now } = b
  have hfind : ∀ v, b.convs.findDataByConv v =
      if v = conv then some (s.socks.alloc cs).2 else c.convs.findDataByConv v := by
    intro v
    rw [← hb]
    exact ConvManager.findDataByConv_insert _ _ _ _ _
  have hempty := s.socks.get?_alloc_index cs
  have hsocks : (s.openSock slot c conv now).socks = (s.socks.alloc cs).1 := by
    rw [← hcs]
    rfl
  have hconns : (s.openSock slot c conv now).conns = s.conns.set slot b := by
    rw [← hb, ← hcs]
    rfl
  have hstate : b.state = .ready := by rw [← hb]; exact hready
  have hserial : b.serial = c.serial := by rw [← hb]
  refine ⟨fun {i ds} hi => ?_, fun {j d v i} hd hv => ?_⟩
  · rw [hsocks, Slab.get?_alloc] at hi
    rw [hconns]
    by_cases hnew : i = (s.socks.alloc cs).2
    · rw [if_pos hnew] at hi
      obtain rfl := Option.some.inj hi
      refine ⟨b, ?_, hstate, ?_, ?_⟩
      · rw [← hcs, Slab.get?_set_self hc]
      · rw [hfind, ← hcs, if_pos rfl, hnew, ← hcs]
      · rw [hserial, ← hcs]
    · rw [if_neg hnew] at hi
      obtain ⟨d, hd, hr, hdf, hds⟩ := h.owner hi
      rw [Slab.get?_set hc]
      by_cases hj : ds.connSlot = slot
      · rw [hj, hc] at hd
        obtain rfl := Option.some.inj hd
        refine ⟨b, if_pos hj, hstate, ?_, hserial.trans hds⟩
        rw [hfind, if_neg, hdf]
        rintro hv
        rw [hv, hunused] at hdf
        cases hdf
      · exact ⟨d, by rw [if_neg hj, hd], hr, hdf, hds⟩
  · rw [hconns, Slab.get?_set hc] at hd
    rw [hsocks]
    by_cases hj : j = slot
    · rw [if_pos hj] at hd
      obtain rfl := Option.some.inj hd
      refine ⟨hstate, ?_⟩
      rw [hfind] at hv
      by_cases hvc : v = conv
      · rw [if_pos hvc] at hv
        obtain rfl := Option.some.inj hv
        refine ⟨cs, by rw [Slab.get?_alloc, if_pos rfl], ?_, ?_⟩
        · rw [← hcs, hj]
        · rw [← hcs, hvc]
      · rw [if_neg hvc] at hv
        obtain ⟨-, ds, hds, hslot, hconv⟩ := h.entry hc hv
        refine ⟨ds, ?_, hslot.trans hj.symm, hconv⟩
        rw [Slab.get?_alloc, if_neg, hds]
        rintro rfl
        rw [hempty] at hds
        cases hds
    · rw [if_neg hj] at hd
      obtain ⟨hr, ds, hds, hslot, hconv⟩ := h.entry hd hv
      refine ⟨hr, ds, ?_, hslot, hconv⟩
      rw [Slab.get?_alloc, if_neg, hds]
      rintro rfl
      rw [hempty] at hds
      cases hds

/-- A socket that could not be registered is closed again at once. -/
theorem OwnsSockets.openSockUnregistered (h : s.OwnsSockets) (slot : Nat) (c : ServerConn)
    (conv : UInt32) : (s.openSockUnregistered slot c conv).OwnsSockets := by
  have hget : ∀ i, (s.openSockUnregistered slot c conv).socks.get? i = s.socks.get? i := by
    intro i
    change ((s.socks.alloc _).1.release (s.socks.alloc _).2).get? i = _
    rw [Slab.get?_release, Slab.get?_alloc]
    split
    · next hi => rw [hi, Slab.get?_alloc_index]
    · rfl
  refine ⟨fun {i cs} hi => h.owner (hget i ▸ hi), fun {j d v i} hd hv => ?_⟩
  obtain ⟨hr, cs, hcs, hrest⟩ := h.entry hd hv
  exact ⟨hr, cs, (hget i).trans hcs, hrest⟩

/-- The conversations `gone` of one connection end and exactly their sockets are closed; the
connection stays with the others, or all of it is gone. -/
theorem OwnsSockets.close (h : s.OwnsSockets) (hc : s.conns.get? slot = some c)
    (gone : UInt32 → Prop) (closed : List Nat)
    (hclosed : ∀ i, i ∈ closed ↔ ∃ v, gone v ∧ c.convs.findDataByConv v = some i)
    (hsocks : t.socks = s.socks.releaseAll closed)
    (hother : ∀ j, j ≠ slot → t.conns.get? j = s.conns.get? j)
    (hself : (t.conns.get? slot = none ∧ ∀ v, gone v) ∨
      ∃ b, t.conns.get? slot = some b ∧ b.state = c.state ∧ b.serial = c.serial ∧
        (∀ v, gone v → b.convs.findDataByConv v = none) ∧
        ∀ v, ¬ gone v → b.convs.findDataByConv v = c.convs.findDataByConv v) : t.OwnsSockets := by
  refine ⟨fun {i cs} hi => ?_, fun {j d v i} hd hv => ?_⟩
  · rw [hsocks, Slab.get?_releaseAll] at hi
    by_cases hin : i ∈ closed
    · rw [if_pos hin] at hi
      cases hi
    rw [if_neg hin] at hi
    obtain ⟨d, hd, hr, hfind, hserial⟩ := h.owner hi
    by_cases hj : cs.connSlot = slot
    · rw [hj, hc] at hd
      obtain rfl := Option.some.inj hd
      have hstays : ¬ gone cs.conv := fun hg => hin ((hclosed i).mpr ⟨_, hg, hfind⟩)
      rcases hself with ⟨-, hall⟩ | ⟨b, hb, hbs, hbser, -, hkeep⟩
      · exact absurd (hall _) hstays
      · exact ⟨b, hj ▸ hb, hbs.trans hr, (hkeep _ hstays).trans hfind, hbser.trans hserial⟩
    · exact ⟨d, (hother _ hj).trans hd, hr, hfind, hserial⟩
  · -- the socket of a conversation that stays is not among the closed ones
    have hopen : ∀ {cs}, s.socks.get? i = some cs → i ∉ closed → t.socks.get? i = some cs := by
      intro cs hcs hin
      rw [hsocks, Slab.get?_releaseAll, if_neg hin, hcs]
    by_cases hj : j = slot
    · subst hj
      rcases hself with ⟨hnone, -⟩ | ⟨b, hb, hbs, -, hgone, hkeep⟩
      · rw [hnone] at hd
        cases hd
      · rw [hb] at hd
        obtain rfl := Option.some.inj hd
        have hstays : ¬ gone v := by
          intro hg
          rw [hgone v hg] at hv
          cases hv
        rw [hkeep v hstays] at hv
        obtain ⟨hr, cs, hcs, hrest⟩ := h.entry hc hv
        refine ⟨hbs.trans hr, cs, hopen hcs fun hin => ?_, hrest⟩
        obtain ⟨u, hu, huf⟩ := (hclosed i).mp hin
        exact hstays (h.conv_inj hc huf hv ▸ hu)
    · rw [hother j hj] at hd
      obtain ⟨hr, cs, hcs, hslot, hconv⟩ := h.entry hd hv
      refine ⟨hr, cs, hopen hcs fun hin => ?_, hslot, hconv⟩
      obtain ⟨u, -, huf⟩ := (hclosed i).mp hin
      obtain ⟨-, cs', hcs', hslot', -⟩ := h.entry hc huf
      rw [hcs] at hcs'
      obtain rfl := Option.some.inj hcs'
      exact hj (hslot.symm.trans hslot')

/-- Expired conversations leave with their sockets. -/
theorem OwnsSockets.expireConvs (h : s.OwnsSockets) (hc : s.conns.get? slot = some c)
    (now : UInt64) : (s.expireConvs slot c now).OwnsSockets := by
  have hx := c.convs.clearInactive_expired now
  have hget := Slab.get?_set hc { c with convs := (c.convs.clearInactive now).2 }
  refine h.close hc (fun v => v ∈ (c.convs.clearInactive now).1.map Prod.fst)
    ((c.convs.clearInactive now).1.map Prod.snd) (fun i => ?_) rfl (fun j hj => ?_)
    (.inr ⟨_, (hget slot).trans (if_pos rfl), rfl, rfl, fun v hv => ?_, fun v hv => ?_⟩)
  · constructor
    · intro hi
      obtain ⟨p, hp, rfl⟩ := List.mem_map.mp hi
      exact ⟨p.1, List.mem_map_of_mem hp, hx.held p hp⟩
    · rintro ⟨v, hv, hf⟩
      obtain ⟨p, hp, rfl⟩ := List.mem_map.mp hv
      have := hx.held p hp
      rw [hf] at this
      rw [Option.some.inj this]
      exact List.mem_map_of_mem hp
  · exact (hget j).trans (if_neg hj)
  · exact (hx.rest v).trans (if_pos hv)
  · exact (hx.rest v).trans (if_neg hv)

/-- An erased connection leaves with all its sockets. -/
theorem OwnsSockets.dropConn (h : s.OwnsSockets) (hc : s.conns.get? slot = some c)
    (order : List Nat → List Nat) : (s.dropConn slot c order).OwnsSockets := by
  refine h.close hc (fun _ => True) (c.convs.clear order).1 (fun i => ?_) rfl
    (fun j hj => ?_) (.inl ⟨?_, fun _ => trivial⟩)
  · change i ∈ reorder order (Table.values c.convs.convToData) ↔ _
    rw [(reorder_perm order _).mem_iff, Table.mem_values]
    simp [ConvManager.findDataByConv]
  · change (s.conns.release slot).get? j = _
    rw [Slab.get?_release, if_neg hj]
  · change (s.conns.release slot).get? slot = none
    rw [Slab.get?_release, if_pos rfl]

/-- Every step keeps sockets and conversations paired. -/
theorem OwnsSockets.step {cfg : ServerCfg} {cause : Option Done} {s t : Server} {out : List Effect}
    (h : s.OwnsSockets) (hstep : Step cfg cause s out t) : t.OwnsSockets := by
  cases hstep with
  | note => exact h
  | book cursor last => exact ⟨h.owner, h.entry⟩
  | info hc => exact h.withInfo hc _
  | create _ convs => exact h.addConn convs
  | reply hc => exact h.withInfo hc _
  | claim hc => exact h.withInfo hc _
  | refuse k hc state => exact h.setConn hc (by simp [state]) (fun _ => rfl) rfl
  | goReady now hc => exact h.goReady hc _ now
  | recover hc ho state _ ne => exact h.recover hc ho state ne
  | prepare hc => exact h.withInfo hc _
  | receive hc => exact h.withInfo hc _
  | transmit hc => exact h.withInfo hc _
  | check hc => exact h.withInfo hc _
  | afterRecv hc => exact h.withInfo hc _
  | openSock now hc state unused => exact h.openSock hc state unused now
  | openSockUnregistered slot c conv => exact h.openSockUnregistered slot c conv
  | touchConv hc =>
    exact h.setConn hc id (fun v => ConvManager.findDataByConv_updateActiveTime _ _ _ v) rfl
  | expireConvs now hc => exact h.expireConvs hc now
  | drop order hc => exact h.dropConn hc order

/-- Serials name connections: no two live connections share one, and a new one is unused. -/
structure Numbered (s : Server) : Prop where
  lt : ∀ {slot c}, s.conns.get? slot = some c → c.serial < s.created
  inj : ∀ {i j c d}, s.conns.get? i = some c → s.conns.get? j = some d →
    c.serial = d.serial → i = j

theorem Numbered.initial : Numbered {} := by
  refine ⟨fun h => ?_, fun h => ?_⟩
  · simp at h
  · simp at h

/-- Every connection was there before, under the same serial. -/
def Inherits (s t : Server) : Prop :=
  t.created = s.created ∧ ∀ {i d}, t.conns.get? i = some d →
    ∃ c, s.conns.get? i = some c ∧ d.serial = c.serial

/-- One connection is new, under the next serial. -/
def Extends (s t : Server) : Prop :=
  t.created = s.created + 1 ∧ ∃ slot, ∀ {i d}, t.conns.get? i = some d →
    i = slot ∧ d.serial = s.created ∨ s.conns.get? i = some d

/-- A connection that is set keeps its serial. -/
theorem inherits_set {b : ServerConn} (hc : s.conns.get? slot = some c)
    (hconns : t.conns = s.conns.set slot b) (hserial : b.serial = c.serial)
    (hcreated : t.created = s.created) : Inherits s t := by
  refine ⟨hcreated, fun {i d} hd => ?_⟩
  rw [hconns, Slab.get?_set hc] at hd
  by_cases hi : i = slot
  · rw [if_pos hi] at hd
    obtain rfl := Option.some.inj hd
    exact ⟨c, hi ▸ hc, hserial⟩
  · rw [if_neg hi] at hd
    exact ⟨d, hd, rfl⟩

/-- A new connection gets the next serial. -/
theorem extends_addConn (hserial : c.serial = s.created) : Extends s (s.addConn c).1 := by
  refine ⟨rfl, (s.conns.alloc c).2, fun {i d} hd => ?_⟩
  change (s.conns.alloc c).1.get? i = some d at hd
  rw [Slab.get?_alloc] at hd
  split at hd
  · next hi =>
      cases hd
      exact .inl ⟨hi, hserial⟩
  · exact .inr hd

/-- A recovery adds no connection. -/
theorem inherits_recover {ori : Nat} {oc : ServerConn} (hc : s.conns.get? slot = some c)
    (ho : s.conns.get? ori = some oc) (hne : ori ≠ slot) :
    Inherits s (s.recover slot ori c oc) := by
  refine ⟨rfl, fun {i d} hd => ?_⟩
  rw [get?_recover hc ho hne] at hd
  split at hd
  · next hi =>
      obtain rfl := Option.some.inj hd
      exact ⟨c, hi ▸ hc, rfl⟩
  · split at hd
    · next hi =>
        obtain rfl := Option.some.inj hd
        exact ⟨oc, hi ▸ ho, rfl⟩
    · exact ⟨d, hd, rfl⟩

/-- What a step does to the serials. -/
theorem Step.serials {cfg : ServerCfg} {cause : Option Done} {out : List Effect}
    (hstep : Step cfg cause s out t) : Inherits s t ∨ Extends s t := by
  cases hstep with
  | note | book | openSockUnregistered => exact .inl ⟨rfl, fun {i d} hd => ⟨d, hd, rfl⟩⟩
  | create _ _ _ serial => exact .inr (extends_addConn serial)
  | recover hc ho _ _ ne => exact .inl (inherits_recover hc ho ne)
  | drop order hc =>
    refine .inl ⟨rfl, fun {i d} hd => ⟨d, ?_, rfl⟩⟩
    change (s.conns.release _).get? i = some d at hd
    rw [Slab.get?_release] at hd
    split at hd
    · cases hd
    · exact hd
  | info hc | reply hc | claim hc | refuse _ hc | goReady _ hc | prepare hc | receive hc
  | transmit hc | check hc | afterRecv hc | openSock _ hc | touchConv hc | expireConvs _ hc =>
    exact .inl (inherits_set hc rfl rfl rfl)

/-- A step keeps the serials apart. -/
theorem Numbered.step {cfg : ServerCfg} {cause : Option Done} {s t : Server} {out : List Effect}
    (h : s.Numbered) (hstep : Step cfg cause s out t) : t.Numbered := by
  rcases hstep.serials with ⟨hcreated, hback⟩ | ⟨hcreated, slot, hback⟩
  · refine ⟨fun hc => ?_, fun hc hd he => ?_⟩
    · obtain ⟨b, hb, hs⟩ := hback hc
      rw [hs, hcreated]
      exact h.lt hb
    · obtain ⟨b, hb, hbs⟩ := hback hc
      obtain ⟨b', hb', hbs'⟩ := hback hd
      exact h.inj hb hb' (hbs.symm.trans (he.trans hbs'))
  · refine ⟨fun hc => ?_, fun hc hd he => ?_⟩
    · rw [hcreated]
      rcases hback hc with ⟨-, hs⟩ | hc
      · exact hs ▸ Nat.lt_succ_self _
      · exact Nat.lt_succ_of_lt (h.lt hc)
    · rcases hback hc with ⟨rfl, hs⟩ | hc' <;> rcases hback hd with ⟨rfl, hs'⟩ | hd'
      · rfl
      · have := h.lt hd'
        omega
      · have := h.lt hc'
        omega
      · exact h.inj hc' hd' he

/-- No connection has the serial, and none will. -/
def Gone (serial : Nat) (s : Server) : Prop :=
  serial < s.created ∧ ∀ {i c}, s.conns.get? i = some c → c.serial ≠ serial

/-- What is gone stays gone. -/
theorem Gone.step {serial : Nat} {cfg : ServerCfg} {cause : Option Done} {s t : Server}
    {out : List Effect} (h : Gone serial s) (hstep : Step cfg cause s out t) : Gone serial t := by
  rcases hstep.serials with ⟨hcreated, hback⟩ | ⟨hcreated, slot, hback⟩
  · refine ⟨hcreated ▸ h.1, fun hd => ?_⟩
    obtain ⟨c, hc, hs⟩ := hback hd
    exact hs ▸ h.2 hc
  · refine ⟨hcreated ▸ Nat.lt_succ_of_lt h.1, fun hd => ?_⟩
    rcases hback hd with ⟨-, hs⟩ | hc
    · exact hs ▸ (Nat.ne_of_gt h.1)
    · exact h.2 hc

/-- A connection that is taken out of its slot is gone. -/
theorem Numbered.gone (h : s.Numbered) (hc : s.conns.get? slot = some c) (hback : Inherits s t)
    (hslot : t.conns.get? slot = none) : Gone c.serial t := by
  refine ⟨hback.1 ▸ h.lt hc, fun {i d} hd he => ?_⟩
  obtain ⟨b, hb, hs⟩ := hback.2 hd
  obtain rfl := h.inj hb hc (hs.symm.trans he)
  rw [hslot] at hd
  cases hd

end Server

end Udp2raw
