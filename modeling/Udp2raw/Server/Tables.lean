import Udp2raw.Server.Steps

/-!
# Consistency of the connection tables

Five redundant records describe the connections: the slab with its free list,
the two tables and the ready count. They agree in every state, because each step
either leaves address, state and const id of every connection alone or updates
all records together.
-/

namespace Udp2raw

namespace Server

/-- Whether a connection is ready. -/
def isReady (c : ServerConn) : Bool := decide (c.state = .ready)

/-- The records of the connections agree and stay within their limits. -/
structure Consistent (s : Server) : Prop where
  byAddr : ∀ a slot, s.byAddr.lookup a = some slot ↔
    ∃ c, s.conns.get? slot = some c ∧ c.addr = a
  byConstId : ∀ k slot, s.byConstId.lookup k = some slot ↔
    ∃ c, s.conns.get? slot = some c ∧ c.state = .ready ∧ c.info.oppsiteConstId = k
  readyNum : s.readyNum = s.conns.count isReady
  readyNum_le : s.readyNum ≤ maxReadyConnNum
  live_le : s.conns.live ≤ maxHandshakeConnNum

theorem Consistent.initial : Consistent {} := by
  refine ⟨?_, ?_, rfl, ?_, ?_⟩
  · intro a slot
    simp
  · intro k slot
    simp
  · decide
  · decide

variable {s : Server} {c : ServerConn} {slot : Nat}

/-- The records do not mention the sockets. -/
theorem Consistent.withSocks (h : s.Consistent) (socks : Slab ConvSock) :
    Consistent { s with socks := socks } :=
  ⟨h.byAddr, h.byConstId, h.readyNum, h.readyNum_le, h.live_le⟩

/-- One client address belongs to one slot. -/
theorem Consistent.addr_inj (h : s.Consistent) {i j : Nat} {d : ServerConn}
    (hc : s.conns.get? i = some c) (hd : s.conns.get? j = some d) (he : c.addr = d.addr) :
    i = j := by
  have hi := (h.byAddr d.addr i).mpr ⟨c, hc, he⟩
  have hj := (h.byAddr d.addr j).mpr ⟨d, hd, rfl⟩
  rw [hi] at hj
  exact Option.some.inj hj

/-- The entries of the slab that match a predicate, after one of them was replaced by an
entry that matches exactly if the old one did. -/
theorem exists_set_iff {s : Slab ServerConn} (hc : s.get? slot = some c) (b : ServerConn)
    {P : ServerConn → Prop} (hP : P b ↔ P c) (i : Nat) :
    (∃ d, (s.set slot b).get? i = some d ∧ P d) ↔ ∃ d, s.get? i = some d ∧ P d := by
  rw [Slab.get?_set hc]
  by_cases hi : i = slot
  · subst hi
    simp [hc, hP]
  · rw [if_neg hi]

/-- Replacing a connection by one with the same address and the same standing changes no
record. -/
theorem Consistent.setConn (h : s.Consistent) {c' : ServerConn} (hc : s.conns.get? slot = some c)
    (haddr : c'.addr = c.addr) (hready : c'.state = .ready ↔ c.state = .ready)
    (hk : c.state = .ready → c'.info.oppsiteConstId = c.info.oppsiteConstId) :
    (s.setConn slot c').Consistent := by
  refine ⟨fun a i => ?_, fun k i => ?_, ?_, h.readyNum_le, ?_⟩
  · refine (h.byAddr a i).trans (exists_set_iff hc _ ?_ i).symm
    rw [haddr]
  · refine (h.byConstId k i).trans (exists_set_iff hc _ ?_ i).symm
    constructor
    · rintro ⟨hs, hk'⟩
      have hs' := hready.mp hs
      exact ⟨hs', (hk hs').symm.trans hk'⟩
    · rintro ⟨hs, hk'⟩
      exact ⟨hready.mpr hs, (hk hs).trans hk'⟩
  · have hcount := Slab.count_set hc c' isReady
    have hp : isReady c' = isReady c := by simp [isReady, hready]
    rw [hp] at hcount
    change s.readyNum = (s.conns.set slot c').count isReady
    rw [h.readyNum]
    omega
  · change (s.conns.set slot c').live ≤ _
    rw [Slab.live_set]
    exact h.live_le

/-- A new connection under an unknown address. -/
theorem Consistent.addConn (h : s.Consistent) (hstate : c.state = .handshake1)
    (hnew : s.byAddr.lookup c.addr = none) (hroom : s.conns.live < maxHandshakeConnNum) :
    (s.addConn c).1.Consistent := by
  have hempty := s.conns.get?_alloc_index c
  refine ⟨fun a i => ?_, fun k i => ?_, ?_, h.readyNum_le, ?_⟩
  · change (s.byAddr.insert c.addr (s.conns.alloc c).2).lookup a = some i ↔
      ∃ d, (s.conns.alloc c).1.get? i = some d ∧ d.addr = a
    rw [Table.lookup_insert, Slab.get?_alloc]
    by_cases ha : a = c.addr
    · subst ha
      rw [if_pos rfl]
      constructor
      · intro hi
        obtain rfl := Option.some.inj hi
        exact ⟨c, if_pos rfl, rfl⟩
      · rintro ⟨d, hd, hda⟩
        by_cases hi : i = (s.conns.alloc c).2
        · rw [hi]
        · rw [if_neg hi] at hd
          have := (h.byAddr c.addr i).mpr ⟨d, hd, hda⟩
          rw [hnew] at this
          cases this
    · rw [if_neg ha, h.byAddr]
      by_cases hi : i = (s.conns.alloc c).2
      · subst hi
        simp only [hempty, if_pos]
        constructor
        · rintro ⟨d, hd, -⟩
          cases hd
        · rintro ⟨d, hd, hda⟩
          obtain rfl := Option.some.inj hd
          exact absurd hda.symm ha
      · rw [if_neg hi]
  · change s.byConstId.lookup k = some i ↔
      ∃ d, (s.conns.alloc c).1.get? i = some d ∧ d.state = .ready ∧ d.info.oppsiteConstId = k
    rw [h.byConstId, Slab.get?_alloc]
    by_cases hi : i = (s.conns.alloc c).2
    · subst hi
      simp [hempty, hstate]
    · rw [if_neg hi]
  · change s.readyNum = (s.conns.alloc c).1.count isReady
    rw [h.readyNum, Slab.count_alloc]
    simp [isReady, hstate]
  · change (s.conns.alloc c).1.live ≤ _
    rw [Slab.live_alloc]
    omega

/-- A connection becomes ready under a const id no ready connection has. -/
theorem Consistent.goReady {s : Server} (h : s.Consistent) {slot : Nat} {c : ServerConn}
    (hc : s.conns.get? slot = some c) (hstate : c.state = .handshake1) {k : UInt32} {now : UInt64}
    (hnew : s.byConstId.lookup k = none) (hroom : s.readyNum < maxReadyConnNum) :
    (s.goReady slot c k now).Consistent := by
  refine ⟨fun a i => ?_, fun k' i => ?_, ?_, hroom, ?_⟩
  · refine (h.byAddr a i).trans (Iff.symm ?_)
    exact exists_set_iff (P := fun d => d.addr = a) hc (c.becomeReady k now) Iff.rfl i
  · change (s.byConstId.insert k slot).lookup k' = some i ↔
      ∃ d, (s.conns.set slot _).get? i = some d ∧ _
    rw [Table.lookup_insert, Slab.get?_set hc]
    by_cases hk : k' = k
    · subst hk
      rw [if_pos rfl]
      constructor
      · intro hi
        obtain rfl := Option.some.inj hi
        exact ⟨_, if_pos rfl, rfl, rfl⟩
      · rintro ⟨d, hd, hr, hdk⟩
        by_cases hi : i = slot
        · rw [hi]
        · rw [if_neg hi] at hd
          have := (h.byConstId k' i).mpr ⟨d, hd, hr, hdk⟩
          rw [hnew] at this
          cases this
    · rw [if_neg hk, h.byConstId]
      by_cases hi : i = slot
      · subst hi
        constructor
        · rintro ⟨d, hd, hr, -⟩
          rw [hc] at hd
          cases hd
          rw [hstate] at hr
          cases hr
        · rintro ⟨d, hd, -, hdk⟩
          rw [if_pos rfl] at hd
          cases hd
          exact absurd hdk.symm hk
      · rw [if_neg hi]
  · have hcount := Slab.count_set hc (c.becomeReady k now) isReady
    have hb : isReady c = false := by simp [isReady, hstate]
    have ha : isReady (c.becomeReady k now) = true := rfl
    rw [hb, ha] at hcount
    change s.readyNum + 1 = (s.conns.set slot (c.becomeReady k now)).count isReady
    rw [h.readyNum]
    exact hcount.symm
  · change (s.conns.set slot _).live ≤ _
    rw [Slab.live_set]
    exact h.live_le

/-- The established connection takes the new address, the new one the old address. -/
theorem Consistent.recover {s : Server} (h : s.Consistent) {slot ori : Nat} {c oc : ServerConn}
    (hc : s.conns.get? slot = some c) (ho : s.conns.get? ori = some oc)
    (hstate : c.state = .handshake1) (hne : ori ≠ slot) : (s.recover slot ori c oc).Consistent := by
  have haddr : c.addr ≠ oc.addr := fun he => hne (h.addr_inj hc ho he).symm
  refine ⟨fun a i => ?_, fun k i => ?_, ?_, h.readyNum_le, ?_⟩
  · change ((s.byAddr.insert c.addr ori).insert oc.addr slot).lookup a = some i ↔ _
    rw [Table.lookup_insert, Table.lookup_insert, get?_recover hc ho hne]
    by_cases his : i = slot
    · subst his
      rw [if_pos rfl]
      by_cases hao : a = oc.addr
      · simp [hao]
      · rw [if_neg hao]
        by_cases hac : a = c.addr
        · simp [hac, hne, Ne.symm haddr]
        · rw [if_neg hac, h.byAddr, hc]
          simp [Ne.symm hao, Ne.symm hac]
    · rw [if_neg his]
      by_cases hio : i = ori
      · subst hio
        rw [if_pos rfl]
        by_cases hao : a = oc.addr
        · simp [hao, Ne.symm hne, ServerConn.takeOver, haddr]
        · rw [if_neg hao]
          by_cases hac : a = c.addr
          · simp [hac, ServerConn.takeOver]
          · rw [if_neg hac, h.byAddr, ho]
            simp [ServerConn.takeOver, Ne.symm hao, Ne.symm hac]
      · rw [if_neg hio]
        -- no third connection had one of the two addresses
        have hother : ∀ d, s.conns.get? i = some d → d.addr ≠ oc.addr ∧ d.addr ≠ c.addr :=
          fun d hd => ⟨fun he => hio (h.addr_inj hd ho he), fun he => his (h.addr_inj hd hc he)⟩
        by_cases hao : a = oc.addr
        · rw [if_pos hao]
          constructor
          · intro he
            exact absurd (Option.some.inj he).symm his
          · rintro ⟨d, hd, hda⟩
            exact absurd (hda.trans hao) (hother d hd).1
        · rw [if_neg hao]
          by_cases hac : a = c.addr
          · rw [if_pos hac]
            constructor
            · intro he
              exact absurd (Option.some.inj he).symm hio
            · rintro ⟨d, hd, hda⟩
              exact absurd (hda.trans hac) (hother d hd).2
          · rw [if_neg hac, h.byAddr]
  · change s.byConstId.lookup k = some i ↔ _
    rw [h.byConstId, get?_recover hc ho hne]
    by_cases his : i = slot
    · subst his
      simp [hc, hstate, ServerConn.giveUp]
    · rw [if_neg his]
      by_cases hio : i = ori
      · subst hio
        simp [ho, ServerConn.takeOver, ConnInfo.recoverFrom]
      · rw [if_neg hio]
  · have h1 := Slab.count_set ho (oc.takeOver c s.nextGeneration) isReady
    have h2 := Slab.count_set (get?_recover_slot hc ho hne) { c.giveUp 0 with addr := oc.addr }
      isReady
    have hb : isReady c = false := by simp [isReady, hstate]
    have ha : isReady { c.giveUp 0 with addr := oc.addr } = false := rfl
    have ht : isReady (oc.takeOver c s.nextGeneration) = isReady oc := rfl
    rw [ht] at h1
    rw [hb, ha] at h2
    change s.readyNum = Slab.count (Slab.set (Slab.set s.conns ori _) slot _) isReady
    rw [h.readyNum]
    omega
  · change (Slab.set (Slab.set s.conns ori _) slot _).live ≤ _
    rw [Slab.live_set, Slab.live_set]
    exact h.live_le

/-- An erased connection leaves all records. -/
theorem Consistent.dropConn (h : s.Consistent) (hc : s.conns.get? slot = some c)
    (order : List Nat → List Nat) : (s.dropConn slot c order).Consistent := by
  have hcount := Slab.count_release hc isReady
  refine ⟨fun a i => ?_, fun k i => ?_, ?_, ?_, ?_⟩
  · change (s.byAddr.erase c.addr).lookup a = some i ↔
      ∃ d, (s.conns.release slot).get? i = some d ∧ d.addr = a
    rw [Table.lookup_erase, Slab.get?_release]
    by_cases hi : i = slot
    · subst hi
      simp only [if_pos, reduceCtorEq, false_and, exists_false, iff_false]
      by_cases ha : a = c.addr
      · simp [ha]
      · rw [if_neg ha, h.byAddr, hc]
        simp [Ne.symm ha]
    · rw [if_neg hi]
      by_cases ha : a = c.addr
      · subst ha
        simp only [if_pos, reduceCtorEq, false_iff, not_exists, not_and]
        intro d hd hda
        exact hi (h.addr_inj hd hc hda)
      · rw [if_neg ha, h.byAddr]
  · change (if c.state = .ready then s.byConstId.erase c.info.oppsiteConstId
      else s.byConstId).lookup k = some i ↔ ∃ d, (s.conns.release slot).get? i = some d ∧ _
    rw [Slab.get?_release]
    have hold := h.byConstId k i
    by_cases hr : c.state = .ready
    · rw [if_pos hr, Table.lookup_erase]
      have hmine := (h.byConstId c.info.oppsiteConstId slot).mpr ⟨c, hc, hr, rfl⟩
      by_cases hk : k = c.info.oppsiteConstId
      · subst hk
        rw [hmine] at hold
        by_cases hi : i = slot
        · simp [hi]
        · simpa [hi, Ne.symm hi] using hold
      · rw [if_neg hk]
        by_cases hi : i = slot
        · subst hi
          rw [hold, hc]
          simp [hr, Ne.symm hk]
        · rw [if_neg hi, hold]
    · rw [if_neg hr, hold]
      by_cases hi : i = slot
      · subst hi
        simp [hc, hr]
      · rw [if_neg hi]
  · change (if c.state = .ready then s.readyNum - 1 else s.readyNum) =
      (s.conns.release slot).count isReady
    rw [h.readyNum]
    by_cases hr : c.state = .ready
    · have hb : isReady c = true := by simp [isReady, hr]
      rw [hb, if_pos rfl] at hcount
      rw [if_pos hr]
      omega
    · have hb : isReady c = false := by simp [isReady, hr]
      rw [hb] at hcount
      rw [if_neg hr]
      exact hcount.symm
  · have hle := h.readyNum_le
    change (if c.state = .ready then s.readyNum - 1 else s.readyNum) ≤ _
    split <;> omega
  · exact (s.conns.live_release_le slot).trans h.live_le

/-- Other per-connection state with the same const id. -/
theorem Consistent.withInfo (h : s.Consistent) (hc : s.conns.get? slot = some c) {info : ConnInfo}
    (hk : info.oppsiteConstId = c.info.oppsiteConstId) :
    (s.setConn slot (c.withInfo info)).Consistent :=
  h.setConn hc rfl Iff.rfl fun _ => hk

/-- Other conversations. -/
theorem Consistent.withConvs (h : s.Consistent) (hc : s.conns.get? slot = some c)
    (convs : ConvManager Nat) : (s.setConn slot { c with convs := convs }).Consistent :=
  h.setConn hc rfl Iff.rfl fun _ => rfl

/-- Every step keeps the records in agreement. -/
theorem Consistent.step {cfg : ServerCfg} {cause : Option Done} {s t : Server} {out : List Effect}
    (h : s.Consistent) (hstep : Step cfg cause s out t) : t.Consistent := by
  cases hstep with
  | note => exact h
  | book cursor last => exact ⟨h.byAddr, h.byConstId, h.readyNum, h.readyNum_le, h.live_le⟩
  | info hc same => exact h.withInfo hc same.oppsiteConstId
  | create state _ _ _ _ unknown room => exact h.addConn state unknown room
  | reply hc => exact h.withInfo hc rfl
  | claim hc => exact h.withInfo hc rfl
  | refuse k hc state =>
    exact h.setConn hc rfl (by simp [ServerConn.giveUp, state]) (by simp [state])
  | goReady now hc state _ unknown room => exact h.goReady hc state unknown room
  | recover hc ho state _ ne => exact h.recover hc ho state ne
  | prepare hc => exact h.withInfo hc rfl
  | receive hc => exact h.withInfo hc rfl
  | transmit hc => exact h.withInfo hc rfl
  | check hc _ _ result =>
    obtain ⟨r, after, hr, same, -⟩ := Conn.acceptSaferOffset_cases _ _ _ _
    rw [hr] at result
    cases result
    exact h.withInfo hc same.oppsiteConstId
  | afterRecv hc => exact h.withInfo hc rfl
  | openSock now hc => exact (h.withConvs hc _).withSocks _
  | openSockUnregistered => exact h.withSocks _
  | touchConv hc => exact h.withConvs hc _
  | expireConvs now hc => exact (h.withConvs hc _).withSocks _
  | drop order hc => exact h.dropConn hc order

end Server

end Udp2raw
