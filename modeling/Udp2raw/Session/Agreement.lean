import Udp2raw.Core.History
import Udp2raw.Session.Protocol

/-!
# Agreement on sessions

Both ends only believe what they find in plaintexts that some end sealed. Since
no id is drawn twice, the ids in a plaintext tell which end sealed it and for
what: a first handshake has no second id, an answer names a client, and a
confirmation or a safer packet names the end it is for.
-/

namespace Udp2raw

open Function History

/-- A server connection became ready, or was recovered, with these ids. -/
def Established (log : List Entry) (s c : UInt32) : Prop :=
  ∃ k slot, ⟨.server, k, .ready slot s c⟩ ∈ log ∨ ⟨.server, k, .recovered slot s c⟩ ∈ log

/-- A client entered `Handshake2` with these ids and then sent them with its const id. -/
def Confirmed (log : List Entry) (c s : UInt32) : Prop :=
  ∃ k plain, List.Sublist [⟨.client, k, .met c s⟩, ⟨.client, k, .sealBare plain⟩] log ∧
    handshakeOf plain = some (c, s, k)

variable {b a : List Entry}

theorem Established.mono {s c : UInt32} (h : Established a s c) (hs : a ⊆ b) :
    Established b s c := by
  obtain ⟨k, slot, h⟩ := h
  exact ⟨k, slot, h.imp (fun h => hs h) fun h => hs h⟩

theorem Confirmed.mono {s c : UInt32} (h : Confirmed a c s) (hs : a.Sublist b) :
    Confirmed b c s := by
  obtain ⟨k, plain, hsub, hp⟩ := h
  exact ⟨k, plain, hsub.trans hs, hp⟩

theorem newIds_subset (h : a ⊆ b) : newIds a ⊆ newIds b :=
  List.filterMap_subset _ h

namespace Session

/-- A safer plaintext with these ids, this type and this payload. -/
def IsSafer (plain : Bytes) (my opp : UInt32) (ptype : UInt8) (payload : Bytes) : Prop :=
  ∃ h : Wire.SaferHeader, h.myId = my ∧ h.oppsiteId = opp ∧ h.ptype = ptype ∧
    (h.ptype = typeHeartbeat ∨ h.ptype = typeData) ∧ plain = Wire.buildSafer h payload

/-- What a bare plaintext of one side can be. -/
inductive Greeting (log : List Entry) : Side → UInt32 → Bytes → Prop where
  | hello {c k : UInt32} {plain : Bytes} (bare : IsHandshake plain c 0 k)
      (client : (.client, c) ∈ newIds log) : Greeting log .client k plain
  | confirm {c s k : UInt32} {plain : Bytes} (bare : IsHandshake plain c s k)
      (client : (.client, c) ∈ newIds log) (server : (.server, s) ∈ newIds log)
      (met : ⟨.client, k, .met c s⟩ ∈ log) : Greeting log .client k plain
  | answer {s c k : UInt32} {plain : Bytes} (bare : IsHandshake plain s c k)
      (server : (.server, s) ∈ newIds log) (client : (.client, c) ∈ newIds log) :
      Greeting log .server k plain

/-- What must have come before an entry. -/
def Fair (before : List Entry) : Entry → Prop
  | ⟨side, k, .sealBare plain⟩ => Greeting before side k plain
  | ⟨side, _, .prepared my opp ptype payload plain⟩ =>
    IsSafer plain my opp ptype payload ∧ (side, my) ∈ newIds before ∧
      (side.other, opp) ∈ newIds before ∧ (side = .server → Established before my opp)
  | ⟨_, _, .ready _ my opp⟩ | ⟨_, _, .recovered _ my opp⟩ => Confirmed before opp my
  | ⟨side, _, .check _ _ my opp plain (some (ptype, payload))⟩ =>
    (side, my) ∈ newIds before ∧
      ∃ k, ⟨side.other, k, .prepared opp my ptype payload plain⟩ ∈ before
  | _ => True

/-- What must have come before for an end to be as it is. -/
def End.Good (log : List Entry) (k : UInt32) : Side → End → Prop
  | .client, e => (.client, e.myId) ∈ newIds log ∧
      (e.phase ≠ .waiting →
        ⟨.client, k, .met e.myId e.oppsiteId⟩ ∈ log ∧ (.server, e.oppsiteId) ∈ newIds log) ∧
      (e.phase = .ready → Established log e.oppsiteId e.myId)
  | .server, e => (.server, e.myId) ∈ newIds log ∧
      (e.phase = .ready →
        Established log e.myId e.oppsiteId ∧ (.client, e.oppsiteId) ∈ newIds log)

/-- The sessions of both sides and the log that led to them. -/
structure Agreed (k : Side → UInt32) (ends : Side → Ends) (log : List Entry) : Prop where
  fair : Each Fair log
  good : ∀ side slot e, ends side slot = some e → e.Good log (k side) side

section

variable {a b : List Entry} {k : UInt32} {side : Side} {e : End}

/-- What a log supports, a longer one does. -/
theorem End.Good.mono (h : e.Good a k side) (hs : a ⊆ b) : e.Good b k side := by
  have hids := newIds_subset hs
  cases side with
  | client =>
    obtain ⟨hmy, hmet, hready⟩ := h
    exact ⟨hids hmy, fun hp => ⟨hs (hmet hp).1, hids (hmet hp).2⟩, fun hp => (hready hp).mono hs⟩
  | server =>
    obtain ⟨hmy, hready⟩ := h
    exact ⟨hids hmy, fun hp => ⟨(hready hp).1.mono hs, hids (hready hp).2⟩⟩

theorem End.Good.window (h : e.Good a k side) (w : AntiReplay) :
    ({ e with antiReplay := w } : End).Good a k side := by
  cases side <;> exact h

theorem End.Good.owned (h : e.Good a k side) : (side, e.myId) ∈ newIds a := by
  cases side <;> exact h.1

/-- An end that draws its id has nothing to account for. -/
theorem good_newId (phase : e.phase = .waiting) :
    e.Good (a ++ record side k [.newId e.myId]) k side := by
  have hmy : (side, e.myId) ∈ newIds (a ++ record side k [.newId e.myId]) := by
    simp [record, newIds, Entry.newId?]
  cases side with
  | client => exact ⟨hmy, fun hp => absurd phase hp, fun hp => by simp [phase] at hp⟩
  | server => exact ⟨hmy, fun hp => by simp [phase] at hp⟩

/-- The other id of a ready end is one of the other side. -/
theorem End.Good.peer (h : e.Good a k side) (hr : e.phase = .ready) :
    (side.other, e.oppsiteId) ∈ newIds a ∧ (side = .server → Established a e.myId e.oppsiteId) := by
  cases side with
  | client => exact ⟨(h.2.1 (by simp [hr])).2, nofun⟩
  | server => exact ⟨(h.2 hr).2, fun _ => (h.2 hr).1⟩

end

section

variable {log : List Entry} {plain : Bytes}

variable {payload : Bytes} {opp my : UInt32} {ptype : UInt8}

theorem IsSafer.ids (h : IsSafer plain my opp ptype payload) {ids : Wire.SaferIds}
    (hi : Wire.parseSaferIds plain = some ids) : ids.oppsiteId = my ∧ ids.myId = opp := by
  obtain ⟨h, rfl, rfl, -, -, rfl⟩ := h
  rw [Wire.parseSaferIds_buildSafer] at hi
  cases hi
  exact ⟨rfl, rfl⟩

theorem IsSafer.body (h : IsSafer plain my opp ptype payload) {body : UInt8 × UInt8 × Bytes}
    (hb : Wire.parseSaferBody plain = some body) : body.1 = ptype ∧ body.2.2 = payload := by
  obtain ⟨h, -, -, rfl, htype, rfl⟩ := h
  rw [Wire.parseSaferBody_buildSafer payload htype] at hb
  cases hb
  exact ⟨rfl, rfl⟩

/-- A plaintext has one reading as a safer packet. -/
theorem IsSafer.unique {my' opp' : UInt32} {ptype' : UInt8} {payload' : Bytes}
    (h : IsSafer plain my opp ptype payload) (h' : IsSafer plain my' opp' ptype' payload') :
    my = my' ∧ opp = opp' ∧ ptype = ptype' ∧ payload = payload' := by
  obtain ⟨hdr, rfl, rfl, rfl, htype, rfl⟩ := h
  obtain ⟨hmy, hopp⟩ := h'.ids (Wire.parseSaferIds_buildSafer hdr payload)
  obtain ⟨ht, hp⟩ := h'.body (Wire.parseSaferBody_buildSafer payload htype)
  exact ⟨hmy, hopp, ht, hp⟩

theorem IsSafer.not_handshake (h : IsSafer plain my opp ptype payload) :
    handshakeOf plain = none := by
  obtain ⟨h, -, -, -, htype, rfl⟩ := h
  rw [handshakeOf, Wire.parseBare_buildSafer payload htype, Option.bind_none]

/-- A plaintext that is a handshake was sealed as one of the three greetings. -/
theorem handshake_origin (fair : Each Fair log) (hm : plain ∈ sealedPlains log)
    {id1 id2 id3 : UInt32} (hs : handshakeOf plain = some (id1, id2, id3)) :
    ((.client, id1) ∈ newIds log ∧ id2 = 0) ∨
    ((.client, id1) ∈ newIds log ∧ (.server, id2) ∈ newIds log ∧ Confirmed log id1 id2) ∨
    ((.server, id1) ∈ newIds log ∧ (.client, id2) ∈ newIds log) := by
  rcases mem_sealedPlains.mp hm with ⟨side, k, h⟩ | ⟨side, k, my, opp, ptype, payload, h⟩
  · obtain ⟨a, b, rfl, hg⟩ := fair.of_mem h
    have hids : newIds a ⊆ newIds (a ++ ⟨side, k, .sealBare plain⟩ :: b) :=
      newIds_subset (List.subset_append_left _ _)
    cases hg with
    | hello bare client =>
      cases bare.1.symm.trans hs
      exact .inl ⟨hids client, rfl⟩
    | confirm bare client server met =>
      cases bare.1.symm.trans hs
      refine .inr (.inl ⟨hids client, hids server, _, plain, ?_, hs⟩)
      exact (List.singleton_sublist.mpr met).append
        (List.singleton_sublist.mpr List.mem_cons_self)
    | answer bare server client =>
      cases bare.1.symm.trans hs
      exact .inr (.inr ⟨hids server, hids client⟩)
  · obtain ⟨a, b, rfl, hf⟩ := fair.of_mem h
    rw [hf.1.not_handshake] at hs
    cases hs

/-- A handshake that names a server's id is the confirmation of a client. -/
theorem confirmed_of_named (fair : Each Fair log) (fresh : FreshIds log)
    (hm : plain ∈ sealedPlains log) {k : UInt32} (hmy : (.server, my) ∈ newIds log)
    (named : handshakeOf plain = some (opp, my, k)) :
    (.client, opp) ∈ newIds log ∧ Confirmed log opp my := by
  rcases handshake_origin fair hm named with ⟨-, hz⟩ | ⟨hc, -, hconf⟩ | ⟨-, hc⟩
  · exact absurd hz (fresh.nonzero _ hmy)
  · exact ⟨hc, hconf⟩
  · exact (fresh.disjoint hc hmy).elim

/-- A plaintext with the body of a safer packet was prepared by an end with its ids. -/
theorem safer_origin (fair : Each Fair log) (hm : plain ∈ sealedPlains log) {ids : Wire.SaferIds}
    (hi : Wire.parseSaferIds plain = some ids) {body : UInt8 × UInt8 × Bytes}
    (hb : Wire.parseSaferBody plain = some body) :
    ∃ side k, ⟨side, k, .prepared ids.oppsiteId ids.myId body.1 body.2.2 plain⟩ ∈ log ∧
      (side, ids.oppsiteId) ∈ newIds log ∧ (side.other, ids.myId) ∈ newIds log ∧
      (side = .server → Established log ids.oppsiteId ids.myId) := by
  rcases mem_sealedPlains.mp hm with ⟨side, k, h⟩ | ⟨side, k, my, opp, ptype, payload, h⟩
  · obtain ⟨a, b, -, hg⟩ := fair.of_mem h
    have hnone : Wire.parseSaferBody plain = none := by
      cases hg with
      | hello bare _ => exact bare.2
      | confirm bare _ _ _ => exact bare.2
      | answer bare _ _ => exact bare.2
    rw [hnone] at hb
    cases hb
  · obtain ⟨a, b, hlog, hsafer, hmy, hopp, hest⟩ := fair.of_mem h
    obtain ⟨rfl, rfl⟩ := hsafer.ids hi
    obtain ⟨rfl, rfl⟩ := hsafer.body hb
    have hsub : a ⊆ log := hlog ▸ List.subset_append_left _ _
    exact ⟨side, k, h, newIds_subset hsub hmy, newIds_subset hsub hopp,
      fun hs => (hest hs).mono hsub⟩

end

section

variable {k : Side → UInt32} {ends : Side → Ends} {log new : List Entry} {side : Side}

/-- The log grows and the ends of one side change. -/
theorem Agreed.extend (h : Agreed k ends log) {E : Ends} (hfair : EachFrom Fair log new)
    (hgood : ∀ slot e, E slot = some e →
      ends side slot = some e ∨ e.Good (log ++ new) (k side) side) :
    Agreed k (update ends side E) (log ++ new) := by
  have hsub : log ⊆ log ++ new := List.subset_append_left _ _
  refine ⟨h.fair.append hfair, fun s slot e he => ?_⟩
  rw [update_apply] at he
  split at he
  · next hs =>
    subst hs
    rcases hgood slot e he with hold | hnew
    · exact (h.good s slot e hold).mono hsub
    · exact hnew
  · exact (h.good s slot e he).mono hsub

/-- Only the log grows. -/
theorem Agreed.keep (h : Agreed k ends log) (hfair : EachFrom Fair log new) :
    Agreed k (update ends side (ends side)) (log ++ new) :=
  h.extend hfair fun _ _ he => .inl he

/-- One end changes. -/
theorem Agreed.set (h : Agreed k ends log) (hfair : EachFrom Fair log new) {slot : Nat} {f : End}
    (hgood : f.Good (log ++ new) (k side) side) :
    Agreed k (update ends side (update (ends side) slot (some f))) (log ++ new) := by
  refine h.extend hfair fun i e he => ?_
  rw [update_apply] at he
  split at he
  · cases he
    exact .inr hgood
  · exact .inl he

theorem fair_of_silent {out : List Effect} (h : ∀ e ∈ out, e.Silent) (s : Side) (c : UInt32)
    (before : List Entry) : EachFrom Fair before (record s c out) := by
  refine eachFrom_of_forall (fun entry hm before => ?_) before
  obtain ⟨e, he, rfl⟩ := List.mem_map.mp hm
  have hs := h e he
  cases e <;> first | exact hs.elim | trivial

/-- An accepted plaintext was prepared at the other side for this very session. -/
theorem Agreed.accepted (h : Agreed k ends log) (fresh : FreshIds log) {slot : Nat} {e : End}
    (he : ends side slot = some e) {plain : Bytes} (hm : plain ∈ sealedPlains log) {seq : UInt64}
    (haddr : e.Addressed plain seq) {body : UInt8 × UInt8 × Bytes}
    (hb : Wire.parseSaferBody plain = some body) :
    ∃ c, ⟨side.other, c, .prepared e.oppsiteId e.myId body.1 body.2.2 plain⟩ ∈ log := by
  obtain ⟨s, c, hp, -, hmy, -⟩ := safer_origin h.fair hm haddr hb
  have hside : s.other = side := fresh.side_eq hmy (h.good side slot e he).owned
  refine ⟨c, ?_⟩
  rw [← hside]
  cases s <;> exact hp

/-- Every step keeps the agreement, if it hears only what was sealed. -/
theorem Agreed.step (h : Agreed k ends log) {off : Bool} {out : List Effect} {E : Ends}
    (hstep : Step side (k side) off (ends side) out E)
    (heard : ∀ e ∈ out, e.Heard (sealedPlains log))
    (fresh : FreshIds (log ++ record side (k side) out)) :
    Agreed k (update ends side E) (log ++ record side (k side) out) := by
  have old := fresh.of_append
  have hsub : log ⊆ log ++ record side (k side) out := List.subset_append_left _ _
  have hids := newIds_subset hsub
  cases hstep with
  | silent hs => exact h.keep (fair_of_silent hs _ _ _)
  | forget slot =>
    refine h.extend trivial fun i e he => .inl ?_
    rw [update_apply] at he
    split at he
    · cases he
    · exact he
  | appear phase =>
    refine h.set ?_ (good_newId phase)
    exact ⟨trivial, trivial⟩
  | renew _ phase =>
    refine h.set ?_ (good_newId phase)
    exact ⟨trivial, trivial⟩
  | hello role he bare =>
    subst role
    exact h.keep ⟨.hello bare (h.good _ _ _ he).owned, trivial⟩
  | @answer slot e plainHeard plain id k' role he initial bare =>
    subst role
    have hclient : (.client, id) ∈ newIds log := by
      rcases handshake_origin h.fair (heard _ List.mem_cons_self) initial with
        ⟨hc, -⟩ | ⟨-, hz, -⟩ | ⟨-, hz⟩
      · exact hc
      · exact absurd rfl (old.nonzero _ hz)
      · exact absurd rfl (old.nonzero _ hz)
    refine h.keep ⟨trivial, .answer bare ?_ ?_, trivial⟩
    · exact newIds_subset (List.subset_append_left _ _) (h.good _ _ _ he).owned
    · exact newIds_subset (List.subset_append_left _ _) hclient
  | @meet slot e plainHeard id k' role he named =>
    subst role
    have hmy := (h.good _ _ _ he).owned
    have hserver : (.server, id) ∈ newIds log := by
      rcases handshake_origin h.fair (heard _ List.mem_cons_self) named with
        ⟨-, hz⟩ | ⟨-, hs, -⟩ | ⟨hs, -⟩
      · exact absurd hz (old.nonzero _ hmy)
      · exact (old.disjoint hmy hs).elim
      · exact hs
    refine h.set ?_ ?_
    · exact ⟨trivial, trivial, trivial⟩
    exact ⟨hids hmy, fun _ => ⟨by simp [record], hids hserver⟩, nofun⟩
  | confirm role he phase bare =>
    subst role
    obtain ⟨hmy, hmet, -⟩ := h.good _ _ _ he
    obtain ⟨hm, hs⟩ := hmet (by simp [phase])
    exact h.keep ⟨.confirm bare hmy hs hm, trivial⟩
  | @authenticate slot e plain seq role he phase addressed body =>
    subst role
    obtain ⟨hmy, hmet, -⟩ := h.good _ _ _ he
    obtain ⟨hm, hs⟩ := hmet (by simp [phase])
    obtain ⟨b, hb⟩ := Option.isSome_iff_exists.mp body
    obtain ⟨s, c, -, hopp, -, hest⟩ :=
      safer_origin h.fair (heard _ List.mem_cons_self) addressed hb
    have hside : s = .server := old.side_eq hopp hs
    refine h.set ?_ ?_
    · exact ⟨trivial, trivial⟩
    exact ⟨hids hmy, fun _ => ⟨hsub hm, hids hs⟩, fun _ => (hest hside).mono hsub⟩
  | claim plainHeard id role he phase =>
    subst role
    refine h.set ?_ ?_
    · exact ⟨trivial, trivial⟩
    exact ⟨hids (h.good _ _ _ he).owned, fun hp => by simp [phase] at hp⟩
  | @goReady slot e plainHeard k' role he phase named =>
    subst role
    have hmy := (h.good _ _ _ he).owned
    obtain ⟨hclient, hconf⟩ :=
      confirmed_of_named h.fair old (heard _ List.mem_cons_self) hmy named
    have hready : Confirmed (log ++ [⟨.server, k .server, .openBare plainHeard⟩])
        e.oppsiteId e.myId := hconf.mono (List.sublist_append_left _ _)
    refine h.set ?_ ?_
    · exact ⟨trivial, hready, trivial⟩
    refine ⟨hids hmy, fun _ => ⟨⟨k .server, slot, .inl ?_⟩, hids hclient⟩⟩
    simp [record]
  | @recover slot ori e o plainHeard k' role he ho phase ne named =>
    subst role
    have hmy := (h.good _ _ _ he).owned
    obtain ⟨hclient, hconf⟩ :=
      confirmed_of_named h.fair old (heard _ List.mem_cons_self) hmy named
    refine h.extend ⟨trivial, hconf.mono (List.sublist_append_left _ _), trivial⟩ ?_
    intro i f hf
    rw [update_apply, update_apply] at hf
    split at hf
    · cases hf
    · split at hf
      · cases hf
        refine .inr ⟨hids hmy, fun _ => ⟨⟨k .server, ori, .inr ?_⟩, hids hclient⟩⟩
        simp [record]
      · exact .inl hf
  | @prepare slot e hdr payload next he phase my opp htype =>
    have hgood := h.good _ _ _ he
    obtain ⟨hpeer, hest⟩ := hgood.peer phase
    have hfair : Fair log ⟨side, k side, .prepared e.myId e.oppsiteId hdr.ptype payload
        (Wire.buildSafer hdr payload)⟩ :=
      ⟨⟨hdr, my, opp, rfl, htype, rfl⟩, hgood.owned, hpeer, hest⟩
    refine h.set ?_ ((hgood.window _).mono hsub)
    exact ⟨hfair, trivial⟩
  | @check slot e key target plain result a he phase checks =>
    have hgood := h.good _ _ _ he
    have hfair : Fair log ⟨side, k side, .check key target e.myId e.oppsiteId plain result⟩ := by
      rcases checks with ⟨rfl, -⟩ | ⟨seq, haddr, -, rfl⟩
      · trivial
      · cases hb : Wire.parseSaferBody plain with
        | none => trivial
        | some body =>
          exact ⟨hgood.owned, h.accepted old he (heard _ List.mem_cons_self) haddr hb⟩
    refine h.set ?_ ((hgood.window _).mono hsub)
    exact ⟨hfair, trivial⟩

end

end Session

end Udp2raw
