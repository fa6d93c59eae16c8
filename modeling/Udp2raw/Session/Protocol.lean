import Mathlib.Data.List.Nodup
import Udp2raw.Effect

/-!
# Sessions

What both ends do to their sessions, seen through ids and plaintexts only. A
session is named by two ids that its ends draw; the handshake tells each end the
id of the other, and safer packets carry both. The steps below are those of one
end; what the other end sends is known to it only as plaintexts it opens.
-/

namespace Udp2raw

open Function

/-- The two ends of the tunnel. -/
inductive Side where
  | client
  | server
  deriving DecidableEq, Repr

/-- The end at the other side. -/
def Side.other : Side → Side
  | .client => .server
  | .server => .client

/-- Something that happened at one end, under the const id of its process. -/
structure Entry where
  side : Side
  constId : UInt32
  effect : Effect
  deriving DecidableEq, Repr

/-- The id an entry draws. -/
def Entry.newId? : Entry → Option (Side × UInt32)
  | ⟨side, _, .newId id⟩ => some (side, id)
  | _ => none

/-- The plaintext an entry seals for the network. -/
def Entry.sealed? : Entry → Option Bytes
  | ⟨_, _, .sealBare plain⟩ => some plain
  | ⟨_, _, .prepared _ _ _ _ plain⟩ => some plain
  | _ => none

/-- The ids that were drawn, in order. -/
def newIds (log : List Entry) : List (Side × UInt32) := log.filterMap Entry.newId?

/-- The plaintexts either end ever sealed. -/
def sealedPlains (log : List Entry) : List Bytes := log.filterMap Entry.sealed?

/-- Ids are nonzero and never drawn twice. -/
structure FreshIds (log : List Entry) : Prop where
  nonzero : ∀ p ∈ newIds log, p.2 ≠ 0
  distinct : ((newIds log).map Prod.snd).Nodup

instance (log : List Entry) : Decidable (FreshIds log) :=
  decidable_of_iff ((∀ p ∈ newIds log, p.2 ≠ 0) ∧ ((newIds log).map Prod.snd).Nodup)
    ⟨fun h => ⟨h.1, h.2⟩, fun h => ⟨h.1, h.2⟩⟩

/-- Effects of one side as entries. -/
def record (side : Side) (k : UInt32) (out : List Effect) : List Entry := out.map (Entry.mk side k)

/-- Every plaintext the effect opens or checks is one of these. -/
def Effect.Heard (pool : List Bytes) : Effect → Prop
  | .openBare plain | .authenticated plain | .check _ _ _ _ plain _ => plain ∈ pool
  | _ => True

theorem Effect.Heard.mono {a b : List Bytes} {e : Effect} (h : e.Heard a) (hs : a ⊆ b) :
    e.Heard b := by
  cases e <;> first | exact hs h | trivial

/-- Effects that neither name an id nor seal or accept a plaintext. -/
def Effect.Silent : Effect → Prop
  | .sealBare _ | .prepared .. | .check .. | .newId _ | .met .. | .ready .. | .recovered .. => False
  | _ => True

@[simp] theorem newIds_append (a b : List Entry) : newIds (a ++ b) = newIds a ++ newIds b :=
  List.filterMap_append

@[simp] theorem sealedPlains_append (a b : List Entry) :
    sealedPlains (a ++ b) = sealedPlains a ++ sealedPlains b :=
  List.filterMap_append

section

variable {log new : List Entry}

theorem FreshIds.of_append (h : FreshIds (log ++ new)) : FreshIds log := by
  obtain ⟨hz, hd⟩ := h
  rw [newIds_append] at hz hd
  refine ⟨fun p hp => hz p (List.mem_append_left _ hp), ?_⟩
  rw [List.map_append] at hd
  exact hd.of_append_left

/-- An id belongs to one side. -/
theorem FreshIds.side_eq (h : FreshIds log) {a b : Side} {id : UInt32}
    (ha : (a, id) ∈ newIds log) (hb : (b, id) ∈ newIds log) : a = b :=
  congrArg Prod.fst (List.inj_on_of_nodup_map h.distinct ha hb rfl)

/-- The two sides never draw the same id. -/
theorem FreshIds.disjoint (h : FreshIds log) {id : UInt32} (hc : (.client, id) ∈ newIds log)
    (hs : (.server, id) ∈ newIds log) : False :=
  nomatch h.side_eq hc hs

/-- A new id is not an old one. -/
theorem FreshIds.not_mem {side : Side} {k id : UInt32}
    (h : FreshIds (log ++ [⟨side, k, .newId id⟩])) (a : Side) : (a, id) ∉ newIds log := by
  intro ha
  have hd := h.distinct
  rw [newIds_append, List.map_append, List.nodup_append] at hd
  exact hd.2.2 id (List.mem_map.mpr ⟨_, ha, rfl⟩) id (by simp [newIds, Entry.newId?]) rfl

/-- What was sealed in a log. -/
theorem mem_sealedPlains {plain : Bytes} : plain ∈ sealedPlains log ↔
    (∃ side k, ⟨side, k, .sealBare plain⟩ ∈ log) ∨
      ∃ side k my opp ptype payload, ⟨side, k, .prepared my opp ptype payload plain⟩ ∈ log := by
  unfold sealedPlains
  rw [List.mem_filterMap]
  constructor
  · rintro ⟨⟨side, k, e⟩, he, hs⟩
    cases e <;> cases hs
    · exact .inl ⟨side, k, he⟩
    · exact .inr ⟨side, k, _, _, _, _, he⟩
  · rintro (⟨side, k, h⟩ | ⟨side, k, my, opp, ptype, payload, h⟩)
    · exact ⟨_, h, rfl⟩
    · exact ⟨_, h, rfl⟩

end

namespace Session

/-- How far the handshake of an end has come. -/
inductive Phase where
  | waiting
  /-- The client knows the id of the server. -/
  | met
  | ready
  deriving DecidableEq, Repr

/-- One end of a session. -/
structure End where
  phase : Phase
  myId : UInt32
  oppsiteId : UInt32
  antiReplay : AntiReplay

/-- The sessions of one side by slot. -/
abbrev Ends := Nat → Option End

/-- A bare plaintext with these three ids. -/
def IsHandshake (plain : Bytes) (id1 id2 id3 : UInt32) : Prop :=
  handshakeOf plain = some (id1, id2, id3) ∧ Wire.parseSaferBody plain = none

/-- The plaintext is addressed to the end. -/
def End.Addressed (e : End) (plain : Bytes) (seq : UInt64) : Prop :=
  Wire.parseSaferIds plain = some { oppsiteId := e.oppsiteId, myId := e.myId, seq := seq }

/-- A check leaves the window, or marks the number of a plaintext addressed to the end and
accepts what its body holds. -/
def End.Checks (e : End) (plain : Bytes) (result : Option (UInt8 × Bytes)) (a : AntiReplay) :
    Prop :=
  result = none ∧ a = e.antiReplay ∨
    ∃ seq, e.Addressed plain seq ∧ e.antiReplay.isValid seq.toNat = .ok (true, a) ∧
      result = (Wire.parseSaferBody plain).map fun body => (body.1, body.2.2)

/-- What one side may do to its sessions; `k` is its const id, and `off` tells whether new
sessions go without anti-replay. -/
inductive Step (side : Side) (k : UInt32) (off : Bool) : Ends → List Effect → Ends → Prop where
  | silent {E : Ends} {out : List Effect} (h : ∀ e ∈ out, e.Silent) : Step side k off E out E
  | forget {E : Ends} (slot : Nat) : Step side k off E [] (update E slot none)
  | appear {E : Ends} {slot : Nat} {e : End} (phase : e.phase = .waiting)
      (setting : e.antiReplay.disabled = off) :
      Step side k off E [.newId e.myId] (update E slot (some e))
  | renew {E : Ends} {slot : Nat} {e f : End} (he : E slot = some e) (phase : f.phase = .waiting)
      (setting : f.antiReplay.disabled = e.antiReplay.disabled) :
      Step side k off E [.newId f.myId] (update E slot (some f))
  | hello {E : Ends} {slot : Nat} {e : End} {plain : Bytes} (role : side = .client)
      (he : E slot = some e) (bare : IsHandshake plain e.myId 0 k) :
      Step side k off E [.sealBare plain] E
  | answer {E : Ends} {slot : Nat} {e : End} {heard plain : Bytes} {id k' : UInt32}
      (role : side = .server) (he : E slot = some e)
      (initial : handshakeOf heard = some (id, 0, k')) (bare : IsHandshake plain e.myId id k) :
      Step side k off E [.openBare heard, .sealBare plain] E
  | meet {E : Ends} {slot : Nat} {e : End} {heard : Bytes} {id k' : UInt32}
      (role : side = .client) (he : E slot = some e)
      (named : handshakeOf heard = some (id, e.myId, k')) :
      Step side k off E [.openBare heard, .met e.myId id]
        (update E slot (some { e with phase := .met, oppsiteId := id }))
  | confirm {E : Ends} {slot : Nat} {e : End} {plain : Bytes} (role : side = .client)
      (he : E slot = some e) (phase : e.phase = .met)
      (bare : IsHandshake plain e.myId e.oppsiteId k) : Step side k off E [.sealBare plain] E
  | authenticate {E : Ends} {slot : Nat} {e : End} {plain : Bytes} {seq : UInt64}
      (role : side = .client) (he : E slot = some e) (phase : e.phase = .met)
      (addressed : e.Addressed plain seq) (body : (Wire.parseSaferBody plain).isSome) :
      Step side k off E [.authenticated plain] (update E slot (some { e with phase := .ready }))
  | claim {E : Ends} {slot : Nat} {e : End} (heard : Bytes) (id : UInt32)
      (role : side = .server) (he : E slot = some e) (phase : e.phase = .waiting) :
      Step side k off E [.openBare heard] (update E slot (some { e with oppsiteId := id }))
  | goReady {E : Ends} {slot : Nat} {e : End} {heard : Bytes} {k' : UInt32}
      (role : side = .server) (he : E slot = some e) (phase : e.phase = .waiting)
      (named : handshakeOf heard = some (e.oppsiteId, e.myId, k')) :
      Step side k off E [.openBare heard, .ready slot e.myId e.oppsiteId]
        (update E slot (some { e with phase := .ready, antiReplay := e.antiReplay.reInit }))
  /-- The session in `ori` goes on under the ids of the one in `slot`. -/
  | recover {E : Ends} {slot ori : Nat} {e o : End} {heard : Bytes} {k' : UInt32}
      (role : side = .server) (he : E slot = some e) (ho : E ori = some o)
      (phase : e.phase = .waiting) (ne : ori ≠ slot)
      (named : handshakeOf heard = some (e.oppsiteId, e.myId, k')) :
      Step side k off E [.openBare heard, .recovered ori e.myId e.oppsiteId]
        (update (update E ori
          (some { e with phase := .ready, antiReplay := o.antiReplay.reInit })) slot none)
  | prepare {E : Ends} {slot : Nat} {e : End} {h : Wire.SaferHeader} {payload : Bytes}
      (next : UInt64) (he : E slot = some e) (phase : e.phase = .ready)
      (my : h.myId = e.myId) (opp : h.oppsiteId = e.oppsiteId)
      (htype : h.ptype = typeHeartbeat ∨ h.ptype = typeData) :
      Step side k off E
        [.prepared e.myId e.oppsiteId h.ptype payload (Wire.buildSafer h payload)]
        (update E slot (some { e with antiReplay := { e.antiReplay with nextSendSeq := next } }))
  | check {E : Ends} {slot : Nat} {e : End} {key target : JobKey} {plain : Bytes}
      {result : Option (UInt8 × Bytes)} {a : AntiReplay} (he : E slot = some e)
      (phase : side = .server → e.phase = .ready) (checks : e.Checks plain result a) :
      Step side k off E [.check key target e.myId e.oppsiteId plain result]
        (update E slot (some { e with antiReplay := a }))

/-- The end a connection makes in this phase. -/
def End.ofConn (phase : Phase) (info : ConnInfo) : End :=
  { phase := phase, myId := info.myId, oppsiteId := info.oppsiteId, antiReplay := info.antiReplay }

theorem End.ofConn_same (phase : Phase) {a b : ConnInfo} (h : Conn.SameConn a b) :
    End.ofConn phase b = End.ofConn phase a := by
  unfold End.ofConn
  rw [h.myId, h.oppsiteId, h.antiReplay]

theorem isHandshake_build (iv padding : UInt64) (id1 id2 id3 : UInt32) :
    IsHandshake (Wire.buildBare iv padding (Wire.buildHandshake id1 id2 id3)) id1 id2 id3 := by
  refine ⟨?_, Wire.parseSaferBody_buildBare _ _ _⟩
  rw [handshakeOf, Wire.parseBare_buildBare]
  exact Wire.parseHandshake_buildHandshake _ _ _

/-- What `accept_safer_offset` does to a connection is a check of its end. -/
theorem checks_of_accept (phase : Phase) {info after : ConnInfo} {plain : Bytes} {hbMode : Int32}
    {now : UInt64} {r : Option (UInt8 × Nat)}
    (h : Conn.acceptSaferOffset info plain hbMode now = .ok (r, after)) :
    (End.ofConn phase info).Checks plain (r.map fun p => (p.1, plain.drop p.2)) after.antiReplay ∧
      End.ofConn phase after = { End.ofConn phase info with antiReplay := after.antiReplay } := by
  obtain ⟨r, after, hr, hsame, -, hcases⟩ := Conn.acceptSaferOffset_cases info plain hbMode now
  rw [hr] at h
  cases h
  refine ⟨?_, ?_⟩
  · rcases hcases with ⟨rfl, rfl⟩ | ⟨seq, haddr, hvalid, rfl⟩
    · exact .inl ⟨rfl, rfl⟩
    · refine .inr ⟨seq, haddr, hvalid, ?_⟩
      rw [Option.map_map]
      refine Option.map_congr fun body hbody => ?_
      rw [comp_apply, Wire.drop_of_parseSaferBody hbody]
  · unfold End.ofConn
    rw [hsame.myId, hsame.oppsiteId]

/-- A ready connection prepares a packet and hands it in. -/
theorem steps_handIn {side : Side} {k : UInt32} {off : Bool} {E : Ends} {slot : Nat}
    {info : ConnInfo} (he : E slot = some (.ofConn .ready info)) (key : JobKey) {ptype : UInt8}
    (htype : ptype = typeHeartbeat ∨ ptype = typeData) (payload : Bytes) :
    Program.Steps (Step side k off) E
      (handIn key info ptype payload (Conn.prepareSafer info ptype payload).1)
      (update E slot (some (.ofConn .ready (Conn.prepareSafer info ptype payload).2))) := by
  have hprepare : Step side k off E
      [.prepared info.myId info.oppsiteId ptype payload (Conn.prepareSafer info ptype payload).1]
      (update E slot (some (.ofConn .ready (Conn.prepareSafer info ptype payload).2))) :=
    .prepare (h := Conn.nextHeader info ptype) _ he rfl rfl rfl htype
  exact .cons hprepare (.single (.silent (by simp [Effect.Silent])))

end Session

end Udp2raw
