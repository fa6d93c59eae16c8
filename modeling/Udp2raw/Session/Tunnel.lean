import Udp2raw.Crypto.Hostile
import Udp2raw.Raw.Acks

/-!
# A datagram through the tunnel

A datagram is framed with the ids and the number of its connection, sealed, wrapped
for `--fix-gro`, disguised and sent. The peer undoes the layers one by one.
-/

namespace Udp2raw

open Checked

/-- `encrypt_safer_vec`. -/
def encryptSaferVec (prim : Primitives) (c : Crypto) (nonce : FixedBytes 24) (plain : Bytes)
    (fixGro : Bool) : Except Panic (Option Bytes) := do
  match ← c.encryptVec prim nonce plain with
  | none => return none
  | some enc => if fixGro then return some (← Wire.groWrap prim c enc) else return some enc

/-- A sealed packet is no shorter than its plaintext and at most 60 bytes longer. -/
theorem WireLen.bounds {mode : CipherMode} {auth : AuthMode} {n m : Nat}
    (h : WireLen mode auth n m) : n ≤ m ∧ m ≤ n + 60 := by
  have htag : auth.tagLen ≤ 20 := by cases auth <;> decide
  have hinput : n ≤ cipherInputLen auth n ∧ cipherInputLen auth n ≤ n + 20 := by
    unfold cipherInputLen
    split <;> omega
  cases mode with
  | aes128Cbc =>
    obtain ⟨k, hk, rfl⟩ := h
    have hpadded := hk.unique (isLeast_paddedLen (cipherInputLen auth n))
    have hbound := paddedLen_bounds (cipherInputLen auth n)
    split <;> omega
  | chaCha20Poly1305 =>
    have hm : m = n + 40 := h
    omega
  | none | xor | aes128Cfb =>
    have hm : m = n + auth.tagLen := h
    omega

section

variable (prim : Primitives) (cpu cpu' : Bool) (mode : CipherMode) (auth : AuthMode)
  (legacy : Bool) (keys : Keys) (backend backend' : AesBackend)

/-- The peer opens exactly the plaintext, with and without `--fix-gro`. -/
theorem decryptSaferVec_encryptSaferVec (nonce : FixedBytes 24) (fixGro : Bool) {plain : Bytes}
    (hshort : 18 ≤ plain.length) (hlong : plain.length ≤ 1700) :
    ∃ wire, encryptSaferVec prim (Crypto.sender prim cpu mode auth legacy keys backend) nonce plain
        fixGro = .ok (some wire) ∧ wire.length ≤ plain.length + 62 ∧
      Strict.decryptSaferVec prim (Crypto.receiver prim cpu' mode auth legacy keys backend') wire
        fixGro = .ok [plain] := by
  have hfine : ¬ Refused mode auth plain.length := by
    unfold Refused cipherInputLen maxDataLen
    split <;> omega
  obtain ⟨enc, hseal, hlen, hopen⟩ := Crypto.roundtrip prim cpu cpu' mode auth legacy keys backend
    backend' nonce hfine
  have hbounds := hlen.bounds
  have hopened := hopen (by unfold maxDataLen; omega)
  cases fixGro with
  | false =>
    refine ⟨enc, ?_, by omega, ?_⟩
    · simp only [encryptSaferVec, hseal, ok_bind]
      rfl
    · simp only [Strict.decryptSaferVec, Strict.decryptVec_eq, hopened]
      rfl
  | true =>
    have hsplit : Wire.Splittable enc := ⟨by omega, by unfold maxDataLen; omega⟩
    obtain ⟨h, b, rest, hframe, hwrap, -⟩ := Wire.groWrap_eq prim cpu cpu' mode auth legacy keys
      backend backend' hsplit
    obtain ⟨ws, hws, hrun⟩ := Wire.groLoop_frames prim cpu cpu' mode auth legacy keys backend
      backend' (show ∀ p ∈ [enc], Wire.Splittable p by simpa using hsplit) []
    obtain ⟨w, hw, rfl⟩ : ∃ w, .ok w = Except.ok (h.toList ++ rest) ∧ ws = [w] := by
      cases hws with
      | cons hw htail =>
        cases htail
        exact ⟨_, hw.symm.trans hwrap, rfl⟩
    cases hw
    have hsize : (h.toList ++ rest).length = enc.length + 2 := by
      rw [← Wire.length_frame, hframe]
      simp
    obtain ⟨buf, entries, extra, hloop, hread, hextra⟩ := hrun [] _ [] le_rfl
    rw [hextra rfl] at hloop
    have hunwrap : Strict.groUnwrap prim
        (Crypto.receiver prim cpu' mode auth legacy keys backend') (h.toList ++ rest) =
          .ok (buf, entries) := by
      refine (Strict.groUnwrap_eq prim cpu' mode auth legacy keys.mirror backend' _).trans ?_
      simpa [Wire.groUnwrap] using hloop
    obtain ⟨r, hr, hlength, hinside, -⟩ := Strict.groUnwrap_returns prim cpu' mode auth legacy
      keys.mirror backend' (h.toList ++ rest)
    cases hunwrap.symm.trans hr
    obtain ⟨⟨off, len⟩, rfl⟩ : ∃ e, entries = [e] := by
      rw [← List.length_eq_one_iff, ← List.length_map (Wire.packetAt buf)]
      exact congrArg List.length hread
    have hslice : slice buf off (off + len) = .ok enc := by
      rw [slice_eq_ok (Nat.le_add_right _ _) (hlength ▸ hinside _ List.mem_cons_self),
        ← List.take_drop]
      exact congrArg Except.ok (List.singleton_inj.mp hread)
    refine ⟨h.toList ++ rest, ?_, by omega, ?_⟩
    · simp only [encryptSaferVec, hseal, ok_bind, hwrap]
      rfl
    · simp only [Strict.decryptSaferVec, Strict.decryptSaferGro, hunwrap, ok_bind,
        Strict.decryptParts, hslice, Strict.decryptVec_eq, hopened]
      rfl

end

/-- A data packet of the peer with a fresh number is accepted. -/
theorem Conn.acceptSaferOffset_prepareSaferData {here there : ConnInfo}
    (hids : there.oppsiteId = here.myId ∧ there.myId = here.oppsiteId) {window : AntiReplay}
    (hfresh : there.antiReplay.isValid here.antiReplay.nextSendSeq.toNat = .ok (true, window))
    (conv : UInt32) (data : Bytes) (hbMode : Int32) (now : UInt64) :
    ∃ info, acceptSaferOffset there (prepareSaferData here conv data).1 hbMode now =
      .ok (some (typeData, Wire.saferHeaderLen), info) := by
  have hbody : Wire.parseSaferBody
      (prepareSafer here typeData (Wire.buildDataPayload conv data)).1 =
      some (typeData, here.myRoller, _) := Wire.parseSaferBody_buildSafer _ (.inr rfl)
  unfold acceptSaferOffset
  simp only [prepareSaferData_eq, parseSaferIds_prepareSafer, hbody, hfresh, hids.1, hids.2,
    ne_eq, not_true_eq_false, or_self, if_false, ok_bind]
  exact ⟨_, rfl⟩

/-- What one side takes from a local socket the other side gets, with its conversation: through
framing, every cipher and authentication mode, `--fix-gro`, every raw mode and both families,
unless the packet is withheld or its number was seen before. -/
theorem datagram_delivered (prim : Primitives) (mode : CipherMode) (auth : AuthMode)
    (legacy : Bool) (password : Bytes) (isClient cpu cpu' : Bool) (backend backend' : AesBackend)
    (nonce : FixedBytes 24) (fixGro : Bool) (tx rx : RawCtx) (o : SendInputs) (ll : SockaddrLl)
    (here there : ConnInfo) (window : AntiReplay) (conv : UInt32) (data : Bytes) (hbMode : Int32)
    (now : UInt64) (hrx : rx.Faces tx here.raw.sendInfo)
    (hsrc : here.raw.sendInfo.srcIp.isIpv6 = tx.isV6)
    (hdst : here.raw.sendInfo.dstIp.isIpv6 = tx.isV6)
    (hid : tx.rawMode = .icmp → there.raw.sendInfo.srcPort = here.raw.sendInfo.srcPort)
    (hsent : ¬ tx.Withholds o here.raw)
    (hids : there.oppsiteId = here.myId ∧ there.myId = here.oppsiteId)
    (hfresh : there.antiReplay.isValid here.antiReplay.nextSendSeq.toNat = .ok (true, window))
    (hdata : data.length ≤ 1600) :
    ∃ wire raw packet raw' plain info,
      encryptSaferVec prim (.withBackend prim.hashes cpu mode auth legacy
        (Keys.derive prim.hashes password isClient) backend) nonce
        (Conn.prepareSaferData here conv data).1 fixGro = .ok (some wire) ∧
      tx.sendRawBytes o here.raw wire = .ok (raw, some packet) ∧
      rx.parseRecv there.raw packet ll = .ok (raw', some wire) ∧
      Strict.decryptSaferVec prim (.withBackend prim.hashes cpu' mode auth legacy
        (Keys.derive prim.hashes password !isClient) backend') wire fixGro = .ok [plain] ∧
      Conn.acceptSaferOffset { there with raw := raw' } plain hbMode now =
        .ok (some (typeData, Wire.saferHeaderLen), info) ∧
      Wire.parseDataPayload (plain.drop Wire.saferHeaderLen) = some (conv, data) := by
  have hplain := Conn.prepareSaferData_eq here conv data
  have hlen : (Conn.prepareSaferData here conv data).1.length = 22 + data.length := by
    simp [hplain, Conn.prepareSafer, Wire.buildSafer, Wire.buildDataPayload]
    omega
  obtain ⟨wire, hseal, hwire, hopen⟩ := decryptSaferVec_encryptSaferVec prim cpu cpu' mode auth
    legacy (Keys.derive prim.hashes password isClient) backend backend' nonce fixGro
    (show 18 ≤ (Conn.prepareSaferData here conv data).1.length by omega) (by omega)
  rw [Crypto.receiver_derive] at hopen
  have hheaders :
      ipHeaderLen tx.isV6 + transportHeaderLen tx.rawMode here.raw.sendInfo.syn ≤ 80 := by
    cases tx.isV6 <;> cases tx.rawMode <;> cases here.raw.sendInfo.syn <;> decide
  obtain ⟨raw, packet, hpacket, -, -, -, hreceives⟩ :=
    @RawCtx.sendRawBytes_receives tx rx o here.raw wire hrx hsrc hdst (by omega) hsent
  obtain ⟨raw', hparse, -⟩ := hreceives there.raw ll hid
  obtain ⟨info, haccept⟩ := @Conn.acceptSaferOffset_prepareSaferData here
    { there with raw := raw' } hids window hfresh conv data hbMode now
  refine ⟨wire, raw, packet, raw', _, info, hseal, hpacket, hparse, hopen, haccept, ?_⟩
  rw [hplain, Conn.prepareSafer, Wire.drop_of_parseSaferBody
    (Wire.parseSaferBody_buildSafer _ (.inr rfl)), Wire.parseDataPayload_buildDataPayload]

/-- One end of the sample conversation as a connection. -/
def sampleConn (i : Bool) : ConnInfo :=
  { raw := (Conversation.sampleStart i).raw, myId := if i then 2 else 1
    oppsiteId := if i then 1 else 2, antiReplay := .new true 0 }

/-- Three bytes of conversation 7 with `--fix-gro`, AES-CBC and MD5. -/
theorem datagram_delivered_three_bytes :
    ∃ wire plain, Strict.decryptSaferVec default (.withBackend (default : Primitives).hashes false
        .aes128Cbc .md5 false (Keys.derive (default : Primitives).hashes [] false) .auto) wire
          true = .ok [plain] ∧
      Wire.parseDataPayload (plain.drop Wire.saferHeaderLen) = some (7, [1, 2, 3]) := by
  have hlive := (Conversation.sampleStart_synchronised 0).live false
  obtain ⟨wire, _, _, _, plain, _, -, -, -, hopen, -, hread⟩ := datagram_delivered default
    .aes128Cbc .md5 false [] true true false .auto .auto (List.Vector.replicate 24 0) true
    (Conversation.sampleCtx 0 false) (Conversation.sampleCtx 0 true)
    (Conversation.sampleInputs 0) {} (sampleConn false) (sampleConn true) _ 7 [1, 2, 3] 0 0
    hlive.faces hlive.src hlive.dst nofun (by simp [RawCtx.Withholds, sampleConn,
      Conversation.sampleCtx, Conversation.sampleStart]) ⟨rfl, rfl⟩ rfl (by decide)
  exact ⟨wire, plain, hopen, hread⟩

end Udp2raw
