import Mathlib.Data.List.TakeDrop
import Udp2raw.Packet.Checksum

/-!
# Application-layer framing

Bare plaintexts carry handshakes, safer plaintexts carry data and heartbeats.
Both kinds travel under the same keys, so what tells them apart is byte 16: the
bare marker in one, the packet type in the other. Parsing inverts building, and
neither parser accepts the other's plaintexts.
-/

namespace Udp2raw

/-- `TYPE_HEARTBEAT`, `b'h'`. -/
def typeHeartbeat : UInt8 := 0x68

/-- `TYPE_DATA`, `b'd'`. -/
def typeData : UInt8 := 0x64

/-- `BARE_MARKER`, `b'b'`. -/
def bareMarker : UInt8 := 0x62

/-- `u64::to_be_bytes`. -/
def u64ToBe (x : UInt64) : Bytes := BigEndian.encode 8 x.toNat

/-- `u64::to_ne_bytes` of a little-endian host. -/
def u64ToNe (x : UInt64) : Bytes := (u64ToBe x).reverse

/-- `read_u32_be(&p[i..])`; every caller has checked the length. -/
def u32At (p : Bytes) (i : Nat) : UInt32 := UInt32.ofNat (BigEndian.decode ((p.drop i).take 4))

/-- `read_u64_be(&p[i..])`. -/
def u64At (p : Bytes) (i : Nat) : UInt64 := UInt64.ofNat (BigEndian.decode ((p.drop i).take 8))

@[simp] theorem length_u64ToBe (x : UInt64) : (u64ToBe x).length = 8 := BigEndian.length_encode _ _

@[simp] theorem length_u64ToNe (x : UInt64) : (u64ToNe x).length = 8 := by
  simp [u64ToNe]

/-- Reading where a word was written gives it back. -/
theorem u32At_append (before : Bytes) (x : UInt32) (rest : Bytes) :
    u32At (before ++ (u32ToBe x ++ rest)) before.length = x := by
  have hx : x.toNat < 256 ^ 4 := x.toNat_lt
  rw [u32At, List.drop_left, List.take_left' (length_u32ToBe x), u32ToBe,
    BigEndian.decode_encode_of_lt hx, UInt32.ofNat_toNat]

theorem u64At_append (before : Bytes) (x : UInt64) (rest : Bytes) :
    u64At (before ++ (u64ToBe x ++ rest)) before.length = x := by
  have hx : x.toNat < 256 ^ 8 := x.toNat_lt
  rw [u64At, List.drop_left, List.take_left' (length_u64ToBe x), u64ToBe,
    BigEndian.decode_encode_of_lt hx, UInt64.ofNat_toNat]

/-- The byte after a known number of bytes. -/
theorem getD_after {before : Bytes} {n : Nat} (h : before.length = n) (x : UInt8) (rest : Bytes) :
    (before ++ [x] ++ rest).getD n 0 = x := by
  subst h
  simp [List.getD_eq_getElem?_getD]

namespace Wire

/-- `BARE_HEADER_LEN`. -/
def bareHeaderLen : Nat := 8 + 8 + 1

/-- `SAFER_HEADER_LEN`. -/
def saferHeaderLen : Nat := 4 + 4 + 8 + 1 + 1

/-- `HANDSHAKE_LEN`. -/
def handshakeLen : Nat := 12

/-- `build_bare`: two nonces, the marker, the payload. -/
def buildBare (iv padding : UInt64) (payload : Bytes) : Bytes :=
  u64ToNe iv ++ u64ToNe padding ++ [bareMarker] ++ payload

/-- `parse_bare`: the payload of a bare plaintext. -/
def parseBare (plain : Bytes) : Option Bytes :=
  if plain.length < bareHeaderLen then none
  else if plain.getD 16 0 ≠ bareMarker then none
  else some (plain.drop bareHeaderLen)

/-- `build_handshake`: three ids. -/
def buildHandshake (id1 id2 id3 : UInt32) : Bytes := u32ToBe id1 ++ u32ToBe id2 ++ u32ToBe id3

/-- `parse_handshake`. -/
def parseHandshake (data : Bytes) : Option (UInt32 × UInt32 × UInt32) :=
  if data.length < handshakeLen then none else some (u32At data 0, u32At data 4, u32At data 8)

/-- The header of a safer plaintext, from the sender's point of view. -/
structure SaferHeader where
  myId : UInt32
  oppsiteId : UInt32
  seq : UInt64
  ptype : UInt8
  roller : UInt8
  deriving DecidableEq, Repr

/-- `build_safer_into`: header and payload. -/
def buildSafer (h : SaferHeader) (payload : Bytes) : Bytes :=
  u32ToBe h.myId ++ u32ToBe h.oppsiteId ++ u64ToBe h.seq ++ [h.ptype] ++ [h.roller] ++ payload

/-- Ids and sequence number of a safer plaintext, from the receiver's point of view. -/
structure SaferIds where
  /-- The sender's id. -/
  oppsiteId : UInt32
  myId : UInt32
  seq : UInt64
  deriving DecidableEq, Repr

/-- `parse_safer_ids`. -/
def parseSaferIds (plain : Bytes) : Option SaferIds :=
  if plain.length < 16 then none
  else some { oppsiteId := u32At plain 0, myId := u32At plain 4, seq := u64At plain 8 }

/-- `parse_safer_body`: type, roller and payload. -/
def parseSaferBody (plain : Bytes) : Option (UInt8 × UInt8 × Bytes) :=
  if plain.length < saferHeaderLen then none
  else
    let ptype := plain.getD 16 0
    if ptype ≠ typeHeartbeat ∧ ptype ≠ typeData then none
    else some (ptype, plain.getD 17 0, plain.drop saferHeaderLen)

/-- `build_data_payload`: the conversation id in front of the datagram. -/
def buildDataPayload (conv : UInt32) (data : Bytes) : Bytes := u32ToBe conv ++ data

/-- `parse_data_payload`. -/
def parseDataPayload (data : Bytes) : Option (UInt32 × Bytes) :=
  if data.length < 4 then none else some (u32At data 0, data.drop 4)

/-- Byte 16 of a bare plaintext is the marker. -/
theorem getD_buildBare_marker (iv padding : UInt64) (payload : Bytes) :
    (buildBare iv padding payload).getD 16 0 = bareMarker :=
  getD_after (by simp) _ _

/-- A bare packet is read as it was built. -/
theorem parseBare_buildBare (iv padding : UInt64) (payload : Bytes) :
    parseBare (buildBare iv padding payload) = some payload := by
  have hdrop : (buildBare iv padding payload).drop bareHeaderLen = payload := by
    refine List.drop_left' ?_
    simp [bareHeaderLen]
  rw [parseBare, if_neg (by simp [buildBare, bareHeaderLen]; omega),
    if_neg (not_not.mpr (getD_buildBare_marker iv padding payload)), hdrop]

/-- A handshake is read as it was built. -/
theorem parseHandshake_buildHandshake (id1 id2 id3 : UInt32) :
    parseHandshake (buildHandshake id1 id2 id3) = some (id1, id2, id3) := by
  have h1 := u32At_append [] id1 (u32ToBe id2 ++ u32ToBe id3)
  have h2 := u32At_append (u32ToBe id1) id2 (u32ToBe id3)
  have h3 := u32At_append (u32ToBe id1 ++ u32ToBe id2) id3 []
  simp only [List.nil_append, List.length_nil, List.append_nil, List.length_append,
    length_u32ToBe, List.append_assoc] at h1 h2 h3
  rw [parseHandshake, if_neg (by simp [buildHandshake, handshakeLen])]
  simp only [buildHandshake, List.append_assoc, h1, h2, h3]

/-- The ids are read as they were built. -/
theorem parseSaferIds_buildSafer (h : SaferHeader) (payload : Bytes) :
    parseSaferIds (buildSafer h payload) =
      some { oppsiteId := h.myId, myId := h.oppsiteId, seq := h.seq } := by
  have h1 := u32At_append [] h.myId
    (u32ToBe h.oppsiteId ++ (u64ToBe h.seq ++ ([h.ptype] ++ ([h.roller] ++ payload))))
  have h2 := u32At_append (u32ToBe h.myId) h.oppsiteId
    (u64ToBe h.seq ++ ([h.ptype] ++ ([h.roller] ++ payload)))
  have h3 := u64At_append (u32ToBe h.myId ++ u32ToBe h.oppsiteId) h.seq
    ([h.ptype] ++ ([h.roller] ++ payload))
  simp only [List.nil_append, List.length_nil, List.length_append, length_u32ToBe,
    List.append_assoc] at h1 h2 h3
  rw [parseSaferIds, if_neg (by simp [buildSafer]; omega)]
  simp only [buildSafer, List.append_assoc, h1, h2, h3]

/-- Byte 16 of a safer plaintext is its type. -/
theorem getD_buildSafer_type (h : SaferHeader) (payload : Bytes) :
    (buildSafer h payload).getD 16 0 = h.ptype := by
  rw [buildSafer, List.append_assoc]
  exact getD_after (by simp) _ _

/-- A plaintext of one of the two types parses to its type, roller and payload. -/
theorem parseSaferBody_buildSafer {h : SaferHeader} (payload : Bytes)
    (ht : h.ptype = typeHeartbeat ∨ h.ptype = typeData) :
    parseSaferBody (buildSafer h payload) = some (h.ptype, h.roller, payload) := by
  have hroller : (buildSafer h payload).getD 17 0 = h.roller := getD_after (by simp) _ _
  have hdrop : (buildSafer h payload).drop saferHeaderLen = payload := by
    refine List.drop_left' ?_
    simp [saferHeaderLen]
  rw [parseSaferBody, if_neg (by simp [buildSafer, saferHeaderLen]; omega)]
  simp only [getD_buildSafer_type, hroller, hdrop]
  rw [if_neg (by rcases ht with h | h <;> simp [h])]

/-- The payload of a safer plaintext is what follows its header. -/
theorem drop_of_parseSaferBody {plain : Bytes} {body : UInt8 × UInt8 × Bytes}
    (h : parseSaferBody plain = some body) : plain.drop saferHeaderLen = body.2.2 := by
  unfold parseSaferBody at h
  dsimp only at h
  split at h
  · cases h
  · split at h
    · cases h
    · cases h
      rfl

/-- A safer plaintext is never read as a bare one. -/
theorem parseBare_buildSafer {h : SaferHeader} (payload : Bytes)
    (ht : h.ptype = typeHeartbeat ∨ h.ptype = typeData) :
    parseBare (buildSafer h payload) = none := by
  have hne : (buildSafer h payload).getD 16 0 ≠ bareMarker := by
    rw [getD_buildSafer_type]
    rcases ht with h | h <;> simp [h, typeHeartbeat, typeData, bareMarker]
  rw [parseBare, if_pos hne, ite_self]

/-- A bare plaintext is never accepted as a safer one. -/
theorem parseSaferBody_buildBare (iv padding : UInt64) (payload : Bytes) :
    parseSaferBody (buildBare iv padding payload) = none := by
  simp only [parseSaferBody, getD_buildBare_marker]
  split
  · rfl
  · exact if_pos (by decide)

theorem parseDataPayload_buildDataPayload (conv : UInt32) (data : Bytes) :
    parseDataPayload (buildDataPayload conv data) = some (conv, data) := by
  have h1 := u32At_append [] conv data
  simp only [List.nil_append, List.length_nil] at h1
  rw [parseDataPayload, if_neg (by simp [buildDataPayload])]
  simp only [buildDataPayload, h1, List.drop_left' (length_u32ToBe conv)]

end Wire

end Udp2raw
