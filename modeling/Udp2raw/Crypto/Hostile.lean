import Udp2raw.Conn
import Udp2raw.Crypto.Strict

/-!
# Hostile input

Whatever bytes arrive, decryption returns, with every access inside its buffer.
The splitter moves forward only: a head is deobfuscated behind everything that
was split off before it, so the packets it found stay as they are. What comes out
is taken apart by parsers that check lengths first.
-/

namespace Udp2raw

open Checked

namespace Strict

/-! ## Taking plaintexts apart -/

/-- `read_u64_be`. -/
def readU64Be (p : Bytes) : Except Panic UInt64 := do
  return UInt64.ofNat (BigEndian.decode (← toArray 8 (← slice p 0 8)).toList)

/-- `parse_bare`. -/
def parseBare (plain : Bytes) : Except Panic (Option Bytes) := do
  if plain.length < Wire.bareHeaderLen then return none
  if (← readAt plain 16) ≠ bareMarker then return none
  return some (← sliceFrom plain Wire.bareHeaderLen)

/-- `parse_handshake`. -/
def parseHandshake (data : Bytes) : Except Panic (Option (UInt32 × UInt32 × UInt32)) := do
  if data.length < Wire.handshakeLen then return none
  let id1 ← readU32Be (← sliceFrom data 0)
  let id2 ← readU32Be (← sliceFrom data 4)
  let id3 ← readU32Be (← sliceFrom data 8)
  return some (id1, id2, id3)

/-- `parse_safer_ids`. -/
def parseSaferIds (plain : Bytes) : Except Panic (Option Wire.SaferIds) := do
  if plain.length < 16 then return none
  let oppsiteId ← readU32Be (← sliceFrom plain 0)
  let myId ← readU32Be (← sliceFrom plain 4)
  let seq ← readU64Be (← sliceFrom plain 8)
  return some { oppsiteId, myId, seq }

/-- `parse_safer_body`. -/
def parseSaferBody (plain : Bytes) : Except Panic (Option (UInt8 × UInt8 × Bytes)) := do
  if plain.length < Wire.saferHeaderLen then return none
  let ptype ← readAt plain 16
  if ptype ≠ typeHeartbeat ∧ ptype ≠ typeData then return none
  let roller ← readAt plain 17
  return some (ptype, roller, ← sliceFrom plain Wire.saferHeaderLen)

/-- `parse_data_payload`. -/
def parseDataPayload (data : Bytes) : Except Panic (Option (UInt32 × Bytes)) := do
  if data.length < 4 then return none
  let conv ← readU32Be data
  return some (conv, ← sliceFrom data 4)

/-- `accept_safer_offset`. -/
def acceptSaferOffset (info : ConnInfo) (plain : Bytes) (hbMode : Int32) (now : UInt64) :
    Except Panic (Option (UInt8 × Nat) × ConnInfo) := do
  match ← parseSaferIds plain with
  | none => return (none, info)
  | some ids =>
    if ids.oppsiteId ≠ info.oppsiteId ∨ ids.myId ≠ info.myId then return (none, info)
    let (valid, antiReplay) ← info.antiReplay.isValid ids.seq.toNat
    let info := { info with antiReplay := antiReplay }
    if !valid then return (none, info)
    match ← parseSaferBody plain with
    | none => return (none, info)
    | some (ptype, roller, _) =>
      return (some (ptype, Wire.saferHeaderLen), Conn.noteRoller info ptype roller hbMode now)

theorem readU32Be_drop {p : Bytes} {i : Nat} (h : i + 4 ≤ p.length) :
    readU32Be (p.drop i) = .ok (u32At p i) := by
  have hlen : ((p.drop i).take 4).length = 4 := by
    rw [List.length_take, List.length_drop]
    omega
  obtain ⟨a, b, c, d, hfour⟩ : ∃ a b c d, (p.drop i).take 4 = [a, b, c, d] :=
    List.length_eq_four.mp hlen
  have hp : p.drop i = [a, b, c, d] ++ (p.drop i).drop 4 := by
    rw [← hfour, List.take_append_drop]
  rw [u32At, hfour, hp]
  rfl

theorem readU64Be_drop {p : Bytes} {i : Nat} (h : i + 8 ≤ p.length) :
    readU64Be (p.drop i) = .ok (u64At p i) := by
  have hlen : 8 ≤ (p.drop i).length := by
    rw [List.length_drop]
    omega
  rw [readU64Be, slice_zero_eq_ok hlen, ok_bind, toArray_take hlen, ok_bind,
    BlockModes.toList_blockOf hlen]
  rfl

theorem readAt_getD {p : Bytes} {i : Nat} (h : i < p.length) : readAt p i = .ok (p.getD i 0) := by
  rw [readAt_eq_ok h, List.getD_eq_getElem?_getD, List.getElem?_eq_getElem h, Option.getD_some]

/-- The checked parser of a bare packet does not panic. -/
theorem parseBare_eq (plain : Bytes) : parseBare plain = .ok (Wire.parseBare plain) := by
  unfold parseBare Wire.parseBare
  split
  · rfl
  · next h =>
    have hlen : Wire.bareHeaderLen ≤ plain.length := Nat.not_lt.mp h
    rw [readAt_getD (Nat.lt_of_lt_of_le (by decide) hlen), ok_bind, sliceFrom_eq_ok hlen]
    split <;> rfl

theorem parseHandshake_eq (data : Bytes) :
    parseHandshake data = .ok (Wire.parseHandshake data) := by
  unfold parseHandshake Wire.parseHandshake
  split
  · rfl
  · next h =>
    have hlen : 12 ≤ data.length := Nat.not_lt.mp h
    rw [sliceFrom_eq_ok (by omega), ok_bind, readU32Be_drop (by omega), ok_bind,
      sliceFrom_eq_ok (by omega), ok_bind, readU32Be_drop (by omega), ok_bind,
      sliceFrom_eq_ok (by omega), ok_bind, readU32Be_drop (by omega), ok_bind]
    rfl

theorem parseSaferIds_eq (plain : Bytes) :
    parseSaferIds plain = .ok (Wire.parseSaferIds plain) := by
  unfold parseSaferIds Wire.parseSaferIds
  split
  · rfl
  · rw [sliceFrom_eq_ok (by omega), ok_bind, readU32Be_drop (by omega), ok_bind,
      sliceFrom_eq_ok (by omega), ok_bind, readU32Be_drop (by omega), ok_bind,
      sliceFrom_eq_ok (by omega), ok_bind, readU64Be_drop (by omega), ok_bind]
    rfl

theorem parseSaferBody_eq (plain : Bytes) :
    parseSaferBody plain = .ok (Wire.parseSaferBody plain) := by
  unfold parseSaferBody Wire.parseSaferBody
  split
  · rfl
  · next h =>
    have hlen : Wire.saferHeaderLen ≤ plain.length := Nat.not_lt.mp h
    rw [readAt_getD (Nat.lt_of_lt_of_le (by decide) hlen), ok_bind,
      readAt_getD (i := 17) (Nat.lt_of_lt_of_le (by decide) hlen), sliceFrom_eq_ok hlen]
    dsimp only
    split <;> rfl

theorem parseDataPayload_eq (data : Bytes) :
    parseDataPayload data = .ok (Wire.parseDataPayload data) := by
  unfold parseDataPayload Wire.parseDataPayload
  split
  · rfl
  · next h =>
    have hread : readU32Be data = .ok (u32At data 0) := @readU32Be_drop data 0 (by omega)
    rw [hread, ok_bind, sliceFrom_eq_ok (by omega)]
    rfl

/-- Accepting a packet reads within it. -/
theorem acceptSaferOffset_eq (info : ConnInfo) (plain : Bytes) (hbMode : Int32) (now : UInt64) :
    acceptSaferOffset info plain hbMode now = Conn.acceptSaferOffset info plain hbMode now := by
  unfold acceptSaferOffset Conn.acceptSaferOffset
  rw [parseSaferIds_eq, ok_bind]
  cases Wire.parseSaferIds plain with
  | none => rfl
  | some ids =>
    dsimp only
    split
    · rfl
    · refine congrArg (info.antiReplay.isValid ids.seq.toNat >>= ·) (funext fun r => ?_)
      obtain ⟨valid, antiReplay⟩ := r
      cases valid with
      | false => rfl
      | true =>
        refine (congrArg (· >>= _) (parseSaferBody_eq plain)).trans ?_
        rw [ok_bind]
        cases Wire.parseSaferBody plain with
        | none => rfl
        | some body => rfl

/-- A plaintext is handled without an access outside it: as a safer packet by any connection, down
to the conversation of its payload, and as a handshake, bare or in its bare frame. -/
structure Handled (plain : Bytes) : Prop where
  accepted : ∀ (info : ConnInfo) (hbMode : Int32) (now : UInt64),
    Returns (acceptSaferOffset info plain hbMode now) fun r =>
      ∀ ptype off, r.1 = some (ptype, off) →
        Returns (sliceFrom plain off) fun payload =>
          Returns (parseDataPayload payload) fun _ => True
  handshake : Returns (parseHandshake plain) fun _ => True
  bare : Returns (parseBare plain) fun r => ∀ payload, r = some payload →
    Returns (parseHandshake payload) fun _ => True

/-- Every plaintext is. -/
theorem handled (plain : Bytes) : Handled plain := by
  have handshakes : ∀ data, Returns (parseHandshake data) fun _ => True :=
    fun data => ⟨_, parseHandshake_eq data, trivial⟩
  refine ⟨fun info hbMode now => ?_, handshakes plain, ⟨_, parseBare_eq plain, ?_⟩⟩
  · obtain ⟨r, after, hr, -, -, hcase⟩ := Conn.acceptSaferOffset_cases info plain hbMode now
    refine ⟨(r, after), (acceptSaferOffset_eq info plain hbMode now).trans hr, ?_⟩
    intro ptype off hoff
    have hlen : off ≤ plain.length := by
      rcases hcase with ⟨hnone, -⟩ | ⟨seq, -, -, hbody⟩
      · rw [hnone] at hoff
        cases hoff
      · -- an accepted body has passed the length check
        obtain ⟨body, hparse, heq⟩ := Option.map_eq_some_iff.mp (hbody.symm.trans hoff)
        cases heq
        by_contra hshort
        rw [Wire.parseSaferBody, if_pos (Nat.not_le.mp hshort)] at hparse
        cases hparse
    exact ⟨_, sliceFrom_eq_ok hlen, ⟨_, parseDataPayload_eq _, trivial⟩⟩
  · intro payload _
    exact handshakes payload

/-! ## Splitting -/

section

variable {prim : Primitives} {c : Crypto}

/-- The engine deobfuscates every head. -/
def HeadsReturn (prim : Primitives) (c : Crypto) : Prop :=
  ∀ h : Block, ∃ b : Block, c.groDeobfuscateHead prim h.toList = .ok b.toList

/-- The splitter has passed `pos` bytes of the buffer: the packets it found lie there, in order,
none too long, each behind its two length bytes. -/
structure GroState.Splits (s : GroState) : Prop where
  length : s.pos + s.remaining = s.buf.length
  inside : ∀ r ∈ s.out, r.1 + r.2 ≤ s.pos
  sizes : ∀ r ∈ s.out, r.2 ≤ maxDataLen
  ordered : s.out.Pairwise fun a b => a.1 + a.2 < b.1
  few : 2 * s.out.length ≤ s.pos

theorem GroState.splits_start (buf : Bytes) : (start buf).Splits :=
  ⟨Nat.zero_add _, by simp [start], by simp [start], .nil, Nat.le_refl 0⟩

variable {s : GroState}

/-- A state with a head left: what precedes it, the head, what deobfuscation makes of it, and the
length it then starts with. -/
theorem exists_head (hheads : HeadsReturn prim c) (hlen : s.pos + s.remaining = s.buf.length)
    (h16 : 16 ≤ s.remaining) :
    ∃ (h b : Block) (x : UInt16) (after : Bytes),
      s.buf = s.buf.take s.pos ++ (h.toList ++ s.buf.drop (s.pos + 16)) ∧
      c.groDeobfuscateHead prim h.toList = .ok b.toList ∧
      b.toList ++ s.buf.drop (s.pos + 16) = u16ToBe x ++ after ∧
      after.length = s.remaining - 2 := by
  obtain ⟨h, rest, hrest⟩ := @Crypto.exists_block_append (s.buf.drop s.pos)
    (by rw [List.length_drop]; omega)
  have hdrop : s.buf.drop (s.pos + 16) = rest := by
    rw [← List.drop_drop, hrest, List.drop_left' h.toList_length]
  obtain ⟨b, hb⟩ := hheads h
  obtain ⟨x, after, hx⟩ := @Wire.exists_u16_append (b.toList ++ s.buf.drop (s.pos + 16))
    (by simp; omega)
  refine ⟨h, b, x, after, ?_, hb, hx, ?_⟩
  · rw [hdrop, ← hrest, List.take_append_drop]
  · have := congrArg List.length hx
    simp only [List.length_append, List.Vector.toList_length, List.length_drop, length_u16ToBe]
      at this
    omega

/-- What a round can do: stop behind a length that does not fit, or pass one more packet. -/
theorem groRound_eq (hlen : s.pos + s.remaining = s.buf.length) (h16 : 16 ≤ s.remaining)
    {h b : Block} {x : UInt16} {after : Bytes}
    (hbuf : s.buf = s.buf.take s.pos ++ (h.toList ++ s.buf.drop (s.pos + 16)))
    (hb : c.groDeobfuscateHead prim h.toList = .ok b.toList)
    (hx : b.toList ++ s.buf.drop (s.pos + 16) = u16ToBe x ++ after) :
    groRound prim c s =
      let buf := s.buf.take s.pos ++ (b.toList ++ s.buf.drop (s.pos + 16))
      if x.toNat > s.remaining - 2 ∨ x.toNat > maxDataLen then
        .ok ({ s with buf, pos := s.pos + 2, remaining := s.remaining - 2 }, false)
      else .ok ({ buf, pos := s.pos + 2 + x.toNat, remaining := s.remaining - 2 - x.toNat,
                  out := s.out ++ [(s.pos + 2, x.toNat)] }, true) := by
  have hpos : (s.buf.take s.pos).length = s.pos := List.length_take_of_le (by omega)
  have hslice : slice s.buf s.pos (s.pos + 16) = .ok h.toList := by
    rw [slice_eq_ok (by omega) (by omega), List.drop_take, Nat.add_sub_cancel_left]
    conv => lhs; rw [hbuf, List.drop_left' hpos, List.take_left' h.toList_length]
  have htail : sliceFrom (s.buf.take s.pos ++ b.toList ++ s.buf.drop (s.pos + 16)) s.pos =
      .ok (u16ToBe x ++ after) := by
    rw [sliceFrom_eq_ok (by simp; omega), List.append_assoc, List.drop_left' hpos, hx]
  have hread : readU16At (u16ToBe x ++ after) 0 = .ok x := readU16At_append [] x after
  rw [groRound, hslice, ok_bind, hb, ok_bind]
  dsimp only
  rw [htail, ok_bind, hread, ok_bind, sub_eq_ok (by omega), ok_bind, List.append_assoc]
  by_cases hfits : x.toNat > s.remaining - 2
  · rw [if_pos hfits, if_pos (.inl hfits)]
    rfl
  · rw [if_neg hfits]
    by_cases hlong : x.toNat > maxDataLen
    · rw [if_pos hlong, if_pos (.inr hlong)]
      rfl
    · rw [if_neg hlong, if_neg (not_or.mpr ⟨hfits, hlong⟩), sub_eq_ok (Nat.not_lt.mp hfits)]
      rfl

/-- A round returns, keeps the shape of the state, and touches nothing that was passed. -/
theorem groRound_returns (hheads : HeadsReturn prim c) (hs : s.Splits) (h16 : 16 ≤ s.remaining) :
    Returns (groRound prim c s) fun r =>
      r.1.Splits ∧ r.1.buf.length = s.buf.length ∧ s.pos ≤ r.1.pos ∧
        r.1.buf.take s.pos = s.buf.take s.pos := by
  obtain ⟨h, head, x, after, hsplit, hhead, hx, -⟩ := exists_head hheads hs.length h16
  have hround := groRound_eq hs.length h16 hsplit hhead hx
  have hpos : (s.buf.take s.pos).length = s.pos :=
    List.length_take_of_le (by have := hs.length; omega)
  have hbuf : (s.buf.take s.pos ++ (head.toList ++ s.buf.drop (s.pos + 16))).length =
      s.buf.length := by
    have := hs.length
    simp only [List.length_append, List.Vector.toList_length, List.length_drop, hpos]
    omega
  have htake : (s.buf.take s.pos ++ (head.toList ++ s.buf.drop (s.pos + 16))).take s.pos =
      s.buf.take s.pos := List.take_left' hpos
  have hlen := hs.length
  have hfew := hs.few
  rw [hround]
  refine returns_ite (fun _ => returns_ok ⟨?_, hbuf, Nat.le_add_right _ _, htake⟩)
    fun hfits => returns_ok
      ⟨?_, hbuf, (Nat.le_add_right _ _).trans (Nat.le_add_right _ _), htake⟩
  · refine ⟨by simp only [hbuf]; omega, fun r hr => ?_, hs.sizes, hs.ordered, by simp only; omega⟩
    have := hs.inside r hr
    simp only
    omega
  · obtain ⟨hx, hmax⟩ := not_or.mp hfits
    refine ⟨by simp only [hbuf]; omega, ?_, ?_, ?_, ?_⟩
    · intro r hr
      rcases List.mem_append.mp hr with hr | hr
      · have := hs.inside r hr
        simp only
        omega
      · rw [List.mem_singleton.mp hr]
    · intro r hr
      rcases List.mem_append.mp hr with hr | hr
      · exact hs.sizes r hr
      · rw [List.mem_singleton.mp hr]
        exact Nat.not_lt.mp hmax
    · refine List.pairwise_append.mpr ⟨hs.ordered, List.pairwise_singleton _ _, ?_⟩
      intro a ha b hb
      rw [List.mem_singleton.mp hb]
      have := hs.inside a ha
      simp only
      omega
    · simp only [List.length_append, List.length_singleton]
      omega

/-- The loop goes from one round to the next. -/
def GroNext (prim : Primitives) (c : Crypto) (s t : GroState) : Prop :=
  16 ≤ s.remaining ∧ groRound prim c s = .ok (t, true)

/-- The state before some round over a received buffer. -/
def GroReached (prim : Primitives) (c : Crypto) (wire : Bytes) (s : GroState) : Prop :=
  Relation.ReflTransGen (GroNext prim c) (.start wire) s

/-- Every state of the split loop is a split of the input. -/
theorem GroReached.splits (hheads : HeadsReturn prim c) {wire : Bytes}
    (h : GroReached prim c wire s) : s.Splits := by
  induction h with
  | refl => exact GroState.splits_start wire
  | tail _ hnext ih =>
    obtain ⟨h16, hround⟩ := hnext
    exact ((groRound_returns hheads ih h16).post hround).1

/-- The loop at a round that returned. -/
theorem groLoop_of_round {t : GroState} {more : Bool} (h16 : 16 ≤ s.remaining)
    (h : groRound prim c s = .ok (t, more)) :
    groLoop prim c s = if more then groLoop prim c t else .ok t := by
  rw [groLoop, if_neg (Nat.not_lt.mpr h16)]
  split
  · next e herr =>
    rw [h] at herr
    cases herr
  · next u hu =>
    rw [h] at hu
    cases hu
    rfl
  · next u hu =>
    rw [h] at hu
    cases hu
    rfl

/-- The loop returns from every state that splits its buffer. -/
theorem groLoop_returns (hheads : HeadsReturn prim c) (hs : s.Splits) :
    Returns (groLoop prim c s) fun t => t.Splits ∧ t.buf.length = s.buf.length := by
  induction hn : s.remaining using Nat.strongRecOn generalizing s with
  | ind n ih =>
    by_cases h16 : s.remaining < 16
    · rw [groLoop, if_pos h16]
      exact returns_ok ⟨hs, rfl⟩
    · have h16 := Nat.not_lt.mp h16
      obtain ⟨⟨t, more⟩, hround, ht, hlen, -, -⟩ := groRound_returns hheads hs h16
      rw [groLoop_of_round h16 hround]
      cases more with
      | false => exact returns_ok ⟨ht, hlen⟩
      | true =>
        exact (ih _ (hn ▸ groRound_remaining prim hround) ht rfl).mono
          fun v hv => ⟨hv.1, hv.2.trans hlen⟩

/-- With as many rounds as bytes the unchecked splitter does what the loop does. -/
theorem groLoop_eq (hheads : HeadsReturn prim c) (fuel : Nat)
    (hlen : s.pos + s.remaining = s.buf.length) (hfuel : s.remaining ≤ fuel) :
    (do let t ← groLoop prim c s; return (t.buf, t.out)) =
      Wire.groLoop prim c fuel s.buf s.pos s.remaining s.out := by
  induction fuel generalizing s with
  | zero =>
    rw [groLoop, if_pos (by omega)]
    rfl
  | succ fuel ih =>
    by_cases h16 : s.remaining < 16
    · rw [groLoop, Wire.groLoop, if_pos h16, if_pos h16]
      rfl
    · have h16 := Nat.not_lt.mp h16
      obtain ⟨h, b, x, after, hbuf, hb, hx, hafter⟩ := exists_head hheads hlen h16
      have hround := groRound_eq hlen h16 hbuf hb hx
      have hpos : (s.buf.take s.pos).length = s.pos := List.length_take_of_le (by omega)
      have hrest : (h.toList ++ s.buf.drop (s.pos + 16)).length = s.remaining := by
        simp only [List.length_append, List.Vector.toList_length, List.length_drop]
        omega
      have hwire := Wire.groLoop_succ prim hb fuel (s.buf.take s.pos) (s.buf.drop (s.pos + 16))
        s.out hx
      rw [← hbuf, hpos, hrest, hafter] at hwire
      rw [hwire]
      dsimp only at hround
      by_cases hfits : x.toNat > s.remaining - 2
      · rw [if_pos (.inl hfits)] at hround
        rw [groLoop_of_round h16 hround, if_pos hfits]
        rfl
      by_cases hlong : x.toNat > maxDataLen
      · rw [if_pos (.inr hlong)] at hround
        rw [groLoop_of_round h16 hround, if_neg hfits, if_pos hlong]
        rfl
      rw [if_neg (not_or.mpr ⟨hfits, hlong⟩)] at hround
      rw [groLoop_of_round h16 hround, if_neg hfits, if_neg hlong, if_pos rfl]
      refine ih ?_ (by simp only; omega)
      have := congrArg List.length hbuf
      simp only [List.length_append, List.Vector.toList_length, List.length_drop, hpos] at this ⊢
      omega

/-- Bytes below a position determine the packets that end there. -/
theorem packetAt_congr {a b : Bytes} {pos : Nat} (h : a.take pos = b.take pos) {r : Nat × Nat}
    (hr : r.1 + r.2 ≤ pos) : Wire.packetAt a r = Wire.packetAt b r := by
  have key : ∀ l : Bytes, Wire.packetAt l r = ((l.take pos).drop r.1).take r.2 := by
    intro l
    rw [Wire.packetAt, List.drop_take, List.take_take, Nat.min_eq_left (by omega)]
  rw [key, key, h]

end

/-! ## Engines -/

section

variable (prim : Primitives) (cpu : Bool) (mode : CipherMode) (auth : AuthMode) (legacy : Bool)
  (keys : Keys) (backend : AesBackend)

/-- The engine of either role, with any keys. -/
abbrev engine : Crypto := Crypto.withBackend prim.hashes cpu mode auth legacy keys backend

/-- Verification never panics. -/
theorem verify_returns (buf : Bytes) :
    Returns (verify prim.hashes (engine prim cpu mode auth legacy keys backend).rxAuth buf)
      fun _ => True := by
  obtain ⟨t, ht, -⟩ := @Authenticator.tag_new prim.hashes (if mode.isAead then .none else auth)
    keys.hmacKeyDecrypt (buf.take (buf.length -
      (engine prim cpu mode auth legacy keys backend).rxAuth.mode.tagLen))
  have htag : (engine prim cpu mode auth legacy keys backend).rxAuth.tag prim.hashes (buf.take
      (buf.length - (engine prim cpu mode auth legacy keys backend).rxAuth.mode.tagLen)) =
        .ok t := ht
  rw [verify_eq, Authenticator.verify]
  dsimp only
  refine returns_ite (fun _ => returns_ok trivial) fun _ => ?_
  rw [htag, ok_bind]
  exact returns_ite (fun _ => returns_ok trivial) fun _ => returns_ok trivial

theorem verifyTruncate_returns (buf : Bytes) :
    Returns (verifyTruncate prim (engine prim cpu mode auth legacy keys backend) buf)
      fun _ => True := by
  refine (verify_returns prim cpu mode auth legacy keys backend buf).bind fun r _ => ?_
  cases r with
  | none => exact returns_ok trivial
  | some n => exact returns_ok trivial

/-- The ECB pass over a first block that is there. -/
theorem firstBlockEcb_returns {c : Crypto} {k : AesKey} (f : AesKey → Block → Block) {buf : Bytes}
    (h : 16 ≤ buf.length) : Returns (c.firstBlockEcb (some k) f buf) fun _ => True := by
  unfold Crypto.firstBlockEcb
  refine returns_ite (fun _ => returns_ok trivial) fun _ => ?_
  unfold Crypto.ecbFirst
  rw [slice_zero_eq_ok h]
  exact returns_ok trivial

theorem cipherDecrypt_returns (buf : Bytes) :
    Returns (cipherDecrypt prim (engine prim cpu mode auth legacy keys backend) buf)
      fun _ => True := by
  rw [cipherDecrypt_eq]
  cases mode with
  | none => exact returns_ok trivial
  | chaCha20Poly1305 => exact returns_ok trivial
  | xor => exact returns_ok trivial
  | aes128Cbc => exact returns_ite (fun _ => returns_ok trivial) fun _ => returns_ok trivial
  | aes128Cfb =>
    refine returns_ite (fun _ => returns_ok trivial) fun hlen => ?_
    obtain ⟨k, hk⟩ : ∃ k, unwrap (engine prim cpu .aes128Cfb auth legacy keys backend).rxAes =
        .ok k := ⟨_, rfl⟩
    have h16 : 16 ≤ (k.cfbDecryptZeroIv prim.aes buf).length := by
      rw [AesKey.length_cfbDecryptZeroIv]
      exact Nat.not_lt.mp hlen
    rw [hk, ok_bind]
    exact (firstBlockEcb_returns _ h16).bind fun _ _ => returns_ok trivial

/-- Decryption returns for every buffer. -/
theorem decryptVec_returns (buf : Bytes) :
    Returns (decryptVec prim (engine prim cpu mode auth legacy keys backend) buf)
      fun _ => True := by
  unfold decryptVec
  refine returns_ite (fun _ => returns_ok trivial) fun _ => ?_
  split
  · rw [aeadDecryptVec_eq]
    exact returns_ok trivial
  · refine returns_ite (fun _ => ?_) fun _ => ?_
    · refine (verifyTruncate_returns prim cpu mode auth legacy keys backend buf).bind fun r _ => ?_
      cases r with
      | none => exact returns_ok trivial
      | some buf => exact cipherDecrypt_returns prim cpu mode auth legacy keys backend buf
    · refine (cipherDecrypt_returns prim cpu mode auth legacy keys backend buf).bind fun r _ => ?_
      cases r with
      | none => exact returns_ok trivial
      | some buf => exact verifyTruncate_returns prim cpu mode auth legacy keys backend buf

theorem headsReturn : HeadsReturn prim (engine prim cpu mode auth legacy keys backend) :=
  Crypto.groDeobfuscateHead_returns prim cpu mode auth legacy keys backend

/-- The splitter with every access checked is the splitter. -/
theorem groUnwrap_eq (wire : Bytes) :
    groUnwrap prim (engine prim cpu mode auth legacy keys backend) wire =
      Wire.groUnwrap prim (engine prim cpu mode auth legacy keys backend) wire :=
  groLoop_eq (headsReturn prim cpu mode auth legacy keys backend) wire.length
    (GroState.splits_start wire).length le_rfl

/-- Splitting returns ranges inside the buffer. -/
theorem groUnwrap_returns (wire : Bytes) :
    Returns (groUnwrap prim (engine prim cpu mode auth legacy keys backend) wire) fun r =>
      r.1.length = wire.length ∧ (∀ e ∈ r.2, e.1 + e.2 ≤ wire.length) ∧
        (∀ e ∈ r.2, e.2 ≤ 1800) ∧ (r.2.Pairwise fun a b => a.1 + a.2 < b.1) ∧
        2 * r.2.length ≤ wire.length := by
  refine (groLoop_returns (headsReturn prim cpu mode auth legacy keys backend)
    (GroState.splits_start wire)).bind fun t ht => returns_ok ?_
  obtain ⟨hsplit, hlen⟩ := ht
  have hpos : t.pos ≤ wire.length := by
    have := hsplit.length
    have hstart : (GroState.start wire).buf.length = wire.length := rfl
    omega
  exact ⟨hlen, fun e he => (hsplit.inside e he).trans hpos, hsplit.sizes, hsplit.ordered,
    hsplit.few.trans hpos⟩

/-- Decrypting the packets of a split buffer returns. -/
theorem decryptParts_returns (buf : Bytes) (parts : List (Nat × Nat))
    (h : ∀ e ∈ parts, e.1 + e.2 ≤ buf.length) :
    Returns (decryptParts prim (engine prim cpu mode auth legacy keys backend) buf parts)
      fun _ => True := by
  induction parts with
  | nil => exact returns_ok trivial
  | cons e parts ih =>
    obtain ⟨off, len⟩ := e
    rw [decryptParts, slice_eq_ok (Nat.le_add_right _ _) (h _ List.mem_cons_self), ok_bind]
    refine (decryptVec_returns prim cpu mode auth legacy keys backend _).bind fun plain _ => ?_
    exact (ih fun e he => h e (List.mem_cons_of_mem _ he)).bind fun _ _ => returns_ok trivial

/-- The whole receiver never panics. -/
theorem decryptSaferVec_returns (wire : Bytes) (fixGro : Bool) :
    Returns (decryptSaferVec prim (engine prim cpu mode auth legacy keys backend) wire fixGro)
      fun _ => True := by
  refine returns_ite (fun _ => ?_) fun _ => ?_
  · exact (decryptVec_returns prim cpu mode auth legacy keys backend wire).bind
      fun _ _ => returns_ok trivial
  · refine (groUnwrap_returns prim cpu mode auth legacy keys backend wire).bind fun r hr => ?_
    obtain ⟨hlen, hinside, -⟩ := hr
    exact decryptParts_returns prim cpu mode auth legacy keys backend r.1 r.2
      fun e he => (hinside e he).trans hlen.ge

/-- Decryption of any received bytes is total, with and without splitting, and every plaintext is
handled. The ranges split off lie inside the buffer, apart and in order, none longer than 1800
bytes, at most one for two bytes; no round changes the bytes of a range found before it. -/
theorem hostile_input_total (wire : Bytes) :
    let c := Crypto.withBackend prim.hashes cpu mode auth legacy keys backend
    (∀ fixGro, Returns (decryptSaferVec prim c wire fixGro) fun plains =>
      ∀ plain ∈ plains, Handled plain) ∧
    (∃ buf ranges, groUnwrap prim c wire = .ok (buf, ranges) ∧
      buf.length = wire.length ∧ (∀ r ∈ ranges, r.1 + r.2 ≤ buf.length) ∧
        (∀ r ∈ ranges, r.2 ≤ 1800) ∧ (ranges.Pairwise fun a b => a.1 + a.2 < b.1) ∧
        ranges.length ≤ wire.length / 2) ∧
    ∀ s, GroReached prim c wire s → 16 ≤ s.remaining →
      ∃ t more, groRound prim c s = .ok (t, more) ∧
        ∀ r ∈ s.out, Wire.packetAt t.buf r = Wire.packetAt s.buf r := by
  intro c
  refine ⟨fun fixGro => ?_, ?_, fun s hs h16 => ?_⟩
  · exact (decryptSaferVec_returns prim cpu mode auth legacy keys backend wire fixGro).mono
      fun plains _ plain _ => handled plain
  · obtain ⟨⟨buf, ranges⟩, hrun, hlen, hinside, hsize, hordered, hfew⟩ :=
      groUnwrap_returns prim cpu mode auth legacy keys backend wire
    have hhalf : ranges.length ≤ wire.length / 2 :=
      (Nat.le_div_iff_mul_le (by decide)).mpr ((Nat.mul_comm _ _).trans_le hfew)
    exact ⟨buf, ranges, hrun, hlen, fun e he => (hinside e he).trans hlen.ge, hsize, hordered,
      hhalf⟩
  · have hheads := headsReturn prim cpu mode auth legacy keys backend
    have hsplit := GroReached.splits hheads hs
    obtain ⟨⟨t, more⟩, hround, -, -, -, htake⟩ := groRound_returns hheads hsplit h16
    exact ⟨t, more, hround, fun e he => packetAt_congr htake (hsplit.inside e he)⟩

/-- Two wrapped packets of 14 bytes. -/
def twoPackets : Bytes := [0, 14] ++ List.replicate 14 1 ++ ([0, 14] ++ List.replicate 14 2)

/-- The second round leaves the first packet as it is. -/
theorem hostile_input_total_two_packets :
    let c := Crypto.withBackend (default : Primitives).hashes true .none .none false
      (Keys.derive (default : Primitives).hashes [] true) .auto
    ∃ s, GroReached default c twoPackets s ∧ s.out = [(2, 14)] ∧ ∃ t more,
      groRound default c s = .ok (t, more) ∧
        ∀ r ∈ s.out, Wire.packetAt t.buf r = Wire.packetAt s.buf r := by
  intro c
  have hround : groRound default c (.start twoPackets) =
      .ok (⟨twoPackets, 16, 16, [(2, 14)]⟩, true) := by decide +kernel
  have hreached : GroReached default c twoPackets ⟨twoPackets, 16, 16, [(2, 14)]⟩ :=
    .single ⟨by decide, hround⟩
  exact ⟨_, hreached, rfl, (hostile_input_total default true .none .none false _ .auto
    twoPackets).2.2 _ hreached (Nat.le_refl 16)⟩

end

end Strict

end Udp2raw
