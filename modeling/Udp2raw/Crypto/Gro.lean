import Udp2raw.Crypto.Engine

/-!
# Splitting merged bursts

With `--fix-gro` every packet is preceded by its length and the head is
obfuscated, so that the receiver can split a burst the network card has merged.
Splitting rewrites the buffer in place, head after head; a head reaches into the
packet behind it. Whole packets survive whatever follows them.
-/

namespace Udp2raw

open Checked
open BlockModes (blockOf blockOf_append toList_blockOf)

namespace Crypto

variable (prim : Primitives)

/-- `ecb_encrypt1`. -/
def ecbEncrypt1 (c : Crypto) (block : Bytes) : Except Panic Bytes :=
  ecbFirst c.ecbEnc (AesKey.encryptBlock prim.aes) block

/-- `ecb_decrypt1`. -/
def ecbDecrypt1 (c : Crypto) (block : Bytes) : Except Panic Bytes :=
  ecbFirst c.ecbDec (AesKey.decryptBlock prim.aes) block

/-- The two length bytes xored with the derived bytes. -/
def xorHead (c : Crypto) (head : Bytes) : Except Panic Bytes := do
  let a ← readAt head 0
  let b ← readAt head 1
  return [a ^^^ c.keys.groXor.get 0, b ^^^ c.keys.groXor.get 1] ++ head.drop 2

/-- `gro_obfuscate_head`. -/
def groObfuscateHead (c : Crypto) (head : Bytes) : Except Panic Bytes :=
  match c.cipherMode with
  | .xor | .chaCha20Poly1305 => c.xorHead head
  | .aes128Cbc | .aes128Cfb => c.ecbEncrypt1 prim head
  | .none => .ok head

/-- `gro_deobfuscate_head`. -/
def groDeobfuscateHead (c : Crypto) (head : Bytes) : Except Panic Bytes :=
  match c.cipherMode with
  | .xor | .chaCha20Poly1305 => c.xorHead head
  | .aes128Cbc | .aes128Cfb => c.ecbDecrypt1 prim head
  | .none => .ok head

end Crypto

namespace Wire

variable (prim : Primitives)

/-- A packet behind its length, before the head is obfuscated. -/
def frame (encrypted : Bytes) : Bytes := u16ToBe (UInt16.ofNat encrypted.length) ++ encrypted

/-- `gro_wrap_in_place`. -/
def groWrap (c : Crypto) (encrypted : Bytes) : Except Panic Bytes :=
  let buf := frame encrypted
  if buf.length ≥ 16 ∨ ¬ c.cipherMode.isAes then c.groObfuscateHead prim buf else .ok buf

/-- The loop of `gro_unwrap`; it runs at most as often as bytes remain. -/
def groLoop (c : Crypto) : Nat → Bytes → Nat → Nat → List (Nat × Nat) →
    Except Panic (Bytes × List (Nat × Nat))
  | 0, buf, _, _, out => .ok (buf, out)
  | fuel + 1, buf, pos, remaining, out =>
    if remaining < 16 then .ok (buf, out)
    else do
      let head ← slice buf pos (pos + 16)
      let head ← c.groDeobfuscateHead prim head
      let buf := buf.take pos ++ head ++ buf.drop (pos + 16)
      let singleLen := (← readU16At buf pos).toNat
      let pos := pos + 2
      let remaining := remaining - 2
      if singleLen > remaining then return (buf, out)
      else if singleLen > maxDataLen then return (buf, out)
      else groLoop c fuel buf (pos + singleLen) (remaining - singleLen) (out ++ [(pos, singleLen)])

/-- `gro_unwrap`: the deobfuscated buffer and the packets in it. -/
def groUnwrap (c : Crypto) (buf : Bytes) : Except Panic (Bytes × List (Nat × Nat)) :=
  groLoop prim c buf.length buf 0 buf.length []

/-- The packet an entry stands for. -/
def packetAt (buf : Bytes) (entry : Nat × Nat) : Bytes := (buf.drop entry.1).take entry.2

end Wire

namespace Crypto

/-! ## Heads -/

section

variable (prim : Primitives)

theorem xorHead_cons (c : Crypto) (x y : UInt8) (rest : Bytes) :
    c.xorHead (x :: y :: rest) =
      .ok ((x ^^^ c.keys.groXor.get 0) :: (y ^^^ c.keys.groXor.get 1) :: rest) := rfl

/-- A block has a first and a second byte. -/
theorem toList_eq_cons_cons (b : Block) : ∃ x y r, b.toList = x :: y :: r := by
  obtain ⟨_ | ⟨x, _ | ⟨y, r⟩⟩, hl⟩ := b
  · cases hl
  · cases hl
  · exact ⟨x, y, r, rfl⟩

/-- The mask covers the head and is undone with the same key. -/
theorem xorHead_append (c : Crypto) (b : Block) :
    ∃ h : Block, (∀ rest, c.xorHead (b.toList ++ rest) = .ok (h.toList ++ rest)) ∧
      ∀ c' : Crypto, c'.keys.groXor = c.keys.groXor → c'.xorHead h.toList = .ok b.toList := by
  obtain ⟨x, y, r, hb⟩ := toList_eq_cons_cons b
  have hlen : (x :: y :: r).length = 16 := hb ▸ b.toList_length
  refine ⟨⟨(x ^^^ c.keys.groXor.get 0) :: (y ^^^ c.keys.groXor.get 1) :: r, hlen⟩,
    fun rest => ?_, fun c' hkeys => ?_⟩
  · rw [hb]
    rfl
  · change c'.xorHead ((x ^^^ c.keys.groXor.get 0) :: (y ^^^ c.keys.groXor.get 1) :: r) = _
    rw [xorHead_cons, hkeys, xor_xor_cancel, xor_xor_cancel, hb]

theorem xorHead_roundtrip {c c' : Crypto} (hkeys : c'.keys.groXor = c.keys.groXor) (b : Block)
    (rest : Bytes) :
    ∃ h : Block, c.xorHead (b.toList ++ rest) = .ok (h.toList ++ rest) ∧
      c'.xorHead h.toList = .ok b.toList := by
  obtain ⟨h, hforth, hback⟩ := xorHead_append c b
  exact ⟨h, hforth rest, hback c' hkeys⟩

theorem xorHead_returns (c : Crypto) (b : Block) :
    ∃ h : Block, c.xorHead b.toList = .ok h.toList := by
  obtain ⟨h, hforth, -⟩ := xorHead_append c b
  exact ⟨h, by simpa only [List.append_nil] using hforth []⟩

theorem ecb_roundtrip {c c' : Crypto} {k k' : AesKey} (henc : c.ecbEnc = some k)
    (hdec : c'.ecbDec = some k') (hk : k.key = k'.key) (b : Block) (rest : Bytes) :
    ∃ h : Block, c.ecbEncrypt1 prim (b.toList ++ rest) = .ok (h.toList ++ rest) ∧
      c'.ecbDecrypt1 prim h.toList = .ok b.toList := by
  refine ⟨k.encryptBlock prim.aes b, by rw [ecbEncrypt1, henc, ecbFirst_append], ?_⟩
  have hback := ecbFirst_append k' (AesKey.decryptBlock prim.aes) (k.encryptBlock prim.aes b) []
  rw [List.append_nil, List.append_nil, AesKey.decryptBlock_encryptBlock hk] at hback
  rw [ecbDecrypt1, hdec, hback]

theorem ecbDecrypt1_returns {c : Crypto} {k : AesKey} (hdec : c.ecbDec = some k) (b : Block) :
    ∃ h : Block, c.ecbDecrypt1 prim b.toList = .ok h.toList := by
  refine ⟨k.decryptBlock prim.aes b, ?_⟩
  have hback := ecbFirst_append k (AesKey.decryptBlock prim.aes) b []
  rw [List.append_nil, List.append_nil] at hback
  rw [ecbDecrypt1, hdec, hback]

/-- A buffer of at least 16 bytes starts with a block. -/
theorem exists_block_append {buf : Bytes} (h : 16 ≤ buf.length) :
    ∃ (b : Block) (rest : Bytes), buf = b.toList ++ rest := by
  refine ⟨blockOf 16 buf, buf.drop 16, ?_⟩
  rw [toList_blockOf h, List.take_append_drop]

variable (cpu cpu' : Bool) (mode : CipherMode) (auth : AuthMode) (legacy : Bool) (keys : Keys)
  (backend backend' : AesBackend)

/-- The peer restores every head, and the bytes behind it are not touched. -/
theorem groHead_roundtrip (b : Block) (rest : Bytes) :
    ∃ h : Block,
      (sender prim cpu mode auth legacy keys backend).groObfuscateHead prim (b.toList ++ rest) =
        .ok (h.toList ++ rest) ∧
      (receiver prim cpu' mode auth legacy keys backend').groDeobfuscateHead prim h.toList =
        .ok b.toList := by
  cases mode with
  | none => exact ⟨b, rfl, rfl⟩
  | xor => exact xorHead_roundtrip rfl b rest
  | chaCha20Poly1305 => exact xorHead_roundtrip rfl b rest
  | aes128Cbc => exact ecb_roundtrip prim rfl rfl (by simp [Keys.mirror]) b rest
  | aes128Cfb => exact ecb_roundtrip prim rfl rfl (by simp [Keys.mirror]) b rest

/-- Deobfuscating any 16 bytes gives 16 bytes. -/
theorem groDeobfuscateHead_returns (b : Block) :
    ∃ h : Block, (withBackend prim.hashes cpu mode auth legacy keys backend).groDeobfuscateHead
      prim b.toList = .ok h.toList := by
  cases mode with
  | none => exact ⟨b, rfl⟩
  | xor => exact xorHead_returns _ b
  | chaCha20Poly1305 => exact xorHead_returns _ b
  | aes128Cbc => exact ecbDecrypt1_returns prim rfl b
  | aes128Cfb => exact ecbDecrypt1_returns prim rfl b

end

end Crypto

namespace Wire

section

variable (prim : Primitives) {c : Crypto}

/-- One round of the loop at a head that is known. -/
theorem groLoop_succ {h b : Block} (hhead : c.groDeobfuscateHead prim h.toList = .ok b.toList)
    (fuel : Nat) (done rest : Bytes) (out : List (Nat × Nat)) {x : UInt16} {after : Bytes}
    (hx : b.toList ++ rest = u16ToBe x ++ after) :
    groLoop prim c (fuel + 1) (done ++ (h.toList ++ rest)) done.length (h.toList ++ rest).length
        out =
      if x.toNat > after.length then .ok (done ++ (b.toList ++ rest), out)
      else if x.toNat > maxDataLen then .ok (done ++ (b.toList ++ rest), out)
      else groLoop prim c fuel (done ++ (b.toList ++ rest)) (done.length + 2 + x.toNat)
        (after.length - x.toNat) (out ++ [(done.length + 2, x.toNat)]) := by
  have hlen : (h.toList ++ rest).length = after.length + 2 := by
    have := congrArg List.length hx
    simp only [List.length_append, List.Vector.toList_length, length_u16ToBe] at this ⊢
    omega
  have hslice : slice (done ++ (h.toList ++ rest)) done.length (done.length + 16) =
      .ok h.toList := by
    rw [slice_eq_ok (by omega) (by simp), List.take_append, List.drop_append]
    simp
  have hbuf : (done ++ (h.toList ++ rest)).take done.length ++ b.toList ++
      (done ++ (h.toList ++ rest)).drop (done.length + 16) = done ++ (b.toList ++ rest) := by
    rw [List.take_left, List.drop_append]
    simp
  have hread : readU16At (done ++ (b.toList ++ rest)) done.length = .ok x := by
    rw [hx]
    exact readU16At_append done x after
  rw [groLoop, if_neg (by simp), hslice, hlen]
  change (c.groDeobfuscateHead prim h.toList >>= _) = _
  rw [hhead]
  change (readU16At ((done ++ (h.toList ++ rest)).take done.length ++ b.toList ++
    (done ++ (h.toList ++ rest)).drop (done.length + 16)) done.length >>= _) = _
  rw [hbuf, hread]
  rfl

/-- The two length bytes of a buffer that has them. -/
theorem exists_u16_append {buf : Bytes} (h : 2 ≤ buf.length) :
    ∃ (x : UInt16) (after : Bytes), buf = u16ToBe x ++ after := by
  obtain _ | ⟨a, _ | ⟨b, after⟩⟩ := buf
  · simp at h
  · simp at h
  · refine ⟨u16FromBe a b, after, ?_⟩
    rw [u16ToBe_u16FromBe]
    rfl

/-- The loop returns whatever the bytes are. What it has passed stays as it is, and the entries
found so far stay first. -/
theorem groLoop_frame
    (hhead : ∀ h : Block, ∃ b : Block, c.groDeobfuscateHead prim h.toList = .ok b.toList)
    (fuel : Nat) (done rest : Bytes) (out : List (Nat × Nat)) :
    ∃ rest' extra, groLoop prim c fuel (done ++ rest) done.length rest.length out =
      .ok (done ++ rest', out ++ extra) := by
  induction fuel generalizing done rest out with
  | zero => exact ⟨rest, [], by rw [List.append_nil]; rfl⟩
  | succ fuel ih =>
    by_cases hshort : rest.length < 16
    · exact ⟨rest, [], by rw [groLoop, if_pos hshort, List.append_nil]⟩
    · obtain ⟨h, rest, rfl⟩ := Crypto.exists_block_append (not_lt.mp hshort)
      obtain ⟨b, hb⟩ := hhead h
      obtain ⟨x, after, hx⟩ := @exists_u16_append (b.toList ++ rest) (by simp; omega)
      rw [groLoop_succ prim hb fuel done rest out hx]
      split
      · exact ⟨b.toList ++ rest, [], by rw [List.append_nil]⟩
      split
      · exact ⟨b.toList ++ rest, [], by rw [List.append_nil]⟩
      -- the next round starts behind the packet
      next hfits _ =>
        have hsplit : done ++ (b.toList ++ rest) =
            (done ++ (u16ToBe x ++ after.take x.toNat)) ++ after.drop x.toNat := by
          rw [hx, List.append_assoc, List.append_assoc, List.take_append_drop]
        have hpos : done.length + 2 + x.toNat =
            (done ++ (u16ToBe x ++ after.take x.toNat)).length := by
          simp only [List.length_append, length_u16ToBe, List.length_take]
          omega
        obtain ⟨rest', extra, hloop⟩ := ih (done ++ (u16ToBe x ++ after.take x.toNat))
          (after.drop x.toNat) (out ++ [(done.length + 2, x.toNat)])
        rw [hsplit, hpos, ← List.length_drop, hloop, List.append_assoc, List.append_assoc out]
        exact ⟨_, _, rfl⟩

end

section

variable (prim : Primitives) (cpu cpu' : Bool) (mode : CipherMode) (auth : AuthMode)
  (legacy : Bool) (keys : Keys) (backend backend' : AesBackend)

/-- The sizes of a packet whose frame is split again. -/
def Splittable (p : Bytes) : Prop := 14 ≤ p.length ∧ p.length ≤ maxDataLen

theorem length_frame (p : Bytes) : (frame p).length = p.length + 2 := by
  rw [frame, List.length_append, length_u16ToBe, Nat.add_comm]

/-- A frame starts with a head, which the peer restores. -/
theorem groWrap_eq {p : Bytes} (hp : Splittable p) :
    ∃ (h b : Block) (rest : Bytes), frame p = b.toList ++ rest ∧
      groWrap prim (Crypto.sender prim cpu mode auth legacy keys backend) p =
        .ok (h.toList ++ rest) ∧
      (Crypto.receiver prim cpu' mode auth legacy keys backend').groDeobfuscateHead prim
        h.toList = .ok b.toList := by
  have hlen : 16 ≤ (frame p).length := by
    rw [length_frame]
    exact Nat.add_le_add_right hp.1 2
  obtain ⟨b, rest, hframe⟩ := Crypto.exists_block_append hlen
  obtain ⟨h, hwrap, hback⟩ := Crypto.groHead_roundtrip prim cpu cpu' mode auth legacy keys backend
    backend' b rest
  refine ⟨h, b, rest, hframe, ?_, hback⟩
  rw [groWrap, if_pos (.inl hlen), hframe, hwrap]

/-- Splitting passes over the frames one by one; each leaves its entry, and nothing that follows
damages it. -/
theorem groLoop_frames {ps : List Bytes} (hps : ∀ p ∈ ps, Splittable p) (tail : Bytes) :
    ∃ ws, List.Forall₂ (fun p w => groWrap prim
        (Crypto.sender prim cpu mode auth legacy keys backend) p = .ok w) ps ws ∧
      ∀ (done : Bytes) (fuel : Nat) (out : List (Nat × Nat)),
        (ws.flatten ++ tail).length ≤ fuel →
        ∃ rest' entries extra,
          groLoop prim (Crypto.receiver prim cpu' mode auth legacy keys backend') fuel
            (done ++ (ws.flatten ++ tail)) done.length (ws.flatten ++ tail).length out =
              .ok (done ++ rest', out ++ entries ++ extra) ∧
          entries.map (packetAt (done ++ rest')) = ps ∧ (tail = [] → extra = []) := by
  induction ps with
  | nil =>
    refine ⟨[], .nil, fun done fuel out hfuel => ?_⟩
    obtain ⟨rest', extra, hloop⟩ := groLoop_frame prim
      (Crypto.groDeobfuscateHead_returns prim cpu' mode auth legacy keys.mirror backend')
      fuel done tail out
    refine ⟨rest', [], extra, by simpa using hloop, rfl, ?_⟩
    rintro rfl
    cases fuel <;> simp_all [groLoop]
  | cons p ps ih =>
    obtain ⟨ws, hws, hrun⟩ := ih fun q hq => hps q (List.mem_cons_of_mem p hq)
    have hp := hps p List.mem_cons_self
    obtain ⟨h, b, rest, hframe, hwrap, hhead⟩ := groWrap_eq prim cpu cpu' mode auth legacy keys
      backend backend' hp
    refine ⟨(h.toList ++ rest) :: ws, .cons hwrap hws, fun done fuel out hfuel => ?_⟩
    have hx : (UInt16.ofNat p.length).toNat = p.length := by
      have := hp.2
      rw [UInt16.toNat_ofNat', maxDataLen] at *
      omega
    have hsplit : b.toList ++ (rest ++ (ws.flatten ++ tail)) =
        u16ToBe (UInt16.ofNat p.length) ++ (p ++ (ws.flatten ++ tail)) := by
      rw [← List.append_assoc, ← hframe, frame, List.append_assoc]
    have hcons : ((h.toList ++ rest) :: ws).flatten ++ tail =
        h.toList ++ (rest ++ (ws.flatten ++ tail)) := by
      simp only [List.flatten_cons, List.append_assoc]
    rw [hcons] at hfuel ⊢
    obtain ⟨fuel, rfl⟩ : ∃ n, fuel = n + 1 := by
      rw [List.length_append, h.toList_length] at hfuel
      exact ⟨fuel - 1, by omega⟩
    have hrest : (ws.flatten ++ tail).length ≤ fuel := by
      simp only [List.length_append, List.Vector.toList_length] at hfuel ⊢
      omega
    obtain ⟨rest', entries, extra, hloop, hread, hextra⟩ := hrun (done ++ frame p) fuel
      (out ++ [(done.length + 2, p.length)]) hrest
    refine ⟨frame p ++ rest', (done.length + 2, p.length) :: entries, extra, ?_, ?_, hextra⟩
    · have hafter : (p ++ (ws.flatten ++ tail)).length = p.length + (ws.flatten ++ tail).length :=
        List.length_append
      rw [groLoop_succ prim hhead fuel done _ out hsplit, hx, hafter, if_neg (by omega),
        if_neg (not_lt.mpr hp.2), hsplit]
      have hpos : done.length + 2 + p.length = (done ++ frame p).length := by
        rw [List.length_append, length_frame]
        omega
      have hbuf : done ++ (u16ToBe (UInt16.ofNat p.length) ++ (p ++ (ws.flatten ++ tail))) =
          done ++ frame p ++ (ws.flatten ++ tail) := by
        simp only [frame, List.append_assoc]
      rw [hpos, hbuf, Nat.add_sub_cancel_left, hloop]
      simp only [List.append_assoc, List.singleton_append]
    · rw [List.map_cons, ← List.append_assoc done, hread]
      congr 1
      have hdrop : (done ++ frame p ++ rest').drop (done.length + 2) = p ++ rest' := by
        rw [frame, List.append_assoc, List.append_assoc, ← List.append_assoc]
        exact List.drop_left' (by rw [List.length_append, length_u16ToBe])
      rw [packetAt, hdrop, List.take_left]

/-- A burst of packets of 14 to 1800 bytes, wrapped by one role and merged with anything after
them, is split by the other role into exactly these packets, in order; what follows them can only
add entries behind theirs, and nothing at all adds none. -/
theorem groUnwrap_burst (password : Bytes) (isClient : Bool) (packets : List Bytes)
    (hsize : ∀ p ∈ packets, 14 ≤ p.length ∧ p.length ≤ maxDataLen) (tail : Bytes) :
    let tx := Crypto.withBackend prim.hashes cpu mode auth legacy
      (Keys.derive prim.hashes password isClient) backend
    let rx := Crypto.withBackend prim.hashes cpu' mode auth legacy
      (Keys.derive prim.hashes password !isClient) backend'
    ∃ wrapped, List.Forall₂ (fun p w => groWrap prim tx p = .ok w) packets wrapped ∧
      ∃ buf entries extra,
        groUnwrap prim rx (wrapped.flatten ++ tail) = .ok (buf, entries ++ extra) ∧
        entries.map (packetAt buf) = packets ∧ (tail = [] → extra = []) := by
  intro tx rx
  obtain ⟨ws, hws, hrun⟩ := groLoop_frames prim cpu cpu' mode auth legacy
    (Keys.derive prim.hashes password isClient) backend backend' hsize tail
  obtain ⟨buf, entries, extra, hloop, hread, hextra⟩ := hrun [] _ [] le_rfl
  refine ⟨ws, hws, buf, entries, extra, ?_, hread, hextra⟩
  rw [Crypto.receiver_derive] at hloop
  exact hloop

/-- Two packets and one byte of garbage, AES on both ends. -/
theorem groUnwrap_burst_two_packets :
    let tx := Crypto.withBackend (default : Primitives).hashes true .aes128Cfb .crc32 false
      (Keys.derive (default : Primitives).hashes [] true) .auto
    let rx := Crypto.withBackend (default : Primitives).hashes false .aes128Cfb .crc32 false
      (Keys.derive (default : Primitives).hashes [] false) .auto
    ∃ wrapped, List.Forall₂ (fun p w => groWrap default tx p = .ok w)
        [List.replicate 14 1, List.replicate 20 2] wrapped ∧
      ∃ buf entries extra,
        groUnwrap default rx (wrapped.flatten ++ [3]) = .ok (buf, entries ++ extra) ∧
        entries.map (packetAt buf) = [List.replicate 14 1, List.replicate 20 2] ∧
        (([3] : Bytes) = [] → extra = []) :=
  groUnwrap_burst default true false .aes128Cfb .crc32 false .auto .auto [] true
    [List.replicate 14 1, List.replicate 20 2] (by simp [maxDataLen]) [3]

end

end Wire

end Udp2raw
