import Mathlib.Tactic.IntervalCases
import Udp2raw.Crypto.AesWords

/-!
# The table-driven AES is AES

The schedules hold the words of the key expansion, those of the decryption with the
inverse mixing applied to the inner rounds. Each round of the block functions is a
round of the cipher or of its inverse: there the inverse mixing, which is additive,
is applied to the state and the round key separately.
-/

namespace Udp2raw.AesTable

open Aes128 FixedArray Checked

/-! ## States, columns and blocks -/

/-- The words of a state. -/
def Columns.ofState (s : State) : Columns := ⟨pack s.c0, pack s.c1, pack s.c2, pack s.c3⟩

/-- The state of a block, column by column. -/
def stateOf (b : Block) : State where
  c0 := ⟨b.get 0, b.get 1, b.get 2, b.get 3⟩
  c1 := ⟨b.get 4, b.get 5, b.get 6, b.get 7⟩
  c2 := ⟨b.get 8, b.get 9, b.get 10, b.get 11⟩
  c3 := ⟨b.get 12, b.get 13, b.get 14, b.get 15⟩

/-- The bytes of a word. -/
def wordBytes (w : Word) : Bytes := [w.b0, w.b1, w.b2, w.b3]

/-- The block of a state. -/
def blockOf (s : State) : Block :=
  ⟨wordBytes s.c0 ++ wordBytes s.c1 ++ wordBytes s.c2 ++ wordBytes s.c3, rfl⟩

theorem stateOf_blockOf (s : State) : stateOf (blockOf s) = s := rfl

/-- A block is the bytes of its state. -/
theorem blockOf_stateOf (b : Block) : blockOf (stateOf b) = b := by
  obtain ⟨bytes, hlen⟩ := b
  apply Subtype.ext
  apply List.ext_getElem (by rw [hlen]; rfl)
  intro i hi _
  have hi : i < 16 := hi
  interval_cases i <;> rfl

theorem ofBlock_eq (b : Block) : Columns.ofBlock b = .ofState (stateOf b) := rfl

/-- A packed word is written as its bytes. -/
theorem u32ToBe_pack (w : Word) : u32ToBe (pack w) = wordBytes w := by
  have h0 := w.b0.toNat_lt
  have h1 := w.b1.toNat_lt
  have h2 := w.b2.toNat_lt
  have h3 := w.b3.toNat_lt
  have hbyte : ∀ (n : Nat) (b : UInt8), n % 256 = b.toNat → UInt8.ofNat n = b := by
    intro n b h
    exact UInt8.toNat_inj.mp (UInt8.toNat_ofNat'.trans h)
  change [UInt8.ofNat ((pack w).toNat / 256 / 256 / 256), UInt8.ofNat ((pack w).toNat / 256 / 256),
    UInt8.ofNat ((pack w).toNat / 256), UInt8.ofNat (pack w).toNat] = _
  rw [toNat_pack, hbyte _ w.b0 (by omega), hbyte _ w.b1 (by omega), hbyte _ w.b2 (by omega),
    hbyte _ w.b3 (by omega)]
  rfl

theorem toBlock_ofState (s : State) : (Columns.ofState s).toBlock = blockOf s := by
  apply Subtype.ext
  change u32ToBe (pack s.c0) ++ u32ToBe (pack s.c1) ++ u32ToBe (pack s.c2) ++
    u32ToBe (pack s.c3) = _
  rw [u32ToBe_pack, u32ToBe_pack, u32ToBe_pack, u32ToBe_pack]
  rfl

/-! ## Rounds -/

/-- The last round substitutes and shifts. -/
theorem forward_sbox (s : State) :
    (Columns.ofState s).forward (gather genTables.sbox) = .ofState (shiftRows (subBytes s)) := by
  simp only [Columns.forward, Columns.ofState, byte3_pack, byte2_pack, byte1_pack, byte0_pack,
    gather_sbox]
  rfl

/-- A table round substitutes, shifts and mixes. -/
theorem forward_te (s : State) :
    (Columns.ofState s).forward genTables.te.mix =
      .ofState (mixColumns (shiftRows (subBytes s))) := by
  simp only [Columns.forward, Columns.ofState, byte3_pack, byte2_pack, byte1_pack, byte0_pack,
    te_mix]
  rfl

/-- The last round back undoes shift and substitution. -/
theorem backward_invSbox (s : State) :
    (Columns.ofState s).backward (gather genTables.invSbox) =
      .ofState (invSubBytes (invShiftRows s)) := by
  simp only [Columns.backward, Columns.ofState, byte3_pack, byte2_pack, byte1_pack, byte0_pack,
    gather_invSbox]
  rfl

/-- A table round back undoes them and the mixing. -/
theorem backward_td (s : State) :
    (Columns.ofState s).backward genTables.td.mix =
      .ofState (invMixColumns (invSubBytes (invShiftRows s))) := by
  simp only [Columns.backward, Columns.ofState, byte3_pack, byte2_pack, byte1_pack, byte0_pack,
    td_mix]
  rfl

/-- The schedule holds the words of a state at a place. -/
def Holds (rk : Vector UInt32 44) (k : Nat) (s : State) : Prop :=
  read rk k = pack s.c0 ∧ read rk (k + 1) = pack s.c1 ∧ read rk (k + 2) = pack s.c2 ∧
    read rk (k + 3) = pack s.c3

variable {key : State} {ek : Vector UInt32 44} {i r : Nat}

/-- Key words are added as the round key is. -/
theorem addKey_ofState {rk : Vector UInt32 44} {k : Nat} (h : Holds rk k key) (s : State) :
    (Columns.ofState s).addKey rk k = .ofState (addRoundKey s key) := by
  obtain ⟨h0, h1, h2, h3⟩ := h
  simp only [Columns.addKey, Columns.ofState, h0, h1, h2, h3, ← pack_add]
  rfl

/-! ## The key schedule of the encryption -/

/-- The schedule holds the first words of the key expansion. -/
abbrev Expanded (key : State) (ek : Vector UInt32 44) (n : Nat) : Prop :=
  Filled (fun i => pack (keyWord key i)) ek n

theorem Expanded.read {n : Nat} (h : Expanded key ek n) (hi : i < n) :
    read ek i = pack (keyWord key i) :=
  h i hi

/-- The key itself is the first four words. -/
theorem loadKey_eq (key : Block) :
    ∃ ek, loadKey key.toList = .ok ek ∧ Expanded (stateOf key) ek 4 := by
  have hkey : loadKey key.toList = loadKey (blockOf (stateOf key)).toList := by
    rw [blockOf_stateOf]
  rw [hkey]
  refine ⟨_, rfl, ?_⟩
  refine Filled.write (Filled.write (Filled.write (Filled.write ?_ ?_ ?_) ?_ ?_) ?_ ?_) ?_ ?_
  · exact fun i hi => absurd hi (Nat.not_lt_zero i)
  all_goals first | decide | rfl

/-- The word the key expansion adds once in a round. -/
theorem gather_rot (w : Word) :
    gather genTables.sbox (byte2 (pack w)) (byte1 (pack w)) (byte0 (pack w)) (byte3 (pack w)) =
      pack ((rotWord w).map sbox) := by
  rw [byte2_pack, byte1_pack, byte0_pack, byte3_pack, gather_sbox]
  rfl

theorem rcon_eq (hi : i < 10) : rcon.getD i 0 = pack (Aes128.rcon (i + 1)) := by
  have hall : ∀ i < 10, rcon.getD i 0 = pack (Aes128.rcon (i + 1)) := by decide +kernel
  exact hall i hi

theorem keyWord_first (key : State) (i : Nat) :
    keyWord key (4 * i + 4) = ((keyWord key (4 * i)).add
      ((rotWord (keyWord key (4 * i + 3))).map sbox)).add (Aes128.rcon (i + 1)) := by
  rw [keyWord, if_pos (by omega), show (4 * i + 4) / 4 = i + 1 by omega]
  simp only [Word.add, UInt8.xor_assoc]

theorem keyWord_next (key : State) (i : Nat) {j : Nat} (hj : 0 < j) (hj' : j < 4) :
    keyWord key (4 * i + j + 4) = (keyWord key (4 * i + j)).add (keyWord key (4 * i + j + 3)) := by
  rw [keyWord, if_neg (by omega)]

/-- A round of the source's loop adds four words. -/
theorem expandRound_expanded (hi : i < 10) (h : Expanded key ek (4 * i + 4)) :
    Expanded key (expandRound genTables.sbox ek i) (4 * (i + 1) + 4) := by
  unfold expandRound
  extract_lets tmp sub ek₁ ek₂ ek₃
  have hsub : sub = pack ((rotWord (keyWord key (4 * i + 3))).map sbox) := by
    have htmp : tmp = pack (keyWord key (4 * i + 3)) := h.read (by omega)
    rw [← gather_rot, ← htmp]
  have h₁ : Expanded key ek₁ (4 * i + 5) := by
    refine h.write (by omega) ?_
    rw [h.read (by omega), hsub, rcon_eq hi, ← pack_add, ← pack_add, ← keyWord_first]
  have h₂ : Expanded key ek₂ (4 * i + 6) := by
    refine h₁.write (by omega) ?_
    rw [h₁.read (by omega), h₁.read (by omega), ← pack_add]
    exact congrArg pack (keyWord_next key i (show 0 < 1 by decide) (by decide)).symm
  have h₃ : Expanded key ek₃ (4 * i + 7) := by
    refine h₂.write (by omega) ?_
    rw [h₂.read (by omega), h₂.read (by omega), ← pack_add]
    exact congrArg pack (keyWord_next key i (show 0 < 2 by decide) (by decide)).symm
  refine h₃.write (by omega) ?_
  rw [h₃.read (by omega), h₃.read (by omega), ← pack_add]
  exact congrArg pack (keyWord_next key i (show 0 < 3 by decide) (by decide)).symm

/-- The schedule of the encryption holds the round keys. -/
theorem expand_expanded (h : Expanded key ek 4) {n : Nat} (hn : n ≤ 10) :
    Expanded key ((List.range n).foldl (expandRound genTables.sbox) ek) (4 * n + 4) := by
  induction n with
  | zero => exact h
  | succ n ih =>
    rw [List.range_succ, List.foldl_append]
    exact expandRound_expanded (by omega) (ih (by omega))

theorem Expanded.holds (h : Expanded key ek 44) (hr : r ≤ 10) : Holds ek (4 * r) (roundKey key r) :=
  ⟨h.read (by omega), h.read (by omega), h.read (by omega), h.read (by omega)⟩

/-! ## The key schedule of the decryption -/

/-- The round keys in reverse. -/
theorem read_reverseKeys (ek : Vector UInt32 44) (hi : i < 44) :
    read (reverseKeys ek) i = read ek (4 * (10 - i / 4) + i % 4) := by
  have hfour : ∀ (dk : Vector UInt32 44) (n : Nat), n < 11 →
      Filled (fun i => read ek (4 * (10 - i / 4) + i % 4)) dk (4 * n) →
      Filled (fun i => read ek (4 * (10 - i / 4) + i % 4)) ((List.range 4).foldl (fun dk j =>
        write dk (4 * n + j) (read ek (4 * (10 - n) + j))) dk) (4 * (n + 1)) := by
    intro dk n hn h
    have hword : ∀ j < 4, read ek (4 * (10 - n) + j) =
        read ek (4 * (10 - (4 * n + j) / 4) + (4 * n + j) % 4) := by
      intro j hj
      rw [show (4 * n + j) / 4 = n by omega, show (4 * n + j) % 4 = j by omega]
    have hrange : List.range 4 = [0, 1, 2, 3] := rfl
    simp only [hrange, List.foldl_cons, List.foldl_nil]
    have h₁ := h.write (by omega) (hword 0 (by decide))
    have h₂ := h₁.write (by omega) (hword 1 (by decide))
    have h₃ := h₂.write (by omega) (hword 2 (by decide))
    exact h₃.write (by omega) (hword 3 (by decide))
  have hrounds : ∀ n ≤ 11, Filled (fun i => read ek (4 * (10 - i / 4) + i % 4))
      ((List.range n).foldl (fun dk i => (List.range 4).foldl (fun dk j =>
        write dk (4 * i + j) (read ek (4 * (10 - i) + j))) dk) (Vector.replicate 44 0))
        (4 * n) := by
    intro n
    induction n with
    | zero => exact fun _ i hi => absurd hi (Nat.not_lt_zero i)
    | succ n ih =>
      intro hn
      rw [@List.range_succ n, List.foldl_append, List.foldl_cons, List.foldl_nil]
      exact hfour _ n (by omega) (ih (by omega))
  exact hrounds 11 le_rfl i hi

/-- What the last loop of `AesTable::new` does to a word. -/
def mixWord (v : UInt32) : UInt32 :=
  genTables.td.mix (read genTables.sbox (byte3 v)).toNat (read genTables.sbox (byte2 v)).toNat
    (read genTables.sbox (byte1 v)).toNat (read genTables.sbox (byte0 v)).toNat

theorem mixWord_pack (w : Word) : mixWord (pack w) = pack (invMixColumn w) := by
  rw [← td_mix_eq, ← read_sbox, ← read_sbox, ← read_sbox, ← read_sbox, ← byte3_pack, ← byte2_pack,
    ← byte1_pack, ← byte0_pack, mixWord]

theorem mixKeys_eq (dk : Vector UInt32 44) : mixKeys genTables dk = mapFrom mixWord 4 dk 36 := by
  unfold mixKeys mapFrom mixWord
  rfl

/-- The inner round keys are mixed. -/
theorem read_mixKeys (dk : Vector UInt32 44) (i : Nat) {w : Word} (h : read dk i = pack w) :
    read (mixKeys genTables dk) i =
      if 4 ≤ i ∧ i < 4 + 36 then pack (invMixColumn w) else pack w := by
  rw [mixKeys_eq, read_mapFrom mixWord dk (by decide), h, mixWord_pack]

/-- The reversed words are the round keys backwards. -/
theorem read_reverse_expanded (h : Expanded key ek 44) {j : Nat} (hi : i ≤ 10) (hj : j < 4) :
    read (reverseKeys ek) (4 * i + j) = pack (keyWord key (4 * (10 - i) + j)) := by
  rw [read_reverseKeys ek (by omega), h.read (by omega), show (4 * i + j) / 4 = i by omega,
    show (4 * i + j) % 4 = j by omega]

/-- The schedule of the decryption holds the outer round keys as they are. -/
theorem holds_outer (h : Expanded key ek 44) (hi : i = 0 ∨ i = 10) :
    Holds (mixKeys genTables (reverseKeys ek)) (4 * i) (roundKey key (10 - i)) := by
  have hread : ∀ j < 4, read (mixKeys genTables (reverseKeys ek)) (4 * i + j) =
      pack (keyWord key (4 * (10 - i) + j)) := by
    intro j hj
    rw [read_mixKeys _ _ (read_reverse_expanded h (by omega) hj), if_neg (by omega)]
  exact ⟨hread 0 (by decide), hread 1 (by decide), hread 2 (by decide), hread 3 (by decide)⟩

/-- It holds the inner round keys after the inverse mixing. -/
theorem holds_inner (h : Expanded key ek 44) (hi : 0 < i) (hi' : i < 10) :
    Holds (mixKeys genTables (reverseKeys ek)) (4 * i)
      (invMixColumns (roundKey key (10 - i))) := by
  have hread : ∀ j < 4, read (mixKeys genTables (reverseKeys ek)) (4 * i + j) =
      pack (invMixColumn (keyWord key (4 * (10 - i) + j))) := by
    intro j hj
    rw [read_mixKeys _ _ (read_reverse_expanded h (by omega) hj), if_pos (by omega)]
  exact ⟨hread 0 (by decide), hread 1 (by decide), hread 2 (by decide), hread 3 (by decide)⟩

/-! ## The block functions -/

/-- The rounds of the source are the rounds of the standard. -/
theorem encryptRounds_eq (h : Expanded key ek 44) (s : State) (hr : r ≤ 9) :
    encryptRounds genTables ek (.ofState (rounds key s 0)) r = .ofState (rounds key s r) := by
  induction r with
  | zero => rfl
  | succ r ih =>
    have hkey := h.holds (show r + 1 ≤ 10 by omega)
    rw [Nat.mul_succ, Nat.add_comm] at hkey
    unfold encryptRounds at ih ⊢
    rw [List.range_succ, List.foldl_append, ih (by omega), List.foldl_cons, List.foldl_nil,
      forward_te, addKey_ofState hkey, rounds]

/-- Mixing back distributes over the round key. -/
theorem invMixColumns_addRoundKey (s k : State) :
    invMixColumns (addRoundKey s k) = addRoundKey (invMixColumns s) (invMixColumns k) := by
  simp only [invMixColumns, addRoundKey, State.map, invMixColumn_add]

/-- The rounds back are the inverse rounds of the standard. -/
theorem decryptRounds_eq (h : Expanded key ek 44) (s : State) (hr : r ≤ 9) :
    decryptRounds genTables (mixKeys genTables (reverseKeys ek)) (.ofState (invRounds key s 0)) r =
      .ofState (invRounds key s r) := by
  induction r with
  | zero => rfl
  | succ r ih =>
    have hkey := holds_inner h (show 0 < r + 1 by omega) (by omega)
    rw [Nat.mul_succ, Nat.add_comm, Nat.add_comm r 1, ← Nat.sub_sub] at hkey
    unfold decryptRounds at ih ⊢
    rw [List.range_succ, List.foldl_append, ih (by omega), List.foldl_cons, List.foldl_nil,
      backward_td, addKey_ofState hkey, invRounds, invMixColumns_addRoundKey]

/-- The table-driven implementation computes the cipher and its inverse. -/
theorem new_eq (key : Block) :
    ∃ a, AesTable.new key.toList = .ok a ∧ ∀ block,
      a.encryptBlock block = blockOf (cipher (stateOf key) (stateOf block)) ∧
      a.decryptBlock block = blockOf (invCipher (stateOf key) (stateOf block)) := by
  obtain ⟨ek, hload, hek⟩ := loadKey_eq key
  have h := expand_expanded hek (show 10 ≤ 10 from le_rfl)
  generalize hexpand : (List.range 10).foldl (expandRound genTables.sbox) ek = expanded at h
  refine ⟨⟨expanded, mixKeys genTables (reverseKeys expanded)⟩, ?_, fun block => ⟨?_, ?_⟩⟩
  · rw [AesTable.new, hload, ← hexpand]
    rfl
  · have hfirst := addKey_ofState (h.holds (show 0 ≤ 10 by decide)) (stateOf block)
    have hlast := h.holds (show 10 ≤ 10 by decide)
    rw [encryptBlock, ofBlock_eq, hfirst]
    change ((encryptRounds genTables expanded (.ofState (rounds _ _ 0)) 9).forward _ |>.addKey _ _
      |>.toBlock) = _
    rw [encryptRounds_eq h _ le_rfl, forward_sbox, addKey_ofState hlast, toBlock_ofState, cipher]
  · have hfirst := addKey_ofState (holds_outer h (.inl rfl)) (stateOf block)
    have hlast := holds_outer h (.inr rfl)
    rw [decryptBlock, ofBlock_eq, hfirst]
    change ((decryptRounds genTables _ (.ofState (invRounds _ _ 0)) 9).backward _ |>.addKey _ _
      |>.toBlock) = _
    rw [decryptRounds_eq h _ le_rfl, backward_invSbox, addKey_ofState hlast, toBlock_ofState,
      invCipher]

/-- For every key and block, `AesTable` computes the cipher of FIPS 197 and its inverse, and the
decryption undoes the encryption. -/
theorem block_functions_are_fips197 (key : Block) :
    ∃ a, AesTable.new key.toList = .ok a ∧ ∀ block,
      a.encryptBlock block = blockOf (cipher (stateOf key) (stateOf block)) ∧
      a.decryptBlock block = blockOf (invCipher (stateOf key) (stateOf block)) ∧
      a.decryptBlock (a.encryptBlock block) = block := by
  obtain ⟨a, hnew, hblocks⟩ := new_eq key
  refine ⟨a, hnew, fun block => ⟨(hblocks block).1, (hblocks block).2, ?_⟩⟩
  rw [(hblocks _).2, (hblocks block).1, stateOf_blockOf, invCipher_cipher, blockOf_stateOf]

/-- AES as FIPS 197 has it, whichever implementation a key schedule belongs to. -/
def fipsAes : Aes where
  encrypt _ key block := blockOf (cipher (stateOf key) (stateOf block))
  decrypt _ key block := blockOf (invCipher (stateOf key) (stateOf block))
  decrypt_encrypt _ _ key block := by rw [stateOf_blockOf, invCipher_cipher, blockOf_stateOf]

end Udp2raw.AesTable
