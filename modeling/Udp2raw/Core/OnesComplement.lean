import Mathlib.Data.List.Basic
import Mathlib.Data.Nat.ModEq
import Udp2raw.Core.BigEndian

/-!
# One's complement sums

The sum of the big-endian 16-bit words of a list of bytes, with an odd last byte as
the high half of its word, and its reduction to 16 bits by adding the carries back
in. Reduction keeps the sum modulo 65535 and sends only zero to zero, so a word
that completes a sum to a multiple of 65535 makes it reduce to 65535.
-/

namespace OnesComplement

/-- The sum of the 16-bit words of a list of bytes. -/
def wordSum : List UInt8 → Nat
  | a :: b :: rest => a.toNat * 256 + b.toNat + wordSum rest
  | [last] => last.toNat * 256
  | [] => 0

/-- The carries of a 32-bit sum added back in twice. -/
def reduce (n : Nat) : Nat :=
  let once := n / 65536 + n % 65536
  (once + once / 65536) % 65536

theorem wordSum_cons_cons (a b : UInt8) (rest : List UInt8) :
    wordSum (a :: b :: rest) = a.toNat * 256 + b.toNat + wordSum rest := rfl

variable {xs : List UInt8}

/-- A whole number of words adds up separately from what follows it. -/
theorem wordSum_append (h : 2 ∣ xs.length) (ys : List UInt8) :
    wordSum (xs ++ ys) = wordSum xs + wordSum ys := by
  induction xs using wordSum.induct with
  | case1 a b rest ih =>
    have hrest : 2 ∣ rest.length := by
      rw [List.length_cons, List.length_cons] at h
      omega
    rw [List.cons_append, List.cons_append, wordSum_cons_cons, wordSum_cons_cons, ih hrest]
    omega
  | case2 last => simp at h
  | case3 => simp [wordSum]

/-- Each started word is below 65536. -/
theorem wordSum_le (xs : List UInt8) : wordSum xs ≤ 65535 * ((xs.length + 1) / 2) := by
  induction xs using wordSum.induct with
  | case1 a b rest ih =>
    have ha := a.toNat_lt
    have hb := b.toNat_lt
    have hlen : ((a :: b :: rest).length + 1) / 2 = (rest.length + 1) / 2 + 1 := by
      rw [List.length_cons, List.length_cons]
      omega
    rw [wordSum_cons_cons, hlen]
    omega
  | case2 last =>
    have hlast := last.toNat_lt
    rw [wordSum, List.length_singleton]
    omega
  | case3 => simp [wordSum]

/-- The weight of the byte at an index in its word. -/
def weight (i : Nat) : Nat := if i % 2 = 0 then 256 else 1

@[simp] theorem weight_zero : weight 0 = 256 := rfl

@[simp] theorem weight_one : weight 1 = 1 := rfl

@[simp] theorem weight_add_two (i : Nat) : weight (i + 2) = weight i := by
  rw [weight, weight, Nat.add_mod_right]

/-- Changing one byte changes the sum by its weight. -/
theorem wordSum_set {i : Nat} (h : i < xs.length) (v : UInt8) :
    wordSum (xs.set i v) + weight i * xs[i].toNat = wordSum xs + weight i * v.toNat := by
  induction xs using wordSum.induct generalizing i with
  | case1 a b rest ih =>
    rcases i with _ | _ | i
    · simp only [List.set_cons_zero, wordSum_cons_cons, weight_zero, List.getElem_cons_zero]
      omega
    · simp only [List.set_cons_succ, List.set_cons_zero, wordSum_cons_cons, Nat.zero_add,
        weight_one, List.getElem_cons_succ, List.getElem_cons_zero]
      omega
    · have hrest := ih (show i < rest.length by simpa using h)
      simp only [List.set_cons_succ, wordSum_cons_cons, List.getElem_cons_succ, weight_add_two]
      omega
  | case2 last =>
    have hi : i = 0 := by simpa using h
    subst hi
    simp only [List.set_cons_zero, wordSum, weight_zero, List.getElem_cons_zero]
    omega
  | case3 => simp at h

/-- A different byte never changes the sum by a multiple of 65535. -/
theorem wordSum_set_mod_ne {i : Nat} (h : i < xs.length) {v : UInt8} (hne : v ≠ xs[i]) :
    wordSum (xs.set i v) % 65535 ≠ wordSum xs % 65535 := by
  have hset := wordSum_set h v
  have hbytes : v.toNat ≠ xs[i].toNat := fun heq => hne (UInt8.toNat_inj.mp heq)
  have hv := v.toNat_lt
  have hx := xs[i].toNat_lt
  have hweight : weight i = 256 ∨ weight i = 1 := by
    unfold weight
    split
    · exact .inl rfl
    · exact .inr rfl
  rcases hweight with hw | hw <;> rw [hw] at hset <;> omega

/-- The words of an encoded 16-bit number. -/
theorem wordSum_encode {n : Nat} (h : n < 65536) : wordSum (BigEndian.encode 2 n) = n := by
  have hbytes : BigEndian.encode 2 n = [UInt8.ofNat (n / 256), UInt8.ofNat n] := rfl
  rw [hbytes, wordSum, wordSum, UInt8.toNat_ofNat', UInt8.toNat_ofNat']
  omega

section

variable {n : Nat}

theorem reduce_le (n : Nat) : reduce n ≤ 65535 := by
  simp only [reduce]
  omega

/-- At most one carry remains after the first round. -/
theorem reduce_eq (h : n < 2 ^ 32) :
    reduce n = n / 65536 + n % 65536 ∧ n / 65536 + n % 65536 < 65536 ∨
      reduce n + 65535 = n / 65536 + n % 65536 ∧ 65536 ≤ n / 65536 + n % 65536 := by
  simp only [reduce]
  generalize honce : n / 65536 + n % 65536 = once
  have hle : once ≤ 131070 := by omega
  rcases Nat.lt_or_ge once 65536 with hlt | hge
  · have hdiv : once / 65536 = 0 := Nat.div_eq_of_lt hlt
    omega
  · have hdiv : once / 65536 = 1 := by omega
    omega

theorem reduce_modEq (h : n < 2 ^ 32) : reduce n ≡ n [MOD 65535] := by
  have hn := Nat.div_add_mod n 65536
  unfold Nat.ModEq
  rcases reduce_eq h with ⟨hr, -⟩ | ⟨hr, -⟩ <;> omega

theorem reduce_eq_zero_iff (h : n < 2 ^ 32) : reduce n = 0 ↔ n = 0 := by
  rcases reduce_eq h with ⟨hr, -⟩ | ⟨hr, hcarry⟩ <;> omega

/-- A positive multiple of 65535 reduces to 65535. -/
theorem reduce_of_dvd (h : n < 2 ^ 32) (hpos : 0 < n) (hdvd : 65535 ∣ n) : reduce n = 65535 := by
  have hmod : reduce n % 65535 = n % 65535 := reduce_modEq h
  have hne : reduce n ≠ 0 := fun h0 => by
    rw [reduce_eq_zero_iff h] at h0
    omega
  have hle := reduce_le n
  omega

/-- The complement of a reduced sum completes the sum. -/
theorem reduce_add_complement (h : n + 65535 < 2 ^ 32) :
    reduce (n + (65535 - reduce n)) = 65535 := by
  have hle := reduce_le n
  have hmod : reduce n % 65535 = n % 65535 := reduce_modEq (by omega)
  have hzero : reduce n = 0 ↔ n = 0 := reduce_eq_zero_iff (by omega)
  exact reduce_of_dvd (by omega) (by omega) (by omega)

/-- Only a multiple of 65535 reduces to 65535. -/
theorem dvd_of_reduce (h : n < 2 ^ 32) (hr : reduce n = 65535) : 65535 ∣ n := by
  have hmod : reduce n % 65535 = n % 65535 := reduce_modEq h
  omega

end

/-! ## The sum with an end-around carry -/

/-- One's complement addition: the carry out of 16 bits is added back in. -/
def add (a b : Nat) : Nat := if a + b < 65536 then a + b else a + b - 65535

/-- The 16-bit words of a list of bytes, an odd last byte padded with zero. -/
def words : List UInt8 → List Nat
  | a :: b :: rest => (a.toNat * 256 + b.toNat) :: words rest
  | [last] => [last.toNat * 256]
  | [] => []

/-- The one's complement sum of the words, one end-around carry at a time. -/
def sum (xs : List UInt8) : Nat := (words xs).foldl add 0

theorem words_lt {w : Nat} (h : w ∈ words xs) : w < 65536 := by
  induction xs using words.induct with
  | case1 a b rest ih =>
    have ha := a.toNat_lt
    have hb := b.toNat_lt
    rcases List.mem_cons.mp h with rfl | hrest
    · omega
    · exact ih hrest
  | case2 last =>
    have hlast := last.toNat_lt
    rw [List.mem_singleton.mp h]
    omega
  | case3 => cases h

theorem sum_words (xs : List UInt8) : (words xs).sum = wordSum xs := by
  induction xs using words.induct with
  | case1 a b rest ih => rw [words, List.sum_cons, ih, wordSum_cons_cons]
  | case2 last => simp [words, wordSum]
  | case3 => rfl

/-- Adding words one by one keeps the sum modulo 65535, within 16 bits, and zero only if
nothing was added. -/
theorem foldl_add {ws : List Nat} (hws : ∀ w ∈ ws, w < 65536) {acc : Nat} (hacc : acc < 65536) :
    ws.foldl add acc < 65536 ∧ ws.foldl add acc ≡ acc + ws.sum [MOD 65535] ∧
      (ws.foldl add acc = 0 ↔ acc + ws.sum = 0) := by
  induction ws generalizing acc with
  | nil => exact ⟨hacc, Nat.ModEq.refl _, Iff.rfl⟩
  | cons w ws ih =>
    have hw := hws w List.mem_cons_self
    have hadd : add acc w < 65536 ∧ add acc w % 65535 = (acc + w) % 65535 ∧
        (add acc w = 0 ↔ acc + w = 0) := by
      unfold add
      split <;> omega
    obtain ⟨hlt, hmod, hzero⟩ := ih (fun v hv => hws v (List.mem_cons_of_mem _ hv)) hadd.1
    rw [List.foldl_cons, List.sum_cons]
    refine ⟨hlt, ?_, ?_⟩
    · unfold Nat.ModEq at hmod ⊢
      omega
    · rw [hzero]
      omega

/-- Two rounds of carries give the sum of as many words as 32 bits hold. -/
theorem reduce_wordSum (h : wordSum xs < 2 ^ 32) : reduce (wordSum xs) = sum xs := by
  obtain ⟨hlt, hmod, hzero⟩ := @foldl_add (words xs) (fun w hw => words_lt hw) 0 (by omega)
  rw [Nat.zero_add, sum_words] at hmod hzero
  have hle := reduce_le (wordSum xs)
  have hreduce : reduce (wordSum xs) % 65535 = wordSum xs % 65535 := reduce_modEq h
  have hreduceZero := reduce_eq_zero_iff h
  unfold Nat.ModEq at hmod
  change _ = (words xs).foldl add 0
  omega

end OnesComplement
