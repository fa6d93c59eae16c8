import Mathlib.Data.Vector.Basic

/-!
# Chained block modes

A buffer is rewritten block by block, any incomplete block at its end staying as
it is. CBC runs over blocks with a self-inverse addition, ciphertext feedback over
a stream of symbols. Decryption undoes encryption from the same chaining value:
CBC where the block function has a left inverse, feedback always.
-/

namespace BlockModes

section

variable {A : Type} {w : Nat}

/-- The symbols of a list of blocks. -/
def join (bs : List (List.Vector A w)) : List A := bs.flatMap List.Vector.toList

theorem join_cons (b : List.Vector A w) (bs : List (List.Vector A w)) :
    join (b :: bs) = b.toList ++ join bs := rfl

@[simp] theorem length_join (bs : List (List.Vector A w)) : (join bs).length = w * bs.length := by
  induction bs with
  | nil => rfl
  | cons b bs ih =>
    rw [join_cons, List.length_append, ih, b.toList_length, List.length_cons, Nat.mul_succ,
      Nat.add_comm]

variable [Inhabited A]

/-- The first `w` symbols of a buffer that has them. -/
def blockOf (w : Nat) (data : List A) : List.Vector A w :=
  ⟨(data ++ List.replicate w default).take w, by simp⟩

/-- The first `n` blocks of a buffer. -/
def chunks (w : Nat) : Nat → List A → List (List.Vector A w)
  | 0, _ => []
  | n + 1, data => blockOf w data :: chunks w n (data.drop w)

/-- Rewriting the complete blocks of a buffer in place. -/
def mapChunks (f : List (List.Vector A w) → List (List.Vector A w)) (data : List A) : List A :=
  join (f (chunks w (data.length / w) data)) ++ data.drop (w * (data.length / w))

theorem blockOf_append (b : List.Vector A w) (rest : List A) :
    blockOf w (b.toList ++ rest) = b := by
  apply List.Vector.toList_injective
  change ((b.toList ++ rest) ++ List.replicate w default).take w = b.toList
  rw [List.append_assoc, List.take_left' b.toList_length]

theorem toList_blockOf {data : List A} (h : w ≤ data.length) :
    (blockOf w data).toList = data.take w := by
  change (data ++ List.replicate w default).take w = data.take w
  rw [List.take_append_of_le_length h]

@[simp] theorem length_chunks (n : Nat) (data : List A) : (chunks w n data).length = n := by
  induction n generalizing data with
  | zero => rfl
  | succ n ih => rw [chunks, List.length_cons, ih]

/-- Chunks of the data join to a beginning of it. -/
theorem join_chunks {n : Nat} {data : List A} (h : w * n ≤ data.length) :
    join (chunks w n data) = data.take (w * n) := by
  induction n generalizing data with
  | zero => simp [chunks, join]
  | succ n ih =>
    rw [Nat.mul_succ] at h
    have hrest : w * n ≤ (data.drop w).length := by rw [List.length_drop]; omega
    rw [chunks, join_cons, toList_blockOf (by omega), ih hrest, Nat.mul_succ, Nat.add_comm,
      List.take_add]

/-- Joined blocks are cut apart again. -/
theorem chunks_join (bs : List (List.Vector A w)) (rest : List A) :
    chunks w bs.length (join bs ++ rest) = bs := by
  induction bs with
  | nil => rfl
  | cons b bs ih =>
    rw [List.length_cons, chunks, join_cons, List.append_assoc, blockOf_append,
      List.drop_left' b.toList_length, ih]

section

variable {f g : List (List.Vector A w) → List (List.Vector A w)}

/-- Work on the blocks keeps the length of the data. -/
theorem length_mapChunks (hf : ∀ bs, (f bs).length = bs.length) (data : List A) :
    (mapChunks f data).length = data.length := by
  have := Nat.mul_div_le data.length w
  rw [mapChunks, List.length_append, length_join, hf, length_chunks, List.length_drop]
  omega

/-- Two rewritings that undo each other on blocks undo each other on buffers. -/
theorem mapChunks_mapChunks (hf : ∀ bs, (f bs).length = bs.length) (hg : ∀ bs, g (f bs) = bs)
    (data : List A) : mapChunks g (mapChunks f data) = data := by
  have hn := Nat.mul_div_le data.length w
  have hlen : (mapChunks f data).length = data.length := length_mapChunks hf data
  have hblocks : (f (chunks w (data.length / w) data)).length = data.length / w := by
    rw [hf, length_chunks]
  unfold mapChunks at hlen ⊢
  rw [hlen]
  have hdrop : (join (f (chunks w (data.length / w) data))).length = w * (data.length / w) := by
    rw [length_join, hblocks]
  have hchunks : chunks w (data.length / w)
      (join (f (chunks w (data.length / w) data)) ++ data.drop (w * (data.length / w))) =
      f (chunks w (data.length / w) data) := by
    have := chunks_join (f (chunks w (data.length / w) data))
      (data.drop (w * (data.length / w)))
    rwa [hblocks] at this
  rw [hchunks, hg, join_chunks hn, List.drop_left' hdrop, List.take_append_drop]

end

end

section

variable {B : Type} (add : B → B → B)

/-- CBC encryption: each block is added to the one before it and encrypted. -/
def cbcEncrypt (enc : B → B) : B → List B → List B
  | _, [] => []
  | prev, b :: rest =>
    let c := enc (add b prev)
    c :: cbcEncrypt enc c rest

/-- CBC decryption. -/
def cbcDecrypt (dec : B → B) : B → List B → List B
  | _, [] => []
  | prev, c :: rest => add (dec c) prev :: cbcDecrypt dec c rest

variable {add} {enc dec : B → B}

@[simp] theorem length_cbcEncrypt (prev : B) (bs : List B) :
    (cbcEncrypt add enc prev bs).length = bs.length := by
  induction bs generalizing prev with
  | nil => rfl
  | cons b rest ih => simp [cbcEncrypt, ih]

/-- Decryption undoes encryption, block by block. -/
theorem cbcDecrypt_cbcEncrypt (hadd : ∀ a b, add (add a b) b = a) (hdec : ∀ b, dec (enc b) = b)
    (prev : B) (bs : List B) : cbcDecrypt add dec prev (cbcEncrypt add enc prev bs) = bs := by
  induction bs generalizing prev with
  | nil => rfl
  | cons b rest ih => simp only [cbcEncrypt, cbcDecrypt, hdec, hadd, ih]

/-- Decrypting all blocks first and then adding the chain is the same. -/
theorem zipWith_decrypt (prev : B) (cs : List B) :
    List.zipWith add (cs.map dec) (prev :: cs) = cbcDecrypt add dec prev cs := by
  induction cs generalizing prev with
  | nil => rfl
  | cons c rest ih => simp only [List.map_cons, List.zipWith_cons_cons, ih, cbcDecrypt]

end

section

variable {σ A : Type} (next : σ → σ × A) (put : σ → A → σ) (add : A → A → A)

/-- A stream mode with ciphertext feedback: each symbol is added to the next symbol of the key
stream, and the sum goes into the register. -/
def feedbackEncrypt : σ → List A → List A
  | _, [] => []
  | s, a :: rest =>
    let (t, x) := next s
    let c := add a x
    c :: feedbackEncrypt (put t c) rest

/-- The same with the received symbol going into the register. -/
def feedbackDecrypt : σ → List A → List A
  | _, [] => []
  | s, c :: rest =>
    let (t, x) := next s
    add c x :: feedbackDecrypt (put t c) rest

variable {next put add}

@[simp] theorem length_feedbackEncrypt (s : σ) (as : List A) :
    (feedbackEncrypt next put add s as).length = as.length := by
  induction as generalizing s with
  | nil => rfl
  | cons a rest ih => simp [feedbackEncrypt, ih]

@[simp] theorem length_feedbackDecrypt (s : σ) (cs : List A) :
    (feedbackDecrypt next put add s cs).length = cs.length := by
  induction cs generalizing s with
  | nil => rfl
  | cons c rest ih => simp [feedbackDecrypt, ih]

/-- Decryption undoes encryption in feedback mode. -/
theorem feedbackDecrypt_feedbackEncrypt (hadd : ∀ a b, add (add a b) b = a) (s : σ) (as : List A) :
    feedbackDecrypt next put add s (feedbackEncrypt next put add s as) = as := by
  induction as generalizing s with
  | nil => rfl
  | cons a rest ih => simp only [feedbackEncrypt, feedbackDecrypt, hadd, ih]

end

end BlockModes
