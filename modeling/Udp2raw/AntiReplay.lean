import Mathlib.Data.List.Perm.Basic
import Udp2raw.Core.Checked

/-!
# Sliding-window anti-replay

The window is a ring of bytes indexed by the sequence number modulo its size. It
is cleared lazily: an advance clears the slots it skips, and `re_init` resets
only the maximum. A slot inside the window therefore always speaks about the one
sequence number it currently stands for, whatever an earlier connection left in
the ring.
-/

namespace Udp2raw

open Checked

/-- `ANTI_REPLAY_WINDOW_SIZE`. -/
def antiReplayWindowSize : Nat := 4000

/-- The ring of `u8` marks; its length never changes. -/
abbrev Window := Fin antiReplayWindowSize → UInt8

/-- Receive window and send counter of one connection. Received numbers are only compared
and subtracted, the send counter wraps. -/
structure AntiReplay where
  maxPacketReceived : Nat
  window : Window
  nextSendSeq : UInt64
  disabled : Bool

/-- `AntiReplay::new`; `random` is the draw of the first sequence number. -/
def AntiReplay.new (disabled : Bool) (random : UInt64) : AntiReplay :=
  { maxPacketReceived := 0, window := fun _ => 0, nextSendSeq := random / 10, disabled }

/-- `re_init`: reset the receive side. -/
def AntiReplay.reInit (a : AntiReplay) : AntiReplay := { a with maxPacketReceived := 0 }

/-- `next_seq_for_send`. -/
def AntiReplay.nextSeqForSend (a : AntiReplay) : UInt64 × AntiReplay :=
  (a.nextSendSeq, { a with nextSendSeq := a.nextSendSeq + 1 })

/-- The index `(seq % w) as usize` into the ring. -/
def slotIndex (seq : Nat) : Except Panic (Fin antiReplayWindowSize) :=
  if h : seq % antiReplayWindowSize < antiReplayWindowSize then
    .ok ⟨seq % antiReplayWindowSize, h⟩
  else .error (.index (seq % antiReplayWindowSize) antiReplayWindowSize)

/-- `self.window[(seq % w) as usize] = v`. -/
def writeSlot (w : Window) (seq : Nat) (v : UInt8) : Except Panic Window := do
  return Function.update w (← slotIndex seq) v

/-- `while i < seq { window[i % w] = 0; i += 1 }`; `fuel` bounds the iterations. -/
def clearUpTo (seq : Nat) : Nat → Nat → Window → Except Panic Window
  | 0, _, w => .ok w
  | fuel + 1, i, w =>
    if i < seq then do clearUpTo seq fuel (i + 1) (← writeSlot w i 0) else .ok w

/-- The ring after a number newer than the maximum. -/
def AntiReplay.advance (a : AntiReplay) (seq : Nat) : Except Panic Window := do
  let gap ← sub seq a.maxPacketReceived
  if gap ≥ antiReplayWindowSize then writeSlot (fun _ => 0) seq 1
  else writeSlot (← clearUpTo seq antiReplayWindowSize (a.maxPacketReceived + 1) a.window) seq 1

/-- `is_valid`: whether `seq` is new; a new number is marked as seen. -/
def AntiReplay.isValid (a : AntiReplay) (seq : Nat) : Except Panic (Bool × AntiReplay) := do
  if a.disabled then return (true, a)
  if seq = a.maxPacketReceived then return (false, a)
  if seq > a.maxPacketReceived then
    return (true, { a with window := ← a.advance seq, maxPacketReceived := seq })
  if (← sub a.maxPacketReceived seq) ≥ antiReplayWindowSize then return (false, a)
  let slot ← slotIndex seq
  if a.window slot = 1 then return (false, a)
  return (true, { a with window := Function.update a.window slot 1 })

/-- The slot a sequence number stands in. -/
def slotOf (seq : Nat) : Fin antiReplayWindowSize :=
  ⟨seq % antiReplayWindowSize, Nat.mod_lt _ (by decide)⟩

theorem slotIndex_eq (seq : Nat) : slotIndex seq = .ok (slotOf seq) :=
  dif_pos (Nat.mod_lt _ (by decide))

theorem writeSlot_eq (w : Window) (seq : Nat) (v : UInt8) :
    writeSlot w seq v = .ok (Function.update w (slotOf seq) v) := by
  rw [writeSlot, slotIndex_eq]
  rfl

/-- Two numbers less than one window apart stand in different slots. -/
theorem slotOf_ne {x y : Nat} (hlt : x < y) (hw : y - x < antiReplayWindowSize) :
    slotOf x ≠ slotOf y := by
  intro he
  have hm : x % antiReplayWindowSize = y % antiReplayWindowSize := congrArg Fin.val he
  have hd := Nat.div_add_mod x antiReplayWindowSize
  have hd' := Nat.div_add_mod y antiReplayWindowSize
  simp only [antiReplayWindowSize] at *
  omega

/-- The clearing loop zeroes the slots of the skipped numbers and touches no other number
less than one window below the end. -/
theorem clearUpTo_spec (seq fuel : Nat) {i : Nat} (w : Window) (hf : seq ≤ i + fuel)
    (hw : seq - i < antiReplayWindowSize) :
    ∃ w', clearUpTo seq fuel i w = .ok w' ∧
      ∀ x, x < seq → seq - x < antiReplayWindowSize →
        w' (slotOf x) = if i ≤ x then 0 else w (slotOf x) := by
  induction fuel generalizing i w with
  | zero => exact ⟨w, rfl, fun x hx _ => by rw [if_neg (by omega)]⟩
  | succ fuel ih =>
    by_cases hi : i < seq
    · obtain ⟨w', hw', hspec⟩ := ih (Function.update w (slotOf i) 0) (i := i + 1)
        (by omega) (by omega)
      refine ⟨w', ?_, fun x hx hxw => ?_⟩
      · rw [clearUpTo, if_pos hi, writeSlot_eq]
        exact hw'
      · rw [hspec x hx hxw]
        rcases Nat.lt_trichotomy x i with h | rfl | h
        · rw [if_neg (by omega), if_neg (by omega),
            Function.update_of_ne (slotOf_ne h (by omega))]
        · rw [if_neg (by omega), if_pos (Nat.le_refl _), Function.update_self]
        · rw [if_pos (by omega), if_pos (by omega)]
    · refine ⟨w, by rw [clearUpTo, if_neg hi], fun x hx _ => ?_⟩
      rw [if_neg (by omega)]

variable {seq : Nat} {a : AntiReplay} {accepted : List Nat}

/-- An advance marks the new number, clears what it skips, and keeps the rest of the
window; beyond one window nothing of the old ring is left to keep. -/
theorem AntiReplay.advance_spec (a : AntiReplay) (h : a.maxPacketReceived < seq) :
    ∃ w, a.advance seq = .ok w ∧ w (slotOf seq) = 1 ∧
      ∀ x, x < seq → seq - x < antiReplayWindowSize →
        w (slotOf x) = if a.maxPacketReceived < x then 0 else a.window (slotOf x) := by
  rw [AntiReplay.advance, sub_eq_ok (Nat.le_of_lt h)]
  simp only [Bind.bind, Except.bind]
  by_cases hgap : seq - a.maxPacketReceived ≥ antiReplayWindowSize
  · refine ⟨_, by rw [if_pos hgap, writeSlot_eq], Function.update_self _ _ _, fun x hx hxw => ?_⟩
    rw [Function.update_of_ne (slotOf_ne hx hxw), if_pos (by omega)]
  · obtain ⟨w, hw, hspec⟩ := clearUpTo_spec seq antiReplayWindowSize
      (i := a.maxPacketReceived + 1) a.window (by omega) (by omega)
    refine ⟨_, by rw [if_neg hgap, hw]; exact writeSlot_eq _ _ _, Function.update_self _ _ _,
      fun x hx hxw => ?_⟩
    rw [Function.update_of_ne (slotOf_ne hx hxw), hspec x hx hxw]
    rfl

/-- What one call can do: refuse and leave the state, or accept a newer number or an
unmarked number of the window. -/
theorem AntiReplay.isValid_cases (a : AntiReplay) (hen : a.disabled = false) (seq : Nat) :
    (a.isValid seq = .ok (false, a) ∧
      (seq = a.maxPacketReceived ∨ seq < a.maxPacketReceived ∧
        (antiReplayWindowSize ≤ a.maxPacketReceived - seq ∨ a.window (slotOf seq) = 1))) ∨
    (∃ w, a.isValid seq = .ok (true, { a with window := w, maxPacketReceived := seq }) ∧
      a.maxPacketReceived < seq ∧ w (slotOf seq) = 1 ∧
      ∀ x, x < seq → seq - x < antiReplayWindowSize →
        w (slotOf x) = if a.maxPacketReceived < x then 0 else a.window (slotOf x)) ∨
    (a.isValid seq = .ok (true, { a with window := Function.update a.window (slotOf seq) 1 }) ∧
      seq < a.maxPacketReceived ∧ a.maxPacketReceived - seq < antiReplayWindowSize ∧
      a.window (slotOf seq) ≠ 1) := by
  unfold AntiReplay.isValid
  simp only [hen, Bool.false_eq_true, if_false]
  rcases Nat.lt_trichotomy seq a.maxPacketReceived with h | h | h
  · rw [if_neg (by omega), if_neg (by omega), sub_eq_ok (Nat.le_of_lt h)]
    simp only [Bind.bind, Except.bind, slotIndex_eq]
    by_cases hold : a.maxPacketReceived - seq ≥ antiReplayWindowSize
    · exact .inl ⟨by rw [if_pos hold]; rfl, .inr ⟨h, .inl hold⟩⟩
    · by_cases hseen : a.window (slotOf seq) = 1
      · exact .inl ⟨by rw [if_neg hold, if_pos hseen]; rfl, .inr ⟨h, .inr hseen⟩⟩
      · exact .inr (.inr ⟨by rw [if_neg hold, if_neg hseen]; rfl, h, by omega, hseen⟩)
  · exact .inl ⟨by rw [if_pos h]; rfl, .inl h⟩
  · obtain ⟨w, hw, hmark, hrest⟩ := a.advance_spec h
    refine .inr (.inl ⟨w, ?_, h, hmark, hrest⟩)
    rw [if_neg (by omega), if_pos h, hw]
    rfl

/-- A call always returns and leaves the send side and the setting alone. -/
theorem AntiReplay.isValid_returns (a : AntiReplay) (seq : Nat) :
    ∃ v b, a.isValid seq = .ok (v, b) ∧ b.nextSendSeq = a.nextSendSeq ∧
      b.disabled = a.disabled ∧ (v = false → b = a) := by
  cases hd : a.disabled with
  | true => exact ⟨true, a, by simp [AntiReplay.isValid, hd]; rfl, rfl, hd, fun _ => rfl⟩
  | false =>
    rcases a.isValid_cases hd seq with ⟨hr, -⟩ | ⟨w, hr, -⟩ | ⟨hr, -⟩
    · exact ⟨false, a, hr, rfl, hd, fun _ => rfl⟩
    · exact ⟨true, _, hr, rfl, hd, nofun⟩
    · exact ⟨true, _, hr, rfl, hd, nofun⟩

/-- The window remembers every accepted number it still covers. -/
structure AntiReplay.Marks (a : AntiReplay) (accepted : List Nat) : Prop where
  enabled : a.disabled = false
  bound : ∀ x ∈ accepted, x ≤ a.maxPacketReceived
  marked : ∀ x ∈ accepted, a.maxPacketReceived - x < antiReplayWindowSize →
    a.window (slotOf x) = 1

/-- Nothing has been accepted yet, so there is nothing to remember. -/
theorem AntiReplay.Marks.nil (h : a.disabled = false) : a.Marks [] :=
  ⟨h, fun _ hx => (List.not_mem_nil hx).elim, fun _ hx => (List.not_mem_nil hx).elim⟩

/-- Accepting a newer number keeps every mark the window still covers. -/
theorem AntiReplay.Marks.newer (h : a.Marks accepted) {w : Window} (hlt : a.maxPacketReceived < seq)
    (hmark : w (slotOf seq) = 1) (hrest : ∀ x, x < seq → seq - x < antiReplayWindowSize →
      w (slotOf x) = if a.maxPacketReceived < x then 0 else a.window (slotOf x)) :
    ({ a with window := w, maxPacketReceived := seq } : AntiReplay).Marks (seq :: accepted) := by
  refine ⟨h.enabled, fun x hx => ?_, fun x hx hxw => ?_⟩
  · rcases List.mem_cons.mp hx with rfl | hx
    · exact Nat.le_refl _
    · exact Nat.le_of_lt (Nat.lt_of_le_of_lt (h.bound x hx) hlt)
  · rcases List.mem_cons.mp hx with rfl | hx
    · exact hmark
    · have hb := h.bound x hx
      change seq - x < antiReplayWindowSize at hxw
      refine (hrest x (by omega) hxw).trans ?_
      rw [if_neg (by omega)]
      exact h.marked x hx (by omega)

/-- Accepting an unmarked number of the window only adds its mark. -/
theorem AntiReplay.Marks.older (h : a.Marks accepted) (hlt : seq < a.maxPacketReceived) :
    ({ a with window := Function.update a.window (slotOf seq) 1 } : AntiReplay).Marks
      (seq :: accepted) := by
  refine ⟨h.enabled, fun x hx => ?_, fun x hx hxw => ?_⟩
  · rcases List.mem_cons.mp hx with rfl | hx
    · exact Nat.le_of_lt hlt
    · exact h.bound x hx
  · by_cases he : slotOf x = slotOf seq
    · rw [he]
      exact Function.update_self _ _ _
    · refine (Function.update_of_ne he _ _).trans ?_
      rcases List.mem_cons.mp hx with rfl | hx
      · exact absurd rfl he
      · exact h.marked x hx hxw

/-- A call never accepts a remembered number, and remembers the number it accepts. -/
theorem AntiReplay.Marks.isValid {a : AntiReplay} {accepted : List Nat} (h : a.Marks accepted)
    (seq : Nat) :
    ∃ v b, a.isValid seq = .ok (v, b) ∧ b.nextSendSeq = a.nextSendSeq ∧ (v = false → b = a) ∧
      (v = true → seq ∉ accepted ∧ b.Marks (seq :: accepted)) := by
  rcases a.isValid_cases h.enabled seq with ⟨hr, -⟩ | ⟨w, hr, hlt, hmark, hrest⟩ |
    ⟨hr, hlt, hin, hnew⟩
  · exact ⟨false, a, hr, rfl, fun _ => rfl, fun hv => by cases hv⟩
  · refine ⟨true, _, hr, rfl, fun hv => (by cases hv), fun _ => ⟨fun hmem => ?_,
      h.newer hlt hmark hrest⟩⟩
    have := h.bound seq hmem
    omega
  · refine ⟨true, _, hr, rfl, fun hv => (by cases hv), fun _ => ⟨fun hmem => ?_, h.older hlt⟩⟩
    exact hnew (h.marked seq hmem hin)

/-- The largest number of a list, 0 if there is none. -/
def largest (accepted : List Nat) : Nat := accepted.foldr max 0

/-- Besides remembering, the window holds no mark that a number accepted since the reset
does not account for, and its maximum is the largest of these numbers. Number 0 is outside
the contract: a stale mark in its slot may still be read. -/
structure AntiReplay.Tracks (a : AntiReplay) (accepted : List Nat) : Prop extends
    a.Marks accepted where
  maximum : a.maxPacketReceived = largest accepted
  only : ∀ x, 1 ≤ x → x ≤ a.maxPacketReceived →
    a.maxPacketReceived - x < antiReplayWindowSize → a.window (slotOf x) = 1 → x ∈ accepted

/-- After a reset no number of the window is left for a stale mark to speak about. -/
theorem AntiReplay.tracks_reInit (h : a.disabled = false) : a.reInit.Tracks [] := by
  refine ⟨.nil h, rfl, fun x hx hle => ?_⟩
  change x ≤ 0 at hle
  omega

/-- A positive largest number is a member. -/
theorem largest_mem (h : 1 ≤ largest accepted) : largest accepted ∈ accepted := by
  induction accepted with
  | nil => simp [largest] at h
  | cons x xs ih =>
    change 1 ≤ max x (largest xs) at h
    change max x (largest xs) ∈ x :: xs
    rcases Nat.le_total (largest xs) x with hle | hle
    · rw [Nat.max_eq_left hle]
      exact List.mem_cons_self
    · rw [Nat.max_eq_right hle] at h ⊢
      exact List.mem_cons_of_mem _ (ih h)

/-- Accepting a newer number tracks it. -/
theorem AntiReplay.Tracks.newer (h : a.Tracks accepted) {w : Window}
    (hlt : a.maxPacketReceived < seq) (hmark : w (slotOf seq) = 1)
    (hrest : ∀ x, x < seq → seq - x < antiReplayWindowSize →
      w (slotOf x) = if a.maxPacketReceived < x then 0 else a.window (slotOf x)) :
    ({ a with window := w, maxPacketReceived := seq } : AntiReplay).Tracks
      (seq :: accepted) := by
  refine ⟨h.toMarks.newer hlt hmark hrest, ?_, fun x hx hle hxw hseen => ?_⟩
  · have hm := h.maximum
    change seq = max seq (largest accepted)
    omega
  · change x ≤ seq at hle
    change seq - x < antiReplayWindowSize at hxw
    change w (slotOf x) = 1 at hseen
    rcases Nat.lt_or_eq_of_le hle with hxs | rfl
    · rw [hrest x hxs hxw] at hseen
      by_cases hskip : a.maxPacketReceived < x
      · rw [if_pos hskip] at hseen
        cases hseen
      · rw [if_neg hskip] at hseen
        exact List.mem_cons_of_mem _ (h.only x hx (by omega) (by omega) hseen)
    · exact List.mem_cons_self

/-- Accepting an older number tracks it. -/
theorem AntiReplay.Tracks.older (h : a.Tracks accepted) (hlt : seq < a.maxPacketReceived)
    (hin : a.maxPacketReceived - seq < antiReplayWindowSize) :
    ({ a with window := Function.update a.window (slotOf seq) 1 } : AntiReplay).Tracks
      (seq :: accepted) := by
  refine ⟨h.toMarks.older hlt, ?_, fun x hx hle hxw hseen => ?_⟩
  · have hm := h.maximum
    change a.maxPacketReceived = max seq (largest accepted)
    omega
  · change x ≤ a.maxPacketReceived at hle
    change a.maxPacketReceived - x < antiReplayWindowSize at hxw
    change Function.update a.window (slotOf seq) 1 (slotOf x) = 1 at hseen
    rcases Nat.lt_trichotomy x seq with hlt' | rfl | hlt'
    · rw [Function.update_of_ne (slotOf_ne hlt' (by omega))] at hseen
      exact List.mem_cons_of_mem _ (h.only x hx hle hxw hseen)
    · exact List.mem_cons_self
    · rw [Function.update_of_ne (slotOf_ne hlt' (by omega)).symm] at hseen
      exact List.mem_cons_of_mem _ (h.only x hx hle hxw hseen)

/-- One call decides exactly by membership and distance from the maximum. -/
theorem AntiReplay.Tracks.isValid {a : AntiReplay} {accepted : List Nat} (h : a.Tracks accepted)
    {seq : Nat} (hpos : 1 ≤ seq) :
    ∃ v b, a.isValid seq = .ok (v, b) ∧ (v = false → b = a) ∧
      (v = true ↔ seq ∉ accepted ∧
        (largest accepted < seq ∨ largest accepted - seq < antiReplayWindowSize)) ∧
      b.Tracks (if v then seq :: accepted else accepted) := by
  have hmax := h.maximum
  rcases a.isValid_cases h.enabled seq with ⟨hr, hwhy⟩ | ⟨w, hr, hlt, hmark, hrest⟩ |
    ⟨hr, hlt, hin, hnew⟩
  · refine ⟨false, a, hr, fun _ => rfl, ?_, h⟩
    simp only [Bool.false_eq_true, false_iff, not_and]
    intro hnot hnear
    rcases hwhy with rfl | ⟨hlt, hold | hseen⟩
    · -- a positive maximum was itself accepted
      rw [hmax] at hpos hnot
      exact hnot (largest_mem hpos)
    · omega
    · exact hnot (h.only seq hpos (by omega) (by omega) hseen)
  · refine ⟨true, _, hr, fun hv => (by cases hv), ?_, h.newer hlt hmark hrest⟩
    simp only [true_iff]
    refine ⟨fun hmem => ?_, .inl (by omega)⟩
    have hb := h.bound seq hmem
    omega
  · refine ⟨true, _, hr, fun hv => (by cases hv), ?_, h.older hlt hin⟩
    simp only [true_iff]
    exact ⟨fun hmem => hnew (h.marked seq hmem hin), .inr (by omega)⟩

/-- `is_valid` on each number in turn, with the verdicts. -/
def AntiReplay.runCalls (a : AntiReplay) : List Nat → Except Panic (List Bool × AntiReplay)
  | [] => .ok ([], a)
  | seq :: rest => do
    let (v, b) ← a.isValid seq
    let (vs, c) ← b.runCalls rest
    return (v :: vs, c)

/-- The numbers whose call returned true. -/
def acceptedBy (seqs : List Nat) (verdicts : List Bool) : List Nat :=
  ((seqs.zip verdicts).filter Prod.snd).map Prod.fst

/-- A sequence of calls returns, and the window tracks what it has accepted. -/
theorem AntiReplay.Tracks.runCalls (h : a.Tracks accepted) {seqs : List Nat}
    (hpos : ∀ x ∈ seqs, 1 ≤ x) :
    ∃ vs b, a.runCalls seqs = .ok (vs, b) ∧
      b.Tracks ((acceptedBy seqs vs).reverse ++ accepted) := by
  induction seqs generalizing a accepted with
  | nil => exact ⟨[], a, rfl, h⟩
  | cons seq rest ih =>
    obtain ⟨v, b, hv, -, -, hb⟩ := h.isValid (hpos seq List.mem_cons_self)
    obtain ⟨vs, c, hvs, hc⟩ := ih hb fun x hx => hpos x (List.mem_cons_of_mem _ hx)
    refine ⟨v :: vs, c, ?_, ?_⟩
    · simp only [AntiReplay.runCalls, hv, hvs, Bind.bind, Except.bind]
      rfl
    · cases v <;> simpa [acceptedBy] using hc

/-- Everything an enabled window can go through. -/
inductive AntiReplay.Reachable : AntiReplay → Prop where
  | new (random : UInt64) : Reachable (.new false random)
  | isValid {a b : AntiReplay} {seq : Nat} {v : Bool} :
      Reachable a → a.isValid seq = .ok (v, b) → Reachable b
  | reInit {a : AntiReplay} : Reachable a → Reachable a.reInit
  | nextSeqForSend {a : AntiReplay} : Reachable a → Reachable a.nextSeqForSend.2

/-- A reachable window is enabled. -/
theorem AntiReplay.Reachable.enabled (h : a.Reachable) : a.disabled = false := by
  induction h with
  | new random => rfl
  | @isValid a b seq v _ hv ih =>
    obtain ⟨v', b', hv', -, hsame, hmarks⟩ := (AntiReplay.Marks.nil ih).isValid seq
    rw [hv'] at hv
    cases hv
    cases v with
    | false => rw [hsame rfl, ih]
    | true => exact (hmarks rfl).2.enabled
  | reInit _ ih => exact ih
  | nextSeqForSend _ ih => exact ih

/-- Freshly created, or just reset after any history. -/
inductive AntiReplay.Restarted : AntiReplay → Prop where
  | new (random : UInt64) : Restarted (.new false random)
  | reInit {a : AntiReplay} : a.Reachable → Restarted a.reInit

theorem AntiReplay.Restarted.tracks (h : a.Restarted) : a.Tracks [] := by
  cases h with
  | new random => exact tracks_reInit (a := .new false random) rfl
  | reInit h => exact tracks_reInit h.enabled

theorem largest_reverse (accepted : List Nat) : largest accepted.reverse = largest accepted :=
  (List.reverse_perm accepted).foldr_eq 0

/-- The window is exact: after any history and a reset, a call accepts precisely the
numbers not accepted since that are newer than the largest accepted one or less than one
window behind it. No call aborts, and a refusal leaves the state as it was. -/
theorem isValid_exact (h : a.Restarted) {seqs : List Nat} (hpos : ∀ x ∈ seq :: seqs, 1 ≤ x) :
    ∃ verdicts b v c, a.runCalls seqs = .ok (verdicts, b) ∧ b.isValid seq = .ok (v, c) ∧
      (v = true ↔ seq ∉ acceptedBy seqs verdicts ∧
        (largest (acceptedBy seqs verdicts) < seq ∨
          largest (acceptedBy seqs verdicts) - seq < antiReplayWindowSize)) ∧
      (v = false → c = b) := by
  obtain ⟨verdicts, b, hrun, hb⟩ := h.tracks.runCalls fun x hx => hpos x (List.mem_cons_of_mem _ hx)
  obtain ⟨v, c, hv, hsame, hiff, -⟩ := hb.isValid (hpos seq List.mem_cons_self)
  refine ⟨verdicts, b, v, c, hrun, hv, ?_, hsame⟩
  simpa only [List.append_nil, List.mem_reverse, largest_reverse] using hiff

/-- The exactness at a reset window that has seen 5, 3 and a replay of 5. -/
theorem isValid_exact_replay :
    ∃ verdicts b v c,
      (AntiReplay.new false 7).reInit.runCalls [5, 3, 5] = .ok (verdicts, b) ∧
      b.isValid 4 = .ok (v, c) ∧
      (v = true ↔ 4 ∉ acceptedBy [5, 3, 5] verdicts ∧
        (largest (acceptedBy [5, 3, 5] verdicts) < 4 ∨
          largest (acceptedBy [5, 3, 5] verdicts) - 4 < antiReplayWindowSize)) ∧
      (v = false → c = b) :=
  isValid_exact (.reInit (.new 7)) (by decide)

end Udp2raw
