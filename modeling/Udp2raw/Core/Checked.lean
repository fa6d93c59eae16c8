import Mathlib.Data.List.Basic

/-!
# Checked computations

Indexing, slicing and unwrapping are partial: each aborts with the reason a
runtime check would give. `Returns` is the total-correctness reading of such a
computation, with one rule per way of combining computations.
-/

namespace Checked

/-- Why a computation aborts. -/
inductive Panic where
  /-- An element access at or past the length. -/
  | index (i len : Nat)
  /-- A slice whose end precedes its start. -/
  | sliceOrder (start stop : Nat)
  /-- A slice that ends past the length. -/
  | sliceEnd (stop len : Nat)
  /-- The content of an absent value was demanded. -/
  | unwrap
  /-- An unsigned subtraction below zero. -/
  | underflow
  /-- An unsigned sum past its bound. -/
  | overflow
  /-- An explicit abort. -/
  | explicit
  deriving DecidableEq, Repr

universe u v

variable {α β : Type u} {ε : Type v}

/-- The element at position `i`. -/
def readAt (xs : List α) (i : Nat) : Except Panic α :=
  match xs[i]? with
  | some x => .ok x
  | none => .error (.index i xs.length)

/-- The elements from `start` up to, but not including, `stop`. -/
def slice (xs : List α) (start stop : Nat) : Except Panic (List α) :=
  if stop < start then .error (.sliceOrder start stop)
  else if xs.length < stop then .error (.sliceEnd stop xs.length)
  else .ok ((xs.take stop).drop start)

/-- The elements from `start` on. -/
def sliceFrom (xs : List α) (start : Nat) : Except Panic (List α) :=
  if xs.length < start then .error (.sliceEnd start xs.length) else .ok (xs.drop start)

/-- The content of a present value. -/
def unwrap : Option α → Except Panic α
  | some a => .ok a
  | none => .error .unwrap

/-- Subtraction of unsigned numbers. -/
def sub (a b : Nat) : Except Panic Nat := if a < b then .error .underflow else .ok (a - b)

/-- Addition of unsigned numbers up to a bound. -/
def add (bound a b : Nat) : Except Panic Nat :=
  if bound < a + b then .error .overflow else .ok (a + b)

/-- A number brought into a range, which must not be empty. -/
def clamp (a low high : Nat) : Except Panic Nat :=
  if high < low then .error .explicit else .ok (max low (min a high))

theorem add_eq_ok {bound a b : Nat} (h : a + b ≤ bound) : add bound a b = .ok (a + b) :=
  if_neg (Nat.not_lt.mpr h)

theorem clamp_eq_ok {a low high : Nat} (h : low ≤ high) :
    clamp a low high = .ok (max low (min a high)) := if_neg (Nat.not_lt.mpr h)

theorem sub_eq_ok {a b : Nat} (h : b ≤ a) : sub a b = .ok (a - b) := if_neg (Nat.not_lt.mpr h)

variable {xs : List α} {start stop : Nat} {a : α} {m : Except ε α} {f : α → Except ε β}

theorem readAt_eq_ok {i : Nat} (h : i < xs.length) : readAt xs i = .ok xs[i] := by
  simp only [readAt, List.getElem?_eq_getElem h]

theorem readAt_eq_ok_iff {i : Nat} {x : α} : readAt xs i = .ok x ↔ xs[i]? = some x := by
  unfold readAt
  cases xs[i]? <;> simp

theorem slice_eq_ok (h : start ≤ stop) (hs : stop ≤ xs.length) :
    slice xs start stop = .ok ((xs.take stop).drop start) := by
  rw [slice, if_neg (Nat.not_lt.mpr h), if_neg (Nat.not_lt.mpr hs)]

/-- The middle of three parts. -/
theorem slice_middle {before middle : List α} {i j : Nat} (hi : before.length = i)
    (hj : i + middle.length = j) (after : List α) :
    slice (before ++ (middle ++ after)) i j = .ok middle := by
  subst hi hj
  rw [slice_eq_ok (by omega) (by simp), List.take_append, List.drop_append]
  simp

theorem sliceFrom_eq_ok (h : start ≤ xs.length) : sliceFrom xs start = .ok (xs.drop start) := by
  rw [sliceFrom, if_neg (Nat.not_lt.mpr h)]

/-- Total correctness: the computation returns, and its value satisfies `post`. -/
def Returns (m : Except ε α) (post : α → Prop) : Prop := ∃ a, m = .ok a ∧ post a

/-- The value of a computation that never aborts. -/
def value : (m : Except ε α) → Returns m (fun _ => True) → α
  | .ok a, _ => a
  | .error _, h => absurd h (by rintro ⟨_, ⟨⟩, _⟩)

theorem value_eq_of_ok {h : Returns m fun _ => True} (hm : m = .ok a) : value m h = a := by
  subst hm
  rfl

theorem returns_ok {post : α → Prop} (h : post a) : Returns (.ok a : Except ε α) post := ⟨a, rfl, h⟩

theorem Returns.mono {post post' : α → Prop} (h : Returns m post) (hi : ∀ a, post a → post' a) :
    Returns m post' := by
  obtain ⟨a, ha, hp⟩ := h
  exact ⟨a, ha, hi a hp⟩

/-- Sequencing: the continuation may use everything the first part ensures. -/
theorem Returns.bind {mid : α → Prop} {post : β → Prop} (h : Returns m mid)
    (hf : ∀ a, mid a → Returns (f a) post) : Returns (m >>= f) post := by
  obtain ⟨a, rfl, hp⟩ := h
  exact hf a hp

/-- A sequence aborts with its second part when the first part returns. -/
theorem Returns.bind_error {mid : α → Prop} {e : ε} (h : Returns m mid)
    (hf : ∀ a, mid a → f a = .error e) : (m >>= f) = .error e := by
  obtain ⟨a, rfl, hp⟩ := h
  exact hf a hp

theorem ok_bind : ((.ok a : Except ε α) >>= f) = f a := rfl

/-- A conditional returns when both arms do, each under its own guard. -/
theorem returns_ite {c : Prop} [Decidable c] {n : Except ε α} {post : α → Prop}
    (ht : c → Returns m post) (he : ¬ c → Returns n post) : Returns (if c then m else n) post := by
  by_cases hc : c
  · simpa only [hc, ite_true] using ht hc
  · simpa only [hc, ite_false] using he hc

/-- A returning computation whose result is known satisfies the postcondition there. -/
theorem Returns.post {post : α → Prop} (h : Returns m post) (ha : m = .ok a) : post a := by
  obtain ⟨b, hb, hp⟩ := h
  rw [hb] at ha
  cases ha
  exact hp

theorem readAt_returns {xs : List α} {i : Nat} (h : i < xs.length) :
    Returns (readAt xs i) fun x => xs[i]? = some x :=
  ⟨xs[i], readAt_eq_ok h, List.getElem?_eq_getElem h⟩

/-- A slice in bounds has the length asked for. -/
theorem slice_returns (h : start ≤ stop) (hs : stop ≤ xs.length) :
    Returns (slice xs start stop) fun ys => ys.length = stop - start := by
  refine ⟨_, slice_eq_ok h hs, ?_⟩
  show (List.drop start (xs.take stop)).length = stop - start
  rw [List.length_drop, List.length_take, Nat.min_eq_left hs]

/-- A slice whose end is before its start panics. -/
theorem slice_inverted (xs : List α) (h : stop < start) :
    slice xs start stop = .error (.sliceOrder start stop) := if_pos h

theorem sliceFrom_returns (h : start ≤ xs.length) :
    Returns (sliceFrom xs start) fun ys => ys.length = xs.length - start :=
  ⟨_, sliceFrom_eq_ok h, List.length_drop⟩

/-- The result of a sequence that returned comes from both of its parts. -/
theorem bind_eq_ok {b : β} : (m >>= f) = .ok b ↔ ∃ a, m = .ok a ∧ f a = .ok b := by
  cases m with
  | error e => simp [Bind.bind, Except.bind]
  | ok a => simp [Bind.bind, Except.bind]

end Checked
