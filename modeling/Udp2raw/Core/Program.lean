import Mathlib.Data.List.Basic

/-!
# Programs with state, output and aborts

A program changes a state, logs outputs and returns a value, or aborts. `Runs`
is its specification: from a given state the program aborts only as allowed, or
ends with a postcondition after finitely many steps of a given relation. The
rules follow the shape of the program, so a handler is cut into steps once and
every invariant of the relation then holds of the handler.
-/

/-- A computation on `σ` that logs `ω`, aborts with `ε` or returns `α`. -/
def Program (σ ω ε α : Type) : Type := σ → Except ε (α × σ × List ω)

namespace Program

variable {σ ω ε α β : Type}

/-- Run the second program where the first ended; outputs accumulate in order. -/
protected def bind (m : Program σ ω ε α) (f : α → Program σ ω ε β) : Program σ ω ε β := fun s =>
  match m s with
  | .error e => .error e
  | .ok (a, t, out) =>
    match f a t with
    | .error e => .error e
    | .ok (b, u, more) => .ok (b, u, out ++ more)

instance : Monad (Program σ ω ε) where
  pure a := fun s => .ok (a, s, [])
  bind := Program.bind

/-- The current state. -/
def get : Program σ ω ε σ := fun s => .ok (s, s, [])

/-- Move to the state `f` gives and log `out`. -/
def act (f : σ → σ) (out : List ω) : Program σ ω ε Unit := fun s => .ok ((), f s, out)

/-- Stop without a state. -/
def abort (e : ε) : Program σ ω ε α := fun _ => .error e

/-- A stateless computation that may abort. -/
def ofExcept (x : Except ε α) : Program σ ω ε α := fun s =>
  match x with
  | .error e => .error e
  | .ok a => .ok (a, s, [])

/-- The body once for each element, in order. -/
def forEach (f : α → Program σ ω ε Unit) : List α → Program σ ω ε Unit
  | [] => pure ()
  | x :: rest => do
    f x
    forEach f rest

variable {t s : σ} {a : α} {f : α → Program σ ω ε β} {m : Program σ ω ε α} {out : List ω}
  {Q : α → σ → Prop}

/-- A silent first part hands its value and its state on. -/
theorem bind_apply (h : m s = .ok (a, t, [])) : (m >>= f) s = f a t := by
  change Program.bind m f s = _
  unfold Program.bind
  rw [h]
  dsimp only
  cases f a t <;> rfl

theorem get_bind_apply {f : σ → Program σ ω ε β} : ((get : Program σ ω ε σ) >>= f) s = f s s :=
  bind_apply rfl

/-- A sequence that ends went through both its parts. -/
theorem bind_eq_ok {u : σ} {b : β} : (m >>= f) s = .ok (b, u, out) ↔
      ∃ a t first rest, m s = .ok (a, t, first) ∧ f a t = .ok (b, u, rest) ∧
        out = first ++ rest := by
  change Program.bind m f s = _ ↔ _
  unfold Program.bind
  constructor
  · intro h
    cases hm : m s with
    | error e => simp [hm] at h
    | ok r =>
      obtain ⟨a, t, first⟩ := r
      rw [hm] at h
      dsimp only at h
      cases hf : f a t with
      | error e => simp [hf] at h
      | ok r =>
        obtain ⟨b', u', rest⟩ := r
        rw [hf] at h
        cases h
        exact ⟨a, t, first, rest, rfl, hf, rfl⟩
  · rintro ⟨a, t, first, rest, hm, hf, rfl⟩
    rw [hm]
    dsimp only
    rw [hf]

/-- A run that was evaluated. -/
theorem exists_ok {p : α → σ → List ω → Bool}
    (h : (m s).toOption.any (fun r => p r.1 r.2.1 r.2.2) = true) :
    ∃ a t out, m s = .ok (a, t, out) ∧ p a t out = true := by
  cases hm : m s with
  | error e => simp [hm, Except.toOption] at h
  | ok r =>
    rw [hm] at h
    exact ⟨r.1, r.2.1, r.2.2, rfl, h⟩

/-- Finitely many steps with their outputs in order. -/
inductive Steps (Step : σ → List ω → σ → Prop) : σ → List ω → σ → Prop where
  | refl (s : σ) : Steps Step s [] s
  | cons {s t u : σ} {out more : List ω} :
      Step s out t → Steps Step t more u → Steps Step s (out ++ more) u

variable {Step : σ → List ω → σ → Prop} {Allowed : ε → Prop}

theorem Steps.single (h : Step s out t) : Steps Step s out t := by
  simpa using Steps.cons h (.refl t)

/-- Steps compose, and so do their outputs. -/
theorem Steps.trans {u : σ} {more : List ω} (h : Steps Step s out t) (h' : Steps Step t more u) :
    Steps Step s (out ++ more) u := by
  induction h with
  | refl s => simpa using h'
  | cons hstep _ ih => simpa using Steps.cons hstep (ih h')

/-- What every step keeps, finitely many steps keep. -/
theorem Steps.invariant {I : σ → Prop} (keep : ∀ s out t, Step s out t → I s → I t)
    (h : Steps Step s out t) (hs : I s) : I t := by
  induction h with
  | refl s => exact hs
  | cons hstep _ ih => exact ih (keep _ _ _ hstep hs)

/-- What every step keeps of the state and the outputs so far, finitely many steps keep. -/
theorem Steps.history {I : List ω → σ → Prop}
    (keep : ∀ log s out t, Step s out t → I log s → I (log ++ out) t) (h : Steps Step s out t)
    {log : List ω} (hs : I log s) : I (log ++ out) t := by
  induction h generalizing log with
  | refl s => rwa [List.append_nil]
  | cons hstep _ ih =>
    rw [← List.append_assoc]
    exact ih (keep _ _ _ _ hstep hs)

/-- What holds of every output of a step holds of every output of finitely many. -/
theorem Steps.forall_out {P : ω → Prop} (keep : ∀ s out t, Step s out t → ∀ e ∈ out, P e)
    (h : Steps Step s out t) : ∀ e ∈ out, P e := by
  induction h with
  | refl s => simp
  | cons hstep _ ih =>
    intro e he
    rcases List.mem_append.mp he with he | he
    · exact keep _ _ _ hstep e he
    · exact ih e he

/-- A relation whose steps are simulated by finitely many steps of another. -/
theorem Steps.simulate {τ : Type} {Abs : τ → List ω → τ → Prop} {view : σ → τ}
    (hsim : ∀ s out t, Step s out t → Steps Abs (view s) out (view t)) (h : Steps Step s out t) :
    Steps Abs (view s) out (view t) := by
  induction h with
  | refl s => exact .refl _
  | cons hstep _ ih => exact (hsim _ _ _ hstep).trans ih

/-- From `s` the program aborts only as allowed, or takes steps to a state with `Q`. -/
def Runs (Step : σ → List ω → σ → Prop) (Allowed : ε → Prop) (s : σ) (m : Program σ ω ε α)
    (Q : α → σ → Prop) : Prop :=
  match m s with
  | .error e => Allowed e
  | .ok (a, t, out) => Steps Step s out t ∧ Q a t

theorem Runs.error (h : Runs Step Allowed s m Q) {e : ε} (he : m s = .error e) : Allowed e := by
  simpa only [Runs, he] using h

theorem Runs.ok (h : Runs Step Allowed s m Q) (he : m s = .ok (a, t, out)) :
    Steps Step s out t ∧ Q a t := by
  simpa only [Runs, he] using h

theorem runs_pure (h : Q a s) : Runs Step Allowed s (pure a) Q :=
  ⟨.refl s, h⟩

/-- The rule of sequence. -/
theorem Runs.bind {R : α → σ → Prop} {Q : β → σ → Prop} (hm : Runs Step Allowed s m R)
    (hf : ∀ a t, R a t → Runs Step Allowed t (f a) Q) : Runs Step Allowed s (m >>= f) Q := by
  change Runs Step Allowed s (Program.bind m f) Q
  unfold Runs Program.bind
  cases hr : m s with
  | error e => exact hm.error hr
  | ok r =>
    obtain ⟨a, t, out⟩ := r
    obtain ⟨hsteps, hR⟩ := hm.ok hr
    have hnext := hf a t hR
    cases hr' : f a t with
    | error e => simpa only [hr'] using hnext.error hr'
    | ok r' =>
      obtain ⟨b, u, more⟩ := r'
      obtain ⟨hmore, hQ⟩ := hnext.ok hr'
      simpa only [hr'] using ⟨hsteps.trans hmore, hQ⟩

/-- More may be allowed. -/
theorem Runs.allow {Wider : ε → Prop} (wider : ∀ e, Allowed e → Wider e)
    (h : Runs Step Allowed s m Q) : Runs Step Wider s m Q := by
  unfold Runs at h ⊢
  split
  · next e hm =>
      rw [hm] at h
      exact wider e h
  · next hm => rwa [hm] at h

/-- The rule of consequence. -/
theorem Runs.mono {R : α → σ → Prop} (hm : Runs Step Allowed s m R) (h : ∀ a t, R a t → Q a t) :
    Runs Step Allowed s m Q := by
  unfold Runs
  cases hr : m s with
  | error e => exact hm.error hr
  | ok r =>
    obtain ⟨a, t, out⟩ := r
    exact ⟨(hm.ok hr).1, h a t (hm.ok hr).2⟩

/-- An invariant of the steps may be added to any postcondition. -/
theorem Runs.keep {I : σ → Prop} (keep : ∀ s out t, Step s out t → I s → I t)
    (hm : Runs Step Allowed s m Q) (hs : I s) : Runs Step Allowed s m fun a t => I t ∧ Q a t := by
  unfold Runs
  cases hr : m s with
  | error e => exact hm.error hr
  | ok r =>
    obtain ⟨a, t, out⟩ := r
    obtain ⟨hsteps, hQ⟩ := hm.ok hr
    exact ⟨hsteps, hsteps.invariant keep hs, hQ⟩

theorem runs_get {Q : σ → σ → Prop} (h : Q s s) : Runs Step Allowed s get Q :=
  ⟨.refl s, h⟩

/-- Reading the state hands it to the rest of the program. -/
theorem runs_get_bind {f : σ → Program σ ω ε β} {Q : β → σ → Prop}
    (h : Runs Step Allowed s (f s) Q) : Runs Step Allowed s (get >>= f) Q := by
  refine Runs.bind (R := fun a t => a = s ∧ t = s) (runs_get ⟨rfl, rfl⟩) ?_
  rintro a t ⟨rfl, rfl⟩
  exact h

/-- One atomic change is one step. -/
theorem runs_act {f : σ → σ} {Q : Unit → σ → Prop} (hstep : Step s out (f s)) (h : Q () (f s)) :
    Runs Step Allowed s (act f out) Q :=
  ⟨.single hstep, h⟩

theorem runs_abort {e : ε} (h : Allowed e) : Runs Step Allowed s (abort e) Q :=
  h

theorem runs_ofExcept {x : Except ε α} (herr : ∀ e, x = .error e → Allowed e)
    (hok : ∀ a, x = .ok a → Q a s) : Runs Step Allowed s (ofExcept x) Q := by
  cases x with
  | error e => exact herr e rfl
  | ok a => exact ⟨.refl s, hok a rfl⟩

/-- A computation that is known to return hands its value on. -/
theorem runs_ok_bind {x : Except ε α} (hx : x = .ok a) {Q : β → σ → Prop}
    (h : Runs Step Allowed s (f a) Q) : Runs Step Allowed s (ofExcept x >>= f) Q := by
  subst hx
  refine Runs.bind (R := fun b t => b = a ∧ t = s) ⟨.refl s, rfl, rfl⟩ ?_
  rintro b t ⟨rfl, rfl⟩
  exact h

/-- The rule of the conditional. -/
theorem runs_ite {c : Prop} [Decidable c] {m' : Program σ ω ε α} (ht : c → Runs Step Allowed s m Q)
    (hf : ¬ c → Runs Step Allowed s m' Q) : Runs Step Allowed s (if c then m else m') Q := by
  by_cases h : c
  · rw [if_pos h]
    exact ht h
  · rw [if_neg h]
    exact hf h

/-- A loop keeps what each of its rounds keeps. -/
theorem runs_forEach {f : α → Program σ ω ε Unit} {J : σ → Prop} {xs : List α}
    (h : ∀ x ∈ xs, ∀ s, J s → Runs Step Allowed s (f x) fun _ => J) (hs : J s) :
    Runs Step Allowed s (forEach f xs) fun _ => J := by
  induction xs generalizing s with
  | nil => exact runs_pure hs
  | cons x rest ih =>
    refine (h x List.mem_cons_self s hs).bind fun _ t ht => ?_
    exact ih (fun y hy => h y (List.mem_cons_of_mem _ hy)) ht

end Program
