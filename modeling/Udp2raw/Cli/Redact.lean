import Udp2raw.Cli.KeyOption

/-!
# Redaction of the key in the log

`redact_argv` of `main.rs` scans the raw arguments on its own, before and without
the option parser. The line it returns is independent of the key exactly for the
spellings that both agree on.
-/

namespace Udp2raw

/-- The state of the loop in `redact_argv`. -/
structure Redaction where
  out : List Arg := []
  redacted : Bool := false
  skipNext : Bool := false
  deriving DecidableEq

/-- The text that takes the place of the key. -/
def redactedMark : Arg := "<redacted>".toList

/-- What is written for an argument that is neither skipped nor the option alone, and whether
it holds a key. -/
def redactWord (a : Arg) : Arg × Bool :=
  if "--key=".toList.isPrefixOf a then ("--key=".toList ++ redactedMark, true)
  else if 2 < a.length && "-k".toList.isPrefixOf a && !"--".toList.isPrefixOf a then
    ("-k".toList ++ redactedMark, true)
  else (a, false)

/-- One round of the loop in `redact_argv`. -/
def redactStep (s : Redaction) (a : Arg) : Redaction :=
  if s.skipNext then { out := s.out ++ [redactedMark], redacted := true, skipNext := false }
  else if isKeyOption a then { s with out := s.out ++ [a], skipNext := true }
  else
    let (word, hit) := redactWord a
    { s with out := s.out ++ [word], redacted := s.redacted || hit }

/-- `redact_argv`: the redacted line, and whether a key was on the command line. -/
def redactArgv (args : List Arg) : Arg × Bool :=
  let s := args.foldl redactStep {}
  ([' '].intercalate s.out, s.redacted)

/-! ## What the property says -/

/-- Both command lines are accepted, and they are the same except for the text that the option
parser binds to the key. -/
def DifferOnlyInKey (env : CliEnv) (a b : List Arg) : Prop :=
  ∃ u v stem s t, a = u ++ (stem ++ s) :: v ∧ b = u ++ (stem ++ t) :: v ∧
    keyAt env a = some (u.length, stem.length) ∧ keyAt env b = some (u.length, stem.length)

/-- The key is spelled `--key=V`, `-kV` or `-k=V`, or it is the argument right after `-k` or
`--key`. -/
def PlainSpelling (args : List Arg) (r j : Nat) : Prop :=
  (∃ x, args[r]? = some x ∧ x.take j ∈ ["--key=".toList, "-k".toList, "-k=".toList]) ∨
  (j = 0 ∧ ∃ q z, r = q + 1 ∧ args[q]? = some z ∧ isKeyOption z = true)

/-! ## The scanner -/

variable {s : Redaction} {u v : List Arg} {x : Arg} {j : Nat} {state : ArgState} {env : CliEnv}

theorem redactStep_skip (h : s.skipNext = true) (a : Arg) :
    redactStep s a =
      { out := s.out ++ [redactedMark], redacted := true, skipNext := false } := if_pos h

theorem redactStep_option (h : s.skipNext = false) {a : Arg} (ha : isKeyOption a = true) :
    redactStep s a = { s with out := s.out ++ [a], skipNext := true } := by
  simp [redactStep, h, ha]

theorem redactStep_word (h : s.skipNext = false) {a : Arg} (ha : isKeyOption a = false) :
    redactStep s a =
      { s with
        out := s.out ++ [(redactWord a).1], redacted := s.redacted || (redactWord a).2 } := by
  simp [redactStep, h, ha]

/-- The scanner skips an argument only right after the option. -/
theorem skipNext_foldl (h : (u.foldl redactStep {}).skipNext = true) :
    ∃ u' z, u = u' ++ [z] ∧ isKeyOption z = true := by
  induction u using List.reverseRecOn with
  | nil => cases h
  | append_singleton u' z _ =>
    refine ⟨u', z, rfl, ?_⟩
    rw [List.foldl_append, List.foldl_cons, List.foldl_nil] at h
    by_contra hz
    cases hs : (u'.foldl redactStep {}).skipNext with
    | true =>
      rw [redactStep_skip hs] at h
      cases h
    | false =>
      rw [redactStep_word hs (by simpa using hz)] at h
      exact absurd (hs.symm.trans h) nofun

/-- What is written for an argument, and whether the next one is skipped, depends only on
whether this one is. -/
theorem redactStep_out (k : Bool) (a : Arg) :
    ∃ word next, ∀ s : Redaction, s.skipNext = k →
      (redactStep s a).out = s.out ++ [word] ∧ (redactStep s a).skipNext = next := by
  cases k with
  | true => exact ⟨redactedMark, false, fun s hs => by rw [redactStep_skip hs]; exact ⟨rfl, rfl⟩⟩
  | false =>
    cases ha : isKeyOption a with
    | true => exact ⟨a, true, fun s hs => by rw [redactStep_option hs ha]; exact ⟨rfl, rfl⟩⟩
    | false =>
      exact ⟨(redactWord a).1, false, fun s hs => by
        rw [redactStep_word hs ha]
        exact ⟨rfl, hs⟩⟩

/-- What is written for the rest of the command line is added at the end. -/
theorem foldl_redactStep_out (v : List Arg) (k : Bool) :
    ∃ tail, ∀ s : Redaction, s.skipNext = k → (v.foldl redactStep s).out = s.out ++ tail := by
  induction v generalizing k with
  | nil => exact ⟨[], fun s _ => (List.append_nil _).symm⟩
  | cons a v ih =>
    obtain ⟨word, next, hstep⟩ := redactStep_out k a
    obtain ⟨tail, htail⟩ := ih next
    refine ⟨word :: tail, fun s hs => ?_⟩
    obtain ⟨ho, hn⟩ := hstep s hs
    rw [List.foldl_cons, htail _ hn, ho, List.append_assoc, List.singleton_append]

theorem intercalate_cons (w : Arg) {words : List Arg} (h : words ≠ []) :
    [' '].intercalate (w :: words) = w ++ ' ' :: [' '].intercalate words := by
  cases words with
  | nil => exact absurd rfl h
  | cons w' words => simp [List.intercalate]

/-- Lengthening one written word changes the line. -/
theorem intercalate_ne {pre tail : List Arg} {y : Arg} (h : x.length < y.length) :
    [' '].intercalate (pre ++ x :: tail) ≠ [' '].intercalate (pre ++ y :: tail) := by
  induction pre with
  | nil =>
    intro he
    have hlen := congrArg List.length he
    cases tail with
    | nil =>
      simp only [List.nil_append, List.intercalate_singleton] at hlen
      omega
    | cons w tail =>
      simp only [List.nil_append, intercalate_cons _ (List.cons_ne_nil w tail),
        List.length_append] at hlen
      omega
  | cons w pre ih =>
    rw [List.cons_append, List.cons_append, intercalate_cons w (by simp),
      intercalate_cons w (by simp)]
    intro he
    exact ih (List.cons.inj (List.append_cancel_left he)).2

/-! ## The result -/

theorem KeyForm.le_length (h : KeyForm state x j) : j ≤ x.length := by
  cases h with
  | own hd => exact Nat.zero_le _
  | long value => simp
  | short hv => simp
  | shortEq value => simp
  | bundled hf hk hr ho hl => simpa using hl

/-- An argument of its own does not look like an option, any other carrier of the key does. -/
theorem KeyForm.dashed_iff (h : KeyForm state x j) : isDashed x = true ↔ j ≠ 0 := by
  cases h with
  | own hd => simp [hd]
  | long value => simp [isDashed]
  | short hv => simp [isDashed]
  | shortEq value => simp [isDashed]
  | bundled hf hk hr ho hl => simp [isDashed]; omega

/-- A carrier of the key that does not begin plainly is written as it is, whatever the key. -/
theorem KeyForm.plain_or_verbatim (h : KeyForm state x j) (ho : isOrdinary x = true) :
    x.take j ∈ ["--key=".toList, "-k".toList, "-k=".toList] ∨
      ∀ e, isKeyOption (x ++ e) = false ∧ redactWord (x ++ e) = (x ++ e, false) := by
  cases h with
  | own hd =>
    cases x with
    | nil => simp [isOrdinary_iff] at ho
    | cons c rest =>
      have hc := head_ne_dash hd ho
      exact .inr fun e => by simp [isKeyOption, redactWord, hc, hc.symm]
  | long value => exact .inl (by simp)
  | short hv => exact .inl (by simp)
  | shortEq value => exact .inl (by simp)
  | @bundled f spec rest _ hf hk =>
    have hd : f ≠ '-' := by
      rintro rfl
      cases findShort_dash.symm.trans hf
    have hfk : f ≠ 'k' := by
      rintro rfl
      cases hf
      cases hk
    exact .inr fun e => by simp [isKeyOption, redactWord, hd, hfk, hd.symm, hfk.symm]

/-- A key that is found has one of the forms. -/
theorem keyForm_of_keyAt (h : keyAt env (u ++ x :: v) = some (u.length, j)) :
    ∃ state, KeyForm state x j := by
  obtain ⟨u', x', v', state, he, hl, -, -, hform, -⟩ := keyAt_cases h
  obtain ⟨rfl, hx⟩ := List.append_inj he hl.symm
  obtain ⟨rfl, -⟩ := List.cons.inj hx
  exact ⟨state, hform⟩

/-- The scanner is about to skip the key when it is the argument after the option. -/
theorem skipNext_of_keyOption {z : Arg} {bs : List Binding}
    (h : parseArgs env (u ++ [z] ++ v) = .ok (.run bs)) (hz : isKeyOption z = true) :
    ((u ++ [z]).foldl redactStep {}).skipNext = true := by
  rw [List.foldl_append, List.foldl_cons, List.foldl_nil]
  cases hs : (u.foldl redactStep {}).skipNext with
  | false => rw [redactStep_option hs hz]
  | true =>
    -- the option twice in a row is not accepted
    obtain ⟨u', z', rfl, hz'⟩ := skipNext_foldl hs
    have hz'' : z = ['-', 'k'] ∨ z = ['-', '-', 'k', 'e', 'y'] := by
      simpa [isKeyOption] using hz
    have hc : z ≠ confFileOption := by rcases hz'' with rfl | rfl <;> simp [confFileOption_eq]
    have hd : isDashed z = true := by rcases hz'' with rfl | rfl <;> rfl
    rw [List.append_assoc, List.append_assoc] at h
    cases hd.symm.trans (not_dashed_after_keyOption h hz' hc)

/-- After the option alone, or with a plain beginning, the scanner writes the same for every
text of the key. -/
theorem redactStep_plain {stem s t : Arg}
    (ha : keyAt env (u ++ (stem ++ s) :: v) = some (u.length, stem.length))
    (hb : keyAt env (u ++ (stem ++ t) :: v) = some (u.length, stem.length))
    (hp : PlainSpelling (u ++ (stem ++ s) :: v) u.length stem.length) :
    redactStep (u.foldl redactStep {}) (stem ++ s) =
      redactStep (u.foldl redactStep {}) (stem ++ t) := by
  cases hs : (u.foldl redactStep {}).skipNext with
  | true => rw [redactStep_skip hs, redactStep_skip hs]
  | false =>
    rcases hp with ⟨x, hx, hstem⟩ | ⟨hj, q, z, hr, hz, hk⟩
    · obtain rfl : stem ++ s = x := by simpa using hx
      rw [List.take_left' rfl] at hstem
      have hword : ∀ w, (∃ state, KeyForm state (stem ++ w) stem.length) →
          isKeyOption (stem ++ w) = false ∧ redactWord (stem ++ w) =
            (if stem = "--key=".toList then "--key=".toList ++ redactedMark
              else "-k".toList ++ redactedMark, true) := by
        rintro w ⟨state, hform⟩
        simp only [List.mem_cons, List.not_mem_nil, or_false] at hstem
        rcases hstem with rfl | rfl | rfl
        · simp [isKeyOption, redactWord]
        · have hw : w ≠ [] := by
            rintro rfl
            cases hform with
            | short hv => exact hv rfl
            | bundled _ _ _ ho => simp at ho
          cases w with
          | nil => exact absurd rfl hw
          | cons c w => simp [isKeyOption, redactWord]
        · simp [isKeyOption, redactWord]
      obtain ⟨hs₁, hs₂⟩ := hword s (keyForm_of_keyAt ha)
      obtain ⟨ht₁, ht₂⟩ := hword t (keyForm_of_keyAt hb)
      rw [redactStep_word hs hs₁, redactStep_word hs ht₁, hs₂, ht₂]
    · obtain ⟨bs, -, hrun, -⟩ := keyAt_eq_some ha
      obtain ⟨u', rfl⟩ : ∃ u', u = u' ++ [z] := by
        rw [List.getElem?_append_left (by omega)] at hz
        obtain ⟨hlt, he⟩ := List.getElem?_eq_some_iff.mp hz
        refine ⟨u.take q, ?_⟩
        rw [← he, List.take_append_getElem, ← hr, List.take_length]
      cases hs.symm.trans (skipNext_of_keyOption hrun hk)

/-- The line that is logged does not depend on the key exactly when the key is spelled
plainly. -/
theorem redactArgv_independent_iff (env : CliEnv) (a : List Arg) :
    (∀ b, DifferOnlyInKey env a b → redactArgv a = redactArgv b) ↔
      ∀ r j, keyAt env a = some (r, j) → PlainSpelling a r j := by
  constructor
  · intro hsame r j hk
    by_contra hplain
    obtain ⟨u, x, v, state, rfl, rfl, hord, hxc, hform, hext⟩ := keyAt_cases hk
    have hj : (x.take j).length = j := List.length_take_of_le hform.le_length
    have hdiff : DifferOnlyInKey env (u ++ x :: v) (u ++ (x ++ ['x']) :: v) := by
      refine ⟨u, v, x.take j, x.drop j, x.drop j ++ ['x'], ?_, ?_, ?_, ?_⟩
      · rw [List.take_append_drop]
      · rw [← List.append_assoc, List.take_append_drop]
      · rw [hj]
        exact hk
      · rw [hj]
        exact hext ['x']
    refine absurd (congrArg Prod.fst (hsame _ hdiff)) ?_
    have hget : (u ++ x :: v)[u.length]? = some x := by simp
    rcases hform.plain_or_verbatim hord with hstem | hverb
    · exact absurd (.inl ⟨x, hget, hstem⟩) hplain
    have hskip : (u.foldl redactStep {}).skipNext = false := by
      by_contra hs
      obtain ⟨u', z, rfl, hz⟩ := skipNext_foldl (by simpa using hs)
      by_cases hj0 : j = 0
      · exact hplain (.inr ⟨hj0, u'.length, z, by simp, by simp, hz⟩)
      · obtain ⟨bs, -, hrun, -⟩ := keyAt_eq_some hk
        rw [List.append_assoc] at hrun
        have hd := not_dashed_after_keyOption hrun hz hxc
        exact absurd (hform.dashed_iff.mpr hj0) (by simp [hd])
    obtain ⟨h₁, w₁⟩ := hverb []
    obtain ⟨h₂, w₂⟩ := hverb ['x']
    rw [List.append_nil] at h₁ w₁
    obtain ⟨tail, htail⟩ := foldl_redactStep_out v false
    simp only [redactArgv, List.foldl_append, List.foldl_cons, redactStep_word hskip h₁,
      redactStep_word hskip h₂, w₁, w₂]
    rw [htail, htail, List.append_assoc, List.append_assoc]
    · exact intercalate_ne (by simp)
    · exact hskip
    · exact hskip
  · rintro hplain b ⟨u, v, stem, s, t, rfl, rfl, ha, hb⟩
    have hstep := redactStep_plain ha hb (hplain _ _ ha)
    simp only [redactArgv, List.foldl_append, List.foldl_cons, hstep]

/-- The command line `-ck V -l 127.0.0.1:1000 -r 10.0.0.1:2000`. -/
def bundledClientArgs (key : Arg) : List Arg :=
  ["-ck".toList, key, "-l".toList, "127.0.0.1:1000".toList, "-r".toList, "10.0.0.1:2000".toList]

/-- The values bound on it, without the key. -/
def bundledClientValues : List (CliOpt × Option Arg) :=
  [(.client, none), (.key, none), (.localAddr, some "127.0.0.1:1000".toList),
    (.remote, some "10.0.0.1:2000".toList)]

private theorem keyAt_bundledClientArgs (hv : env.validate bundledClientValues = true) {key : Arg}
    (hk : key = ['a'] ∨ key = ['b']) : keyAt env (bundledClientArgs key) = some (1, 0) := by
  have hrun : ∃ bs, parseArgs env (bundledClientArgs key) = .ok (.run bs) ∧
      keyOf bs = some (1, 0) := by
    rcases hk with rfl | rfl
    · exact ⟨_, parseArgs_run_iff.mpr ⟨nofun, by decide, _,
        expandConfFile_ok_iff.mpr ⟨_, none, [], rfl, rfl, rfl⟩, rfl, hv⟩, rfl⟩
    · exact ⟨_, parseArgs_run_iff.mpr ⟨nofun, by decide, _,
        expandConfFile_ok_iff.mpr ⟨_, none, [], rfl, rfl, rfl⟩, rfl, hv⟩, rfl⟩
  obtain ⟨bs, hp, hkey⟩ := hrun
  simp only [keyAt, hp, hkey]

/-- No files, and these values pass the checks. -/
def bundledEnv : CliEnv where
  readFile path := .error path
  validate values := decide (values = bundledClientValues)

/-- With the key bundled behind a flag, two accepted command lines that differ only in the key
are logged differently. -/
theorem redactArgv_shows_bundled_key :
    ∃ a b, DifferOnlyInKey bundledEnv a b ∧ redactArgv a ≠ redactArgv b := by
  have hv : bundledEnv.validate bundledClientValues = true := by simp [bundledEnv]
  refine ⟨bundledClientArgs ['a'], bundledClientArgs ['b'], ?_, by decide⟩
  exact ⟨["-ck".toList], _, [], ['a'], ['b'], rfl, rfl,
    keyAt_bundledClientArgs hv (.inl rfl), keyAt_bundledClientArgs hv (.inr rfl)⟩

end Udp2raw
