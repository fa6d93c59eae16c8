import Udp2raw.Cli.Grammar
import Udp2raw.Core.Checked

/-!
# Where the key is taken from

The option parser binds the key to an argument of its own, or to the end of the
argument that names the option. Each form stays accepted, with the same bindings
otherwise, when text is added at the end of the key.
-/

namespace Udp2raw

open Checked

/-! ## Inversion of the checks and of the expansion -/

theorem confFileOption_eq :
    confFileOption = ['-', '-', 'c', 'o', 'n', 'f', '-', 'f', 'i', 'l', 'e'] := rfl

/-- The words that are not ordinary. -/
theorem isOrdinary_iff (a : Arg) : isOrdinary a = true ↔
    a ≠ ['-', '-', 'u', 'n', 'i', 't', '-', 't', 'e', 's', 't'] ∧ a ≠ ['-', 'h'] ∧
    a ≠ ['-', '-', 'h', 'e', 'l', 'p'] ∧ a ≠ [] ∧ a ≠ ['-'] ∧ a ≠ ['-', '-'] := by
  have hu : "--unit-test".toList = ['-', '-', 'u', 'n', 'i', 't', '-', 't', 'e', 's', 't'] := rfl
  have hh : "-h".toList = ['-', 'h'] := rfl
  have hl : "--help".toList = ['-', '-', 'h', 'e', 'l', 'p'] := rfl
  rw [isOrdinary, hu, hh, hl]
  simp

variable {env : CliEnv} {args rest v u : List Arg} {tokens out : List Token} {conf c : Option Arg}
  {i offset j : Nat} {t : Token} {bs : List Binding} {last state next : ArgState}
  {origin : Option Nat} {b : Binding}

/-- When the command line is accepted for a run. -/
theorem parseArgs_run_iff {bindings : List Binding} :
    parseArgs env args = .ok (.run bindings) ↔
      args ≠ [] ∧ (∀ a ∈ args, isOrdinary a = true) ∧
      ∃ tokens, expandConfFile env args = .ok tokens ∧ tryParseFrom tokens = some bindings ∧
        env.validate (bindings.map fun b => (b.opt, b.hideKey.value)) = true := by
  have hord : (∀ a ∈ args, isOrdinary a = true) ↔
      args.any (· == "--unit-test".toList) = false ∧
      args.any (fun a => a == "-h".toList || a == "--help".toList) = false ∧
      args.find? (fun a => a.isEmpty || a == ['-'] || a == ['-', '-']) = none := by
    simp [isOrdinary]
    grind
  unfold parseArgs
  constructor
  · intro h
    split at h
    · cases h
    · next hu =>
      split at h
      · cases h
      · next hh =>
        split at h
        · cases h
        · next hf =>
          obtain ⟨tokens, ht, h⟩ := bind_eq_ok.mp h
          split at h
          · cases h
          · next bs hb =>
            split at h
            · next hv =>
              cases h
              simp only [Bool.or_eq_true, not_or, Bool.not_eq_true] at hu hh
              exact ⟨by simpa using hh.1, hord.mpr ⟨hu, hh.2, hf⟩, tokens, ht, hb, hv⟩
            · cases h
  · rintro ⟨hne, ho, tokens, ht, hb, hv⟩
    obtain ⟨hu, hh, hf⟩ := hord.mp ho
    have he : args.isEmpty = false := by simpa using hne
    simp only [hu, hh, hf, he, Bool.or_self]
    exact bind_eq_ok.mpr ⟨tokens, ht, by simp [hb, hv]⟩

/-- What an expansion that succeeds returns. -/
theorem expandConfFile_ok_iff :
    expandConfFile env args = .ok tokens ↔ ∃ out conf extra,
      takeConfFile 0 none args = .ok (out, conf) ∧ confFileTokens env conf = .ok extra ∧
        tokens = out ++ extra := by
  unfold expandConfFile
  constructor
  · intro h
    obtain ⟨⟨out, conf⟩, ho, h⟩ := bind_eq_ok.mp h
    obtain ⟨extra, he, h⟩ := bind_eq_ok.mp h
    exact ⟨out, conf, extra, ho, he, (Except.ok.inj h).symm⟩
  · rintro ⟨out, conf, extra, ho, he, rfl⟩
    exact bind_eq_ok.mpr ⟨_, ho, bind_eq_ok.mpr ⟨_, he, rfl⟩⟩

/-- Words of the file have no place on the command line. -/
theorem confFileTokens_origin (h : confFileTokens env conf = .ok tokens) :
    ∀ t ∈ tokens, t.origin = none := by
  unfold confFileTokens at h
  split at h
  · cases h
    nofun
  · split at h
    · cases h
    · obtain ⟨texts, -, h⟩ := bind_eq_ok.mp h
      cases h
      intro t ht
      obtain ⟨text, -, rfl⟩ := List.mem_map.mp ht
      rfl

/-- What a parse that succeeds returns. -/
theorem tryParseFrom_eq_some_iff {bindings : List Binding} :
    tryParseFrom tokens = some bindings ↔ ∃ last, argRun .ready tokens = some (bindings, last) ∧
      (∀ opt, last ≠ .pending opt) ∧ repeatsOk (bindings.map Binding.opt) = true := by
  unfold tryParseFrom
  simp only [Option.bind_eq_bind, Option.bind_eq_some_iff, Prod.exists]
  constructor
  · rintro ⟨bs, last, hr, h⟩
    split at h
    · cases h
    · next hn =>
      split at h
      · next hok =>
        cases h
        exact ⟨last, hr, hn, hok⟩
      · cases h
  · rintro ⟨last, hr, hn, hok⟩
    refine ⟨bindings, last, hr, ?_⟩
    split
    · next opt => exact absurd rfl (hn opt)
    · rw [if_pos hok]

/-- What the first argument can be. -/
theorem takeConfFile_cons {a : Arg} (h : takeConfFile i conf (a :: rest) = .ok (out, c)) :
    (a ≠ confFileOption ∧ ∃ more, takeConfFile (i + 1) conf rest = .ok (more, c) ∧
      out = ⟨a, some i⟩ :: more) ∨
    (a = confFileOption ∧ conf = none ∧ ∃ path rest', rest = path :: rest' ∧
      path.head? ≠ some '-' ∧ takeConfFile (i + 2) (some path) rest' = .ok (out, c)) := by
  unfold takeConfFile at h
  split at h
  · next ha =>
    split at h
    · cases h
    · next hc =>
      split at h
      · cases h
      · next path rest' =>
        split at h
        · cases h
        · next hp => exact .inr ⟨ha, by simpa using hc, path, rest', rfl, hp, h⟩
  · next ha =>
    obtain ⟨⟨more, c'⟩, hm, h⟩ := bind_eq_ok.mp h
    cases h
    exact .inl ⟨ha, more, hm, rfl⟩

theorem takeConfFile_of_ne {a : Arg} {more : List Token} (ha : a ≠ confFileOption)
    (h : takeConfFile (i + 1) conf rest = .ok (more, c)) :
    takeConfFile i conf (a :: rest) = .ok (⟨a, some i⟩ :: more, c) := by
  unfold takeConfFile
  rw [if_neg ha]
  exact bind_eq_ok.mpr ⟨_, h, rfl⟩

theorem takeConfFile_of_path {path : Arg} (hp : path.head? ≠ some '-') :
    takeConfFile i none (confFileOption :: path :: rest) =
      takeConfFile (i + 2) (some path) rest := by
  rw [takeConfFile, if_pos rfl, if_neg (by simp)]
  exact if_neg hp

/-- The tokens left on the command line are arguments in their places. -/
theorem takeConfFile_origin (h : takeConfFile i conf args = .ok (out, c)) :
    ∀ t ∈ out, ∃ q, t.origin = some (i + q) ∧ args[q]? = some t.text := by
  induction hn : args.length using Nat.strongRecOn generalizing i conf args out with
  | ind n ih =>
    cases args with
    | nil =>
      cases h
      nofun
    | cons a rest =>
      rw [List.length_cons] at hn
      obtain ⟨-, more, hm, rfl⟩ | ⟨-, -, path, rest', rfl, -, hm⟩ := takeConfFile_cons h
      · intro t ht
        rcases List.mem_cons.mp ht with rfl | ht
        · exact ⟨0, rfl, rfl⟩
        · obtain ⟨q, hq, hg⟩ := ih _ (by omega) hm rfl t ht
          exact ⟨q + 1, by rw [hq]; congr 1; omega, hg⟩
      · intro t ht
        rw [List.length_cons] at hn
        obtain ⟨q, hq, hg⟩ := ih _ (by omega) hm rfl t ht
        exact ⟨q + 2, by rw [hq]; congr 1; omega, hg⟩

/-- Cutting the command line in two: the parts are expanded one after the other, unless the
cut falls between `--conf-file` and its parameter. -/
theorem takeConfFile_split (h : takeConfFile i conf (u ++ v) = .ok (out, c)) :
    (∃ conf' pre post, takeConfFile (i + u.length) conf' v = .ok (post, c) ∧ out = pre ++ post ∧
      (∀ t ∈ pre, ∃ q, t.origin = some q ∧ q < i + u.length) ∧
      ∀ v' post' c', takeConfFile (i + u.length) conf' v' = .ok (post', c') →
        takeConfFile i conf (u ++ v') = .ok (pre ++ post', c')) ∨
    (∃ path v', v = path :: v' ∧ path.head? ≠ some '-' ∧
      ∀ t ∈ out, t.origin ≠ some (i + u.length)) := by
  induction hn : u.length using Nat.strongRecOn generalizing i conf u out with
  | ind n ih =>
    cases u with
    | nil =>
      subst hn
      exact .inl ⟨conf, [], out, h, rfl, nofun, fun v' post' c' h' => h'⟩
    | cons a u =>
      rw [List.length_cons] at hn
      rw [List.cons_append] at h
      obtain ⟨ha, more, hm, rfl⟩ | ⟨rfl, rfl, path, rest', hr, hp, hm⟩ := takeConfFile_cons h
      · rcases ih _ (by omega) hm rfl with
          ⟨conf', pre, post, hv, rfl, hpre, hall⟩ | ⟨path, v', hv, hp, hne⟩
        · refine .inl ⟨conf', ⟨a, some i⟩ :: pre, post, ?_, rfl, ?_, ?_⟩
          · rwa [show i + n = i + 1 + u.length by omega]
          · intro t ht
            rcases List.mem_cons.mp ht with rfl | ht
            · exact ⟨i, rfl, by omega⟩
            · obtain ⟨q, hq, hl⟩ := hpre t ht
              exact ⟨q, hq, by omega⟩
          · intro v' post' c' h'
            rw [show i + n = i + 1 + u.length by omega] at h'
            exact takeConfFile_of_ne ha (hall v' post' c' h')
        · refine .inr ⟨path, v', hv, hp, ?_⟩
          rw [show i + n = i + 1 + u.length by omega]
          intro t ht
          rcases List.mem_cons.mp ht with rfl | ht
          · simp
            omega
          · exact hne t ht
      · cases u with
        | nil =>
          refine .inr ⟨path, rest', hr, hp, fun t ht => ?_⟩
          obtain ⟨q, hq, -⟩ := takeConfFile_origin hm t ht
          rw [hq]
          simp at hn ⊢
          omega
        | cons b u =>
          rw [List.length_cons] at hn
          obtain ⟨rfl, rfl⟩ := List.cons.inj hr
          rcases ih _ (by omega) hm rfl with
            ⟨conf', pre, post, hv, rfl, hpre, hall⟩ | ⟨path, v', hv, hp', hne⟩
          · refine .inl ⟨conf', pre, post, ?_, rfl, ?_, ?_⟩
            · rwa [show i + n = i + 2 + u.length by omega]
            · rwa [show i + n = i + 2 + u.length by omega]
            · intro v' post' c' h'
              rw [show i + n = i + 2 + u.length by omega] at h'
              rw [List.cons_append, List.cons_append, takeConfFile_of_path hp]
              exact hall v' post' c' h'
          · refine .inr ⟨path, v', hv, hp', ?_⟩
            rwa [show i + n = i + 2 + u.length by omega]

/-- The token of an argument that is not taken away: it can be exchanged for another. -/
theorem takeConfFile_at {x : Arg} (h : takeConfFile 0 none (u ++ x :: v) = .ok (out, conf))
    (ht : t ∈ out) (hto : t.origin = some u.length) :
    x ≠ confFileOption ∧ ∃ pre more, out = pre ++ ⟨x, some u.length⟩ :: more ∧
      (∀ s ∈ pre ++ more, s.origin ≠ some u.length) ∧
      ∀ y, y ≠ confFileOption →
        takeConfFile 0 none (u ++ y :: v) = .ok (pre ++ ⟨y, some u.length⟩ :: more, conf) := by
  rcases takeConfFile_split h with ⟨conf', pre, post, hpost, rfl, hpre, hall⟩ | ⟨_, _, _, _, hno⟩
  swap
  · exact absurd (by rw [hto, Nat.zero_add]) (hno t ht)
  rw [Nat.zero_add] at hpost hpre hall
  have hlt : ∀ s ∈ pre, s.origin ≠ some u.length := by
    intro s hs he
    obtain ⟨q, hq, hlt⟩ := hpre s hs
    rw [hq] at he
    cases he
    omega
  obtain ⟨hx, more, hm, rfl⟩ | ⟨-, -, path, rest, -, -, hm⟩ := takeConfFile_cons hpost
  · refine ⟨hx, pre, more, rfl, fun s hs he => ?_, fun y hy => ?_⟩
    · rcases List.mem_append.mp hs with hs | hs
      · exact hlt s hs he
      · obtain ⟨q, hq, -⟩ := takeConfFile_origin hm s hs
        rw [hq] at he
        have hq' := Option.some.inj he
        omega
    · exact hall _ _ _ (takeConfFile_of_ne hy hm)
  · rcases List.mem_append.mp ht with ht | ht
    · exact absurd hto (hlt t ht)
    · obtain ⟨q, hq, -⟩ := takeConfFile_origin hm t ht
      rw [hq] at hto
      have hq' := Option.some.inj hto
      omega

/-! ## The option parser -/

theorem argRun_cons {ys : List Token} :
    argRun state (t :: ys) = some (bs, last) ↔ ∃ b₁ mid b₂, argStep state t = some (b₁, mid) ∧
      argRun mid ys = some (b₂, last) ∧ bs = b₁ ++ b₂ := by
  simp only [argRun, Option.bind_eq_bind, Option.bind_eq_some_iff, Prod.exists,
    Option.some.injEq, Prod.mk.injEq]
  constructor
  · rintro ⟨b, next, hs, more, l, h, rfl, rfl⟩
    exact ⟨b, next, more, hs, h, rfl⟩
  · rintro ⟨b, next, more, hs, h, rfl⟩
    exact ⟨b, next, hs, more, last, h, rfl, rfl⟩

/-- A run over words is two runs in a row. -/
theorem argRun_append {xs ys : List Token} :
    argRun state (xs ++ ys) = some (bs, last) ↔ ∃ b₁ mid b₂, argRun state xs = some (b₁, mid) ∧
      argRun mid ys = some (b₂, last) ∧ bs = b₁ ++ b₂ := by
  induction xs generalizing state bs with
  | nil => simp [argRun, eq_comm]
  | cons t xs ih =>
    rw [List.cons_append, argRun_cons]
    constructor
    · rintro ⟨b, next, more, hs, h, rfl⟩
      obtain ⟨b₁, mid, b₂, h₁, h₂, rfl⟩ := ih.mp h
      exact ⟨b ++ b₁, mid, b₂, argRun_cons.mpr ⟨b, next, b₁, hs, h₁, rfl⟩, h₂, by simp⟩
    · rintro ⟨_, mid, b₂, h, h₂, rfl⟩
      obtain ⟨b, next, b₁, hs, h₁, rfl⟩ := argRun_cons.mp h
      exact ⟨b, next, b₁ ++ b₂, hs, ih.mpr ⟨b₁, mid, b₂, h₁, h₂, rfl⟩, by simp⟩

/-- The row of the key in the option table. -/
theorem cliSpecs_key : ∀ spec ∈ cliSpecs, spec.opt = .key →
    spec.kind = .value ∧ spec.short = some 'k' ∧ spec.long = some "key" := by
  decide

theorem findShort_key {c : Char} {spec : OptSpec} (h : findShort c = some spec)
    (hk : spec.opt = .key) : spec.kind = .value ∧ c = 'k' := by
  obtain ⟨hv, hs, -⟩ := cliSpecs_key spec (List.mem_of_find?_eq_some h) hk
  have hc := List.find?_some h
  simp only [hs, decide_eq_true_eq, Option.some.injEq] at hc
  exact ⟨hv, hc.symm⟩

theorem findLong_key {name : Arg} {spec : OptSpec} (h : findLong name = some spec)
    (hk : spec.opt = .key) : spec.kind = .value ∧ name = "key".toList := by
  obtain ⟨hv, -, hl⟩ := cliSpecs_key spec (List.mem_of_find?_eq_some h) hk
  have hn := List.find?_some h
  simp only [hl, Option.map_some, decide_eq_true_eq, Option.some.injEq] at hn
  exact ⟨hv, hn.symm⟩

/-- What the first letter of a cluster can be. -/
theorem bindShort_cons {c : Char} {rest : Arg} :
    bindShort origin offset (c :: rest) = some (bs, state) ↔ ∃ spec, findShort c = some spec ∧
      ((spec.kind = .flag ∧ ∃ more, bindShort origin (offset + 1) rest = some (more, state) ∧
        bs = ⟨spec.opt, none, origin, 0⟩ :: more) ∨
      (spec.kind ≠ .flag ∧ (bs, state) = bindAttached spec.opt origin offset rest)) := by
  simp only [bindShort, Option.bind_eq_bind, Option.bind_eq_some_iff]
  refine exists_congr fun spec => and_congr_right fun _ => ?_
  by_cases hf : spec.kind = .flag
  · simp only [hf, if_true, Option.bind_eq_some_iff, Prod.exists, Option.some.injEq,
      Prod.mk.injEq, true_and, ne_eq, not_true_eq_false, false_and, or_false]
    constructor
    · rintro ⟨more, st, hm, rfl, rfl⟩
      exact ⟨more, hm, rfl⟩
    · rintro ⟨more, hm, rfl⟩
      exact ⟨more, state, hm, rfl, rfl⟩
  · simp [hf, eq_comm]

theorem bindAttached_of_ne {opt : CliOpt} {d : Char} {value : Arg} (hd : d ≠ '=') :
    bindAttached opt origin offset (d :: value) =
      ([⟨opt, some (d :: value), origin, offset + 1⟩], .ready) := by
  unfold bindAttached
  split
  · simp_all
  · simp_all
  · rfl

/-- The attached value is present when something follows the letter. -/
theorem bindAttached_cases (opt : CliOpt) (origin : Option Nat) (offset : Nat) (rest : Arg) :
    (rest = [] ∧ bindAttached opt origin offset rest = ([], .pending opt)) ∨
    (∃ value, rest = '=' :: value ∧
      bindAttached opt origin offset rest = ([⟨opt, some value, origin, offset + 2⟩], .ready)) ∨
    (∃ d value, rest = d :: value ∧ d ≠ '=' ∧
      bindAttached opt origin offset rest = ([⟨opt, some rest, origin, offset + 1⟩], .ready)) := by
  cases rest with
  | nil => exact .inl ⟨rfl, rfl⟩
  | cons d value =>
    by_cases hd : d = '='
    · subst hd
      exact .inr (.inl ⟨value, rfl, rfl⟩)
    · exact .inr (.inr ⟨d, value, rfl, hd, bindAttached_of_ne hd⟩)

/-- The origin of a binding is the token's. -/
theorem bindShort_origin {cs : Arg} (h : bindShort origin offset cs = some (bs, state)) :
    ∀ b ∈ bs, b.origin = origin := by
  induction cs generalizing offset bs with
  | nil =>
    cases h
    nofun
  | cons c rest ih =>
    obtain ⟨spec, -, ⟨-, more, hm, rfl⟩ | ⟨-, ha⟩⟩ := bindShort_cons.mp h
    · intro b hb
      rcases List.mem_cons.mp hb with rfl | hb
      · rfl
      · exact ih hm b hb
    · obtain ⟨-, he⟩ | ⟨_, -, he⟩ | ⟨_, _, -, -, he⟩ :=
        bindAttached_cases spec.opt origin offset rest
      · cases ha.trans he
        nofun
      · cases ha.trans he
        simp
      · cases ha.trans he
        simp

theorem bindLong_origin (h : bindLong t = some (bs, state)) : ∀ b ∈ bs, b.origin = t.origin := by
  obtain ⟨spec, -, h⟩ := Option.bind_eq_some_iff.mp h
  split at h <;> split at h <;> cases h <;> simp

/-- A binding comes from its word. -/
theorem argStep_origin (h : argStep state t = some (bs, next)) : ∀ b ∈ bs, b.origin = t.origin := by
  unfold argStep at h
  split at h
  · cases h
  · split at h
    · cases h
    · cases h
      simp
  · split at h
    · cases h
    · split at h
      · cases h
        nofun
      · split at h
        · exact bindLong_origin h
        · exact bindShort_origin h

/-- Every binding comes from a word. -/
theorem argRun_origin (h : argRun state tokens = some (bs, last)) :
    ∀ b ∈ bs, ∃ t ∈ tokens, t.origin = b.origin := by
  induction tokens generalizing state bs with
  | nil =>
    cases h
    nofun
  | cons t tokens ih =>
    obtain ⟨b₁, mid, b₂, hs, hr, rfl⟩ := argRun_cons.mp h
    intro b hb
    rcases List.mem_append.mp hb with hb | hb
    · exact ⟨t, List.mem_cons_self, (argStep_origin hs b hb).symm⟩
    · obtain ⟨t', ht', ho⟩ := ih hr b hb
      exact ⟨t', List.mem_cons_of_mem _ ht', ho⟩

/-! ## The forms of the key option -/

/-- How an argument carries the key from an offset on, and what the option parser expects
before it. -/
inductive KeyForm : ArgState → Arg → Nat → Prop
  /-- The argument after `-k`, `--key` or a cluster that ends in `k`. -/
  | own {text : Arg} (hd : isDashed text = false) : KeyForm (.pending .key) text 0
  | long (value : Arg) : KeyForm .ready ("--key=".toList ++ value) 6
  | short {value : Arg} (hv : value ≠ []) : KeyForm .ready ('-' :: 'k' :: value) 2
  | shortEq (value : Arg) : KeyForm .ready ('-' :: 'k' :: '=' :: value) 3
  /-- After boolean flags in the same cluster. -/
  | bundled {f : Char} {spec : OptSpec} {rest : Arg} {offset : Nat}
      (hf : findShort f = some spec) (hk : spec.kind = .flag) (hr : rest ≠ [])
      (ho : 3 ≤ offset) (hl : offset ≤ rest.length + 2) :
      KeyForm .ready ('-' :: f :: rest) offset

/-- A binding of the key comes from the letter `k`, directly or after flags, and text added to
the end of the cluster belongs to the key. -/
theorem bindShort_key {cs : Arg} (h : bindShort origin offset cs = some (bs, state)) (hb : b ∈ bs)
    (hk : b.opt = .key) :
    ((∃ value, cs = 'k' :: value ∧ value ≠ [] ∧ b.offset = offset + 1) ∨
      (∃ value, cs = 'k' :: '=' :: value ∧ b.offset = offset + 2) ∨
      (∃ f spec rest, cs = f :: rest ∧ findShort f = some spec ∧ spec.kind = .flag ∧ rest ≠ [] ∧
        offset + 2 ≤ b.offset)) ∧
    b.offset ≤ offset + cs.length ∧
    ∀ e, ∃ bs', bindShort origin offset (cs ++ e) = some (bs', state) ∧
      bs'.map Binding.hideKey = bs.map Binding.hideKey := by
  induction cs generalizing offset bs with
  | nil =>
    cases h
    cases hb
  | cons c rest ih =>
    obtain ⟨spec, hs, ⟨hf, more, hm, rfl⟩ | ⟨hf, ha⟩⟩ := bindShort_cons.mp h
    · have hb : b ∈ more := by
        rcases List.mem_cons.mp hb with rfl | hb
        · rw [(findShort_key hs hk).1] at hf
          cases hf
        · exact hb
      obtain ⟨hform, hlen, hext⟩ := ih hm hb
      refine ⟨.inr (.inr ⟨c, spec, rest, rfl, hs, hf, ?_, ?_⟩), ?_, fun e => ?_⟩
      · rintro rfl
        cases hm
        cases hb
      · rcases hform with ⟨_, _, _, ho⟩ | ⟨_, _, ho⟩ | ⟨_, _, _, _, _, _, _, ho⟩ <;> omega
      · rw [List.length_cons]
        omega
      · obtain ⟨more', hm', hh⟩ := hext e
        refine ⟨_, bindShort_cons.mpr ⟨spec, hs, .inl ⟨hf, more', hm', rfl⟩⟩, ?_⟩
        rw [List.map_cons, List.map_cons, hh]
    · obtain ⟨-, he⟩ | ⟨value, rfl, he⟩ | ⟨d, value, rfl, hd, he⟩ :=
        bindAttached_cases spec.opt origin offset rest
      · cases ha.trans he
        cases hb
      · cases ha.trans he
        obtain rfl := List.mem_singleton.mp hb
        obtain ⟨-, rfl⟩ := findShort_key hs hk
        refine ⟨.inr (.inl ⟨value, rfl, rfl⟩), by simp, fun e => ?_⟩
        refine ⟨_, bindShort_cons.mpr ⟨spec, hs, .inr ⟨hf, rfl⟩⟩, ?_⟩
        simp [Binding.hideKey, show spec.opt = .key from hk]
      · cases ha.trans he
        obtain rfl := List.mem_singleton.mp hb
        obtain ⟨-, rfl⟩ := findShort_key hs hk
        refine ⟨.inl ⟨_, rfl, nofun, rfl⟩, by simp, fun e => ?_⟩
        refine ⟨_, bindShort_cons.mpr ⟨spec, hs, .inr ⟨hf, (bindAttached_of_ne hd).symm⟩⟩, ?_⟩
        simp [Binding.hideKey, show spec.opt = .key from hk]

/-- What `--key=` binds. -/
theorem bindLong_keyEq (value : Arg) (origin : Option Nat) :
    bindLong ⟨"--key=".toList ++ value, origin⟩ =
      some ([⟨.key, some value, origin, 6⟩], .ready) := by
  have hs : findLong "key".toList = some ⟨.key, .value, some 'k', some "key"⟩ := rfl
  have hn : ("--key=".toList ++ value).drop 2 = 'k' :: 'e' :: 'y' :: '=' :: value := rfl
  have ht : ('k' :: 'e' :: 'y' :: '=' :: value).takeWhile (· != '=') = "key".toList := rfl
  simp only [bindLong, hn, ht, hs, Option.bind_eq_bind, Option.bind_some]
  rw [if_pos (by simp)]
  rfl

/-- What stops a prefix stands right behind it. -/
private theorem takeWhile_split {p : Char → Bool} {l : Arg}
    (h : (l.takeWhile p).length < l.length) :
    ∃ c rest, l = l.takeWhile p ++ c :: rest ∧ p c = false := by
  have hd := List.takeWhile_append_dropWhile (p := p) (l := l)
  cases hc : l.dropWhile p with
  | nil =>
    rw [hc, List.append_nil] at hd
    rw [hd] at h
    exact absurd h (Nat.lt_irrefl _)
  | cons c rest =>
    rw [hc] at hd
    have hh := List.head_dropWhile_not p (l := l) (by simp [hc])
    exact ⟨c, rest, hd.symm, by simpa [hc] using hh⟩

/-- The long form of the key option binds a value only when it has a `=`. -/
theorem bindLong_key (hp : ['-', '-'].isPrefixOf t.text = true) (h : bindLong t = some (bs, state))
    (hb : b ∈ bs) (hk : b.opt = .key) :
    ∃ value, t.text = "--key=".toList ++ value ∧ bs = [⟨.key, some value, t.origin, 6⟩] ∧
      state = .ready := by
  obtain ⟨text, origin⟩ := t
  obtain ⟨body, rfl⟩ := List.isPrefixOf_iff_prefix.mp hp
  obtain ⟨value, rfl⟩ : ∃ value, body = 'k' :: 'e' :: 'y' :: '=' :: value := by
    obtain ⟨spec, hs, h⟩ := Option.bind_eq_some_iff.mp h
    simp only [List.cons_append, List.nil_append, List.drop_succ_cons, List.drop_zero] at hs h
    split at h
    · next hl =>
      have ho : spec.opt = .key := by
        split at h
        · cases h
        · cases h
          obtain rfl := List.mem_singleton.mp hb
          exact hk
      obtain ⟨c, rest, hbody, hc⟩ := takeWhile_split hl
      rw [(findLong_key hs ho).2] at hbody
      obtain rfl : c = '=' := by simpa using hc
      exact ⟨rest, hbody⟩
    · split at h
      · next hf =>
        cases h
        obtain rfl := List.mem_singleton.mp hb
        rw [(findLong_key hs hk).1] at hf
        cases hf
      · cases h
        cases hb
  have he := bindLong_keyEq value origin
  cases h.symm.trans he
  exact ⟨value, rfl, rfl, rfl⟩

/-- An ordinary argument that does not look like an option begins with another character. -/
theorem head_ne_dash {c : Char} {rest : Arg} (hd : isDashed (c :: rest) = false)
    (ho : isOrdinary (c :: rest) = true) : c ≠ '-' := by
  rintro rfl
  have hr : rest = [] := by simpa [isDashed] using hd
  simp [isOrdinary_iff, hr] at ho

/-- A token that binds the key has one of the forms, and text added to its end belongs to
the key. -/
theorem argStep_key (h : argStep state t = some (bs, next)) (hb : b ∈ bs) (hk : b.opt = .key)
    (ho : isOrdinary t.text = true) :
    KeyForm state t.text b.offset ∧
    ∀ e, ∃ bs', argStep state { t with text := t.text ++ e } = some (bs', next) ∧
      bs'.map Binding.hideKey = bs.map Binding.hideKey := by
  obtain ⟨text, origin⟩ := t
  unfold argStep at h
  split at h
  · cases h
  · next opt =>
    split at h
    · cases h
    · next hd =>
      have hd : isDashed text = false := by simpa using hd
      cases h
      obtain rfl := List.mem_singleton.mp hb
      obtain rfl : opt = .key := hk
      refine ⟨.own hd, fun e => ⟨[⟨.key, some (text ++ e), origin, 0⟩], ?_, rfl⟩⟩
      have hde : isDashed (text ++ e) = false := by
        cases text with
        | nil => simp [isOrdinary_iff] at ho
        | cons c rest => simp [isDashed, head_ne_dash hd ho]
      simp [argStep, hde]
  · split at h
    · cases h
    · split at h
      · cases h
        cases hb
      · split at h
        · next hp =>
          obtain ⟨value, rfl, rfl, rfl⟩ := bindLong_key hp h hb hk
          obtain rfl := List.mem_singleton.mp hb
          refine ⟨.long value, fun e => ⟨[⟨.key, some (value ++ e), origin, 6⟩], ?_, rfl⟩⟩
          rw [List.append_assoc]
          exact bindLong_keyEq (value ++ e) origin
        · next hd _ hp =>
          obtain ⟨c, rest, rfl, hc⟩ : ∃ c rest, text = '-' :: c :: rest ∧ c ≠ '-' := by
            match text, hd, hp with
            | [], hd, _ => simp [isDashed] at hd
            | [x], hd, _ => by_cases hx : x = '-' <;> simp [isDashed, hx] at hd
            | x :: c :: rest, hd, hp =>
              obtain rfl : x = '-' := by simpa [isDashed] using hd
              exact ⟨c, rest, rfl, by rintro rfl; simp at hp⟩
          obtain ⟨hform, hlen, hext⟩ := bindShort_key h hb hk
          refine ⟨?_, fun e => ?_⟩
          · rcases hform with ⟨value, hcs, hv, hoff⟩ | ⟨value, hcs, hoff⟩ |
              ⟨f, spec, rest', hcs, hf, hkind, hr, hoff⟩
            · rw [show c :: rest = 'k' :: value from hcs, hoff]
              exact .short hv
            · rw [show c :: rest = 'k' :: '=' :: value from hcs, hoff]
              exact .shortEq value
            · obtain ⟨rfl, rfl⟩ := List.cons.inj (show c :: rest = f :: rest' from hcs)
              refine .bundled hf hkind hr hoff ?_
              simp only [List.drop_succ_cons, List.drop_zero, List.length_cons] at hlen
              omega
          · obtain ⟨bs', hb', hh⟩ := hext e
            refine ⟨bs', ?_, hh⟩
            simpa [argStep, isDashed, hc, hc.symm] using hb'

theorem findShort_dash : findShort '-' = none := rfl

/-- An argument with text added to the key is still an ordinary one. -/
theorem KeyForm.extend_ordinary {x : Arg} (h : KeyForm state x j) (ho : isOrdinary x = true)
    (e : Arg) : isOrdinary (x ++ e) = true ∧ x ++ e ≠ confFileOption := by
  cases h with
  | own hd =>
    cases x with
    | nil => simp [isOrdinary_iff] at ho
    | cons c rest => simp [isOrdinary_iff, confFileOption_eq, head_ne_dash hd ho]
  | long value => simp [isOrdinary_iff, confFileOption_eq]
  | short hv => simp [isOrdinary_iff, confFileOption_eq]
  | shortEq value => simp [isOrdinary_iff, confFileOption_eq]
  | @bundled f spec rest _ hf hk hr =>
    have hc : f ≠ '-' := by
      rintro rfl
      cases findShort_dash.symm.trans hf
    simp [isOrdinary_iff, confFileOption_eq, hc, hr]

/-! ## The position of the key -/

/-- The argument and the offset from which the key is taken. -/
def keyOf (bindings : List Binding) : Option (Nat × Nat) :=
  (bindings.find? fun b => b.opt = .key).bind fun b => b.origin.map fun r => (r, b.offset)

/-- Where an accepted command line has its key; `none` also when the key is not on it. -/
def keyAt (env : CliEnv) (args : List Arg) : Option (Nat × Nat) :=
  match parseArgs env args with
  | .ok (.run bindings) => keyOf bindings
  | _ => none

@[simp] theorem hideKey_opt (b : Binding) : b.hideKey.opt = b.opt := by
  unfold Binding.hideKey
  split <;> rfl

@[simp] theorem hideKey_origin (b : Binding) : b.hideKey.origin = b.origin := by
  unfold Binding.hideKey
  split <;> rfl

@[simp] theorem hideKey_offset (b : Binding) : b.hideKey.offset = b.offset := by
  unfold Binding.hideKey
  split <;> rfl

/-- The position of the key does not depend on its text. -/
theorem keyOf_hideKey (bs : List Binding) : keyOf (bs.map Binding.hideKey) = keyOf bs := by
  unfold keyOf
  rw [List.find?_map]
  simp only [Function.comp_def, hideKey_opt]
  cases bs.find? fun b => b.opt = .key <;> simp

/-- The key is found where it is bound. -/
theorem keyAt_eq_some {r : Nat} (h : keyAt env args = some (r, j)) :
    ∃ bs b, parseArgs env args = .ok (.run bs) ∧ b ∈ bs ∧
      b.opt = .key ∧ b.origin = some r ∧ b.offset = j ∧ keyOf bs = some (r, j) := by
  unfold keyAt at h
  split at h
  · next bs hp =>
    obtain ⟨b, hb, ho⟩ := Option.bind_eq_some_iff.mp h
    obtain ⟨r', hr, he⟩ := Option.map_eq_some_iff.mp ho
    cases he
    exact ⟨bs, b, hp, List.mem_of_find?_eq_some hb, by simpa using List.find?_some hb, hr, rfl, h⟩
  · cases h

/-- A command line whose bindings are those of an accepted one, up to the text of the key, is
accepted with the key in the same place. -/
theorem keyAt_of_hideKey {args' : List Arg} {bs' : List Binding}
    (hp : parseArgs env args = .ok (.run bs)) (hne : args' ≠ [])
    (hord : ∀ a ∈ args', isOrdinary a = true) (hex : expandConfFile env args' = .ok tokens)
    (hrun : argRun .ready tokens = some (bs', last)) (hlast : ∀ opt, last ≠ .pending opt)
    (hh : bs'.map Binding.hideKey = bs.map Binding.hideKey) : keyAt env args' = keyOf bs := by
  obtain ⟨-, -, _, -, htp, hval⟩ := parseArgs_run_iff.mp hp
  obtain ⟨_, -, -, hrep⟩ := tryParseFrom_eq_some_iff.mp htp
  have hopts : bs'.map Binding.opt = bs.map Binding.opt := by
    simpa [Function.comp_def] using congrArg (List.map Binding.opt) hh
  have hvals : (bs'.map fun b => (b.opt, b.hideKey.value)) =
      bs.map fun b => (b.opt, b.hideKey.value) := by
    simpa [Function.comp_def] using congrArg (List.map fun b => (b.opt, b.value)) hh
  have hp' : parseArgs env args' = .ok (.run bs') :=
    parseArgs_run_iff.mpr ⟨hne, hord, tokens, hex,
      tryParseFrom_eq_some_iff.mpr ⟨last, hrun, hlast, hopts ▸ hrep⟩, hvals ▸ hval⟩
  simp only [keyAt, hp']
  rw [← keyOf_hideKey bs', hh, keyOf_hideKey]

/-- The command line around the key: the argument has one of the forms, and with more text at
the end of the key the command line is accepted with the key in the same place. -/
theorem keyAt_cases {r : Nat} (h : keyAt env args = some (r, j)) :
    ∃ u x v state, args = u ++ x :: v ∧ u.length = r ∧ isOrdinary x = true ∧
      x ≠ confFileOption ∧ KeyForm state x j ∧
      ∀ e, keyAt env (u ++ (x ++ e) :: v) = some (r, j) := by
  obtain ⟨bs, b, hp, hb, hk, hor, hoff, hkey⟩ := keyAt_eq_some h
  obtain ⟨hne, hord, tokens, hex, htp, hval⟩ := parseArgs_run_iff.mp hp
  obtain ⟨out, conf, extra, hout, hextra, rfl⟩ := expandConfFile_ok_iff.mp hex
  obtain ⟨last, hrun, hlast, hrep⟩ := tryParseFrom_eq_some_iff.mp htp
  -- the token of the key is an argument of the command line
  obtain ⟨t, ht, hto⟩ := argRun_origin hrun b hb
  rw [hor] at hto
  have ht : t ∈ out := by
    rcases List.mem_append.mp ht with ht | ht
    · exact ht
    · rw [confFileTokens_origin hextra t ht] at hto
      cases hto
  obtain ⟨q, hq, hg⟩ := takeConfFile_origin hout t ht
  obtain rfl : q = r := by
    rw [hto, Nat.zero_add] at hq
    exact (Option.some.inj hq).symm
  obtain ⟨u, v, rfl, hu⟩ : ∃ u v, args = u ++ t.text :: v ∧ u.length = q := by
    obtain ⟨hlt, he⟩ := List.getElem?_eq_some_iff.mp hg
    refine ⟨args.take q, args.drop (q + 1), ?_, by simp; omega⟩
    rw [← he, List.getElem_cons_drop, List.take_append_drop]
  subst hu
  obtain ⟨hx, pre, more, rfl, hother, hswap⟩ := takeConfFile_at hout ht hto
  have hordx : isOrdinary t.text = true := hord _ (by simp)
  -- only the step on that token can have bound the key
  rw [List.append_assoc, List.cons_append] at hrun
  obtain ⟨b₁, mid, _, hrun₁, hrun₂, rfl⟩ := argRun_append.mp hrun
  obtain ⟨b₂, next, b₃, hstep, hrun₃, rfl⟩ := argRun_cons.mp hrun₂
  have hb : b ∈ b₂ := by
    rcases List.mem_append.mp hb with hb | hb
    · obtain ⟨s, hs, hso⟩ := argRun_origin hrun₁ b hb
      exact absurd (hso.trans hor) (hother s (List.mem_append_left _ hs))
    · rcases List.mem_append.mp hb with hb | hb
      · exact hb
      · obtain ⟨s, hs, hso⟩ := argRun_origin hrun₃ b hb
        rcases List.mem_append.mp hs with hs | hs
        · exact absurd (hso.trans hor) (hother s (List.mem_append_right _ hs))
        · rw [confFileTokens_origin hextra s hs, hor] at hso
          cases hso
  obtain ⟨hform, hext⟩ := argStep_key hstep hb hk hordx
  rw [hoff] at hform
  refine ⟨u, t.text, v, mid, rfl, rfl, hordx, hx, hform, fun e => ?_⟩
  obtain ⟨hordxe, hxe⟩ := hform.extend_ordinary hordx e
  obtain ⟨b₂', hstep', hhide⟩ := hext e
  have hsame : (b₁ ++ (b₂' ++ b₃)).map Binding.hideKey =
      (b₁ ++ (b₂ ++ b₃)).map Binding.hideKey := by simp [hhide]
  rw [← hkey]
  refine keyAt_of_hideKey hp (by simp) ?_
    (expandConfFile_ok_iff.mpr ⟨_, conf, extra, hswap _ hxe, hextra, rfl⟩) ?_ hlast hsame
  · intro a ha
    rcases List.mem_append.mp ha with ha | ha
    · exact hord a (List.mem_append_left _ ha)
    · rcases List.mem_cons.mp ha with rfl | ha
      · exact hordxe
      · exact hord a (by simp [ha])
  · rw [List.append_assoc, List.cons_append]
    obtain ⟨text, origin⟩ := t
    obtain rfl : origin = some u.length := hto
    exact argRun_append.mpr ⟨b₁, mid, _, hrun₁, argRun_cons.mpr ⟨b₂', next, b₃, hstep', hrun₃, rfl⟩,
      rfl⟩

/-- The option as an argument of its own. -/
def isKeyOption (a : Arg) : Bool := a == ['-', 'k'] || a == ['-', '-', 'k', 'e', 'y']

/-- After the option the key is awaited. -/
theorem argStep_keyOption {z : Arg} (hz : isKeyOption z = true)
    (h : argStep state ⟨z, origin⟩ = some (bs, next)) : next = .pending .key := by
  have hz : z = ['-', 'k'] ∨ z = ['-', '-', 'k', 'e', 'y'] := by simpa [isKeyOption] using hz
  cases state with
  | ready =>
    rcases hz with rfl | rfl
    · exact (congrArg Prod.snd (Option.some.inj h)).symm
    · exact (congrArg Prod.snd (Option.some.inj h)).symm
  | pending opt => rcases hz with rfl | rfl <;> cases h
  | trailing => cases h

/-- On an accepted command line no option follows `-k` or `--key`, unless it is the one that
the expansion takes away. -/
theorem not_dashed_after_keyOption {z y : Arg}
    (h : parseArgs env (u ++ z :: y :: v) = .ok (.run bs)) (hz : isKeyOption z = true)
    (hy : y ≠ confFileOption) : isDashed y = false := by
  obtain ⟨-, -, tokens, hex, htp, -⟩ := parseArgs_run_iff.mp h
  obtain ⟨out, conf, extra, hout, -, rfl⟩ := expandConfFile_ok_iff.mp hex
  obtain ⟨last, hrun, -, -⟩ := tryParseFrom_eq_some_iff.mp htp
  have hz' : z = ['-', 'k'] ∨ z = ['-', '-', 'k', 'e', 'y'] := by simpa [isKeyOption] using hz
  have hzc : z ≠ confFileOption := by rcases hz' with rfl | rfl <;> simp [confFileOption_eq]
  rcases takeConfFile_split hout with ⟨conf', pre, post, hpost, rfl, -, -⟩ | ⟨_, _, hv, hp, -⟩
  swap
  · -- `z` would be the parameter of `--conf-file`, which does not begin with a dash
    obtain ⟨rfl, -⟩ := List.cons.inj hv
    rcases hz' with rfl | rfl <;> simp at hp
  obtain ⟨-, more, hm, rfl⟩ | ⟨hc, -⟩ := takeConfFile_cons hpost
  swap
  · exact absurd hc hzc
  obtain ⟨-, more, -, rfl⟩ | ⟨hc, -⟩ := takeConfFile_cons hm
  swap
  · exact absurd hc hy
  rw [List.append_assoc, List.cons_append, List.cons_append] at hrun
  obtain ⟨-, mid, _, -, hrun, -⟩ := argRun_append.mp hrun
  obtain ⟨_, next, _, hstep, hrun, -⟩ := argRun_cons.mp hrun
  obtain ⟨_, _, _, hstep', -, -⟩ := argRun_cons.mp hrun
  rw [argStep_keyOption hz hstep] at hstep'
  by_contra hd
  simp [argStep, hd] at hstep'

end Udp2raw
