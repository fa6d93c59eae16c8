import Udp2raw.Dns.Chains

/-!
# What `interpret` accepts

The loop succeeds exactly on the chains of at most eight hops. Neither of its tests
for loops, on names and on texts, can stop it on such a chain, since the names on it
are at different distances from the end.
-/

namespace Udp2raw.Dns

/-! ## Times to live -/

theorem toNat_minTtl (a b : UInt32) : (minTtl a b).toNat = min a.toNat b.toNat := by
  unfold minTtl
  split_ifs with h
  · exact (Nat.min_eq_left h).symm
  · exact (Nat.min_eq_right (Nat.le_of_not_le h)).symm

/-- The fold computes the least TTL. -/
theorem toNat_foldl_minTtl (c : UInt32) (ttls : List UInt32) :
    IsLeast (insert c.toNat {t | ∃ x ∈ ttls, x.toNat = t}) (ttls.foldl minTtl c).toNat := by
  induction ttls generalizing c with
  | nil =>
    refine ⟨.inl rfl, ?_⟩
    rintro t (rfl | ⟨x, hx, -⟩)
    · exact le_rfl
    · cases hx
  | cons ttl ttls ih =>
    obtain ⟨hmem, hleast⟩ := ih (minTtl c ttl)
    rw [toNat_minTtl] at hmem hleast
    have hmin := hleast (.inl rfl)
    constructor
    · obtain hmem | ⟨x, hx, heq⟩ := hmem
      · obtain h | h := min_choice c.toNat ttl.toNat
        · exact .inl (hmem.trans h)
        · exact .inr ⟨ttl, List.mem_cons_self, (hmem.trans h).symm⟩
      · exact .inr ⟨x, List.mem_cons_of_mem _ hx, heq⟩
    · rintro t (rfl | ⟨x, hx, rfl⟩)
      · exact hmin.trans (Nat.min_le_left _ _)
      · obtain rfl | hx := List.mem_cons.mp hx
        · exact hmin.trans (Nat.min_le_right _ _)
        · exact hleast (.inr ⟨x, hx, rfl⟩)

/-- The starting value is no restriction. -/
theorem isLeast_leastTtl {ttls : List UInt32} (h : ttls ≠ []) :
    IsLeast {t | ∃ x ∈ ttls, x.toNat = t} (leastTtl ttls).toNat := by
  obtain ⟨hmem, hleast⟩ := toNat_foldl_minTtl 0xffffffff ttls
  refine ⟨?_, fun t ht => hleast (.inr ht)⟩
  obtain hmem | hmem := hmem
  · obtain ⟨ttl, httl⟩ := List.exists_mem_of_ne_nil ttls h
    refine ⟨ttl, httl, le_antisymm ?_ (hleast (.inr ⟨ttl, httl, rfl⟩))⟩
    exact hmem ▸ Nat.le_of_lt_succ ttl.toNat_lt
  · exact hmem

section

variable {N : Type} {names : Names N} {answers : List (Record N)} {server : IpAddr × UInt16}
  {viaTcp : Bool} {s : Search N}

/-! ## One round -/

theorem any_isSome_alias (n : N) :
    ((recordsOf names answers n).any fun r => r.alias?.isSome) = true ↔
      aliasesOf names answers n ≠ [] := by
  rw [aliasesOf, Ne, List.filterMap_eq_nil_iff, List.any_eq_true]
  push Not
  exact exists_congr fun r => and_congr_right fun _ => Option.isSome_iff_ne_none

/-- At the end of the chain the round answers. -/
theorem round_of_terminal (h : Terminal names answers s.name) :
    round names answers server viaTcp s = .done (.ok {
      addrs := (addressesOf names answers s.name).map Prod.fst
      ttl := clampTtl ttlMinSecs ttlMaxSecs
        (minTtl s.chainTtl (leastTtl ((addressesOf names answers s.name).map Prod.snd)))
      rawTtl := minTtl s.chainTtl (leastTtl ((addressesOf names answers s.name).map Prod.snd))
      server
      cnames := s.cnames
      viaTcp }) := by
  obtain ⟨hsome, hnone⟩ := terminal_iff.mp h
  unfold round
  rw [if_pos hsome, if_neg (fun hany => (any_isSome_alias _).mp hany hnone)]

/-- A round that answers is at the end of the chain. -/
theorem terminal_of_round {a : Answer} (h : round names answers server viaTcp s = .done (.ok a)) :
    Terminal names answers s.name := by
  unfold round at h
  dsimp only at h
  split at h
  next hsome =>
    split at h
    · cases h
    next hnone =>
      exact terminal_iff.mpr ⟨hsome, not_not.mp fun h => hnone ((any_isSome_alias _).mpr h)⟩
  · split at h
    · split at h
      · cases h
      · split at h
        · cases h
        · split at h <;> cases h
    · cases h

/-- An alias is followed while there are hops left, if its target does not look like a loop. -/
theorem round_of_alias {t : N} (h : Alias names answers s.name t)
    (hhops : s.cnames.length < maxCnameHops) (hself : names.same t s.name = false)
    (hnew : ∀ t', names.same t' t = true → ∀ c ∈ s.cnames,
      eqIgnoreAsciiCase c (names.toAscii t') = false) :
    ∃ t', names.same t' t = true ∧ round names answers server viaTcp s = .again {
      name := t'
      cnames := s.cnames ++ [names.toAscii t']
      chainTtl :=
        minTtl s.chainTtl (leastTtl ((aliasesOf names answers s.name).map Prod.snd)) } := by
  obtain ⟨hsome, htarget, hnone⟩ := alias_iff.mp h
  obtain ⟨first, rest, hlist⟩ := List.exists_cons_of_ne_nil hsome
  have hfirst : names.same first.1 t = true := htarget first (hlist ▸ List.mem_cons_self)
  refine ⟨first.1, hfirst, ?_⟩
  have hconflict :
      ((aliasesOf names answers s.name).any fun c => !names.same c.1 first.1) = false := by
    rw [List.any_eq_false]
    intro c hc
    simp [names.same_trans (htarget c hc) (names.same_symm hfirst)]
  have hloop : ¬ (names.same first.1 s.name = true ∨
      (s.cnames.any fun c => eqIgnoreAsciiCase c (names.toAscii first.1)) = true) := by
    rintro (hsame | hany)
    · rw [names.same_trans (names.same_symm hfirst) hsame] at hself
      cases hself
    · obtain ⟨c, hc, htext⟩ := List.any_eq_true.mp hany
      rw [hnew first.1 hfirst c hc] at htext
      cases htext
  have hhead : (aliasesOf names answers s.name).head? = some first := by rw [hlist]; rfl
  unfold round
  rw [if_neg (not_not.mpr hnone)]
  dsimp only
  rw [hhead]
  dsimp only
  rw [if_neg (by rw [hconflict]; exact Bool.false_ne_true), if_neg (Nat.not_le.mpr hhops),
    if_neg hloop]

/-- The loop ends with the round. -/
theorem interpretLoop_done {result : Except DnsError Answer}
    (h : round names answers server viaTcp s = .done result) :
    interpretLoop names answers server viaTcp s = result := by
  rw [interpretLoop]
  split
  next h' =>
    rw [h] at h'
    cases h'
    rfl
  next h' =>
    rw [h] at h'
    cases h'

theorem interpretLoop_again {s' : Search N} (h : round names answers server viaTcp s = .again s') :
    interpretLoop names answers server viaTcp s = interpretLoop names answers server viaTcp s' := by
  rw [interpretLoop]
  split
  next h' =>
    rw [h] at h'
    cases h'
  next h' =>
    rw [h] at h'
    cases h'
    rfl

/-! ## The loop -/

/-- The loop returns after the given number of rounds. -/
inductive ReturnsAfter (names : Names N) (answers : List (Record N)) (server : IpAddr × UInt16)
    (viaTcp : Bool) : Search N → Nat → Except DnsError Answer → Prop where
  | done {s : Search N} {result : Except DnsError Answer}
      (h : round names answers server viaTcp s = .done result) :
      ReturnsAfter names answers server viaTcp s 1 result
  | again {s s' : Search N} {k : Nat} {result : Except DnsError Answer}
      (h : round names answers server viaTcp s = .again s')
      (hrest : ReturnsAfter names answers server viaTcp s' k result) :
      ReturnsAfter names answers server viaTcp s (k + 1) result

/-- Each hop is counted, so the loop returns. -/
theorem interpretLoop_returns (s : Search N) :
    ∃ k ≤ maxCnameHops - s.cnames.length + 1,
      ReturnsAfter names answers server viaTcp s k
        (interpretLoop names answers server viaTcp s) := by
  induction s using interpretLoop.induct names answers server viaTcp with
  | case1 s result h =>
    rw [interpretLoop_done h]
    exact ⟨1, Nat.le_add_left _ _, .done h⟩
  | case2 s s' h ih =>
    rw [interpretLoop_again h]
    obtain ⟨k, hk, hreturns⟩ := ih
    obtain ⟨-, hhops, first, -, -, rfl⟩ := round_again names answers server viaTcp h
    rw [List.length_append, List.length_singleton] at hk
    exact ⟨k + 1, by omega, .again h hreturns⟩

/-- The loop only succeeds along a chain within the limit. -/
theorem chain_of_interpretLoop {a : Answer} (s : Search N) (hhops : s.cnames.length ≤ maxCnameHops)
    (h : interpretLoop names answers server viaTcp s = .ok a) :
    ∃ chain, s.cnames.length + chain.length ≤ maxCnameHops ∧
      CnameChain names answers s.name chain := by
  induction s using interpretLoop.induct names answers server viaTcp with
  | case1 s result hround =>
    rw [interpretLoop_done hround] at h
    cases h
    exact ⟨[], hhops, .stop (terminal_of_round hround)⟩
  | case2 s s' hround ih =>
    rw [interpretLoop_again hround] at h
    obtain ⟨hnone, hlt, first, hfirst, hsame, rfl⟩ :=
      round_again names answers server viaTcp hround
    obtain ⟨chain, hlength, hchain⟩ := ih (by rw [List.length_append]; exact hlt) h
    rw [List.length_append, List.length_singleton] at hlength
    refine ⟨first.1 :: chain, ?_, .hop (alias_iff.mpr ⟨?_, hsame, hnone⟩) hchain⟩
    · rw [List.length_cons]
      omega
    · exact List.ne_nil_of_mem hfirst

/-- The end of a chain uses the TTLs of its addresses. -/
theorem usedTtls_nil {n : N} (h : Terminal names answers n) :
    usedTtls names answers n [] =
      {t | ∃ x ∈ (addressesOf names answers n).map Prod.snd, x.toNat = t} := by
  ext t
  constructor
  · rintro ⟨r, hr, rfl, ⟨v, hv, hname, c, hdata⟩ | ⟨hname, ip, hdata⟩⟩
    · rw [List.mem_singleton.mp hv] at hname
      exact absurd hdata (h.noCname r hr hname c)
    · exact ⟨r.ttl, List.mem_map.mpr
        ⟨(ip, r.ttl), mem_addressesOf.mpr ⟨r, hr, hname, hdata, rfl⟩, rfl⟩, rfl⟩
  · rintro ⟨x, hx, rfl⟩
    obtain ⟨p, hp, rfl⟩ := List.mem_map.mp hx
    obtain ⟨r, hr, hname, hdata, httl⟩ := mem_addressesOf.mp hp
    exact ⟨r, hr, congrArg _ httl, .inr ⟨hname, _, hdata⟩⟩

/-- A hop adds the TTLs of its alias records. -/
theorem usedTtls_cons {n t : N} {rest : List N} :
    usedTtls names answers n (t :: rest) =
      {ttl | ∃ x ∈ (aliasesOf names answers n).map Prod.snd, x.toNat = ttl} ∪
        usedTtls names answers t rest := by
  ext ttl
  rw [usedTtls, List.getLastD_cons]
  constructor
  · rintro ⟨r, hr, rfl, ⟨v, hv, hname, c, hdata⟩ | hlast⟩
    · obtain rfl | hv := List.mem_cons.mp hv
      · exact .inl ⟨r.ttl, List.mem_map.mpr
          ⟨(c, r.ttl), mem_aliasesOf.mpr ⟨r, hr, hname, hdata, rfl⟩, rfl⟩, rfl⟩
      · exact .inr ⟨r, hr, rfl, .inl ⟨v, hv, hname, c, hdata⟩⟩
    · exact .inr ⟨r, hr, rfl, .inr hlast⟩
  · rintro (⟨x, hx, rfl⟩ | ⟨r, hr, rfl, ⟨v, hv, hname⟩ | hlast⟩)
    · obtain ⟨p, hp, rfl⟩ := List.mem_map.mp hx
      obtain ⟨r, hr, hname, hdata, httl⟩ := mem_aliasesOf.mp hp
      exact ⟨r, hr, congrArg _ httl, .inl ⟨n, List.mem_cons_self, hname, _, hdata⟩⟩
    · exact ⟨r, hr, rfl, .inl ⟨v, List.mem_cons_of_mem _ hv, hname⟩⟩
    · exact ⟨r, hr, rfl, .inr hlast⟩

theorem same_getLastD {n n' : N} (h : names.same n n' = true) (chain : List N) :
    names.same (chain.getLastD n) (chain.getLastD n') = true := by
  cases chain with
  | nil => exact h
  | cons t rest =>
    rw [List.getLastD_cons, List.getLastD_cons]
    exact names.same_refl _

theorem usedTtls_subset {n n' : N} (h : names.same n n' = true) (chain : List N) :
    usedTtls names answers n chain ⊆ usedTtls names answers n' chain := by
  rintro t ⟨r, hr, rfl, ⟨v, hv, hname, hdata⟩ | ⟨hname, hdata⟩⟩
  · obtain rfl | hv := List.mem_cons.mp hv
    · exact ⟨r, hr, rfl, .inl ⟨n', List.mem_cons_self, names.same_trans hname h, hdata⟩⟩
    · exact ⟨r, hr, rfl, .inl ⟨v, List.mem_cons_of_mem _ hv, hname, hdata⟩⟩
  · exact ⟨r, hr, rfl, .inr ⟨names.same_trans hname (same_getLastD h chain), hdata⟩⟩

theorem usedTtls_congr {n n' : N} (h : names.same n n' = true) (chain : List N) :
    usedTtls names answers n chain = usedTtls names answers n' chain :=
  (usedTtls_subset h chain).antisymm (usedTtls_subset (names.same_symm h) chain)

/-- The answer along a chain, when the chain up to here bounds the time to live. -/
structure AnswerAlong (names : Names N) (answers : List (Record N)) (n : N) (chain : List N)
    (chainTtl : UInt32) (a : Answer) : Prop where
  addrs : a.addrs = (addressesOf names answers (chain.getLastD n)).map Prod.fst
  rawTtl : ∃ least, IsLeast (usedTtls names answers n chain) least ∧
    a.rawTtl.toNat = min chainTtl.toNat least
  ttl : a.ttl = clampTtl ttlMinSecs ttlMaxSecs a.rawTtl

/-- No name ahead has been passed: it is nearer to the end than those that have. -/
def Passed (names : Names N) (answers : List (Record N)) (cnames : List String)
    (chain : List N) : Prop :=
  ∀ c ∈ cnames, ∃ v ahead, c = names.toAscii v ∧ CnameChain names answers v ahead ∧
    chain.length ≤ ahead.length

/-- A hop passes its alias. -/
theorem Passed.hop {cnames : List String} {t t' : N} {rest : List N}
    (h : Passed names answers cnames (t :: rest)) (hrest : CnameChain names answers t' rest) :
    Passed names answers (cnames ++ [names.toAscii t']) rest := by
  intro c hc
  obtain hc | hc := List.mem_append.mp hc
  · obtain ⟨v, ahead, htext, hahead, hfar⟩ := h c hc
    exact ⟨v, ahead, htext, hahead, Nat.le_of_succ_le hfar⟩
  · exact ⟨t', rest, List.mem_singleton.mp hc, hrest, le_rfl⟩

/-- The loop follows a chain within the limit to its end. -/
theorem interpretLoop_of_chain {chain : List N} (s : Search N)
    (hchain : CnameChain names answers s.name chain)
    (hhops : s.cnames.length + chain.length ≤ maxCnameHops)
    (hpassed : Passed names answers s.cnames chain) :
    ∃ a, interpretLoop names answers server viaTcp s = .ok a ∧
      AnswerAlong names answers s.name chain s.chainTtl a := by
  induction chain generalizing s with
  | nil =>
    cases hchain with
    | stop hend =>
      refine ⟨_, interpretLoop_done (round_of_terminal hend), rfl,
        ⟨_, ?_, toNat_minTtl _ _⟩, rfl⟩
      rw [usedTtls_nil hend]
      refine isLeast_leastTtl fun hnil => ?_
      exact (terminal_iff.mp hend).1 (List.map_eq_nil_iff.mp hnil)
  | cons t rest ih =>
    cases hchain with
    | hop ha hrest =>
      rw [List.length_cons] at hhops
      have hself : names.same t s.name = false := by
        rw [Bool.eq_false_iff]
        intro hsame
        have hlength := hrest.length_eq hsame (.hop ha hrest)
        rw [List.length_cons] at hlength
        omega
      have hnew : ∀ t', names.same t' t = true → ∀ c ∈ s.cnames,
          eqIgnoreAsciiCase c (names.toAscii t') = false := by
        intro t' ht' c hc
        rw [Bool.eq_false_iff]
        intro htext
        obtain ⟨v, ahead, rfl, hahead, hfar⟩ := hpassed c hc
        have hlength := hahead.length_eq (names.same_of_text htext)
          (hrest.congr (names.same_symm ht'))
        rw [List.length_cons] at hfar
        omega
      obtain ⟨t', ht', hround⟩ :=
        @round_of_alias _ _ _ server viaTcp _ _ ha (by omega) hself hnew
      have hrest' := hrest.congr (names.same_symm ht')
      obtain ⟨a, hloop, haddrs, ⟨least, hleast, hraw⟩, httl⟩ := ih
        { name := t'
          cnames := s.cnames ++ [names.toAscii t']
          chainTtl :=
            minTtl s.chainTtl (leastTtl ((aliasesOf names answers s.name).map Prod.snd)) }
        hrest' (by rw [List.length_append, List.length_singleton]; omega) (hpassed.hop hrest')
      have hfirst : IsLeast {ttl | ∃ x ∈ (aliasesOf names answers s.name).map Prod.snd,
          x.toNat = ttl} (leastTtl ((aliasesOf names answers s.name).map Prod.snd)).toNat := by
        refine isLeast_leastTtl fun hnil => ?_
        exact (alias_iff.mp ha).1 (List.map_eq_nil_iff.mp hnil)
      have hall := hfirst.union hleast
      rw [usedTtls_congr ht', ← usedTtls_cons] at hall
      refine ⟨a, (interpretLoop_again hround).trans hloop, ?_, ⟨_, hall, ?_⟩, httl⟩
      · rw [haddrs, List.getLastD_cons, addressesOf_congr (same_getLastD ht' rest)]
      · rw [hraw, toNat_minTtl, min_assoc]

end

end Udp2raw.Dns
