import Udp2raw.Dns.Interpret

/-!
# CNAME chains

What an answer section says, independently of how it is read: which names are
aliases of which, and where a chain of aliases ends. A chain is determined by its
first name, so a name that comes up again in it cannot lead to an end.
-/

namespace Udp2raw.Dns

section

variable {N : Type} (names : Names N) (answers : List (Record N))

/-- The name is an alias of the target: it has CNAME records, all with that target, and no A
record. -/
structure Alias (n t : N) : Prop where
  cname : ∃ r ∈ answers, names.same r.name n = true ∧ ∃ c, r.data = .cname c
  target : ∀ r ∈ answers, names.same r.name n = true → ∀ c, r.data = .cname c →
    names.same c t = true
  noAddress : ∀ r ∈ answers, names.same r.name n = true → ∀ ip, r.data ≠ .a ip

/-- The name has an A record and is not an alias. -/
structure Terminal (n : N) : Prop where
  address : ∃ r ∈ answers, names.same r.name n = true ∧ ∃ ip, r.data = .a ip
  noCname : ∀ r ∈ answers, names.same r.name n = true → ∀ c, r.data ≠ .cname c

/-- A chain of aliases from a name, through those listed, to one with addresses. -/
inductive CnameChain : N → List N → Prop where
  | stop {n : N} : Terminal names answers n → CnameChain n []
  | hop {n t : N} {rest : List N} : Alias names answers n t → CnameChain t rest →
      CnameChain n (t :: rest)

/-- The times of the CNAME records of the chain and of the A records at its end. -/
def usedTtls (n : N) (chain : List N) : Set Nat :=
  {ttl | ∃ r ∈ answers, r.ttl.toNat = ttl ∧
    ((∃ v ∈ n :: chain, names.same r.name v = true ∧ ∃ c, r.data = .cname c) ∨
      names.same r.name (chain.getLastD n) = true ∧ ∃ ip, r.data = .a ip)}

/-! ## The records of a name -/

variable {names answers}

variable {n t n' : N}

/-- The addresses are those of the matching A records. -/
theorem mem_addressesOf {p : Ipv4Addr × UInt32} :
    p ∈ addressesOf names answers n ↔
      ∃ r ∈ answers, names.same r.name n = true ∧ r.data = .a p.1 ∧ r.ttl = p.2 := by
  simp only [addressesOf, recordsOf, List.mem_filterMap, List.mem_filter, and_assoc]
  refine exists_congr fun r => and_congr_right fun _ => and_congr_right fun _ => ?_
  obtain ⟨ip, ttl⟩ := p
  unfold Record.address?
  cases r.data with
  | a addr => simp
  | cname c => simp
  | other => simp

/-- The aliases are those of the matching CNAME records. -/
theorem mem_aliasesOf {p : N × UInt32} :
    p ∈ aliasesOf names answers n ↔
      ∃ r ∈ answers, names.same r.name n = true ∧ r.data = .cname p.1 ∧ r.ttl = p.2 := by
  simp only [aliasesOf, recordsOf, List.mem_filterMap, List.mem_filter, and_assoc]
  refine exists_congr fun r => and_congr_right fun _ => and_congr_right fun _ => ?_
  obtain ⟨target, ttl⟩ := p
  unfold Record.alias?
  cases r.data with
  | a addr => simp
  | cname c => simp
  | other => simp

theorem addressesOf_eq_nil :
    addressesOf names answers n = [] ↔
      ∀ r ∈ answers, names.same r.name n = true → ∀ ip, r.data ≠ .a ip := by
  rw [List.eq_nil_iff_forall_not_mem]
  constructor
  · intro h r hr hname ip hdata
    exact h (ip, r.ttl) (mem_addressesOf.mpr ⟨r, hr, hname, hdata, rfl⟩)
  · intro h p hp
    obtain ⟨r, hr, hname, hdata, -⟩ := mem_addressesOf.mp hp
    exact h r hr hname _ hdata

theorem aliasesOf_eq_nil :
    aliasesOf names answers n = [] ↔
      ∀ r ∈ answers, names.same r.name n = true → ∀ c, r.data ≠ .cname c := by
  rw [List.eq_nil_iff_forall_not_mem]
  constructor
  · intro h r hr hname c hdata
    exact h (c, r.ttl) (mem_aliasesOf.mpr ⟨r, hr, hname, hdata, rfl⟩)
  · intro h p hp
    obtain ⟨r, hr, hname, hdata, -⟩ := mem_aliasesOf.mp hp
    exact h r hr hname _ hdata

/-- An alias in terms of what the source collects. -/
theorem alias_iff :
    Alias names answers n t ↔ aliasesOf names answers n ≠ [] ∧
      (∀ c ∈ aliasesOf names answers n, names.same c.1 t = true) ∧
      addressesOf names answers n = [] := by
  rw [addressesOf_eq_nil, Ne, aliasesOf_eq_nil]
  constructor
  · rintro ⟨⟨r, hr, hname, c, hdata⟩, htarget, hnone⟩
    refine ⟨fun h => h r hr hname c hdata, fun p hp => ?_, hnone⟩
    obtain ⟨r, hr, hname, hdata, -⟩ := mem_aliasesOf.mp hp
    exact htarget r hr hname _ hdata
  · rintro ⟨hsome, htarget, hnone⟩
    refine ⟨?_, fun r hr hname c hdata => ?_, hnone⟩
    · push Not at hsome
      exact hsome
    · exact htarget (c, r.ttl) (mem_aliasesOf.mpr ⟨r, hr, hname, hdata, rfl⟩)

/-- The end of a chain in terms of what the source collects. -/
theorem terminal_iff :
    Terminal names answers n ↔
      addressesOf names answers n ≠ [] ∧ aliasesOf names answers n = [] := by
  rw [aliasesOf_eq_nil, Ne, addressesOf_eq_nil]
  constructor
  · rintro ⟨⟨r, hr, hname, ip, hdata⟩, hnone⟩
    exact ⟨fun h => h r hr hname ip hdata, hnone⟩
  · rintro ⟨hsome, hnone⟩
    push Not at hsome
    exact ⟨hsome, hnone⟩

/-- Spellings of a name have the same records. -/
theorem recordsOf_congr (h : names.same n n' = true) :
    recordsOf names answers n = recordsOf names answers n' := by
  refine List.filter_congr fun r _ => ?_
  rw [Bool.eq_iff_iff]
  exact ⟨fun hr => names.same_trans hr h, fun hr => names.same_trans hr (names.same_symm h)⟩

theorem addressesOf_congr (h : names.same n n' = true) :
    addressesOf names answers n = addressesOf names answers n' := by
  rw [addressesOf, recordsOf_congr h, addressesOf]

theorem aliasesOf_congr (h : names.same n n' = true) :
    aliasesOf names answers n = aliasesOf names answers n' := by
  rw [aliasesOf, recordsOf_congr h, aliasesOf]

theorem addressesOf_append (more : List (Record N)) (n : N) :
    addressesOf names (answers ++ more) n =
      addressesOf names answers n ++ addressesOf names more n := by
  rw [addressesOf, recordsOf, List.filter_append, List.filterMap_append]
  rfl

theorem aliasesOf_append (more : List (Record N)) (n : N) :
    aliasesOf names (answers ++ more) n = aliasesOf names answers n ++ aliasesOf names more n := by
  rw [aliasesOf, recordsOf, List.filter_append, List.filterMap_append]
  rfl

/-! ## Chains are determined by their first name -/

theorem Alias.congr (h : names.same n n' = true) (ha : Alias names answers n t) :
    Alias names answers n' t := by
  rw [alias_iff, ← addressesOf_congr h, ← aliasesOf_congr h]
  exact alias_iff.mp ha

/-- A chain does not depend on how its name is written. -/
theorem CnameChain.congr {chain : List N} (h : names.same n n' = true)
    (hc : CnameChain names answers n chain) : CnameChain names answers n' chain := by
  cases hc with
  | stop hend =>
    refine .stop (terminal_iff.mpr ?_)
    rw [← addressesOf_congr h, ← aliasesOf_congr h]
    exact terminal_iff.mp hend
  | hop ha hrest => exact .hop (ha.congr h) hrest

theorem Alias.same {t' : N} (h : Alias names answers n t) (h' : Alias names answers n t') :
    names.same t t' = true := by
  obtain ⟨r, hr, hname, c, hdata⟩ := h.cname
  exact names.same_trans (names.same_symm (h.target r hr hname c hdata))
    (h'.target r hr hname c hdata)

/-- A chain does not end at an alias. -/
theorem Alias.not_terminal (h : Alias names answers n t) : ¬ Terminal names answers n := by
  intro hend
  obtain ⟨r, hr, hname, c, hdata⟩ := h.cname
  exact hend.noCname r hr hname c hdata

/-- How far it is to the end depends on the name only. -/
theorem CnameChain.length_eq {chain chain' : List N} (h : names.same n n' = true)
    (hc : CnameChain names answers n chain) (hc' : CnameChain names answers n' chain') :
    chain.length = chain'.length := by
  induction hc generalizing n' chain' with
  | stop hend =>
    cases hc'.congr (names.same_symm h) with
    | stop _ => rfl
    | hop ha _ => exact absurd hend ha.not_terminal
  | hop ha _ ih =>
    cases hc'.congr (names.same_symm h) with
    | stop hend => exact absurd hend ha.not_terminal
    | hop ha' hrest => exact congrArg (· + 1) (ih (ha.same ha') hrest)

end

end Udp2raw.Dns
