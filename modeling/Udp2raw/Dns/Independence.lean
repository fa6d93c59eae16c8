import Udp2raw.Dns.Exactness
import Udp2raw.Dns.WireName

/-!
# What the answer depends on

Only the addresses and aliases of the names to which CNAME records lead from the
query name count, in any order. Together with the exactness of the loop this is
what `interpret` does on every reply.
-/

namespace Udp2raw.Dns

section

variable {N : Type} {names : Names N} {answers : List (Record N)}

/-- A name to which CNAME records lead from the query name. -/
inductive Linked (names : Names N) (answers : List (Record N)) (qname : N) : N → Prop where
  | start {n : N} : names.same qname n = true → Linked names answers qname n
  | hop {r : Record N} {c n : N} : Linked names answers qname r.name → r ∈ answers →
      r.data = .cname c → names.same c n = true → Linked names answers qname n

/-- A record that is neither an address nor an alias, or whose name is not linked. -/
def Unrelated (names : Names N) (answers : List (Record N)) (qname : N) (r : Record N) : Prop :=
  r.data = .other ∨ ¬ Linked names answers qname r.name

theorem Linked.congr {qname n n' : N} (h : names.same n n' = true)
    (hn : Linked names answers qname n) : Linked names answers qname n' := by
  cases hn with
  | start hname => exact .start (names.same_trans hname h)
  | hop hr hmem hdata hname => exact .hop hr hmem hdata (names.same_trans hname h)

theorem Linked.of_alias {qname n t : N} (hn : Linked names answers qname n)
    (ha : Alias names answers n t) : Linked names answers qname t := by
  obtain ⟨r, hr, hname, c, hdata⟩ := ha.cname
  exact .hop (hn.congr (names.same_symm hname)) hr hdata (ha.target r hr hname c hdata)

/-- An unrelated record at a linked name is of another type. -/
theorem other_of_unrelated {qname n : N} {r : Record N} (hr : Unrelated names answers qname r)
    (hn : Linked names answers qname n) (hname : names.same r.name n = true) : r.data = .other := by
  obtain hother | hfar := hr
  · exact hother
  · exact absurd (hn.congr (names.same_symm hname)) hfar

section

variable {answers' extra : List (Record N)} {qname : N}
  (hextra : ∀ r ∈ extra, Unrelated names answers qname r)
  (hperm : answers'.Perm (answers ++ extra))

include hextra hperm

/-- At a linked name the addresses are the same up to order. -/
theorem perm_addressesOf {n : N} (hn : Linked names answers qname n) :
    (addressesOf names answers' n).Perm (addressesOf names answers n) := by
  have hnone : addressesOf names extra n = [] := by
    refine addressesOf_eq_nil.mpr fun r hr hname ip => ?_
    rw [other_of_unrelated (hextra r hr) hn hname]
    exact fun h => by cases h
  have hall : (addressesOf names answers' n).Perm (addressesOf names (answers ++ extra) n) :=
    (hperm.filter _).filterMap _
  rwa [addressesOf_append, hnone, List.append_nil] at hall

theorem perm_aliasesOf {n : N} (hn : Linked names answers qname n) :
    (aliasesOf names answers' n).Perm (aliasesOf names answers n) := by
  have hnone : aliasesOf names extra n = [] := by
    refine aliasesOf_eq_nil.mpr fun r hr hname c => ?_
    rw [other_of_unrelated (hextra r hr) hn hname]
    exact fun h => by cases h
  have hall : (aliasesOf names answers' n).Perm (aliasesOf names (answers ++ extra) n) :=
    (hperm.filter _).filterMap _
  rwa [aliasesOf_append, hnone, List.append_nil] at hall

omit hextra hperm in
theorem eq_nil_iff_of_perm {α : Type} {l l' : List α} (h : l.Perm l') : l = [] ↔ l' = [] := by
  rw [← List.perm_nil, h.congr_left, List.perm_nil]

/-- At a linked name the alias is the same. -/
theorem alias_iff_of_perm {n t : N} (hn : Linked names answers qname n) :
    Alias names answers' n t ↔ Alias names answers n t := by
  have haliases := perm_aliasesOf hextra hperm hn
  rw [alias_iff, alias_iff, Ne, eq_nil_iff_of_perm haliases,
    eq_nil_iff_of_perm (perm_addressesOf hextra hperm hn)]
  simp only [haliases.mem_iff, Ne]

theorem terminal_iff_of_perm {n : N} (hn : Linked names answers qname n) :
    Terminal names answers' n ↔ Terminal names answers n := by
  rw [terminal_iff, terminal_iff, Ne, eq_nil_iff_of_perm (perm_addressesOf hextra hperm hn),
    eq_nil_iff_of_perm (perm_aliasesOf hextra hperm hn)]

/-- The chain is the same in both answer sections. -/
theorem chain_iff_of_perm {n : N} {chain : List N} (hn : Linked names answers qname n) :
    CnameChain names answers' n chain ↔ CnameChain names answers n chain := by
  induction chain generalizing n with
  | nil =>
    constructor
    · rintro ⟨hend⟩
      exact .stop ((terminal_iff_of_perm hextra hperm hn).mp hend)
    · rintro ⟨hend⟩
      exact .stop ((terminal_iff_of_perm hextra hperm hn).mpr hend)
  | cons t rest ih =>
    constructor
    · intro h
      cases h with
      | hop ha hrest =>
        have ha := (alias_iff_of_perm hextra hperm hn).mp ha
        exact .hop ha ((ih (hn.of_alias ha)).mp hrest)
    · intro h
      cases h with
      | hop ha hrest =>
        exact .hop ((alias_iff_of_perm hextra hperm hn).mpr ha)
          ((ih (hn.of_alias ha)).mpr hrest)

/-- So are the times and the end of the chain. -/
theorem along_of_perm {n : N} {chain : List N} (hn : Linked names answers qname n)
    (hchain : CnameChain names answers n chain) :
    usedTtls names answers' n chain = usedTtls names answers n chain ∧
      Linked names answers qname (chain.getLastD n) := by
  induction hchain with
  | stop hend =>
    refine ⟨?_, hn⟩
    rw [usedTtls_nil hend, usedTtls_nil ((terminal_iff_of_perm hextra hperm hn).mpr hend)]
    simp only [((perm_addressesOf hextra hperm hn).map _).mem_iff]
  | hop ha _ ih =>
    obtain ⟨httls, hlast⟩ := ih (hn.of_alias ha)
    rw [List.getLastD_cons]
    refine ⟨?_, hlast⟩
    rw [usedTtls_cons, usedTtls_cons, httls]
    simp only [((perm_aliasesOf hextra hperm hn).map _).mem_iff]

end

/-! ## The whole of `interpret` -/

variable {m m' : Message N} {qname : N} {server : IpAddr × UInt16} {viaTcp : Bool}

/-- A response to the query goes through the loop. -/
theorem interpret_eq (hop : m.opCode = .query) (hcode : m.responseCode = .noError) :
    interpret names m qname server viaTcp = interpretLoop names m.answers server viaTcp
      { name := qname, cnames := [], chainTtl := leastTtl [] } := by
  rw [interpret, if_neg (not_not.mpr hop), hcode]

/-- An answer is along any chain from the query name, and all its records count. -/
theorem interpret_along (hop : m.opCode = .query) (hcode : m.responseCode = .noError)
    {chain : List N} (hchain : CnameChain names m.answers qname chain)
    (hhops : chain.length ≤ maxCnameHops) :
    ∃ a, interpret names m qname server viaTcp = .ok a ∧
      a.addrs = (addressesOf names m.answers (chain.getLastD qname)).map Prod.fst ∧
      IsLeast (usedTtls names m.answers qname chain) a.rawTtl.toNat ∧
      a.ttl = clampTtl ttlMinSecs ttlMaxSecs a.rawTtl := by
  obtain ⟨a, hloop, haddrs, ⟨least, hleast, hraw⟩, httl⟩ :=
    @interpretLoop_of_chain _ names m.answers server viaTcp chain
      { name := qname, cnames := [], chainTtl := leastTtl [] } hchain
      (by rw [List.length_nil]; omega) (fun c hc => by cases hc)
  refine ⟨a, (interpret_eq hop hcode).trans hloop, haddrs, ?_, httl⟩
  obtain ⟨r, -, hr, -⟩ := hleast.1
  have hbound : least ≤ (leastTtl []).toNat := hr ▸ Nat.le_of_lt_succ r.ttl.toNat_lt
  rwa [hraw, Nat.min_eq_right hbound]

/-- An answer comes from a chain. -/
theorem chain_of_interpret {a : Answer} (hop : m.opCode = .query)
    (hcode : m.responseCode = .noError) (h : interpret names m qname server viaTcp = .ok a) :
    ∃ chain, chain.length ≤ maxCnameHops ∧ CnameChain names m.answers qname chain := by
  rw [interpret_eq hop hcode] at h
  obtain ⟨chain, hhops, hchain⟩ := chain_of_interpretLoop _ (Nat.zero_le _) h
  exact ⟨chain, by simpa using hhops, hchain⟩

/-- Both readings of a reply along the same chain. -/
theorem interpret_of_chain {a : Answer} (hop : m.opCode = .query)
    (hcode : m.responseCode = .noError) (h : interpret names m qname server viaTcp = .ok a)
    {chain : List N} (hchain : CnameChain names m.answers qname chain) :
    a.addrs = (addressesOf names m.answers (chain.getLastD qname)).map Prod.fst ∧
      IsLeast (usedTtls names m.answers qname chain) a.rawTtl.toNat ∧
      a.ttl = clampTtl ttlMinSecs ttlMaxSecs a.rawTtl := by
  obtain ⟨chain', hhops, hchain'⟩ := chain_of_interpret hop hcode h
  have hlength := hchain.length_eq (names.same_refl _) hchain'
  obtain ⟨a', ha', halong⟩ := @interpret_along _ _ _ _ server viaTcp hop hcode chain hchain
    (hlength ▸ hhops)
  rw [h] at ha'
  cases ha'
  exact halong

/-- The order of the records and unrelated records make no difference to an answer. -/
theorem interpret_of_perm (hop : m.opCode = .query) (hcode : m.responseCode = .noError)
    (hop' : m'.opCode = .query) (hcode' : m'.responseCode = .noError) {extra : List (Record N)}
    (hextra : ∀ r ∈ extra, Unrelated names m.answers qname r)
    (hperm : m'.answers.Perm (m.answers ++ extra)) :
    (∀ a, interpret names m qname server viaTcp = .ok a →
      ∃ a', interpret names m' qname server viaTcp = .ok a' ∧
        a'.addrs.Perm a.addrs ∧ a'.rawTtl = a.rawTtl ∧ a'.ttl = a.ttl) ∧
    ∀ a', interpret names m' qname server viaTcp = .ok a' →
      ∃ a, interpret names m qname server viaTcp = .ok a := by
  have hq : Linked names m.answers qname qname := .start (names.same_refl _)
  constructor
  · intro a ha
    obtain ⟨chain, hhops, hchain⟩ := chain_of_interpret hop hcode ha
    obtain ⟨haddrs, hleast, httl⟩ := interpret_of_chain hop hcode ha hchain
    obtain ⟨a', ha', haddrs', hleast', httl'⟩ := @interpret_along _ names _ qname server viaTcp hop'
      hcode' chain ((chain_iff_of_perm hextra hperm hq).mpr hchain) hhops
    obtain ⟨httls, hlast⟩ := along_of_perm hextra hperm hq hchain
    have hraw : a'.rawTtl = a.rawTtl := UInt32.toNat_inj.mp ((httls ▸ hleast').unique hleast)
    refine ⟨a', ha', ?_, hraw, ?_⟩
    · rw [haddrs, haddrs']
      exact (perm_addressesOf hextra hperm hlast).map _
    · rw [httl, httl', hraw]
  · intro a' ha'
    obtain ⟨chain, hhops, hchain⟩ := chain_of_interpret hop' hcode' ha'
    obtain ⟨a, ha, -⟩ := @interpret_along _ names _ qname server viaTcp hop hcode chain
      ((chain_iff_of_perm hextra hperm hq).mp hchain) hhops
    exact ⟨a, ha⟩

end

/-- For a reply without an error, `interpret` returns an answer exactly when the answer section
has a chain of at most eight aliases from the query name to a name with addresses. The answer has
all addresses of that name and the least time to live of the records used. Neither the order of
the records nor unrelated records matter, and the loop returns within nine rounds on any reply. -/
theorem interpret_exact {N : Type} (names : Names N) (m : Message N) (qname : N)
    (server : IpAddr × UInt16) (viaTcp : Bool) (hop : m.opCode = .query)
    (hcode : m.responseCode = .noError) :
    ((∃ a, interpret names m qname server viaTcp = .ok a) ↔
      ∃ chain, chain.length ≤ 8 ∧ CnameChain names m.answers qname chain) ∧
    (∀ a chain, interpret names m qname server viaTcp = .ok a →
      CnameChain names m.answers qname chain →
      a.addrs = (addressesOf names m.answers (chain.getLastD qname)).map Prod.fst ∧
        IsLeast (usedTtls names m.answers qname chain) a.rawTtl.toNat) ∧
    (∀ (m' : Message N) (extra : List (Record N)), m'.opCode = .query →
      m'.responseCode = .noError → (∀ r ∈ extra, Unrelated names m.answers qname r) →
      m'.answers.Perm (m.answers ++ extra) →
      (∀ a, interpret names m qname server viaTcp = .ok a →
        ∃ a', interpret names m' qname server viaTcp = .ok a' ∧
          a'.addrs.Perm a.addrs ∧ a'.rawTtl = a.rawTtl ∧ a'.ttl = a.ttl) ∧
      ∀ a', interpret names m' qname server viaTcp = .ok a' →
        ∃ a, interpret names m qname server viaTcp = .ok a) ∧
    ∃ k ≤ 9, ReturnsAfter names m.answers server viaTcp
      { name := qname, cnames := [], chainTtl := 0xffffffff } k
      (interpret names m qname server viaTcp) := by
  refine ⟨⟨?_, ?_⟩, ?_, ?_, ?_⟩
  · rintro ⟨a, ha⟩
    exact chain_of_interpret hop hcode ha
  · rintro ⟨chain, hhops, hchain⟩
    obtain ⟨a, ha, -⟩ := @interpret_along _ names _ qname server viaTcp hop hcode chain hchain hhops
    exact ⟨a, ha⟩
  · intro a chain ha hchain
    obtain ⟨haddrs, hleast, -⟩ := interpret_of_chain hop hcode ha hchain
    exact ⟨haddrs, hleast⟩
  · intro m' extra hop' hcode' hextra hperm
    exact interpret_of_perm hop hcode hop' hcode' hextra hperm
  · rw [interpret_eq hop hcode]
    exact interpretLoop_returns { name := qname, cnames := [], chainTtl := leastTtl [] }

/-- The name with one label. -/
def oneLabel (b : UInt8) : WireName where
  labels := [[b]]
  nonempty := by simp

/-- The reply with `x.` as an alias of `Y.`, and an address of `y.`. -/
def aliasReply : Message WireName where
  opCode := .query
  responseCode := .noError
  answers := [
    { name := oneLabel 120, ttl := 5, data := .cname (oneLabel 89) },
    { name := oneLabel 121, ttl := 600, data := .a (.replicate 4 9) }]

/-- The query for `X.` follows the alias, and its time bounds that of the answer. -/
theorem interpret_exact_aliasReply :
    ∃ a, interpret wireNames aliasReply (oneLabel 88) (.v4 (.replicate 4 1), 53) false = .ok a ∧
      a.addrs = [.replicate 4 9] ∧ a.rawTtl = 5 := by
  obtain ⟨hiff, hresult, -⟩ := interpret_exact wireNames aliasReply (oneLabel 88)
    (.v4 (.replicate 4 1), 53) false rfl rfl
  have haliases : aliasesOf wireNames aliasReply.answers (oneLabel 88) = [(oneLabel 89, 5)] := rfl
  have haddresses : addressesOf wireNames aliasReply.answers (oneLabel 121) =
      [(.replicate 4 9, 600)] := rfl
  have hend : Terminal wireNames aliasReply.answers (oneLabel 121) :=
    terminal_iff.mpr ⟨by rw [haddresses]; exact List.cons_ne_nil _ _, rfl⟩
  have hchain : CnameChain wireNames aliasReply.answers (oneLabel 88) [oneLabel 121] := by
    refine .hop (alias_iff.mpr ⟨?_, ?_, rfl⟩) (.stop hend)
    · rw [haliases]
      exact List.cons_ne_nil _ _
    · intro c hc
      rw [haliases, List.mem_singleton] at hc
      rw [hc]
      rfl
  obtain ⟨a, ha⟩ := hiff.mpr ⟨_, by decide, hchain⟩
  obtain ⟨haddrs, hleast⟩ := hresult a _ ha hchain
  refine ⟨a, ha, haddrs, UInt32.toNat_inj.mp (hleast.unique ?_)⟩
  rw [usedTtls_cons, usedTtls_nil hend, haliases, haddresses]
  refine ⟨.inl ⟨5, List.mem_cons_self, rfl⟩, ?_⟩
  rintro ttl (⟨x, hx, rfl⟩ | ⟨x, hx, rfl⟩)
  · rw [List.mem_singleton.mp hx]
  · rw [List.mem_singleton.mp hx]
    decide

end Udp2raw.Dns
