import Udp2raw.Core.History
import Udp2raw.Effect

/-!
# Incarnations of connections

What both ends do to their connections, seen through job keys only. A ledger
holds the live incarnation of each slot; its steps say when an incarnation may
begin, prepare packets and be given completions. The books of a ledger relate it
to the log of effects that led to it.
-/

namespace Udp2raw

open History

/-- The connection a job was handed in for. -/
def Job.key : Job → JobKey
  | .encrypt key _ => key
  | .decrypt key _ _ => key

/-- The connection a completion is for. -/
def Done.key : Done → JobKey
  | .encrypted key _ => key
  | .decrypted key _ _ => key

/-- Two jobs in order: encryptions for one connection have increasing sequence numbers. -/
def Job.Precedes (a b : Job) : Prop :=
  ∀ key p q, a = .encrypt key p → b = .encrypt key q → seqOf p < seqOf q

/-- Effects that name no job key. -/
def Effect.Keyless : Effect → Prop
  | .submit _ | .transmit .. | .check .. | .afterRecv .. | .incarnation _ => False
  | _ => True

/-- A completion with this key is applied to the connection with the same key. -/
def Effect.AppliedTo (key : JobKey) : Effect → Prop
  | .transmit k _ _ _ => k = key
  | .check k target _ _ _ _ => k = key ∧ target = key
  | .afterRecv k target => k = key ∧ target = key
  | _ => False

/-- The effect is the completion's doing, if it is one of a completion. -/
def Effect.From (cause : Option Done) : Effect → Prop
  | .transmit key _ _ wire => cause = some (.encrypted key (some wire))
  | .check key _ _ _ plain _ => ∃ plains recv, cause = some (.decrypted key plains recv) ∧
      plain ∈ plains
  | .afterRecv key _ => ∃ plains recv, cause = some (.decrypted key plains recv)
  | .authenticated plain => ∃ key plains recv, cause = some (.decrypted key plains recv) ∧
      plain ∈ plains
  | _ => True

/-- The incarnations that began, in order. -/
def incarnations (log : List Effect) : List JobKey :=
  log.filterMap fun e => match e with
    | .incarnation key => some key
    | _ => none

/-- The jobs handed to the pipeline, in order. -/
def submitted (log : List Effect) : List Job :=
  log.filterMap fun e => match e with
    | .submit job => some job
    | _ => none

/-- The last incarnation that began in a slot. -/
def current (slot : Nat) (log : List Effect) : Option JobKey :=
  ((incarnations log).filter fun key => key.slot = slot).getLast?

/-- What may happen after a log: no key is used twice for an incarnation, and jobs and
completions belong to the current incarnation of their slot. -/
def Legal (log : List Effect) : Effect → Prop
  | .incarnation key => key ∉ incarnations log
  | .submit job => current job.key.slot log = some job.key
  | .transmit key _ _ _ => current key.slot log = some key
  | .check key target _ _ _ _ => target = key ∧ current key.slot log = some key
  | .afterRecv key target => target = key ∧ current key.slot log = some key
  | _ => True

/-- The sequence number of an encryption is not the last one. -/
def Job.HasSuccessor : Job → Prop
  | .encrypt _ plain => seqOf plain + 1 < 2 ^ 64
  | .decrypt .. => True

instance : (job : Job) → Decidable job.HasSuccessor
  | .encrypt _ plain => inferInstanceAs (Decidable (seqOf plain + 1 < 2 ^ 64))
  | .decrypt .. => isTrue trivial

/-- Neither the generations nor the sequence numbers of a log have used up their 64 bits. -/
structure NoWrap (log : List Effect) : Prop where
  generations : (incarnations log).length + 1 < 2 ^ 64
  numbers : ∀ job ∈ submitted log, job.HasSuccessor

instance (log : List Effect) : Decidable (NoWrap log) :=
  decidable_of_iff
    ((incarnations log).length + 1 < 2 ^ 64 ∧ ∀ job ∈ submitted log, job.HasSuccessor)
    ⟨fun h => ⟨h.1, h.2⟩, fun h => ⟨h.1, h.2⟩⟩

@[simp] theorem incarnations_append (a b : List Effect) :
    incarnations (a ++ b) = incarnations a ++ incarnations b := List.filterMap_append

@[simp] theorem submitted_append (a b : List Effect) :
    submitted (a ++ b) = submitted a ++ submitted b := List.filterMap_append

variable {log : List Effect}

/-- The incarnations of a log. -/
theorem mem_incarnations {key : JobKey} : key ∈ incarnations log ↔ .incarnation key ∈ log := by
  unfold incarnations
  rw [List.mem_filterMap]
  constructor
  · rintro ⟨e, he, hk⟩
    cases e <;> cases hk
    exact he
  · exact fun h => ⟨_, h, rfl⟩

/-- Completions in a legal log are applied to the connection of their key. -/
theorem target_of_legal (h : Each Legal log) {key target : JobKey}
    (hm : .afterRecv key target ∈ log) : target = key := by
  obtain ⟨_, _, _, hlegal⟩ := h.of_mem hm
  exact hlegal.1

theorem NoWrap.of_append {a b : List Effect} (h : NoWrap (a ++ b)) : NoWrap a where
  generations := by
    have := h.generations
    rw [incarnations_append, List.length_append] at this
    omega
  numbers job hm := h.numbers job (by simp [hm])

theorem current_append (slot : Nat) (a b : List Effect) :
    current slot (a ++ b) = (current slot b).or (current slot a) := by
  simp [current, List.getLast?_append]

/-- The current incarnation of a slot is in that slot. -/
theorem slot_of_current {slot : Nat} {key : JobKey} (h : current slot log = some key) :
    key.slot = slot := by
  have hm := List.mem_of_getLast? h
  simpa using (List.mem_filter.mp hm).2

theorem mem_of_current {slot : Nat} {key : JobKey} (h : current slot log = some key) :
    key ∈ incarnations log :=
  (List.mem_filter.mp (List.mem_of_getLast? h)).1

/-- Effects without keys leave no trace in the books. -/
theorem keyless_trace {out : List Effect} (h : ∀ e ∈ out, e.Keyless) :
    incarnations out = [] ∧ submitted out = [] ∧ ∀ log, EachFrom Legal log out := by
  induction out with
  | nil => exact ⟨rfl, rfl, fun _ => trivial⟩
  | cons e rest ih =>
    obtain ⟨hi, hs, hl⟩ := ih fun x hx => h x (List.mem_cons_of_mem _ hx)
    have he := h e List.mem_cons_self
    cases e <;> first | exact he.elim | exact ⟨hi, hs, fun _ => ⟨trivial, hl _⟩⟩

/-- The live incarnation of a slot. -/
structure Incarnation where
  key : JobKey
  /-- It may prepare packets, and keeps its ids. -/
  ready : Bool
  myId : UInt32
  oppsiteId : UInt32
  /-- The sequence number of the next packet. -/
  nextSeq : UInt64

/-- The live incarnations by slot, and the generation of the next one. -/
@[ext]
structure Ledger where
  conns : Nat → Option Incarnation
  nextGeneration : UInt64

namespace Ledger

/-- The ledger with another entry for a slot. -/
def set (l : Ledger) (slot : Nat) (v : Option Incarnation) : Ledger :=
  { l with conns := Function.update l.conns slot v }

/-- What may happen to incarnations. -/
inductive Step : Ledger → List Effect → Ledger → Prop where
  | quiet {l : Ledger} {out : List Effect} (keyless : ∀ e ∈ out, e.Keyless) : Step l out l
  /-- Before an incarnation is ready, everything but its key may change. -/
  | change {l : Ledger} {out : List Effect} {slot : Nat} {v w : Incarnation}
      (keyless : ∀ e ∈ out, e.Keyless) (hv : l.conns slot = some v) (key : w.key = v.key)
      (unready : v.ready = false) : Step l out (l.set slot (some w))
  | drop {l : Ledger} {out : List Effect} (slot : Nat) (keyless : ∀ e ∈ out, e.Keyless) :
      Step l out (l.set slot none)
  /-- An incarnation begins, with the next generation. -/
  | begin {l : Ledger} {a b : List Effect} {w : Incarnation}
      (hbefore : ∀ e ∈ a, e.Keyless) (hafter : ∀ e ∈ b, e.Keyless)
      (fresh : w.key.generation = l.nextGeneration) :
      Step l (a ++ .incarnation w.key :: b)
        { l.set w.key.slot (some w) with nextGeneration := l.nextGeneration + 1 }
  /-- A packet with the ids and the next number of its incarnation is handed in. -/
  | prepare {l : Ledger} {slot : Nat} {v : Incarnation} {plain : Bytes}
      (hv : l.conns slot = some v) (ready : v.ready = true)
      (ids : Wire.parseSaferIds plain =
        some { oppsiteId := v.myId, myId := v.oppsiteId, seq := v.nextSeq }) :
      Step l [.submit (.encrypt v.key plain)]
        (l.set slot (some { v with nextSeq := v.nextSeq + 1 }))
  | receive {l : Ledger} {slot : Nat} {v : Incarnation} (wire : Bytes) (recv : RecvMeta)
      (hv : l.conns slot = some v) : Step l [.submit (.decrypt v.key wire recv)] l
  /-- A completion is applied to the incarnation of its key. -/
  | apply {l : Ledger} {v : Incarnation} {e : Effect} (hv : l.conns v.key.slot = some v)
      (applied : e.AppliedTo v.key) : Step l [e] l

variable {slot : Nat} {v : Incarnation}

/-- A prepared packet is handed in. -/
theorem steps_handIn {l : Ledger} {plain : Bytes} (hv : l.conns slot = some v)
    (ready : v.ready = true) (ids : Wire.parseSaferIds plain =
      some { oppsiteId := v.myId, myId := v.oppsiteId, seq := v.nextSeq }) (info : ConnInfo)
    (ptype : UInt8) (payload : Bytes) :
    Program.Steps Step l (handIn v.key info ptype payload plain)
      (l.set slot (some { v with nextSeq := v.nextSeq + 1 })) :=
  have silent : Step l [.prepared info.myId info.oppsiteId ptype payload plain] l :=
    .quiet (by simp [Effect.Keyless])
  .cons silent (.single (.prepare hv ready ids))

/-- The ledger agrees with the log of effects that led to it. -/
structure Books (l : Ledger) (log : List Effect) : Prop where
  live : ∀ slot v, l.conns slot = some v → current slot log = some v.key
  generation : l.nextGeneration.toNat = (incarnations log).length + 1
  older : ∀ key ∈ incarnations log, key.generation.toNat < l.nextGeneration.toNat
  unique : (incarnations log).Nodup
  known : ∀ job ∈ submitted log, job.key ∈ incarnations log
  /-- What a live incarnation prepared has its ids and a number it has passed. -/
  sealed : ∀ slot v, l.conns slot = some v → ∀ plain, .encrypt v.key plain ∈ submitted log →
    v.ready = true ∧ ∃ seq, Wire.parseSaferIds plain =
      some { oppsiteId := v.myId, myId := v.oppsiteId, seq := seq } ∧ seq.toNat < v.nextSeq.toNat
  ordered : (submitted log).Pairwise Job.Precedes
  legal : Each Legal log

variable {l m : Ledger} {log out : List Effect}

/-- Effects that neither begin an incarnation nor hand in a job keep the books, whatever
happens to incarnations that are not ready. -/
theorem Books.congr (h : Books l log) (hi : incarnations out = []) (hs : submitted out = [])
    (hlegal : EachFrom Legal log out) (hg : m.nextGeneration = l.nextGeneration)
    (hconns : ∀ slot w, m.conns slot = some w →
      ∃ v, l.conns slot = some v ∧ w.key = v.key ∧ (v.ready = true → w = v)) :
    Books m (log ++ out) where
  live slot w hw := by
    obtain ⟨v, hv, hk, -⟩ := hconns slot w hw
    have hout : current slot out = none := by simp [current, hi]
    rw [current_append, hout, Option.none_or, h.live slot v hv, hk]
  generation := by rw [hg, incarnations_append, hi, List.append_nil, h.generation]
  older := by rw [hg, incarnations_append, hi, List.append_nil]; exact h.older
  unique := by rw [incarnations_append, hi, List.append_nil]; exact h.unique
  known := by
    rw [incarnations_append, submitted_append, hi, hs, List.append_nil, List.append_nil]
    exact h.known
  sealed slot w hw plain hm := by
    obtain ⟨v, hv, hk, hsame⟩ := hconns slot w hw
    rw [submitted_append, hs, List.append_nil, hk] at hm
    obtain ⟨hr, hseq⟩ := h.sealed slot v hv plain hm
    rw [hsame hr]
    exact ⟨hr, hseq⟩
  ordered := by rw [submitted_append, hs, List.append_nil]; exact h.ordered
  legal := h.legal.append hlegal

theorem set_conns (l : Ledger) (slot : Nat) (v : Option Incarnation) (i : Nat) :
    (l.set slot v).conns i = if i = slot then v else l.conns i := by
  simp [set, Function.update_apply]

/-- A new incarnation keeps the books. -/
theorem Books.begin (h : Books l log) {before after : List Effect} {w : Incarnation}
    (hbefore : ∀ e ∈ before, e.Keyless) (hafter : ∀ e ∈ after, e.Keyless)
    (fresh : w.key.generation = l.nextGeneration)
    (hwrap : NoWrap (log ++ (before ++ .incarnation w.key :: after))) :
    Books { l.set w.key.slot (some w) with nextGeneration := l.nextGeneration + 1 }
      (log ++ (before ++ .incarnation w.key :: after)) := by
  obtain ⟨hib, hsb, hlb⟩ := keyless_trace hbefore
  obtain ⟨hia, hsa, hla⟩ := keyless_trace hafter
  have hinc : incarnations (log ++ (before ++ .incarnation w.key :: after)) =
      incarnations log ++ [w.key] := by
    rw [incarnations_append, incarnations_append, hib, ← List.singleton_append,
      incarnations_append, hia]
    rfl
  have hsub : submitted (log ++ (before ++ .incarnation w.key :: after)) = submitted log := by
    rw [submitted_append, submitted_append, hsb, ← List.singleton_append, submitted_append, hsa]
    exact List.append_nil _
  have hcur : ∀ slot, current slot (log ++ (before ++ .incarnation w.key :: after)) =
      if w.key.slot = slot then some w.key else current slot log := by
    intro slot
    simp only [current, hinc, List.filter_append]
    by_cases hs : w.key.slot = slot <;> simp [hs]
  have hnew : w.key ∉ incarnations log := by
    intro hm
    have := h.older _ hm
    rw [fresh] at this
    omega
  have hnext : (l.nextGeneration + 1).toNat = l.nextGeneration.toNat + 1 := by
    have := hwrap.generations
    rw [hinc, List.length_append, List.length_singleton, ← h.generation] at this
    rw [UInt64.toNat_add, UInt64.toNat_one, Nat.mod_eq_of_lt this]
  refine ⟨?_, ?_, ?_, ?_, ?_, ?_, ?_, ?_⟩
  · intro slot v hv
    change (l.set w.key.slot (some w)).conns slot = some v at hv
    rw [set_conns] at hv
    rw [hcur]
    split at hv
    · next he => rw [if_pos he.symm, Option.some.inj hv]
    · next he => rw [if_neg (Ne.symm he), h.live slot v hv]
  · change (l.nextGeneration + 1).toNat = _
    rw [hnext, hinc, List.length_append, h.generation, List.length_singleton]
  · intro key hm
    change _ < (l.nextGeneration + 1).toNat
    rw [hnext]
    rw [hinc, List.mem_append, List.mem_singleton] at hm
    rcases hm with hm | rfl
    · exact (h.older key hm).trans (Nat.lt_succ_self _)
    · rw [fresh]
      exact Nat.lt_succ_self _
  · rw [hinc, List.nodup_append]
    refine ⟨h.unique, by simp, ?_⟩
    rintro a ha b hb rfl
    exact hnew (List.mem_singleton.mp hb ▸ ha)
  · intro job hm
    rw [hsub] at hm
    rw [hinc]
    exact List.mem_append_left _ (h.known job hm)
  · intro slot v hv plain hm
    change (l.set w.key.slot (some w)).conns slot = some v at hv
    rw [set_conns] at hv
    rw [hsub] at hm
    split at hv
    · cases hv
      exact absurd (h.known _ hm) hnew
    · exact h.sealed slot v hv plain hm
  · rw [hsub]
    exact h.ordered
  · refine h.legal.append ((eachFrom_append _ _ _).mpr ⟨hlb _, ?_, hla _⟩)
    change w.key ∉ incarnations (log ++ before)
    rw [incarnations_append, hib, List.append_nil]
    exact hnew

/-- Handing in a job for a live incarnation. -/
theorem Books.handIn (h : Books l log) (hv : l.conns slot = some v) {job : Job}
    (hk : job.key = v.key) (hg : m.nextGeneration = l.nextGeneration)
    (hconns : ∀ i w, m.conns i = some w → ∃ u, l.conns i = some u ∧ w.key = u.key)
    (hsealed : ∀ i w, m.conns i = some w → ∀ plain,
      .encrypt w.key plain ∈ submitted log ∨ job = .encrypt w.key plain →
      w.ready = true ∧ ∃ seq, Wire.parseSaferIds plain =
        some { oppsiteId := w.myId, myId := w.oppsiteId, seq := seq } ∧
          seq.toNat < w.nextSeq.toNat) (hordered : ∀ a ∈ submitted log, a.Precedes job) :
    Books m (log ++ [.submit job]) := by
  have hinc : incarnations (log ++ [.submit job]) = incarnations log := by
    rw [incarnations_append]
    exact List.append_nil _
  have hsub : submitted (log ++ [.submit job]) = submitted log ++ [job] := submitted_append _ _
  have hcur := h.live slot v hv
  refine ⟨?_, ?_, ?_, ?_, ?_, ?_, ?_, ?_⟩
  · intro i w hw
    obtain ⟨u, hu, hkey⟩ := hconns i w hw
    rw [current, hinc, hkey]
    exact h.live i u hu
  · rw [hg, hinc]
    exact h.generation
  · rw [hg, hinc]
    exact h.older
  · rw [hinc]
    exact h.unique
  · intro a hm
    rw [hsub, List.mem_append, List.mem_singleton] at hm
    rw [hinc]
    rcases hm with hm | rfl
    · exact h.known a hm
    · rw [hk]
      exact mem_of_current hcur
  · intro i w hw plain hm
    rw [hsub, List.mem_append, List.mem_singleton] at hm
    exact hsealed i w hw plain (hm.imp id Eq.symm)
  · rw [hsub, List.pairwise_append]
    refine ⟨h.ordered, List.pairwise_singleton _ _, ?_⟩
    intro a ha b hb
    rw [List.mem_singleton.mp hb]
    exact hordered a ha
  · refine h.legal.append ⟨?_, trivial⟩
    change current job.key.slot log = some job.key
    rw [hk, slot_of_current hcur]
    exact hcur

theorem Books.receive (h : Books l log) (hv : l.conns slot = some v) (wire : Bytes)
    (recv : RecvMeta) : Books l (log ++ [.submit (.decrypt v.key wire recv)]) := by
  refine h.handIn hv rfl rfl (fun i w hw => ⟨w, hw, rfl⟩) ?_ ?_
  · rintro i w hw plain (hm | hm)
    · exact h.sealed i w hw plain hm
    · cases hm
  · rintro a - key p q - hq
    cases hq

/-- A packet to be sent keeps the books. -/
theorem Books.prepare (h : Books l log) {slot : Nat} {v : Incarnation} {plain : Bytes}
    (hv : l.conns slot = some v) (ready : v.ready = true) (ids : Wire.parseSaferIds plain =
      some { oppsiteId := v.myId, myId := v.oppsiteId, seq := v.nextSeq })
    (hwrap : NoWrap (log ++ [.submit (.encrypt v.key plain)])) :
    Books (l.set slot (some { v with nextSeq := v.nextSeq + 1 }))
      (log ++ [.submit (.encrypt v.key plain)]) := by
  have hseq : seqOf plain = v.nextSeq.toNat := by simp [seqOf, ids]
  have hnext : (v.nextSeq + 1).toNat = v.nextSeq.toNat + 1 := by
    have hlast : seqOf plain + 1 < 2 ^ 64 :=
      hwrap.numbers (.encrypt v.key plain) (by rw [submitted_append]; simp [submitted])
    rw [UInt64.toNat_add, UInt64.toNat_one, Nat.mod_eq_of_lt (hseq ▸ hlast)]
  refine h.handIn hv rfl rfl ?_ ?_ ?_
  · intro i w hw
    rw [set_conns] at hw
    split at hw
    · next hi =>
      cases hw
      exact ⟨v, hi ▸ hv, rfl⟩
    · exact ⟨w, hw, rfl⟩
  · intro i w hw p hm
    rw [set_conns] at hw
    split at hw
    · cases hw
      refine ⟨ready, ?_⟩
      rcases hm with hm | hm
      · obtain ⟨-, seq, hp, hlt⟩ := h.sealed slot v hv p hm
        exact ⟨seq, hp, by rw [hnext]; omega⟩
      · cases hm
        exact ⟨v.nextSeq, ids, by rw [hnext]; omega⟩
    · next hi =>
      rcases hm with hm | hm
      · exact h.sealed i w hw p hm
      · -- two slots never share a key
        have hkey : v.key = w.key := (Job.encrypt.inj hm).1
        have hslot := slot_of_current (h.live slot v hv)
        rw [hkey, slot_of_current (h.live i w hw)] at hslot
        exact absurd hslot hi
  · rintro a ha key p q rfl hq
    cases hq
    obtain ⟨-, seq, hp, hlt⟩ := h.sealed slot v hv p ha
    rw [hseq]
    simpa [seqOf, hp] using hlt

/-- Every step keeps the books. -/
theorem Books.step (h : Books l log) (hstep : Step l out m) (hwrap : NoWrap (log ++ out)) :
    Books m (log ++ out) := by
  cases hstep with
  | quiet keyless =>
    obtain ⟨hi, hs, hl⟩ := keyless_trace keyless
    exact h.congr hi hs (hl log) rfl fun slot w hw => ⟨w, hw, rfl, fun _ => rfl⟩
  | change keyless hv hkey unready =>
    obtain ⟨hi, hs, hl⟩ := keyless_trace keyless
    refine h.congr hi hs (hl log) rfl fun i u hu => ?_
    rw [set_conns] at hu
    split at hu
    · next he =>
      cases hu
      exact ⟨_, he ▸ hv, hkey, fun hr => by rw [unready] at hr; cases hr⟩
    · exact ⟨u, hu, rfl, fun _ => rfl⟩
  | drop slot keyless =>
    obtain ⟨hi, hs, hl⟩ := keyless_trace keyless
    refine h.congr hi hs (hl log) rfl fun i u hu => ?_
    rw [set_conns] at hu
    split at hu
    · cases hu
    · exact ⟨u, hu, rfl, fun _ => rfl⟩
  | begin hbefore hafter fresh => exact h.begin hbefore hafter fresh hwrap
  | prepare hv ready ids => exact h.prepare hv ready ids hwrap
  | receive wire recv hv => exact h.receive hv wire recv
  | @apply v e hv applied =>
    have hcur := h.live _ v hv
    have hlegal : incarnations [e] = [] ∧ submitted [e] = [] ∧ Legal log e := by
      cases e with
      | transmit k => cases applied; exact ⟨rfl, rfl, hcur⟩
      | check k target => obtain ⟨rfl, rfl⟩ := applied; exact ⟨rfl, rfl, rfl, hcur⟩
      | afterRecv k target => obtain ⟨rfl, rfl⟩ := applied; exact ⟨rfl, rfl, rfl, hcur⟩
      | _ => exact applied.elim
    exact h.congr hlegal.1 hlegal.2.1 ⟨hlegal.2.2, trivial⟩ rfl
      fun slot w hw => ⟨w, hw, rfl, fun _ => rfl⟩

/-- Finitely many steps keep the books. -/
theorem Books.steps (h : Books l log) (hsteps : Program.Steps Step l out m)
    (hwrap : NoWrap (log ++ out)) : Books m (log ++ out) := by
  induction hsteps generalizing log with
  | refl l => simpa using h
  | cons hstep _ ih =>
    rw [← List.append_assoc] at hwrap ⊢
    exact ih (h.step hstep hwrap.of_append) hwrap

end Ledger

end Udp2raw
