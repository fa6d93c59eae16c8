import Udp2raw.Session.Agreement

/-!
# At most one delivery

The anti-replay window of an end remembers what the end accepted under its
current id. A reset forgets, but it only happens together with a change to an id
under which nothing was accepted.
-/

namespace Udp2raw

open Function History

/-- Where and under which id an entry accepts a plaintext. -/
def Entry.accepted? : Entry → Option (Side × UInt32 × Bytes)
  | ⟨side, _, .check _ _ my _ plain (some _)⟩ => some (side, my, plain)
  | _ => none

/-- The accepted plaintexts in order, with side and id. -/
def acceptances (log : List Entry) : List (Side × UInt32 × Bytes) := log.filterMap Entry.accepted?

/-- The accepted plaintexts, in order. -/
def acceptedPlains (log : List Entry) : List Bytes := (acceptances log).map fun a => a.2.2

/-- The sequence numbers one side accepted under an id. -/
def acceptedSeqs (side : Side) (id : UInt32) (log : List Entry) : List Nat :=
  ((acceptances log).filter fun a => a.1 = side ∧ a.2.1 = id).map fun a => seqOf a.2.2

@[simp] theorem acceptances_append (a b : List Entry) :
    acceptances (a ++ b) = acceptances a ++ acceptances b :=
  List.filterMap_append

/-- The acceptances of a log. -/
theorem mem_acceptances {log : List Entry} {side : Side} {my : UInt32} {plain : Bytes} :
    (side, my, plain) ∈ acceptances log ↔
      ∃ k key target opp r, ⟨side, k, .check key target my opp plain (some r)⟩ ∈ log := by
  unfold acceptances
  rw [List.mem_filterMap]
  constructor
  · rintro ⟨⟨s, k, e⟩, he, ha⟩
    cases e with
    | check key target m opp p r =>
      cases r with
      | none => cases ha
      | some r =>
        cases ha
        exact ⟨k, key, target, opp, r, he⟩
    | _ => cases ha
  · rintro ⟨k, key, target, opp, r, h⟩
    exact ⟨_, h, rfl⟩

/-- A window that remembers a list remembers every part of it. -/
theorem AntiReplay.Marks.mono {a : AntiReplay} {l m : List Nat} (h : a.Marks l) (hs : m ⊆ l) :
    a.Marks m :=
  ⟨h.enabled, fun x hx => h.bound x (hs hx), fun x hx => h.marked x (hs hx)⟩

namespace Session

/-- Every plaintext was accepted at most once, and the windows see to it. -/
structure Delivered (ends : Side → Ends) (log : List Entry) : Prop where
  marks : ∀ side slot e, ends side slot = some e →
    e.antiReplay.Marks (acceptedSeqs side e.myId log)
  /-- A server accepts nothing during the handshake. -/
  quiet : ∀ slot e, ends .server slot = some e → e.phase ≠ .ready →
    acceptedSeqs .server e.myId log = []
  distinct : ∀ side i j e f, ends side i = some e → ends side j = some f →
    e.myId = f.myId → i = j
  once : (acceptedPlains log).Nodup

variable {k : Side → UInt32} {ends : Side → Ends} {log new : List Entry} {side : Side}

theorem acceptedSeqs_append (s : Side) (id : UInt32) :
    acceptedSeqs s id (log ++ new) = acceptedSeqs s id log ++ acceptedSeqs s id new := by
  simp [acceptedSeqs]

/-- Acceptances under another id leave a list alone. -/
theorem acceptedSeqs_other {s : Side} {id : UInt32}
    (h : ∀ a ∈ acceptances new, ¬ (a.1 = s ∧ a.2.1 = id)) :
    acceptedSeqs s id (log ++ new) = acceptedSeqs s id log := by
  rw [acceptedSeqs_append]
  have hnil : acceptedSeqs s id new = [] := by
    unfold acceptedSeqs
    rw [List.filter_eq_nil_iff.mpr, List.map_nil]
    simpa using h
  rw [hnil, List.append_nil]

theorem acceptedSeqs_silent (h : acceptances new = []) (s : Side) (id : UInt32) :
    acceptedSeqs s id (log ++ new) = acceptedSeqs s id log :=
  acceptedSeqs_other (by simp [h])

theorem acceptedPlains_silent (h : acceptances new = []) :
    acceptedPlains (log ++ new) = acceptedPlains log := by
  simp [acceptedPlains, h]

/-- Nothing was accepted under an id that has not been drawn. -/
theorem acceptedSeqs_unknown (fair : Each Fair log) {s : Side} {id : UInt32}
    (h : (s, id) ∉ newIds log) : acceptedSeqs s id log = [] := by
  unfold acceptedSeqs
  rw [List.filter_eq_nil_iff.mpr, List.map_nil]
  rintro ⟨s', id', plain⟩ hm
  simp only [decide_eq_true_eq, not_and]
  rintro rfl rfl
  obtain ⟨c, key, target, opp, r, he⟩ := mem_acceptances.mp hm
  obtain ⟨a, b, hlog, hf⟩ := fair.of_mem he
  have hsub : a ⊆ log := hlog ▸ List.subset_append_left _ _
  exact h (newIds_subset hsub hf.1)

variable {E : Ends} {e f : End} {slot : Nat} {P : Prop}

/-- A step without acceptances: its ends are old ones of the same slot, or nothing was accepted
under their ids. -/
theorem Delivered.extend (h : Delivered ends log) (hnew : acceptances new = [])
    (hends : ∀ slot f, E slot = some f →
      (∃ e, ends side slot = some e ∧ f.myId = e.myId ∧
        (side = .server → f.phase ≠ .ready → e.phase ≠ .ready) ∧
        ∀ l, e.antiReplay.Marks l → f.antiReplay.Marks l) ∨
      acceptedSeqs side f.myId log = [] ∧ f.antiReplay.disabled = false)
    (hdistinct : ∀ i j e f, E i = some e → E j = some f → e.myId = f.myId → i = j) :
    Delivered (update ends side E) (log ++ new) where
  marks s slot f hf := by
    rw [acceptedSeqs_silent hnew]
    rw [update_apply] at hf
    split at hf
    · next hs =>
      subst hs
      rcases hends slot f hf with ⟨e, he, hid, -, hm⟩ | ⟨hnil, hen⟩
      · rw [hid]
        exact hm _ (h.marks s slot e he)
      · rw [hnil]
        exact .nil hen
    · exact h.marks s slot f hf
  quiet slot f hf hp := by
    rw [acceptedSeqs_silent hnew]
    rw [update_apply] at hf
    split at hf
    · next hs =>
      subst hs
      rcases hends slot f hf with ⟨e, he, hid, hphase, -⟩ | ⟨hnil, -⟩
      · rw [hid]
        exact h.quiet slot e he (hphase rfl hp)
      · exact hnil
    · exact h.quiet slot f hf hp
  distinct s i j e f he hf hid := by
    rw [update_apply] at he hf
    split at he
    · next hs =>
      rw [if_pos hs] at hf
      exact hdistinct i j e f he hf hid
    · next hs =>
      rw [if_neg hs] at hf
      exact h.distinct s i j e f he hf hid
  once := by
    rw [acceptedPlains_silent hnew]
    exact h.once

/-- Ends that keep the ids of their slots stay distinct. -/
theorem Delivered.distinct_of_ids (h : Delivered ends log)
    (hids : ∀ slot f, E slot = some f → ∃ e, ends side slot = some e ∧ e.myId = f.myId) (i j : Nat)
    (e f : End) (he : E i = some e) (hf : E j = some f) (hid : e.myId = f.myId) : i = j := by
  obtain ⟨a, ha, hae⟩ := hids i e he
  obtain ⟨b, hb, hbf⟩ := hids j f hf
  exact h.distinct side i j a b ha hb (hae.trans (hid.trans hbf.symm))

/-- The ids of the slots when one end changes and keeps its id. -/
theorem ids_of_update (he : E slot = some e) (hid : f.myId = e.myId) (i : Nat) (a : End)
    (ha : update E slot (some f) i = some a) : ∃ b, E i = some b ∧ b.myId = a.myId := by
  rw [update_apply] at ha
  split at ha
  · next hi =>
    cases ha
    exact ⟨e, hi ▸ he, hid.symm⟩
  · exact ⟨a, ha, rfl⟩

theorem Delivered.keep (h : Delivered ends log) (hnew : acceptances new = []) :
    Delivered (update ends side (ends side)) (log ++ new) :=
  h.extend hnew (fun _ f hf => .inl ⟨f, hf, rfl, fun _ => id, fun _ => id⟩)
    (h.distinct_of_ids fun _ f hf => ⟨f, hf, rfl⟩)

/-- An end changes and keeps its id and its window. -/
theorem Delivered.touch (h : Delivered ends log) (hnew : acceptances new = [])
    (he : ends side slot = some e) (hid : f.myId = e.myId)
    (hphase : side = .server → f.phase ≠ .ready → e.phase ≠ .ready)
    (hmarks : ∀ l, e.antiReplay.Marks l → f.antiReplay.Marks l) :
    Delivered (update ends side (update (ends side) slot (some f))) (log ++ new) := by
  refine h.extend hnew (fun i a ha => .inl ?_) (h.distinct_of_ids (ids_of_update he hid))
  rw [update_apply] at ha
  split at ha
  · next hi =>
    cases ha
    exact ⟨e, hi ▸ he, hid, hphase, hmarks⟩
  · exact ⟨a, ha, rfl, fun _ => id, fun _ => id⟩

/-- An end with a new id. -/
theorem Delivered.fresh (h : Delivered ends log) (hg : Agreed k ends log)
    (hnew : acceptances new = []) (hid : (side, f.myId) ∉ newIds log)
    (hen : f.antiReplay.disabled = false) :
    Delivered (update ends side (update (ends side) slot (some f))) (log ++ new) := by
  have hne : ∀ i e, ends side i = some e → e.myId ≠ f.myId := fun i e he heq =>
    hid (heq ▸ (hg.good side i e he).owned)
  refine h.extend hnew (fun i a ha => ?_) fun i j a b ha hb hab => ?_
  · rw [update_apply] at ha
    split at ha
    · cases ha
      exact .inr ⟨acceptedSeqs_unknown hg.fair hid, hen⟩
    · exact .inl ⟨a, ha, rfl, fun _ => id, fun _ => id⟩
  · rw [update_apply] at ha hb
    split at ha <;> split at hb
    · next hi hj => rw [hi, hj]
    · cases ha
      exact absurd hab.symm (hne j b hb)
    · cases hb
      exact absurd hab (hne i a ha)
    · exact h.distinct side i j a b ha hb hab

/-- A server end that leaves the handshake starts with a reset window. -/
theorem Delivered.goReady (h : Delivered ends log) (hnew : acceptances new = []) {slot : Nat}
    {e : End} (he : ends .server slot = some e) (phase : e.phase = .waiting) :
    Delivered (update ends .server (update (ends .server) slot
      (some { e with phase := .ready, antiReplay := e.antiReplay.reInit }))) (log ++ new) := by
  refine h.extend hnew (fun i a ha => ?_) (h.distinct_of_ids (ids_of_update he rfl))
  rw [update_apply] at ha
  split at ha
  · cases ha
    exact .inr ⟨h.quiet slot e he (by simp [phase]), (h.marks .server slot e he).enabled⟩
  · exact .inl ⟨a, ha, rfl, fun _ => id, fun _ => id⟩

/-- A recovered end goes on under the id of an end that has accepted nothing. -/
theorem Delivered.recover (h : Delivered ends log) (hnew : acceptances new = []) {slot ori : Nat}
    {e o : End} (he : ends .server slot = some e) (ho : ends .server ori = some o)
    (phase : e.phase = .waiting) :
    Delivered (update ends .server (update (update (ends .server) ori
      (some { e with phase := .ready, antiReplay := o.antiReplay.reInit })) slot none))
      (log ++ new) := by
  refine h.extend hnew (fun i a ha => ?_) fun i j a b ha hb hab => ?_
  · rw [update_apply, update_apply] at ha
    split at ha
    · cases ha
    · split at ha
      · cases ha
        exact .inr ⟨h.quiet slot e he (by simp [phase]), (h.marks .server ori o ho).enabled⟩
      · exact .inl ⟨a, ha, rfl, fun _ => id, fun _ => id⟩
  · rw [update_apply, update_apply] at ha hb
    split at ha <;> split at hb
    · cases ha
    · cases ha
    · cases hb
    · next hi hj =>
      split at ha <;> split at hb
      · next hi' hj' => rw [hi', hj']
      · cases ha
        exact absurd (h.distinct .server slot j e b he hb hab).symm hj
      · cases hb
        exact absurd (h.distinct .server i slot a e ha he hab) hi
      · exact h.distinct .server i j a b ha hb hab

/-- A plaintext whose number an end has not accepted has not been accepted anywhere. -/
theorem Delivered.not_accepted (hg : Agreed k ends log) (fresh : FreshIds log)
    (he : ends side slot = some e) {plain : Bytes} {seq : UInt64} (haddr : e.Addressed plain seq)
    (hseq : seq.toNat ∉ acceptedSeqs side e.myId log) : plain ∉ acceptedPlains log := by
  intro hm
  obtain ⟨⟨s, my, p⟩, ha, rfl⟩ := List.mem_map.mp hm
  obtain ⟨c, key, target, opp, r, hentry⟩ := mem_acceptances.mp ha
  obtain ⟨a, b, hlog, hmy, c', hp⟩ := hg.fair.of_mem hentry
  have hsub : a ⊆ log := hlog ▸ List.subset_append_left _ _
  -- the ids in the plaintext are those of the end that accepted it
  obtain ⟨a', b', -, hsafer, -⟩ := hg.fair.of_mem (hsub hp)
  have hid : e.myId = my := (hsafer.ids haddr).2
  have hside : s = side :=
    fresh.side_eq (newIds_subset hsub hmy) (hid ▸ (hg.good side slot e he).owned)
  refine hseq (List.mem_map.mpr ⟨(s, my, p), List.mem_filter.mpr ⟨ha, ?_⟩, ?_⟩)
  · simp [hside, hid]
  · rw [End.Addressed] at haddr
    simp [seqOf, haddr]

/-- An end accepts a plaintext it has not accepted and marks its number. -/
theorem Delivered.accept (h : Delivered ends log) (he : ends side slot = some e)
    (phase : side = .server → e.phase = .ready) {plain : Bytes}
    (hone : acceptances new = [(side, e.myId, plain)]) (hnot : plain ∉ acceptedPlains log)
    {a : AntiReplay} (hm : a.Marks (seqOf plain :: acceptedSeqs side e.myId log)) :
    Delivered (update ends side (update (ends side) slot (some { e with antiReplay := a })))
      (log ++ new) := by
  have hother : ∀ {s : Side} {id : UInt32}, ¬ (side = s ∧ e.myId = id) →
      acceptedSeqs s id (log ++ new) = acceptedSeqs s id log := fun hne =>
    acceptedSeqs_other (by simpa [hone] using hne)
  have hown : acceptedSeqs side e.myId (log ++ new) =
      acceptedSeqs side e.myId log ++ [seqOf plain] := by
    rw [acceptedSeqs_append]
    simp [acceptedSeqs, hone]
  -- another slot of this side has another id
  have hid : ∀ {i f}, i ≠ slot → ends side i = some f → ¬ (side = side ∧ e.myId = f.myId) :=
    fun hne hf heq => hne (h.distinct side _ _ _ _ hf he heq.2.symm)
  refine ⟨fun s i f hf => ?_, fun i f hf hp => ?_, fun s i j b f hb hf hbf => ?_, ?_⟩
  · rw [update_apply] at hf
    split at hf
    · next hs =>
      subst hs
      rw [update_apply] at hf
      split at hf
      · cases hf
        rw [hown]
        exact hm.mono (by simp)
      · next hi =>
        rw [hother (hid hi hf)]
        exact h.marks s i f hf
    · next hs =>
      rw [hother (fun heq => hs heq.1.symm)]
      exact h.marks s i f hf
  · rw [update_apply] at hf
    split at hf
    · next hs =>
      subst hs
      rw [update_apply] at hf
      split at hf
      · cases hf
        exact absurd (phase rfl) hp
      · next hi =>
        rw [hother (hid hi hf)]
        exact h.quiet i f hf hp
    · next hs =>
      rw [hother (fun heq => hs heq.1.symm)]
      exact h.quiet i f hf hp
  · rw [update_apply] at hb hf
    split at hb
    · next hs =>
      rw [if_pos hs] at hf
      have hsame : ({ e with antiReplay := a } : End).myId = e.myId := rfl
      exact h.distinct_of_ids (ids_of_update he hsame) i j b f hb hf hbf
    · next hs =>
      rw [if_neg hs] at hf
      exact h.distinct s i j b f hb hf hbf
  · have hplains : acceptedPlains (log ++ new) = acceptedPlains log ++ [plain] := by
      simp [acceptedPlains, hone]
    rw [hplains, List.nodup_append]
    refine ⟨h.once, by simp, ?_⟩
    rintro p hp q hq rfl
    exact hnot (List.mem_singleton.mp hq ▸ hp)

/-- A check accepts only what was never accepted, and remembers it. -/
theorem Delivered.check (h : Delivered ends log) (hg : Agreed k ends log) (fresh : FreshIds log)
    {slot : Nat} {e : End} (he : ends side slot = some e)
    (phase : side = .server → e.phase = .ready) {key target : JobKey} {plain : Bytes}
    {result : Option (UInt8 × Bytes)} {a : AntiReplay} (checks : e.Checks plain result a)
    (c : UInt32) :
    Delivered (update ends side (update (ends side) slot (some { e with antiReplay := a })))
      (log ++ record side c [.check key target e.myId e.oppsiteId plain result]) := by
  rcases checks with ⟨rfl, rfl⟩ | ⟨seq, haddr, hvalid, rfl⟩
  · exact h.touch rfl he rfl (fun _ => id) fun _ => id
  · have hmark : ∀ l, e.antiReplay.Marks l → seq.toNat ∉ l ∧ a.Marks (seq.toNat :: l) := by
      intro l hl
      obtain ⟨v, b, hv, -, -, hmark⟩ := hl.isValid seq.toNat
      rw [hvalid] at hv
      cases hv
      exact hmark rfl
    cases hb : Wire.parseSaferBody plain with
    | none => exact h.touch rfl he rfl (fun _ => id) fun l hl => (hmark l hl).2.mono (by simp)
    | some body =>
      obtain ⟨hnot, hm⟩ := hmark _ (h.marks side slot e he)
      have hseq : seqOf plain = seq.toNat := by
        rw [End.Addressed] at haddr
        simp [seqOf, haddr]
      exact h.accept he phase rfl (not_accepted hg fresh he haddr hnot) (hseq ▸ hm)

/-- Every step delivers at most once, if it hears only what was sealed and new sessions have
anti-replay. -/
theorem Delivered.step (h : Delivered ends log) (hg : Agreed k ends log) {out : List Effect}
    {E : Ends} (hstep : Step side (k side) false (ends side) out E)
    (fresh : FreshIds (log ++ record side (k side) out)) :
    Delivered (update ends side E) (log ++ record side (k side) out) := by
  cases hstep with
  | silent hs =>
    refine h.keep ?_
    refine List.filterMap_eq_nil_iff.mpr fun entry hm => ?_
    obtain ⟨e, he, rfl⟩ := List.mem_map.mp hm
    have := hs e he
    cases e <;> first | exact this.elim | rfl
  | forget slot =>
    have hold : ∀ i f, update (ends side) slot none i = some f → ends side i = some f := by
      intro i f hf
      rw [update_apply] at hf
      split at hf
      · cases hf
      · exact hf
    exact h.extend rfl (fun i f hf => .inl ⟨f, hold i f hf, rfl, fun _ => id, fun _ => id⟩)
      (h.distinct_of_ids fun i f hf => ⟨f, hold i f hf, rfl⟩)
  | appear _ setting => exact h.fresh hg rfl (fresh.not_mem side) setting
  | renew he _ setting =>
    exact h.fresh hg rfl (fresh.not_mem side) (setting.trans (h.marks _ _ _ he).enabled)
  | hello => exact h.keep rfl
  | answer => exact h.keep rfl
  | meet role he =>
    subst role
    exact h.touch rfl he rfl nofun fun _ => id
  | confirm => exact h.keep rfl
  | authenticate role he phase => exact h.touch rfl he rfl (by simp) fun _ => id
  | claim _ _ role he => exact h.touch rfl he rfl (fun _ => id) fun _ => id
  | goReady role he phase =>
    subst role
    exact h.goReady rfl he phase
  | recover role he ho phase =>
    subst role
    exact h.recover rfl he ho phase
  | prepare next he =>
    exact h.touch rfl he rfl (fun _ => id) fun _ hl => ⟨hl.enabled, hl.bound, hl.marked⟩
  | check he phase checks => exact h.check hg fresh.of_append he phase checks _

/-- Agreement, and at most one delivery where anti-replay is on. -/
structure Kept (P : Prop) (k : Side → UInt32) (ends : Side → Ends) (log : List Entry) : Prop
    extends Agreed k ends log where
  delivered : P → Delivered ends log

theorem Kept.cast {k' : Side → UInt32} {ends' : Side → Ends} {log' : List Entry}
    (h : Kept P k ends log) (hk : k = k') (he : ends = ends') (hl : log = log') :
    Kept P k' ends' log' := by
  subst hk he hl
  exact h

/-- Finitely many steps of one side keep both. -/
theorem Kept.steps (h : Kept P k ends log) {off : Bool} (hoff : P → off = false) {out : List Effect}
    {F : Ends} (hF : F = ends side) (hsteps : Program.Steps (Step side (k side) off) F out E)
    {pool : List Bytes} (hpool : pool ⊆ sealedPlains log) (heard : ∀ e ∈ out, e.Heard pool)
    (fresh : FreshIds (log ++ record side (k side) out)) :
    Kept P k (update ends side E) (log ++ record side (k side) out) := by
  induction hsteps generalizing ends log with
  | refl F =>
    subst hF
    rw [update_eq_self]
    simpa [record] using h
  | @cons F M E out more hstep _ ih =>
    subst hF
    have hsplit : log ++ record side (k side) (out ++ more) =
        log ++ record side (k side) out ++ record side (k side) more := by
      simp [record]
    rw [hsplit] at fresh ⊢
    have hheard : ∀ e ∈ out, e.Heard (sealedPlains log) := fun e he =>
      (heard e (List.mem_append_left _ he)).mono hpool
    have hmid : Kept P k (update ends side M) (log ++ record side (k side) out) := by
      refine ⟨h.toAgreed.step hstep hheard fresh.of_append, fun hP => ?_⟩
      rw [hoff hP] at hstep
      exact (h.delivered hP).step h.toAgreed hstep fresh.of_append
    have hM : M = update ends side M side := by rw [update_self]
    have := ih hmid hM
      (fun p hp => by simpa using Or.inl (hpool hp))
      (fun e he => heard e (List.mem_append_right _ he)) fresh
    rwa [update_idem] at this

/-- A process that ends or starts anew has no sessions. -/
theorem Kept.stop (h : Kept P k ends log) (side : Side) (c : UInt32) :
    Kept P (update k side c) (update ends side fun _ => none) log := by
  have hold : ∀ s slot e, update ends side (fun _ => none) s slot = some e →
      s ≠ side ∧ ends s slot = some e := by
    intro s slot e he
    rw [update_apply] at he
    split at he
    · cases he
    · next hs => exact ⟨hs, he⟩
  refine ⟨⟨h.fair, fun s slot e he => ?_⟩, fun hP => ?_⟩
  · obtain ⟨hs, he⟩ := hold s slot e he
    rw [update_of_ne hs]
    exact h.good s slot e he
  · have hd := h.delivered hP
    refine ⟨fun s slot e he => hd.marks s slot e (hold s slot e he).2,
      fun slot e he => hd.quiet slot e (hold _ slot e he).2, fun s i j e f he hf => ?_, hd.once⟩
    exact hd.distinct s i j e f (hold s i e he).2 (hold s j f hf).2

end Session

end Udp2raw
