import Udp2raw.Raw.Conversation

/-!
# Acknowledgements of two FakeTCP endpoints

In sequence modes 3 and 4 both sides rewind their send position to
acknowledgements that may be old. Still every number in circulation is one that
the data really reached: an acknowledgement is the synchronised start or the end
of a segment that was sent, and everything before it was received. Distances are
taken from an origin at or below the numbers of the handshake, whose packets may
still be in the network.
-/

namespace Udp2raw.Conversation

open Serial

/-- The data bytes of the connected phase. -/
def bytes (l : List Sent) : Nat := ((l.filter (·.safer)).map (·.len)).sum

theorem bytes_append (l l' : List Sent) : bytes (l ++ l') = bytes l + bytes l' := by
  simp only [bytes, List.filter_append, List.map_append, List.sum_append]

theorem bytes_singleton {p : Sent} (h : p.safer = true) : bytes [p] = p.len := by
  simp [bytes, h]

/-- The end of a data segment that was sent. -/
def IsEnd (l : List Sent) (u : UInt32) : Prop :=
  ∃ p ∈ l, p.safer = true ∧ 0 < p.len ∧ u = p.seq + UInt32.ofNat p.len

theorem IsEnd.mono {l l' : List Sent} {u : UInt32} (h : IsEnd l u) (hsub : l ⊆ l') :
    IsEnd l' u := by
  obtain ⟨p, hp, hrest⟩ := h
  exact ⟨p, hsub hp, hrest⟩

section

variable (origin base : UInt32)

/-- A number that the data of a side has reached: not beyond the start, or the end of one of its
segments. -/
def Known (l : List Sent) (u : UInt32) : Prop :=
  ahead origin u ≤ ahead origin base ∨ IsEnd l u

/-- The data from `x` to `y`: its numbers at both sides and in the packets between them. -/
structure Flow (x y : End) : Prop where
  seq : Known origin base x.sent x.raw.sendInfo.seq
  heard : Known origin base x.sent x.raw.recvInfo.ackSeq
  ends : ∀ p ∈ x.sent, p.safer = true →
    ahead origin p.seq + p.len ≤ ahead origin base + bytes x.sent
  ack : y.raw.sendInfo.ackSeq = base ∨ IsEnd x.sent y.raw.sendInfo.ackSeq
  acks : ∀ q ∈ y.sent, Known origin base x.sent q.ackSeq
  arrived : ∀ m ∈ y.arrived, ∃ p ∈ x.sent, p.safer = true ∧ m.seq = p.seq ∧ m.dataLen = p.len
  covered : ∀ n, ahead origin base ≤ n → n < ahead origin y.raw.sendInfo.ackSeq →
    ∃ m ∈ y.accepted, ahead origin m.seq ≤ n ∧ n < ahead origin m.seq + m.dataLen

end

variable {origin base : UInt32} {x x' y y' : End} {rx : RawCtx}

theorem Known.mono {l l' : List Sent} {u : UInt32} (h : Known origin base l u) (hsub : l ⊆ l') :
    Known origin base l' u :=
  h.imp_right fun hend => hend.mono hsub

/-- No known number is beyond the data that was sent. -/
theorem Flow.le_of_known (h : Flow origin base x y)
    (hbound : ahead origin base + bytes x.sent < 2 ^ 31) {u : UInt32}
    (hu : Known origin base x.sent u) : ahead origin u ≤ ahead origin base + bytes x.sent := by
  rcases hu with hle | ⟨p, hp, hsafer, -, rfl⟩
  · omega
  · have hend := h.ends p hp hsafer
    rwa [ahead_add_ofNat (by omega)]

theorem Flow.known_ack (h : Flow origin base x y) :
    Known origin base x.sent y.raw.sendInfo.ackSeq :=
  h.ack.imp_left fun heq => by rw [heq]

/-- A step of the sender keeps the invariant. -/
theorem Flow.sender (h : Flow origin base x y) (hbound : ahead origin base + bytes x.sent < 2 ^ 31)
    (hmove : Moves rx y.sent x x') : Flow origin base x' y := by
  cases hmove with
  | @sent raw p outward genuine safer seq ackSeq next ack heard =>
    have hsub : x.sent ⊆ x.sent ++ [p] := List.subset_append_left _ _
    have hmem : p ∈ x.sent ++ [p] := List.mem_append_right _ (List.mem_singleton.mpr rfl)
    have hbytes := bytes_append x.sent [p]
    rw [bytes_singleton safer] at hbytes
    exact
      { seq := by
          rcases next with hsame | hback | ⟨hpos, hnext⟩
          · exact (hsame ▸ h.seq).mono hsub
          · exact (hback ▸ h.heard).mono hsub
          · exact .inr ⟨p, hmem, safer, hpos, hnext⟩
        heard := (heard ▸ h.heard).mono hsub
        ends := by
          intro q hq hsafer
          change _ ≤ ahead origin base + bytes (x.sent ++ [p])
          rw [hbytes]
          rcases List.mem_append.mp hq with hq | hq
          · have hend := h.ends q hq hsafer
            omega
          · have hstart := h.le_of_known hbound (seq ▸ h.seq)
            rw [List.mem_singleton.mp hq]
            omega
        ack := h.ack.imp_right (·.mono hsub)
        acks := fun q hq => (h.acks q hq).mono hsub
        arrived := fun m hm => by
          obtain ⟨q, hq, hrest⟩ := h.arrived m hm
          exact ⟨q, hsub hq, hrest⟩
        covered := h.covered }
  | @arrived raw p m mem outward sendInfo heard seq len =>
    exact
      { h with
        seq := by
          have hseq := h.seq
          rwa [← sendInfo] at hseq
        heard := by
          have hknown := h.acks p mem
          rwa [← heard] at hknown }
  | accepted mem outward seq heard ack =>
    exact
      { h with
        seq := by
          have hseq := h.seq
          rwa [← seq] at hseq
        heard := by
          have hheard := h.heard
          rwa [← heard] at hheard }

/-- A snapshot at the acknowledged position ends where the next acknowledgement is. -/
theorem Flow.next_ack (h : Flow origin base x y)
    (hbound : ahead origin base + bytes x.sent < 2 ^ 31) {m : RecvMeta} (hm : m ∈ y.arrived)
    (hpos : 0 < m.dataLen) :
    IsEnd x.sent (m.seq + UInt32.ofNat m.dataLen) ∧
      ahead origin (m.seq + UInt32.ofNat m.dataLen) = ahead origin m.seq + m.dataLen := by
  obtain ⟨p, hp, hsafer, hseq, hlen⟩ := h.arrived m hm
  have hend := h.ends p hp hsafer
  rw [hlen] at hpos
  rw [hseq, hlen]
  exact ⟨⟨p, hp, hsafer, hpos, rfl⟩, ahead_add_ofNat (by omega)⟩

/-- A step of the receiver keeps the invariant, and its acknowledgement does not move back. -/
theorem Flow.receiver (h : Flow origin base x y)
    (hbound : ahead origin base + bytes x.sent < 2 ^ 31) (hmove : Moves rx x.sent y y') :
    Flow origin base x y' ∧
      ahead origin y.raw.sendInfo.ackSeq ≤ ahead origin y'.raw.sendInfo.ackSeq := by
  cases hmove with
  | @sent raw q outward genuine safer seq ackSeq next ack heard =>
    have hflow : Flow origin base x { y with raw, sent := y.sent ++ [q] } :=
      { h with
        ack := by
          have hack := h.ack
          rwa [← ack] at hack
        acks := by
          intro r hr
          rcases List.mem_append.mp hr with hr | hr
          · exact h.acks r hr
          · rw [List.mem_singleton.mp hr, ackSeq]
            exact h.known_ack
        covered := by
          have hcovered := h.covered
          rwa [← ack] at hcovered }
    exact ⟨hflow, by rw [ack]⟩
  | @arrived raw p m mem outward sendInfo heard seq len =>
    have hflow : Flow origin base x
        { y with raw, arrived := if p.safer then y.arrived ++ [m] else y.arrived } :=
      { h with
        ack := by
          have hack := h.ack
          rwa [← sendInfo] at hack
        arrived := by
          intro n hn
          split at hn
          · rename_i hsafer
            rcases List.mem_append.mp hn with hn | hn
            · exact h.arrived n hn
            · rw [List.mem_singleton.mp hn]
              exact ⟨p, mem, hsafer, seq, len⟩
          · exact h.arrived n hn
        covered := by
          have hcovered := h.covered
          rwa [← sendInfo] at hcovered }
    exact ⟨hflow, by rw [sendInfo]⟩
  | @accepted raw m mem outward seq heard ack =>
    have hold : ∀ n, ahead origin base ≤ n → n < ahead origin y.raw.sendInfo.ackSeq →
        ∃ k ∈ y.accepted ++ [m], ahead origin k.seq ≤ n ∧ n < ahead origin k.seq + k.dataLen := by
      intro n hbase hn
      obtain ⟨k, hk, hcover⟩ := h.covered n hbase hn
      exact ⟨k, List.mem_append_left _ hk, hcover⟩
    rcases ack with hsame | ⟨hat, hpos, hnext⟩
    · have hflow : Flow origin base x { y with raw, accepted := y.accepted ++ [m] } :=
        { h with
          ack := by
            have hack := h.ack
            rwa [← hsame] at hack
          covered := by rwa [← hsame] at hold }
      exact ⟨hflow, by rw [hsame]⟩
    · obtain ⟨hend, hahead⟩ := h.next_ack hbound mem hpos
      have hflow : Flow origin base x { y with raw, accepted := y.accepted ++ [m] } :=
        { h with
          ack := .inr (by rwa [← hnext] at hend)
          covered := by
            intro n hbase hn
            rw [hnext, hahead] at hn
            -- the new part of the acknowledged bytes is the segment itself
            rcases Nat.lt_or_ge n (ahead origin m.seq) with hbelow | habove
            · exact hold n hbase (hat ▸ hbelow)
            · exact ⟨m, List.mem_append_right _ (List.mem_singleton.mpr rfl), habove, hn⟩ }
      refine ⟨hflow, ?_⟩
      rw [hnext, hahead, ← hat]
      exact Nat.le_add_right _ _

/-! ## Runs of the pair -/

/-- The start: both sides are connected, the send number of each is the number the other waits
for, and what is left of the handshake in the network acknowledges no more than that. -/
structure Synchronised (ctx : Bool → RawCtx) (origin base : Bool → UInt32) (s : Bool → End) :
    Prop where
  live : ∀ i, Live (ctx i) (ctx !i) (s i).raw
  seq : ∀ i, (s i).raw.sendInfo.seq = base i
  ack : ∀ i, (s !i).raw.sendInfo.ackSeq = base i
  heard : ∀ i, ahead (origin i) (s i).raw.recvInfo.ackSeq ≤ ahead (origin i) (base i)
  genuine : ∀ i, ∀ p ∈ (s i).sent, p.Genuine (ctx !i)
  handshake : ∀ i, ∀ p ∈ (s i).sent, p.safer = false
  acks : ∀ i, ∀ q ∈ (s !i).sent, ahead (origin i) q.ackSeq ≤ ahead (origin i) (base i)
  arrived : ∀ i, (s i).arrived = []

/-- The numbers of the data of one side stay in half of the circle. -/
def Short (origin base : Bool → UInt32) (s : Bool → End) : Prop :=
  ∀ i, ahead (origin i) (base i) + bytes (s i).sent < 2 ^ 31

/-- What every step keeps. -/
structure Sound (ctx : Bool → RawCtx) (origin base : Bool → UInt32) (s : Bool → End) : Prop where
  live : ∀ i, Live (ctx i) (ctx !i) (s i).raw
  genuine : ∀ i, ∀ p ∈ (s i).sent, p.Genuine (ctx !i)
  flow : ∀ i, Flow (origin i) (base i) (s i) (s !i)

variable {ctx : Bool → RawCtx} {origins bases : Bool → UInt32} {s t : Bool → End}

/-- Synchronised ends are sound. -/
theorem Synchronised.sound (h : Synchronised ctx origins bases s) : Sound ctx origins bases s where
  live := h.live
  genuine := h.genuine
  flow i :=
    { seq := .inl (by rw [h.seq])
      heard := .inl (h.heard i)
      ends := fun p hp hsafer => by
        rw [h.handshake i p hp] at hsafer
        cases hsafer
      ack := .inl (h.ack i)
      acks := fun q hq => .inl (h.acks i q hq)
      arrived := fun m hm => by
        rw [h.arrived] at hm
        cases hm
      covered := fun n hbase hn => by
        rw [h.ack] at hn
        omega }

/-- What one side did, the other side being as before. -/
theorem step_cases {a : Bool × Action} (h : step ctx s a = some t) :
    ∃ i a, (s i).step (ctx i) (s !i).sent a = some (t i) ∧ t (!i) = s !i := by
  obtain ⟨e, he, rfl⟩ := Option.map_eq_some_iff.mp h
  refine ⟨a.1, a.2, ?_, Function.update_of_ne (Bool.not_ne_self a.1) _ _⟩
  rwa [Function.update_self]

/-- If little was sent after a step, little was sent before it. -/
theorem Short.of_step {a : Bool × Action} (h : step ctx s a = some t)
    (hshort : Short origins bases t) : Short origins bases s := by
  obtain ⟨i, a, hstep, hother⟩ := step_cases h
  obtain ⟨l, hl⟩ := End.step_sent hstep
  refine (Bool.forall_bool' i).mpr ⟨?_, ?_⟩
  · have hi := hshort i
    rw [← hl, bytes_append] at hi
    omega
  · rw [← hother]
    exact hshort !i

/-- One step keeps the invariant, and no acknowledgement moves back. -/
theorem Sound.step (hdrop : ∀ i, (ctx i).randomDrop = 0) (h : Sound ctx origins bases s)
    (hshort : Short origins bases s) {a : Bool × Action} (hstep : step ctx s a = some t) :
    Sound ctx origins bases t ∧
      ∀ i, ahead (origins i) (s !i).raw.sendInfo.ackSeq ≤
        ahead (origins i) (t !i).raw.sendInfo.ackSeq := by
  obtain ⟨i, a, hstep, hother⟩ := step_cases hstep
  have hpeer := h.genuine (!i)
  have hflow := h.flow (!i)
  rw [Bool.not_not] at hpeer hflow
  have hmove := moves_of_step (h.live i) (hdrop i) hpeer hstep
  obtain ⟨hreceiver, hmono⟩ := hflow.receiver (hshort !i) hmove
  refine ⟨⟨?_, ?_, ?_⟩, ?_⟩
  · refine (Bool.forall_bool' i).mpr ⟨hmove.live (h.live i), ?_⟩
    rw [hother]
    exact h.live !i
  · refine (Bool.forall_bool' i).mpr ⟨hmove.genuine (h.genuine i), ?_⟩
    rw [hother]
    exact h.genuine !i
  · refine (Bool.forall_bool' i).mpr ⟨?_, ?_⟩
    · rw [hother]
      exact (h.flow i).sender (hshort i) hmove
    · rw [Bool.not_not, hother]
      exact hreceiver
  · refine (Bool.forall_bool' i).mpr ⟨?_, ?_⟩
    · rw [hother]
    · rwa [Bool.not_not]

/-- Every run whose numbers fit keeps the invariant, and no acknowledgement moves back in it. -/
theorem Sound.run (hdrop : ∀ i, (ctx i).randomDrop = 0) (h : Sound ctx origins bases s)
    {as : List (Bool × Action)} (hrun : Transition.run (Conversation.step ctx) s as = some t)
    (hshort : Short origins bases t) :
    Sound ctx origins bases t ∧
      ∀ i, ahead (origins i) (s !i).raw.sendInfo.ackSeq ≤
        ahead (origins i) (t !i).raw.sendInfo.ackSeq := by
  refine Transition.run_invariant (I := fun u => Short origins bases u → Sound ctx origins bases u ∧
    ∀ i, ahead (origins i) (s !i).raw.sendInfo.ackSeq ≤
      ahead (origins i) (u !i).raw.sendInfo.ackSeq) ?_ (fun _ => ⟨h, fun _ => le_rfl⟩) hrun hshort
  intro u a v hu hstep hv
  have hshort := hv.of_step hstep
  obtain ⟨hsound, hmono⟩ := hu hshort
  obtain ⟨hnext, hmono'⟩ := hsound.step hdrop hshort hstep
  exact ⟨hnext, fun i => (hmono i).trans (hmono' i)⟩

/-- Two synchronised endpoints without a simulated drop, over a network that loses, duplicates and
reorders. The acknowledgement a side sends is the start or the end of a segment that the other
side sent, every byte before it was in an accepted segment, and it never moves back. The send
number never exceeds the end of what was sent. -/
theorem acknowledgements_sound (ctx : Bool → RawCtx) (origin base : Bool → UInt32)
    (s t : Bool → End) (as : List (Bool × Action)) (hdrop : ∀ i, (ctx i).randomDrop = 0)
    (hsync : Synchronised ctx origin base s) (hrun : Transition.run (step ctx) s as = some t)
    (hshort : Short origin base t) (i : Bool) :
    ((t !i).raw.sendInfo.ackSeq = base i ∨ IsEnd (t i).sent (t !i).raw.sendInfo.ackSeq) ∧
      (∀ n, ahead (origin i) (base i) ≤ n → n < ahead (origin i) (t !i).raw.sendInfo.ackSeq →
        ∃ m ∈ (t !i).accepted,
          ahead (origin i) m.seq ≤ n ∧ n < ahead (origin i) m.seq + m.dataLen) ∧
      (∀ as' u, Transition.run (step ctx) t as' = some u → Short origin base u →
        ahead (origin i) (t !i).raw.sendInfo.ackSeq ≤
          ahead (origin i) (u !i).raw.sendInfo.ackSeq) ∧
      (ahead (origin i) (t i).raw.sendInfo.seq ≤ ahead (origin i) (base i) ∨
        ∃ p ∈ (t i).sent, p.safer = true ∧
          ahead (origin i) (t i).raw.sendInfo.seq ≤ ahead (origin i) p.seq + p.len) := by
  obtain ⟨hsound, -⟩ := hsync.sound.run hdrop hrun hshort
  have hflow := hsound.flow i
  refine ⟨hflow.ack, hflow.covered, fun as' u hrun' hshort' => ?_, hflow.seq.imp_right ?_⟩
  · exact (hsound.run hdrop hrun' hshort').2 i
  · rintro ⟨p, hp, hsafer, -, hseq⟩
    have hend := hflow.ends p hp hsafer
    have hbound := hshort i
    refine ⟨p, hp, hsafer, ?_⟩
    rw [hseq, ahead_add_ofNat (by omega)]

/-! ## Two endpoints -/

/-- The address and port of a side. -/
def sampleAddr (i : Bool) : IpAddr × UInt16 :=
  if i then (.v4 (Vector.replicate 4 2), 2000) else (.v4 (Vector.replicate 4 1), 1000)

/-- The contexts of a client, `false`, and a server, with the client's `--random-drop`. -/
def sampleCtx (randomDrop : UInt32) (i : Bool) : RawCtx :=
  { rawMode := .fakeTcp, isV6 := false, isClient := !i, filterPort := (sampleAddr i).2
    randomDrop := if i then 0 else randomDrop }

/-- The client's numbers are about to wrap, the server's start at 7. -/
def sampleBase (i : Bool) : UInt32 := if i then 7 else 0xffffffff

/-- Both ends after the handshake. -/
def sampleStart (i : Bool) : End :=
  { raw :=
      { sendInfo :=
          { srcIp := (sampleAddr i).1, srcPort := (sampleAddr i).2
            dstIp := (sampleAddr !i).1, dstPort := (sampleAddr !i).2
            ack := true, seq := sampleBase i, ackSeq := sampleBase !i }
        recvInfo :=
          { srcIp := (sampleAddr !i).1, dstIp := (sampleAddr i).1, ackSeq := sampleBase i } }
    sent := [], arrived := [], accepted := [] }

theorem sampleStart_synchronised (randomDrop : UInt32) :
    Synchronised (sampleCtx randomDrop) sampleBase sampleBase sampleStart where
  live i :=
    { mode := rfl, seqMode := .inl rfl
      faces :=
        { mode := rfl, family := rfl, role := by cases i <;> rfl
          port := fun _ => rfl, bind := nofun }
      src := by cases i <;> rfl, dst := by cases i <;> rfl
      syn := rfl, ack := rfl, enabled := rfl }
  seq _ := rfl
  ack i := by cases i <;> rfl
  heard _ := le_rfl
  genuine i := fun p hp => by cases hp
  handshake i := fun p hp => by cases hp
  acks i := fun p hp => by cases hp
  arrived _ := rfl

/-- The inputs of a send with this roll of `--random-drop`. -/
def sampleInputs (roll : UInt32) : SendInputs :=
  { roll, windowRoll := 0, now := 1000, ttl := 64, ipId := 0 }

/-- The client sends three bytes across the wrap and the server acknowledges them. -/
def sampleExchange : List (Bool × Action) :=
  [(false, .send (sampleInputs 0) 0 [1, 2, 3]), (true, .arrive 0 {}), (true, .arrive 0 {}),
    (true, .accept 0), (true, .accept 1), (true, .send (sampleInputs 0) 0 [4]),
    (false, .arrive 0 {})]

theorem acknowledgements_sound_exchange :
    ∃ t, Transition.run (step (sampleCtx 0)) sampleStart sampleExchange = some t ∧
      (t true).raw.sendInfo.ackSeq = 2 ∧ (t false).raw.recvInfo.ackSeq = 2 ∧
      ((t true).raw.sendInfo.ackSeq = sampleBase false ∨
        IsEnd (t false).sent (t true).raw.sendInfo.ackSeq) := by
  obtain ⟨t, ht⟩ := Option.isSome_iff_exists.mp
    (show (Transition.run (step (sampleCtx 0)) sampleStart sampleExchange).isSome by
      decide +kernel)
  have hfacts : (Transition.run (step (sampleCtx 0)) sampleStart sampleExchange).map (fun u =>
      ((u true).raw.sendInfo.ackSeq, (u false).raw.recvInfo.ackSeq,
        bytes (u false).sent, bytes (u true).sent)) = some (2, 2, 3, 1) := by decide +kernel
  rw [ht, Option.map_some, Option.some.injEq, Prod.mk.injEq, Prod.mk.injEq, Prod.mk.injEq] at hfacts
  obtain ⟨hack, hheard, hclient, hserver⟩ := hfacts
  have hshort : Short sampleBase sampleBase t := by
    rintro (_ | _)
    · rw [hclient]
      decide
    · rw [hserver]
      decide
  exact ⟨t, ht, hack, hheard, (acknowledgements_sound (sampleCtx 0) sampleBase sampleBase
    sampleStart t sampleExchange (by decide) (sampleStart_synchronised 0) ht hshort false).1⟩

/-- Two segments of one byte, the second of which is dropped by the sender itself. -/
def droppedSecond : List (Bool × Action) :=
  [(false, .send (sampleInputs 9999) 0 [1]), (false, .send (sampleInputs 0) 0 [2])]

/-- With `--random-drop` a send that queues nothing still advances the send number, by the length
of the segment before it: it is then beyond everything that was sent. -/
theorem random_drop_overruns :
    Synchronised (sampleCtx 5000) sampleBase sampleBase sampleStart ∧
      ∃ t, Transition.run (step (sampleCtx 5000)) sampleStart droppedSecond = some t ∧
        Short sampleBase sampleBase t ∧
        ahead (sampleBase false) (t false).raw.sendInfo.seq = 2 ∧
        ¬ (ahead (sampleBase false) (t false).raw.sendInfo.seq ≤
            ahead (sampleBase false) (sampleBase false) ∨
          ∃ p ∈ (t false).sent, p.safer = true ∧
            ahead (sampleBase false) (t false).raw.sendInfo.seq ≤
              ahead (sampleBase false) p.seq + p.len) := by
  refine ⟨sampleStart_synchronised 5000, ?_⟩
  obtain ⟨t, ht⟩ := Option.isSome_iff_exists.mp
    (show (Transition.run (step (sampleCtx 5000)) sampleStart droppedSecond).isSome by
      decide +kernel)
  have hfacts : (Transition.run (step (sampleCtx 5000)) sampleStart droppedSecond).map (fun u =>
      (ahead (sampleBase false) (u false).raw.sendInfo.seq, bytes (u false).sent,
        bytes (u true).sent,
        (u false).sent.all fun p => ahead (sampleBase false) p.seq + p.len ≤ 1)) =
      some (2, 1, 0, true) := by decide +kernel
  rw [ht, Option.map_some, Option.some.injEq, Prod.mk.injEq, Prod.mk.injEq, Prod.mk.injEq] at hfacts
  obtain ⟨hseq, hclient, hserver, hends⟩ := hfacts
  refine ⟨t, ht, ?_, hseq, ?_⟩
  · rintro (_ | _)
    · rw [hclient]
      decide
    · rw [hserver]
      decide
  · rw [hseq, ahead_self]
    rintro (hle | ⟨p, hp, -, hle⟩)
    · cases hle
    · have hend := of_decide_eq_true (List.all_eq_true.mp hends p hp)
      omega

end Udp2raw.Conversation
