import Udp2raw.Conv

/-!
# The conversation table

The two maps of a conversation manager are inverse to each other, and the activities
are kept twice: by conversation, and in ascending order. Every operation keeps the
four in step, so that an expiry pass takes out the least recently active
conversations first and overlooks none that it has room for.
-/

namespace Udp2raw

namespace ConvManager

/-! ## The order of activities -/

instance : Std.Total lruLe where
  total a b := by
    unfold lruLe
    by_cases heq : a.1 = b.1
    · rcases UInt32.le_total a.2 b.2 with hle | hle
      · exact .inl (.inr ⟨heq, hle⟩)
      · exact .inr (.inr ⟨heq.symm, hle⟩)
    · rcases UInt64.lt_or_lt_of_ne heq with hlt | hlt
      · exact .inl (.inl hlt)
      · exact .inr (.inl hlt)

instance : IsTrans (UInt64 × UInt32) lruLe where
  trans a b c := by
    rintro (hab | ⟨hab, hab'⟩) (hbc | ⟨hbc, hbc'⟩)
    · exact .inl (UInt64.lt_trans hab hbc)
    · exact .inl (hbc ▸ hab)
    · exact .inl (hab ▸ hbc)
    · exact .inr ⟨hab.trans hbc, UInt32.le_trans hab' hbc'⟩

theorem time_le_of_lruLe {a b : UInt64 × UInt32} (h : lruLe a b) : a.1 ≤ b.1 := by
  rcases h with h | ⟨h, -⟩
  · exact UInt64.le_of_lt h
  · exact UInt64.le_of_eq h

variable {lru : List (UInt64 × UInt32)} {conv : UInt32}

/-- An insertion adds its entry. -/
theorem mem_lruInsert {x y : UInt64 × UInt32} : y ∈ lruInsert x lru ↔ y = x ∨ y ∈ lru := by
  unfold lruInsert
  split_ifs with hx
  · constructor
    · exact .inr
    · rintro (rfl | hy)
      · exact hx
      · exact hy
  · exact List.mem_orderedInsert lruLe

theorem ordered_lruInsert (x : UInt64 × UInt32) (h : lru.Pairwise lruLe) :
    (lruInsert x lru).Pairwise lruLe := by
  unfold lruInsert
  split_ifs
  · exact h
  · exact h.orderedInsert x lru

theorem nodup_lruInsert (x : UInt64 × UInt32) (h : lru.Nodup) : (lruInsert x lru).Nodup := by
  unfold lruInsert
  split_ifs with hx
  · exact h
  · exact (List.perm_orderedInsert lruLe x lru).nodup_iff.mpr (List.nodup_cons.mpr ⟨hx, h⟩)

variable {T : Type} [DecidableEq T]

/-! ## The invariant -/

/-- The four containers say the same. -/
structure Consistent (m : ConvManager T) : Prop where
  inverse : ∀ data conv, m.findConvByData data = some conv ↔ m.findDataByConv conv = some data
  active : ∀ conv, (m.lastActive.lookup conv).isSome = m.isConvUsed conv
  listed : ∀ time conv, (time, conv) ∈ m.lru ↔ m.lastActive.lookup conv = some time
  ordered : m.lru.Pairwise lruLe
  nodup : m.lru.Nodup

theorem consistent_new : ({} : ConvManager T).Consistent where
  inverse data conv := by simp [findConvByData, findDataByConv]
  active conv := by simp [isConvUsed]
  listed time conv := by simp
  ordered := List.Pairwise.nil
  nodup := List.nodup_nil

variable {m : ConvManager T}

theorem lookup_lastActive_eq_none (h : m.Consistent) (hconv : m.isConvUsed conv = false) :
    m.lastActive.lookup conv = none := by
  have hactive := h.active conv
  rw [hconv] at hactive
  simpa using hactive

/-- A new conversation with a new peer. -/
theorem Consistent.insert (h : m.Consistent) {data : T} (now : UInt64)
    (hconv : m.isConvUsed conv = false) (hdata : m.findConvByData data = none) :
    (m.insert conv data now).Consistent where
  inverse d c := by
    have hfree : m.findDataByConv conv = none := by
      simpa [isConvUsed, findDataByConv] using hconv
    rw [findDataByConv_insert, findConvByData, ConvManager.insert, Table.lookup_insert]
    by_cases hd : d = data
    · subst hd
      rw [if_pos rfl]
      by_cases hc : c = conv
      · simp [hc]
      · rw [if_neg hc, ← h.inverse, hdata]
        simp [Ne.symm hc]
    · rw [if_neg hd]
      by_cases hc : c = conv
      · subst hc
        rw [if_pos rfl]
        have hother := h.inverse d c
        rw [hfree] at hother
        simpa [findConvByData, Ne.symm hd] using hother
      · rw [if_neg hc]
        exact h.inverse d c
  active c := by
    rw [ConvManager.insert, isConvUsed, Table.lookup_insert, Table.lookup_insert]
    by_cases hc : c = conv
    · simp [hc]
    · rw [if_neg hc, if_neg hc]
      exact h.active c
  listed t c := by
    rw [ConvManager.insert, mem_lruInsert, Table.lookup_insert, h.listed]
    by_cases hc : c = conv
    · subst hc
      rw [if_pos rfl, lookup_lastActive_eq_none h hconv]
      simp [eq_comm]
    · simp [hc]
  ordered := ordered_lruInsert _ h.ordered
  nodup := nodup_lruInsert _ h.nodup

/-- A conversation is active at another time. -/
theorem Consistent.updateActiveTime (h : m.Consistent) (conv : UInt32) (now : UInt64) :
    (m.updateActiveTime conv now).Consistent := by
  unfold ConvManager.updateActiveTime
  split
  · exact h
  next old hold =>
    split_ifs with hsame
    · exact h
    · refine ⟨h.inverse, fun c => ?_, fun t c => ?_, ?_, ?_⟩
      · have hactive := h.active c
        rw [isConvUsed] at hactive ⊢
        rw [Table.lookup_insert]
        split_ifs with hc
        · rw [← hactive, hc, hold]
          rfl
        · exact hactive
      · rw [mem_lruInsert, Table.lookup_insert, h.nodup.mem_erase_iff, h.listed]
        by_cases hc : c = conv
        · subst hc
          rw [if_pos rfl, hold]
          simp only [Prod.mk.injEq, and_true, ne_eq, Option.some.injEq]
          constructor
          · rintro (rfl | ⟨hne, rfl⟩)
            · rfl
            · exact absurd rfl hne
          · exact fun heq => .inl heq.symm
        · simp [hc]
      · exact ordered_lruInsert _ (h.ordered.sublist List.erase_sublist)
      · exact nodup_lruInsert _ (h.nodup.erase _)

/-- A conversation is taken out of all four. -/
theorem Consistent.erase (h : m.Consistent) (conv : UInt32) : (m.erase conv).2.Consistent := by
  unfold ConvManager.erase
  split
  · exact h
  next data hdata =>
    have hused : (m.lastActive.lookup conv).isSome = true := by
      rw [h.active, isConvUsed, hdata]
      rfl
    obtain ⟨time, htime⟩ := Option.isSome_iff_exists.mp hused
    rw [htime]
    refine ⟨fun d c => ?_, fun c => ?_, fun t c => ?_, h.ordered.sublist List.erase_sublist,
      h.nodup.erase _⟩
    · rw [findConvByData, findDataByConv, Table.lookup_erase, Table.lookup_erase]
      have hback := h.inverse d conv
      have hforth := h.inverse data c
      have hpair := h.inverse d c
      rw [findConvByData, findDataByConv] at hback hforth hpair
      by_cases hd : d = data
      · subst hd
        rw [if_pos rfl]
        by_cases hc : c = conv
        · simp [hc]
        · rw [if_neg hc, ← hpair, hback.mpr hdata]
          simp [Ne.symm hc]
      · rw [if_neg hd, hpair]
        by_cases hc : c = conv
        · subst hc
          simp [hdata, Ne.symm hd]
        · rw [if_neg hc]
    · rw [isConvUsed, Table.lookup_erase, Table.lookup_erase]
      split_ifs with hc
      · rfl
      · exact h.active c
    · rw [Table.lookup_erase, h.nodup.mem_erase_iff, h.listed]
      by_cases hc : c = conv
      · subst hc
        rw [if_pos rfl, htime]
        simp [eq_comm]
      · simp [hc]

/-- The first of the order is what is taken out with its conversation. -/
theorem lru_erase_head (h : m.Consistent) {time : UInt64} {rest : List (UInt64 × UInt32)}
    (hlru : m.lru = (time, conv) :: rest) :
    ∃ data, m.findDataByConv conv = some data ∧ (m.erase conv).2.lru = rest := by
  have htime : m.lastActive.lookup conv = some time := by
    rw [← h.listed, hlru]
    exact List.mem_cons_self
  have hused : m.isConvUsed conv = true := by
    rw [← h.active, htime]
    rfl
  obtain ⟨data, hdata⟩ := Option.isSome_iff_exists.mp hused
  refine ⟨data, hdata, ?_⟩
  unfold ConvManager.erase
  rw [hdata]
  dsimp only
  rw [htime, hlru]
  exact List.erase_cons_head _ _

/-- There are as many activities as conversations. -/
theorem length_lru (h : m.Consistent) : m.lru.length = m.len := by
  have hnodup : (m.lru.map Prod.snd).Nodup := by
    refine h.nodup.map_on ?_
    rintro ⟨t, c⟩ hx ⟨t', c'⟩ hy (rfl : c = c')
    rw [h.listed] at hx hy
    rw [Option.some.inj (hx.symm.trans hy)]
  have hperm : (m.lru.map Prod.snd).Perm m.convToData.keys := by
    refine (List.perm_ext_iff_of_nodup hnodup m.convToData.keys_nodup).mpr fun c => ?_
    have hused : c ∈ m.convToData.keys ↔ ∃ time, m.lastActive.lookup c = some time := by
      rw [← Option.isSome_iff_exists, h.active, isConvUsed, AList.lookup_isSome]
      exact Iff.rfl
    rw [hused]
    simp [h.listed]
  have hlength := hperm.length_eq
  rw [List.length_map] at hlength
  rw [hlength, len, Table.size]
  exact List.length_map _

/-! ## Expiry -/

/-- The conversation was last active long enough ago. -/
def Idle (now time : UInt64) : Prop := convTimeoutMs ≤ now.toNat - time.toNat

/-- What the loop of an expiry pass takes out is a first part of the order, all of it idle; it
stops early only at an activity that is not idle. -/
theorem clearOldest_spec (now : UInt64) (n : Nat) (h : m.Consistent) :
    (clearOldest now n m).2.Consistent ∧ (clearOldest now n m).1.length ≤ n ∧
    ∃ gone, m.lru = gone ++ (clearOldest now n m).2.lru ∧
      (clearOldest now n m).1.map Prod.fst = gone.map Prod.snd ∧ (∀ x ∈ gone, Idle now x.1) ∧
      ((clearOldest now n m).1.length < n →
        ∀ x ∈ (clearOldest now n m).2.lru, ¬ Idle now x.1) := by
  induction n generalizing m with
  | zero =>
    refine ⟨h, Nat.le_refl 0, [], rfl, rfl, by simp, fun hlt => ?_⟩
    exact absurd hlt (Nat.not_lt_zero _)
  | succ n ih =>
    cases hlru : m.lru with
    | nil =>
      have hstop : clearOldest now (n + 1) m = ([], m) := by rw [clearOldest, hlru]
      rw [hstop]
      exact ⟨h, Nat.zero_le _, [], by rw [hlru]; rfl, rfl, by simp, by simp [hlru]⟩
    | cons first rest =>
      obtain ⟨time, conv⟩ := first
      by_cases hidle : now.toNat - time.toNat < convTimeoutMs
      · have hstop : clearOldest now (n + 1) m = ([], m) := by
          rw [clearOldest, hlru]
          exact if_pos hidle
        rw [hstop]
        refine ⟨h, Nat.zero_le _, [], by rw [hlru]; rfl, rfl, by simp, fun _ x hx => ?_⟩
        -- the first activity is the oldest
        have hle : time ≤ x.1 := by
          rw [hlru] at hx
          rcases List.mem_cons.mp hx with rfl | hx
          · exact UInt64.le_refl _
          · have hord := h.ordered
            rw [hlru] at hord
            exact time_le_of_lruLe (List.rel_of_pairwise_cons hord hx)
        have hle := UInt64.le_iff_toNat_le.mp hle
        unfold Idle
        omega
      · obtain ⟨data, hdata, hrest⟩ := lru_erase_head h hlru
        obtain ⟨hcons, hlen, gone, hsplit, hout, hall, hstop⟩ := ih (h.erase conv)
        have hstep : clearOldest now (n + 1) m =
            ((conv, data) :: (clearOldest now n (m.erase conv).2).1,
              (clearOldest now n (m.erase conv).2).2) := by
          have herase : m.erase conv = (some data, (m.erase conv).2) :=
            Prod.ext ((m.erase_fst conv).trans hdata) rfl
          rw [clearOldest, hlru]
          dsimp only
          rw [if_neg hidle, herase]
        rw [hstep]
        refine ⟨hcons, Nat.succ_le_succ hlen, (time, conv) :: gone, ?_, ?_, ?_, ?_⟩
        · rw [List.cons_append, ← hsplit, hrest]
        · rw [List.map_cons, List.map_cons, hout]
        · intro x hx
          rcases List.mem_cons.mp hx with rfl | hx
          · exact Nat.not_lt.mp hidle
          · exact hall x hx
        · intro hlt
          exact hstop (Nat.lt_of_succ_lt_succ hlt)

/-- How many conversations a pass may take out. -/
def quota (m : ConvManager T) : Nat := min m.len (m.len / 30 + 1)

/-- What `clear_inactive` does at `now`: it hands out conversations with their data. -/
structure Clears (m : ConvManager T) (now : UInt64) (out : List (UInt32 × T))
    (after : ConvManager T) : Prop where
  idle : ∀ p ∈ out, ∃ time, m.lastActive.lookup p.1 = some time ∧ Idle now time
  held : ∀ p ∈ out, m.findDataByConv p.1 = some p.2
  nodup : (out.map Prod.fst).Nodup
  /-- The least recently active come first. -/
  inOrder : out.Pairwise fun p q => ∀ time later, m.lastActive.lookup p.1 = some time →
    m.lastActive.lookup q.1 = some later → time ≤ later
  /-- What stays was active no earlier than what goes. -/
  oldest : ∀ p ∈ out, ∀ conv time later, m.lastActive.lookup p.1 = some time →
    after.lastActive.lookup conv = some later → time ≤ later
  bounded : out.length ≤ m.quota
  removed : ∀ conv, after.findDataByConv conv =
    if conv ∈ out.map Prod.fst then none else m.findDataByConv conv
  kept : ∀ conv, after.lastActive.lookup conv =
    if conv ∈ out.map Prod.fst then none else m.lastActive.lookup conv
  /-- Room is left only when nothing idle is. -/
  complete : convClearIntervalMs < now.toNat - m.lastClearTime.toNat → out.length < m.quota →
    ∀ conv time, after.lastActive.lookup conv = some time → ¬ Idle now time

/-- The conversations a first part of the order is about. -/
theorem clears_of_split {now : UInt64} {out : List (UInt32 × T)} {after : ConvManager T}
    {gone : List (UInt64 × UInt32)} (h : m.Consistent) (hafter : after.Consistent)
    (hexpired : Expired m after out) (hlru : m.lru = gone ++ after.lru)
    (hout : out.map Prod.fst = gone.map Prod.snd) (hidle : ∀ x ∈ gone, Idle now x.1)
    (hbounded : out.length ≤ m.quota)
    (hcomplete : convClearIntervalMs < now.toNat - m.lastClearTime.toNat →
      out.length < m.quota → ∀ x ∈ after.lru, ¬ Idle now x.1) : Clears m now out after := by
  have hord : gone.Pairwise lruLe ∧ after.lru.Pairwise lruLe ∧
      ∀ x ∈ gone, ∀ y ∈ after.lru, lruLe x y := by
    rw [← List.pairwise_append, ← hlru]
    exact h.ordered
  have hgone : ∀ x ∈ gone, m.lastActive.lookup x.2 = some x.1 := by
    intro x hx
    rw [← h.listed, hlru]
    exact List.mem_append_left _ hx
  -- a conversation handed out is one of the first part
  have hmem : ∀ p ∈ out, ∃ x ∈ gone, x.2 = p.1 := by
    intro p hp
    have hp' : p.1 ∈ gone.map Prod.snd := hout ▸ List.mem_map_of_mem hp
    exact List.mem_map.mp hp'
  refine ⟨?_, hexpired.held, hexpired.nodup, ?_, ?_, hbounded, hexpired.rest, ?_, ?_⟩
  · intro p hp
    obtain ⟨x, hx, hxp⟩ := hmem p hp
    exact ⟨x.1, hxp ▸ hgone x hx, hidle x hx⟩
  · have hpairs : (gone.map Prod.snd).Pairwise fun c d => ∀ time later,
        m.lastActive.lookup c = some time → m.lastActive.lookup d = some later →
          time ≤ later := by
      refine List.pairwise_map.mpr (hord.1.imp_of_mem fun {x y} hx hy hle time later ht hl => ?_)
      rw [hgone x hx] at ht
      rw [hgone y hy] at hl
      cases ht
      cases hl
      exact time_le_of_lruLe hle
    rw [← hout] at hpairs
    exact List.pairwise_map.mp hpairs
  · intro p hp conv time later ht hl
    obtain ⟨x, hx, hxp⟩ := hmem p hp
    have htime : x.1 = time := Option.some.inj ((hgone x hx).symm.trans (hxp ▸ ht))
    have hlater := (hafter.listed later conv).mpr hl
    exact htime ▸ time_le_of_lruLe (hord.2.2 x hx _ hlater)
  · intro conv
    have hused : (after.lastActive.lookup conv).isSome =
        (if conv ∈ out.map Prod.fst then none else m.findDataByConv conv).isSome := by
      rw [hafter.active, isConvUsed, ← hexpired.rest]
      rfl
    split_ifs at hused ⊢ with hmem
    · simpa using hused
    · ext time
      rw [← hafter.listed, ← h.listed, hlru, List.mem_append]
      constructor
      · exact .inr
      · rintro (hx | hx)
        · exact absurd (hout ▸ List.mem_map_of_mem hx) hmem
        · exact hx
  · intro hdue hroom conv time htime
    exact hcomplete hdue hroom (time, conv) ((hafter.listed time conv).mpr htime)

/-- Only the clock of the last pass changes. -/
theorem Consistent.atClear (h : m.Consistent) (now : UInt64) :
    ({ m with lastClearTime := now } : ConvManager T).Consistent :=
  ⟨h.inverse, h.active, h.listed, h.ordered, h.nodup⟩

/-- The clearing is as specified and keeps the tables in step. -/
theorem clears_clearInactive (h : m.Consistent) (now : UInt64) :
    (m.clearInactive now).2.Consistent ∧
      Clears m now (m.clearInactive now).1 (m.clearInactive now).2 := by
  have hexpired := m.clearInactive_expired now
  unfold clearInactive at hexpired ⊢
  split_ifs at hexpired ⊢ with hearly
  · refine ⟨h, clears_of_split h h hexpired (List.nil_append _).symm rfl (by simp)
      (Nat.zero_le _) fun hdue => ?_⟩
    exact absurd hearly (Nat.not_le.mpr hdue)
  · dsimp only at hexpired ⊢
    have hquota : min (m.lru.length / convClearRatio + convClearMin) m.lru.length = m.quota := by
      rw [length_lru h, Nat.min_comm]
      rfl
    rw [hquota] at hexpired ⊢
    obtain ⟨hcons, hlen, gone, hlru, hout, hidle, hstop⟩ :=
      clearOldest_spec now m.quota (h.atClear now)
    exact ⟨hcons, clears_of_split h hcons hexpired hlru hout hidle hlen fun _ => hstop⟩

/-! ## Every run -/

/-- The tables a client or a server can have: new conversations are for new peers, and the clock
says anything. -/
inductive Reached : ConvManager T → Prop
  | new : Reached {}
  | insert {m : ConvManager T} (h : Reached m) (conv : UInt32) (data : T) (now : UInt64)
      (hconv : m.isConvUsed conv = false) (hdata : m.findConvByData data = none) :
      Reached (m.insert conv data now)
  | updateActiveTime {m : ConvManager T} (h : Reached m) (conv : UInt32) (now : UInt64) :
      Reached (m.updateActiveTime conv now)
  | erase {m : ConvManager T} (h : Reached m) (conv : UInt32) : Reached (m.erase conv).2
  | clear {m : ConvManager T} (h : Reached m) (order : List T → List T) :
      Reached (m.clear order).2
  | clearInactive {m : ConvManager T} (h : Reached m) (now : UInt64) :
      Reached (m.clearInactive now).2

/-- Every reached table is consistent. -/
theorem Reached.consistent (h : m.Reached) : m.Consistent := by
  induction h with
  | new => exact consistent_new
  | insert _ conv data now hconv hdata ih => exact ih.insert now hconv hdata
  | updateActiveTime _ conv now ih => exact ih.updateActiveTime conv now
  | erase _ conv ih => exact ih.erase conv
  | clear _ order ih => exact consistent_new.atClear _
  | clearInactive _ now ih => exact (clears_clearInactive ih now).1

/-- The containers of a conversation table stay in step, and an expiry pass takes out the least
recently active idle conversations, as many as it may. -/
theorem conversation_table_in_step (h : m.Reached) :
    m.Consistent ∧ ∀ now, Clears m now (m.clearInactive now).1 (m.clearInactive now).2 :=
  ⟨h.consistent, fun now => (clears_clearInactive h.consistent now).2⟩

/-- Two conversations, of which the first is active once more. -/
def twoConvs : ConvManager Nat :=
  ((({} : ConvManager Nat).insert 1 10 0).insert 2 20 0).updateActiveTime 1 5000

theorem conversation_table_in_step_two :
    twoConvs.Reached ∧ (twoConvs.clearInactive 180500).1 = [(2, 20)] ∧
      Clears twoConvs 180500 (twoConvs.clearInactive 180500).1
        (twoConvs.clearInactive 180500).2 := by
  have hreached : twoConvs.Reached :=
    .updateActiveTime (.insert (.insert .new 1 10 0 rfl rfl) 2 20 0 (by decide) (by decide)) 1 5000
  exact ⟨hreached, by decide +kernel, (conversation_table_in_step hreached).2 180500⟩

end ConvManager

end Udp2raw
