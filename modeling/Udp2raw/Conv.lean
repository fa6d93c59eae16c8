import Mathlib.Data.List.Sort
import Udp2raw.Core.Table

/-!
# Conversations

`ConvManager` multiplexes UDP flows: two maps between conversation ids and their
data, the last activity of each conversation, and the same activities in
ascending order for expiry. On the server the data is the index of a socket.
-/

namespace Udp2raw

/-- `CONV_CLEAR_RATIO`. -/
def convClearRatio : Nat := 30

/-- `CONV_CLEAR_MIN`. -/
def convClearMin : Nat := 1

/-- `CONV_CLEAR_INTERVAL_MS`. -/
def convClearIntervalMs : Nat := 1000

/-- `CONV_TIMEOUT_MS`. -/
def convTimeoutMs : Nat := 180000

/-- The order of `BTreeSet<(u64, u32)>`: by time, then by conversation. -/
def lruLe (a b : UInt64 × UInt32) : Prop := a.1 < b.1 ∨ a.1 = b.1 ∧ a.2 ≤ b.2

instance : DecidableRel lruLe := fun a b =>
  inferInstanceAs (Decidable (a.1 < b.1 ∨ a.1 = b.1 ∧ a.2 ≤ b.2))

/-- `BTreeSet::insert`. -/
def lruInsert (x : UInt64 × UInt32) (lru : List (UInt64 × UInt32)) : List (UInt64 × UInt32) :=
  if x ∈ lru then lru else lru.orderedInsert lruLe x

/-- `ConvManager<T>`. -/
structure ConvManager (T : Type) where
  dataToConv : Table T UInt32 := ∅
  convToData : Table UInt32 T := ∅
  lastActive : Table UInt32 UInt64 := ∅
  /-- Ascending: the first element is the least recently active. -/
  lru : List (UInt64 × UInt32) := []
  lastClearTime : UInt64 := 0

namespace ConvManager

variable {T : Type}

/-- `len`. -/
def len (m : ConvManager T) : Nat := Table.size m.convToData

/-- `is_empty`. -/
def isEmpty (m : ConvManager T) : Bool := m.convToData.entries.isEmpty

/-- `is_conv_used`. -/
def isConvUsed (m : ConvManager T) (conv : UInt32) : Bool := (m.convToData.lookup conv).isSome

/-- `find_data_by_conv`. -/
def findDataByConv (m : ConvManager T) (conv : UInt32) : Option T := m.convToData.lookup conv

/-- `update_active_time`. -/
def updateActiveTime (m : ConvManager T) (conv : UInt32) (now : UInt64) : ConvManager T :=
  match m.lastActive.lookup conv with
  | none => m
  | some old =>
    if old = now then m
    else
      { m with
        lru := lruInsert (now, conv) (m.lru.erase (old, conv))
        lastActive := m.lastActive.insert conv now }

/-- `clear`: drop everything; the data of all conversations in the order of iteration. -/
def clear [BEq T] (order : List T → List T) (m : ConvManager T) : List T × ConvManager T :=
  (reorder order (Table.values m.convToData), { lastClearTime := m.lastClearTime })

@[simp] theorem findDataByConv_updateActiveTime (m : ConvManager T) (conv : UInt32) (now : UInt64)
    (v : UInt32) : (m.updateActiveTime conv now).findDataByConv v = m.findDataByConv v := by
  unfold updateActiveTime
  split
  · rfl
  · split <;> rfl

/-- What an expiry pass takes out: entries the table held, each once, and nothing else. -/
structure Expired (before after : ConvManager T) (out : List (UInt32 × T)) : Prop where
  nodup : (out.map Prod.fst).Nodup
  held : ∀ p ∈ out, before.findDataByConv p.1 = some p.2
  rest : ∀ v, after.findDataByConv v =
    if v ∈ out.map Prod.fst then none else before.findDataByConv v

theorem Expired.none (m : ConvManager T) : Expired m m [] :=
  ⟨List.nodup_nil, by simp, by simp⟩

variable [DecidableEq T]

/-- `find_conv_by_data`. -/
def findConvByData (m : ConvManager T) (data : T) : Option UInt32 := m.dataToConv.lookup data

/-- `insert`. -/
def insert (m : ConvManager T) (conv : UInt32) (data : T) (now : UInt64) : ConvManager T :=
  { m with
    dataToConv := m.dataToConv.insert data conv
    convToData := m.convToData.insert conv data
    lastActive := m.lastActive.insert conv now
    lru := lruInsert (now, conv) m.lru }

/-- `erase`: remove one conversation and hand out its data. -/
def erase (m : ConvManager T) (conv : UInt32) : Option T × ConvManager T :=
  match m.convToData.lookup conv with
  | none => (none, m)
  | some data =>
    let lru := match m.lastActive.lookup conv with
      | none => m.lru
      | some ts => m.lru.erase (ts, conv)
    (some data,
      { m with
        convToData := m.convToData.erase conv
        dataToConv := m.dataToConv.erase data
        lastActive := m.lastActive.erase conv
        lru := lru })

/-- The loop of `clear_inactive`: look at the least recently active conversation, at most
`n` times. -/
def clearOldest (now : UInt64) : Nat → ConvManager T → List (UInt32 × T) × ConvManager T
  | 0, m => ([], m)
  | n + 1, m =>
    match m.lru with
    | [] => ([], m)
    | (ts, conv) :: _ =>
      if now.toNat - ts.toNat < convTimeoutMs then ([], m)
      else
        match m.erase conv with
        | (none, m) => clearOldest now n m
        | (some data, m) => ((conv, data) :: (clearOldest now n m).1, (clearOldest now n m).2)

/-- `clear_inactive`: expire idle conversations, at most once per second and a bounded
number at a time. -/
def clearInactive (m : ConvManager T) (now : UInt64) : List (UInt32 × T) × ConvManager T :=
  if now.toNat - m.lastClearTime.toNat ≤ convClearIntervalMs then ([], m)
  else
    let size := m.lru.length
    clearOldest now (min (size / convClearRatio + convClearMin) size)
      { m with lastClearTime := now }

@[simp] theorem findDataByConv_insert (m : ConvManager T) (conv : UInt32) (data : T) (now : UInt64)
    (v : UInt32) :
    (m.insert conv data now).findDataByConv v =
      if v = conv then some data else m.findDataByConv v :=
  Table.lookup_insert _ _ _ _

theorem erase_fst (m : ConvManager T) (conv : UInt32) :
    (m.erase conv).1 = m.findDataByConv conv := by
  rw [findDataByConv]
  unfold erase
  split <;> simp [*]

/-- An erasure is seen at its conversation only. -/
theorem findDataByConv_erase (m : ConvManager T) (conv v : UInt32) :
    (m.erase conv).2.findDataByConv v = if v = conv then none else m.findDataByConv v := by
  cases h : m.convToData.lookup conv with
  | none =>
    have he : m.erase conv = (none, m) := by simp [erase, h]
    rw [he]
    split
    · next hv => rw [hv, findDataByConv, h]
    · rfl
  | some data =>
    have he : (m.erase conv).2.convToData = m.convToData.erase conv := by simp [erase, h]
    rw [findDataByConv, he, Table.lookup_erase]
    rfl

/-- One more conversation taken out before the rest. -/
theorem Expired.cons {m after : ConvManager T} {conv : UInt32} {data : T} {out : List (UInt32 × T)}
    (hd : m.findDataByConv conv = some data) (h : Expired (m.erase conv).2 after out) :
    Expired m after ((conv, data) :: out) := by
  have hne : ∀ p ∈ out, p.1 ≠ conv := by
    intro p hp he
    have hh := h.held p hp
    rw [findDataByConv_erase, if_pos he] at hh
    cases hh
  refine ⟨?_, ?_, fun v => ?_⟩
  · refine List.nodup_cons.mpr ⟨fun hmem => ?_, h.nodup⟩
    obtain ⟨p, hp, he⟩ := List.mem_map.mp hmem
    exact hne p hp he
  · intro p hp
    rcases List.mem_cons.mp hp with rfl | hp
    · exact hd
    · have hh := h.held p hp
      rwa [findDataByConv_erase, if_neg (hne p hp)] at hh
  · rw [h.rest, findDataByConv_erase]
    simp only [List.map_cons, List.mem_cons]
    by_cases hv : v = conv
    · simp [hv]
    · simp only [hv, if_false, false_or]

/-- Clearing the oldest erases what it returns. -/
theorem clearOldest_expired (now : UInt64) (n : Nat) (m : ConvManager T) :
    Expired m (clearOldest now n m).2 (clearOldest now n m).1 := by
  induction n generalizing m with
  | zero => exact .none m
  | succ n ih =>
    unfold clearOldest
    split
    · exact .none m
    · next ts conv rest hlru =>
        split
        · exact .none m
        · have hfst := m.erase_fst conv
          split
          · next m' he =>
              -- a conversation the map does not know changes nothing
              have hm : m' = m := by
                rw [he] at hfst
                have := hfst.symm
                rw [findDataByConv] at this
                simpa [erase, this] using congrArg Prod.snd he.symm
              rw [hm]
              exact ih m
          · next data m' he =>
              rw [he] at hfst
              have hm : m' = (m.erase conv).2 := by rw [he]
              rw [hm]
              exact .cons hfst.symm (ih _)

/-- The clearing erases what it returns. -/
theorem clearInactive_expired (m : ConvManager T) (now : UInt64) :
    Expired m (m.clearInactive now).2 (m.clearInactive now).1 := by
  unfold clearInactive
  split
  · exact .none m
  · have h := clearOldest_expired now (min (m.lru.length / convClearRatio + convClearMin)
      m.lru.length) { m with lastClearTime := now }
    exact ⟨h.nodup, h.held, h.rest⟩

end ConvManager

end Udp2raw
