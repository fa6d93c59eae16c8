import Mathlib.Data.List.Destutter
import Mathlib.Data.List.Sort

/-!
# Canonical lists of a set

A list is sorted by a key and repetitions that stand together are dropped. Where
the key tells elements apart, the result is strictly increasing and depends on the
set of elements only. Which elements a bounded prefix of it keeps is decided by
how many others have a smaller key.
-/

namespace Canonical

universe u v

variable {α : Type u} {β : Type v} [DecidableEq α] [LinearOrder β]

/-- The elements of a list in the order of their keys, without repetitions. -/
def sorted (key : α → β) (l : List α) : List α :=
  (l.insertionSort fun a b => key a ≤ key b).destutter (· ≠ ·)

section

variable {key : α → β} (hkey : Function.Injective key)

include hkey

/-- Sorting by the key brings equal elements together, so dropping neighbours drops all
repetitions. -/
theorem sorted_eq_dedup (l : List α) :
    sorted key l = (l.insertionSort fun a b => key a ≤ key b).dedup := by
  have : Std.Antisymm fun a b : α => key a ≤ key b :=
    ⟨fun a b hab hba => hkey (le_antisymm hab hba)⟩
  have : Std.Total fun a b : α => key a ≤ key b := ⟨fun a b => le_total (key a) (key b)⟩
  have : IsTrans α fun a b => key a ≤ key b := ⟨fun a b c => le_trans⟩
  exact (List.pairwise_insertionSort _ l).destutter_eq_dedup

theorem mem_sorted {l : List α} {a : α} : a ∈ sorted key l ↔ a ∈ l := by
  rw [sorted_eq_dedup hkey, List.mem_dedup, List.mem_insertionSort]

theorem nodup_sorted (l : List α) : (sorted key l).Nodup := by
  rw [sorted_eq_dedup hkey]
  exact List.nodup_dedup _

/-- The keys increase strictly. -/
theorem pairwise_sorted (l : List α) : (sorted key l).Pairwise fun a b => key a < key b := by
  have htotal : Std.Total fun a b : α => key a ≤ key b := ⟨fun a b => le_total (key a) (key b)⟩
  have htrans : IsTrans α fun a b => key a ≤ key b := ⟨fun a b c => le_trans⟩
  have hle : (sorted key l).Pairwise fun a b => key a ≤ key b := by
    rw [sorted_eq_dedup hkey]
    exact (List.pairwise_insertionSort _ l).sublist (List.dedup_sublist _)
  refine (hle.and (nodup_sorted hkey l)).imp ?_
  rintro a b ⟨hab, hne⟩
  exact lt_of_le_of_ne hab fun h => hne (hkey h)

/-- A strictly increasing list with the same elements is the canonical one. -/
theorem eq_sorted {l s : List α} (hs : s.Pairwise fun a b => key a < key b)
    (hmem : ∀ a, a ∈ s ↔ a ∈ l) : s = sorted key l := by
  have : Std.Antisymm fun a b : α => key a < key b :=
    ⟨fun a b hab hba => absurd hba (lt_asymm hab)⟩
  have : Std.Irrefl fun a b : α => key a < key b := ⟨fun a => lt_irrefl (key a)⟩
  refine hs.eq_of_mem_iff (pairwise_sorted hkey l) fun a => ?_
  rw [hmem, mem_sorted hkey]

/-- Only the set of elements counts. -/
theorem sorted_congr {l l' : List α} (h : ∀ a, a ∈ l ↔ a ∈ l') : sorted key l = sorted key l' :=
  eq_sorted hkey (pairwise_sorted hkey l) fun a => (mem_sorted hkey).trans (h a)

theorem sorted_eq_self {l : List α} (h : l.Pairwise fun a b => key a < key b) :
    sorted key l = l := (eq_sorted hkey h fun _ => Iff.rfl).symm

omit hkey [DecidableEq α] in
/-- In a strictly increasing list an element stands behind the smaller ones. -/
theorem mem_take_of_pairwise {s : List α} (hs : s.Pairwise fun a b => key a < key b) {a : α}
    (ha : a ∈ s) (n : Nat) : a ∈ s.take n ↔ (s.filter fun b => key b < key a).length < n := by
  obtain ⟨before, after, rfl⟩ := List.append_of_mem ha
  obtain ⟨hbefore, hrest, hcross⟩ := List.pairwise_append.mp hs
  have hafter := (List.pairwise_cons.mp hrest).1
  have hlow : before.filter (fun b => key b < key a) = before :=
    List.filter_eq_self.mpr fun b hb => decide_eq_true (hcross b hb a List.mem_cons_self)
  have hhigh : after.filter (fun b => key b < key a) = [] :=
    List.filter_eq_nil_iff.mpr fun b hb => by simpa using (hafter b hb).le
  have hlen : ((before ++ a :: after).filter fun b => key b < key a).length = before.length := by
    rw [List.filter_append, hlow, List.filter_cons_of_neg (by simp), hhigh, List.append_nil]
  rw [hlen]
  constructor
  · intro hmem
    by_contra hle
    have hin : a ∈ before := by
      rw [List.take_append_of_le_length (Nat.not_lt.mp hle)] at hmem
      exact List.mem_of_mem_take hmem
    exact lt_irrefl _ (hcross a hin a List.mem_cons_self)
  · intro hlt
    rw [List.mem_take_iff_getElem]
    exact ⟨before.length, by simp; omega, by simp⟩

/-- The first `n` elements are those with fewer than `n` smaller ones. -/
theorem mem_take_sorted {l : List α} {a : α} (ha : a ∈ l) (n : Nat) :
    a ∈ (sorted key l).take n ↔ (l.filter fun b => key b < key a).dedup.length < n := by
  rw [mem_take_of_pairwise (pairwise_sorted hkey l) ((mem_sorted hkey).mpr ha)]
  have hperm : ((sorted key l).filter fun b => key b < key a).Perm
      (l.filter fun b => key b < key a).dedup := by
    rw [List.perm_ext_iff_of_nodup ((nodup_sorted hkey l).filter _) (List.nodup_dedup _)]
    intro b
    simp only [List.mem_filter, List.mem_dedup, mem_sorted hkey]
  rw [hperm.length_eq]

end

end Canonical
