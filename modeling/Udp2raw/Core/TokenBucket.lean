import Mathlib.Tactic.Ring

/-!
# Token buckets

A bucket holds at most `capacity` tokens and gains one per period. Its stamp only
moves by whole periods, so the part of a period that has elapsed is kept. `Since`
is the amortised account of a bucket that is refilled and spent from in any order
and with any clock, from which the bound on what was spent follows.
-/

namespace TokenBucket

/-- The tokens left and the time up to which refills are accounted for. -/
structure Bucket where
  tokens : Nat
  stamp : Nat
  deriving DecidableEq, Repr

variable {capacity period now used latest : Nat} {b₀ b : Bucket}

/-- One token for every whole period since the stamp, as far as the capacity allows. -/
def Bucket.refill (capacity period now : Nat) (b : Bucket) : Bucket :=
  let periods := (now - b.stamp) / period
  ⟨min capacity (b.tokens + periods), b.stamp + periods * period⟩

/-- One token less. -/
def Bucket.spend (b : Bucket) : Bucket := { b with tokens := b.tokens - 1 }

theorem tokens_refill_le : (b.refill capacity period now).tokens ≤ capacity :=
  Nat.min_le_left _ _

/-- `b` came from `b₀` by refills at times up to `latest` and by spending, `used` tokens of
which are counted. -/
def Since (period : Nat) (b₀ : Bucket) (used latest : Nat) (b : Bucket) : Prop :=
  ∃ periods, b.stamp = b₀.stamp + periods * period ∧ b.tokens + used ≤ b₀.tokens + periods ∧
    b.stamp ≤ max b₀.stamp latest

theorem Since.refl : Since period b₀ 0 latest b₀ :=
  ⟨0, by omega, by omega, by omega⟩

theorem Since.later {latest' : Nat} (h : Since period b₀ used latest b) (hle : latest ≤ latest') :
    Since period b₀ used latest' b := by
  obtain ⟨periods, hstamp, htokens, hlatest⟩ := h
  exact ⟨periods, hstamp, htokens, by omega⟩

/-- The stamp never passes the clock of a refill that moves it. -/
theorem Since.refill (h : Since period b₀ used latest b) :
    Since period b₀ used (max latest now) (b.refill capacity period now) := by
  obtain ⟨periods, hstamp, htokens, hlatest⟩ := h
  have hmul : (now - b.stamp) / period * period ≤ now - b.stamp := Nat.div_mul_le_self _ _
  refine ⟨periods + (now - b.stamp) / period, ?_, ?_, ?_⟩
  · simp only [Bucket.refill, hstamp]
    ring
  · simp only [Bucket.refill]
    omega
  · simp only [Bucket.refill]
    omega

/-- A token that is spent may be counted, or lost. -/
theorem Since.spend (h : Since period b₀ used latest b) (hb : b.tokens ≠ 0) {count : Nat}
    (hc : count ≤ 1) : Since period b₀ (used + count) latest b.spend := by
  obtain ⟨periods, hstamp, htokens, hlatest⟩ := h
  refine ⟨periods, hstamp, ?_, hlatest⟩
  simp only [Bucket.spend]
  omega

/-- No more is spent than the bucket held and the clock minted. -/
theorem Since.used_le (hp : 0 < period) (h : Since period b₀ used latest b) :
    used ≤ b₀.tokens + (latest - b₀.stamp) / period := by
  obtain ⟨periods, hstamp, htokens, hlatest⟩ := h
  have hperiods : periods ≤ (latest - b₀.stamp) / period := by
    rw [Nat.le_div_iff_mul_le hp]
    omega
  omega

end TokenBucket
