import Udp2raw.Core.BigEndian
import Udp2raw.Core.Checked

/-!
# Type-length-value attributes

An attribute is a 16-bit length, a 16-bit kind and its data, padded to a multiple
of four bytes; the length counts the four header bytes and not the padding. Both
numbers are in the byte order of the machine. The scanner walks over a payload by
the lengths it reads and folds the attributes into a state. It returns on every
payload, and on encoded attributes it folds exactly those.
-/

/-- The byte order of a machine. -/
inductive Endian where
  | little
  | big
  deriving DecidableEq, Repr

namespace Endian

/-- The last `width` base-256 digits of `n`. -/
def encode (e : Endian) (width n : Nat) : List UInt8 :=
  match e with
  | .little => (BigEndian.encode width n).reverse
  | .big => BigEndian.encode width n

/-- The number a list of bytes denotes. -/
def decode (e : Endian) (bytes : List UInt8) : Nat :=
  match e with
  | .little => BigEndian.decode bytes.reverse
  | .big => BigEndian.decode bytes

@[simp] theorem length_encode (e : Endian) (width n : Nat) : (e.encode width n).length = width := by
  cases e <;> simp [encode]

theorem decode_encode {e : Endian} {width n : Nat} (h : n < 256 ^ width) :
    e.decode (e.encode width n) = n := by
  cases e with
  | little => rw [encode, decode, List.reverse_reverse, BigEndian.decode_encode_of_lt h]
  | big => rw [encode, decode, BigEndian.decode_encode_of_lt h]

end Endian

namespace Tlv

open Checked

/-- The next multiple of four. -/
def align4 (n : Nat) : Nat := (n + 3) / 4 * 4

theorem le_align4 (n : Nat) : n ≤ align4 n := by
  unfold align4
  omega

/-- One attribute with its padding. -/
def encode (e : Endian) (kind : UInt16) (data : List UInt8) : List UInt8 :=
  let len := 4 + data.length
  e.encode 2 len ++ e.encode 2 kind.toNat ++ data ++ List.replicate (align4 len - len) 0

/-- Attributes in a row. -/
def encodeAll (e : Endian) (attrs : List (UInt16 × List UInt8)) : List UInt8 :=
  attrs.flatMap fun a => encode e a.1 a.2

section

variable {σ : Type}

/-- Length and kind of the attribute at an offset. -/
def header (e : Endian) (payload : List UInt8) (off : Nat) : Except Panic (Nat × UInt16) := do
  let len ← slice payload off (off + 2)
  let kind ← slice payload (off + 2) (off + 4)
  return (e.decode len, UInt16.ofNat (e.decode kind))

theorem header_returns (e : Endian) {payload : List UInt8} {off : Nat}
    (h : off + 4 ≤ payload.length) : Returns (header e payload off) fun _ => True := by
  refine (slice_returns (by omega) (by omega)).bind fun len _ => ?_
  exact (slice_returns (by omega) (by omega)).bind fun kind _ => returns_ok trivial

/-- Fold the attributes from an offset on into a state; nothing if a length is out of bounds. -/
def scan (e : Endian) (step : σ → UInt16 → List UInt8 → σ) (payload : List UInt8) (off : Nat)
    (s : σ) : Except Panic (Option σ) :=
  if off + 4 ≤ payload.length then do
    let attr ← header e payload off
    if _h : attr.1 < 4 ∨ off + attr.1 > payload.length then .ok none
    else do
      let data ← slice payload (off + 4) (off + attr.1)
      scan e step payload (off + align4 attr.1) (step s attr.2 data)
  else .ok (some s)
termination_by payload.length - off
decreasing_by
  have := le_align4 attr.1
  omega

/-- The scanner returns on every payload, from every offset. -/
theorem scan_returns (e : Endian) (step : σ → UInt16 → List UInt8 → σ) (payload : List UInt8)
    (off : Nat) (s : σ) : Returns (scan e step payload off s) fun _ => True := by
  induction hn : payload.length - off using Nat.strongRecOn generalizing off s with
  | ind n ih =>
    rw [Tlv.scan.eq_def]
    refine returns_ite (fun hroom => ?_) fun _ => returns_ok trivial
    refine (header_returns e hroom).bind fun attr _ => ?_
    split
    · exact returns_ok trivial
    · refine (slice_returns (by omega) (by omega)).bind fun data _ => ?_
      have := le_align4 attr.1
      exact ih _ (by omega) _ _ rfl

/-- The header written is the header read. -/
theorem header_encode {e : Endian} (before rest : List UInt8) {kind : UInt16} {data : List UInt8}
    (h : 4 + data.length < 65536) :
    header e (before ++ (encode e kind data ++ rest)) before.length =
      .ok (4 + data.length, kind) := by
  have hlen : slice (before ++ (encode e kind data ++ rest)) before.length (before.length + 2) =
      .ok (e.encode 2 (4 + data.length)) := by
    simp only [encode, List.append_assoc]
    exact slice_middle rfl (by simp) _
  have hkind : slice (before ++ (encode e kind data ++ rest)) (before.length + 2)
      (before.length + 4) = .ok (e.encode 2 kind.toNat) := by
    simp only [encode, List.append_assoc]
    rw [← List.append_assoc before]
    exact slice_middle (by simp) (by simp) _
  rw [header, hlen, ok_bind, hkind, ok_bind, Endian.decode_encode h,
    Endian.decode_encode kind.toNat_lt, UInt16.ofNat_toNat]
  rfl

theorem length_encode (e : Endian) (kind : UInt16) (data : List UInt8) :
    (encode e kind data).length = align4 (4 + data.length) := by
  have := le_align4 (4 + data.length)
  simp only [encode, List.length_append, Endian.length_encode, List.length_replicate]
  omega

/-- The scanner takes an encoded attribute and goes on behind its padding. -/
theorem scan_encode {e : Endian} (step : σ → UInt16 → List UInt8 → σ) (before rest : List UInt8)
    {kind : UInt16} {data : List UInt8} (h : 4 + data.length < 65536) (s : σ) :
    scan e step (before ++ (encode e kind data ++ rest)) before.length s =
      scan e step ((before ++ encode e kind data) ++ rest) (before ++ encode e kind data).length
        (step s kind data) := by
  have hlen := length_encode e kind data
  have hpad := le_align4 (4 + data.length)
  have htotal : (before ++ (encode e kind data ++ rest)).length =
      before.length + align4 (4 + data.length) + rest.length := by
    rw [List.length_append, List.length_append, hlen]
    omega
  have hdata : slice (before ++ (encode e kind data ++ rest)) (before.length + 4)
      (before.length + (4 + data.length)) = .ok data := by
    simp only [encode, List.append_assoc]
    rw [← List.append_assoc (e.encode 2 _), ← List.append_assoc before]
    exact slice_middle (by simp) (by omega) _
  conv_lhs => rw [Tlv.scan.eq_def]
  rw [if_pos (by omega), header_encode before rest h, ok_bind, dif_neg (by omega), hdata, ok_bind,
    List.append_assoc, List.length_append, hlen]

/-- A scan of encoded attributes folds over them. -/
theorem scan_encodeAll {e : Endian} (step : σ → UInt16 → List UInt8 → σ) (before : List UInt8)
    {attrs : List (UInt16 × List UInt8)} (h : ∀ a ∈ attrs, 4 + a.2.length < 65536) (s : σ) :
    scan e step (before ++ encodeAll e attrs) before.length s =
      .ok (some (attrs.foldl (fun s a => step s a.1 a.2) s)) := by
  induction attrs generalizing before s with
  | nil =>
    rw [encodeAll, List.flatMap_nil, List.append_nil, Tlv.scan.eq_def, if_neg (by omega)]
    rfl
  | cons a attrs ih =>
    have hrest := ih (before ++ encode e a.1 a.2) (fun b hb => h b (List.mem_cons_of_mem _ hb))
      (step s a.1 a.2)
    rw [encodeAll, List.flatMap_cons, scan_encode step before _ (h a List.mem_cons_self),
      ← encodeAll, hrest, List.foldl_cons]

end

end Tlv
