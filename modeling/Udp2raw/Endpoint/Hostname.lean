import Udp2raw.Endpoint.StateFormat

/-!
# The endpoint on the command line

`EndpointSpec::parse` takes what `-r` names for a literal socket address or for a host
name with a port. A host name it accepts is short and made of letters, digits, hyphens
and dots, so it can stand in a field of the state file.
-/

namespace Udp2raw

open Text

/-- Why `EndpointSpec::parse` refuses a text. -/
inductive SpecError where
  /-- "expected host:port" -/
  | hostPort
  /-- "invalid port" -/
  | port
  | hostname (why : HostnameError)
  deriving DecidableEq, Repr

/-- `EndpointSpec::parse`, on the bytes of the text; `socketAddr` is `str::parse::<SocketAddr>`
of the standard library. -/
def EndpointSpec.parse (socketAddr : List UInt8 → Option (IpAddr × UInt16)) (s : List UInt8) :
    Except SpecError EndpointSpec :=
  match socketAddr s with
  | some a => .ok (.literal a.1 a.2)
  | none => do
      let parts ← demand SpecError.hostPort (rsplitOnce 58 s)
      let port ← demand SpecError.port (parseUnsigned 65535 (hostText parts.2))
      if port = 0 then .error .port
      else
        match validateHostname parts.1 with
        | .error why => .error (.hostname why)
        | .ok _ => .ok (.hostname (canonicalHostname parts.1) (UInt16.ofNat port))

/-! ## What a host name consists of -/

/-- A byte of a host name. -/
def isHostByte (b : UInt8) : Bool := isAsciiAlphanumeric b || b == 45 || b == 46

/-- A loop that passes has passed at every element. -/
theorem forM_eq_ok {α ε : Type} {f : α → Except ε PUnit} {l : List α} (h : l.forM f = .ok ()) :
    ∀ a ∈ l, f a = .ok () := by
  induction l with
  | nil =>
    intro a ha
    cases ha
  | cons b l ih =>
    have h : (f b >>= fun _ => l.forM f) = .ok () := h
    obtain ⟨u, hb, hl⟩ := Checked.bind_eq_ok.mp h
    intro a ha
    obtain rfl | ha := List.mem_cons.mp ha
    · exact hb
    · exact ih hl a ha

/-- A valid label is not empty and has host bytes but no dot. -/
theorem validateLabel_ok {l : List UInt8} (h : validateLabel l = .ok ()) :
    l ≠ [] ∧ ∀ b ∈ l, b ≠ 46 ∧ isHostByte b = true := by
  unfold validateLabel at h
  split_ifs at h with hlength hbytes hhyphen
  refine ⟨fun hnil => hlength (.inl (by rw [hnil, List.length_nil])), fun b hb => ?_⟩
  have hlabel := List.all_eq_true.mp hbytes b hb
  refine ⟨?_, ?_⟩
  · rintro rfl
    exact absurd hlabel (by decide)
  · rw [isHostByte, hlabel, Bool.true_or]

/-- The part of a name that `validate_hostname` checks. -/
theorem validateHostname_ok {name : List UInt8} (h : validateHostname name = .ok ()) :
    ∃ n, (name = n ∨ name = n ++ [46]) ∧ n.length ≤ 253 ∧ (∃ b ∈ n, b ≠ 46) ∧
      ∀ b ∈ n, isHostByte b = true := by
  unfold validateHostname at h
  dsimp only at h
  have hname : ∀ n, n = (if name.getLast? = some 46 then name.dropLast else name) →
      name = n ∨ name = n ++ [46] := by
    rintro n rfl
    split_ifs with hlast
    · exact .inr (List.dropLast_append_getLast? 46 hlast).symm
    · exact .inl rfl
  generalize hn : (if name.getLast? = some 46 then name.dropLast else name) = n at h
  by_cases hbounds : n.length = 0 ∨ 253 < n.length
  · rw [if_pos hbounds] at h
    cases h
  rw [if_neg hbounds] at h
  obtain ⟨u, hlabels, -⟩ := Checked.bind_eq_ok.mp h
  have hlabels := forM_eq_ok hlabels
  have hjoin : [46].intercalate (n.splitOn 46) = n := List.intercalate_splitOn 46
  refine ⟨n, hname n hn.symm, by omega, ?_, fun b hb => ?_⟩
  · -- the first label is not empty
    have hfirst : ∃ l ∈ n.splitOn 46, ∀ b ∈ l, b ∈ n := by
      cases hsplit : n.splitOn 46 with
      | nil => exact absurd hsplit (List.splitOn_ne_nil 46 n)
      | cons l rest =>
        refine ⟨l, List.mem_cons_self, fun b hb => ?_⟩
        rw [← hjoin, hsplit]
        cases rest with
        | nil => rwa [List.intercalate_singleton]
        | cons l' rest =>
          rw [List.intercalate_cons_cons]
          exact List.mem_append_left _ (List.mem_append_left _ hb)
    obtain ⟨l, hl, hmem⟩ := hfirst
    obtain ⟨hne, hbytes⟩ := validateLabel_ok (hlabels l hl)
    obtain ⟨b, hb⟩ := List.exists_mem_of_ne_nil l hne
    exact ⟨b, hmem b hb, (hbytes b hb).1⟩
  · rw [← hjoin] at hb
    obtain hb | ⟨l, hl, hb⟩ := mem_intercalate hb
    · rw [List.mem_singleton.mp hb]
      decide
    · exact ((validateLabel_ok (hlabels l hl)).2 b hb).2

/-- A host byte is a plain character in lower case. -/
theorem plain_lowercase {b : UInt8} (h : isHostByte b = true) :
    plain (Char.ofNat (toAsciiLowercase b).toNat) = true := by
  have hall : ∀ n < 256, isHostByte (UInt8.ofNat n) = true →
      plain (Char.ofNat (toAsciiLowercase (UInt8.ofNat n)).toNat) = true := by decide +kernel
  have hb := hall b.toNat b.toNat_lt
  rw [UInt8.ofNat_toNat] at hb
  exact hb h

/-- The canonical form of an accepted name. -/
theorem canonicalHostname_ok {name : List UInt8} (h : validateHostname name = .ok ()) :
    PlainHost (canonicalHostname name) ∧ (canonicalHostname name).length ≤ 253 := by
  obtain ⟨n, hname, hlength, ⟨b, hb, hne⟩, hbytes⟩ := validateHostname_ok h
  have htrim : name.rdropWhile (· == 46) = n.rdropWhile (· == 46) := by
    obtain rfl | rfl := hname
    · rfl
    · exact List.rdropWhile_concat_pos _ _ _ rfl
  have hstart : n.rdropWhile (· == 46) <+: n := List.rdropWhile_prefix _ n
  unfold canonicalHostname
  rw [htrim]
  refine ⟨⟨fun hnil => ?_, fun c hc => ?_⟩, ?_⟩
  · rw [List.map_eq_nil_iff, List.rdropWhile_eq_nil_iff] at hnil
    exact hne (eq_of_beq (hnil b hb))
  · rw [hostText, List.map_map] at hc
    obtain ⟨b, hb, rfl⟩ := List.mem_map.mp hc
    exact plain_lowercase (hbytes b (hstart.subset hb))
  · rw [List.length_map]
    exact hstart.length_le.trans hlength

/-- A host name that `EndpointSpec::parse` returns. -/
theorem parse_hostname {socketAddr : List UInt8 → Option (IpAddr × UInt16)} {s : List UInt8}
    {name : List UInt8} {port : UInt16}
    (h : EndpointSpec.parse socketAddr s = .ok (.hostname name port)) :
    PlainHost name ∧ name.length ≤ 253 := by
  unfold EndpointSpec.parse at h
  split at h
  · cases h
  · obtain ⟨parts, -, h⟩ := Checked.bind_eq_ok.mp h
    obtain ⟨p, -, h⟩ := Checked.bind_eq_ok.mp h
    split_ifs at h
    split at h
    · cases h
    next hvalid =>
      cases h
      exact canonicalHostname_ok hvalid

end Udp2raw
