import Mathlib.Data.List.DropRight
import Udp2raw.Core.Canonical
import Udp2raw.Packet.Ip

/-!
# Endpoint addresses

What `-r` names is a literal socket address or a host name with a port. Only
some IPv4 addresses can be a relay's; a set of them is kept in numeric order
without repetitions.
-/

namespace Udp2raw

/-- `std::net::Ipv4Addr`, by its octets. -/
abbrev Ipv4Addr := Vector UInt8 4

instance Ipv4Addr.lawfulBEq : LawfulBEq Ipv4Addr := inferInstance

/-- `u32::from(ip)`. -/
def Ipv4Addr.toU32 (ip : Ipv4Addr) : Nat := BigEndian.decode ip.toList

/-! ## Which addresses may be used -/

/-- `check_endpoint_ip`, with the reason of a refusal. -/
def checkEndpointIp (ip : Ipv4Addr) (allowPrivate : Bool) : Except String Unit :=
  let o := fun i : Fin 4 => ip[i].toNat
  let documentation := (o 0 = 192 ∧ o 1 = 0 ∧ o 2 = 2) ∨ (o 0 = 198 ∧ o 1 = 51 ∧ o 2 = 100)
    ∨ (o 0 = 203 ∧ o 1 = 0 ∧ o 2 = 113)
  let isPrivate := o 0 = 10 ∨ (o 0 = 172 ∧ 16 ≤ o 1 ∧ o 1 ≤ 31) ∨ (o 0 = 192 ∧ o 1 = 168)
  let cgnat := o 0 = 100 ∧ 64 ≤ o 1 ∧ o 1 ≤ 127
  -- `is_unspecified` is the first case of `o[0] == 0`, `is_broadcast` one of `o[0] >= 240`
  if o 0 = 0 then .error "unspecified/this-network"
  else if o 0 = 127 then .error "loopback"
  else if o 0 = 169 ∧ o 1 = 254 then .error "link-local"
  else if 224 ≤ o 0 ∧ o 0 ≤ 239 then .error "multicast"
  else if 240 ≤ o 0 then .error "broadcast/reserved"
  else if documentation ∨ (o 0 = 198 ∧ (o 1 = 18 ∨ o 1 = 19)) then
    .error "documentation/benchmark range"
  else if (o 0 = 192 ∧ o 1 = 0 ∧ o 2 = 0) ∨ (o 0 = 192 ∧ o 1 = 88 ∧ o 2 = 99) then
    .error "special-purpose range"
  else if (isPrivate ∨ cgnat) ∧ allowPrivate = false then
    .error (if cgnat then "CGNAT range (use --allow-private-endpoint)"
      else "private range (use --allow-private-endpoint)")
  else .ok ()

/-- The address passes `check_endpoint_ip`. -/
def endpointIpOk (ip : Ipv4Addr) (allowPrivate : Bool) : Bool :=
  (checkEndpointIp ip allowPrivate).toOption.isSome

theorem endpointIpOk_iff {ip : Ipv4Addr} {allowPrivate : Bool} :
    endpointIpOk ip allowPrivate = true ↔ checkEndpointIp ip allowPrivate = .ok () := by
  unfold endpointIpOk
  cases checkEndpointIp ip allowPrivate with
  | error why => simp [Except.toOption]
  | ok u => simp [Except.toOption]

/-! ## Address sets -/

/-- `MAX_ENDPOINT_CANDIDATES`. -/
def maxEndpointCandidates : Nat := 8

/-- `sort_by_key(|ip| u32::from(*ip))`, then `dedup()`. -/
def sortDedup (ips : List Ipv4Addr) : List Ipv4Addr :=
  (ips.insertionSort fun a b => a.toU32 ≤ b.toU32).destutter (· ≠ ·)

/-- An address is determined by its 32-bit value. -/
theorem toU32_injective : Function.Injective Ipv4Addr.toU32 := by
  intro a b h
  have hlist : a.toList = b.toList := by
    rw [← BigEndian.encode_decode a.toList, ← BigEndian.encode_decode b.toList,
      Vector.length_toList, Vector.length_toList]
    exact congrArg (BigEndian.encode 4) h
  exact Vector.toList_inj.mp hlist

/-- Sorting and dropping repetitions is canonical. -/
theorem sortDedup_eq (ips : List Ipv4Addr) : sortDedup ips = Canonical.sorted Ipv4Addr.toU32 ips :=
  rfl

@[simp] theorem mem_sortDedup {ip : Ipv4Addr} {ips : List Ipv4Addr} :
    ip ∈ sortDedup ips ↔ ip ∈ ips := Canonical.mem_sorted toU32_injective

theorem mem_of_mem_sortDedup {ip : Ipv4Addr} {ips : List Ipv4Addr} (h : ip ∈ sortDedup ips) :
    ip ∈ ips := mem_sortDedup.mp h

/-- The sorted addresses strictly increase. -/
theorem pairwise_sortDedup (ips : List Ipv4Addr) :
    (sortDedup ips).Pairwise fun a b => a.toU32 < b.toU32 :=
  Canonical.pairwise_sorted toU32_injective ips

/-! ## What `-r` names -/

/-- Why `validate_hostname` refuses a name. -/
inductive HostnameError where
  /-- "hostname must be 1..253 characters" -/
  | length
  /-- "labels must be 1..63 characters" -/
  | labelLength
  /-- "only letters, digits and '-' are allowed" -/
  | character
  /-- "a label cannot start or end with '-'" -/
  | hyphen
  /-- "not a hostname (numeric top-level label)" -/
  | numericTop
  deriving DecidableEq, Repr

/-- `is_ascii_digit`. -/
def isAsciiDigit (b : UInt8) : Bool := 48 ≤ b && b ≤ 57

/-- `is_ascii_alphanumeric`. -/
def isAsciiAlphanumeric (b : UInt8) : Bool :=
  isAsciiDigit b || (65 ≤ b && b ≤ 90) || (97 ≤ b && b ≤ 122)

/-- `to_ascii_lowercase`. -/
def toAsciiLowercase (b : UInt8) : UInt8 := if 65 ≤ b && b ≤ 90 then b + 32 else b

/-- The checks `validate_hostname` makes of one label. -/
def validateLabel (l : List UInt8) : Except HostnameError Unit :=
  if l.length = 0 ∨ 63 < l.length then .error .labelLength
  else if ¬ (l.all fun b => isAsciiAlphanumeric b || b == 45) then .error .character
  else if l.head? = some 45 ∨ l.getLast? = some 45 then .error .hyphen
  else .ok ()

/-- `validate_hostname`, on the bytes of the name. -/
def validateHostname (name : List UInt8) : Except HostnameError Unit := do
  let n := if name.getLast? = some 46 then name.dropLast else name
  if n.length = 0 ∨ 253 < n.length then throw .length
  let labels := n.splitOn 46
  labels.forM validateLabel
  if (labels.getLast?.map fun l => l.all isAsciiDigit).getD false then throw .numericTop

/-- `name.trim_end_matches('.').to_ascii_lowercase()`. -/
def canonicalHostname (name : List UInt8) : List UInt8 :=
  (name.rdropWhile (· == 46)).map toAsciiLowercase

/-- `EndpointSpec`. -/
inductive EndpointSpec where
  | literal (addr : IpAddr) (port : UInt16)
  | hostname (name : List UInt8) (port : UInt16)
  deriving DecidableEq, Repr

namespace EndpointSpec

/-- `EndpointSpec::port`. -/
def port : EndpointSpec → UInt16
  | literal _ p => p
  | hostname _ p => p

/-- `EndpointSpec::is_dynamic`. -/
def isDynamic : EndpointSpec → Bool
  | literal _ _ => false
  | hostname _ _ => true

/-- `EndpointSpec::hostname`. -/
def name? : EndpointSpec → Option (List UInt8)
  | literal _ _ => none
  | hostname n _ => some n

end EndpointSpec

end Udp2raw
