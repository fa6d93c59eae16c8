import Udp2raw.Core.Tlv
import Udp2raw.Endpoint.Address

/-!
# Host routes over rtnetlink

The body of a route request and the parser of a route in the kernel's replies.
Numbers in them are in the byte order of the machine, which is a parameter. What
the parser reads from a body the program built are the fields the body was built
from, so the search for an owned route among such bodies is exact.
-/

namespace Udp2raw

open Checked

/-- `RTPROT_UDP2RAW`. -/
def rtprotUdp2raw : UInt8 := 235
/-- `RTMSG_LEN`. -/
def rtmsgLen : Nat := 12
/-- `libc::AF_INET`. -/
def afInet : UInt8 := 2
/-- `libc::RT_TABLE_MAIN`. -/
def rtTableMain : UInt8 := 254
/-- `libc::RTN_UNICAST`. -/
def rtnUnicast : UInt8 := 1
/-- `libc::RTA_DST`. -/
def rtaDst : UInt16 := 1
/-- `libc::RTA_OIF`. -/
def rtaOif : UInt16 := 4
/-- `libc::RTA_GATEWAY`. -/
def rtaGateway : UInt16 := 5
/-- `libc::RTA_PRIORITY`. -/
def rtaPriority : UInt16 := 6
/-- `libc::RTA_PREFSRC`. -/
def rtaPrefsrc : UInt16 := 7

/-- `RouteInfo`. -/
structure RouteInfo where
  family : UInt8 := 0
  destination : Option Ipv4Addr := none
  gateway : Option Ipv4Addr := none
  oif : Option UInt32 := none
  prefsrc : Option Ipv4Addr := none
  metric : Option UInt32 := none
  dstLen : UInt8 := 0
  table : UInt8 := 0
  protocol : UInt8 := 0
  routeType : UInt8 := 0
  deriving DecidableEq, Repr

/-- `rtmsg`: family, prefix length, table, protocol, scope and type; the rest is zero. -/
def rtmsg (dstLen table protocol scope rtype : UInt8) : Bytes :=
  [afInet, dstLen, 0, 0, table, protocol, scope, rtype, 0, 0, 0, 0]

section

variable (e : Endian)

/-- `push_attr`. -/
def pushAttr (buf : Bytes) (kind : UInt16) (data : Bytes) : Bytes := buf ++ Tlv.encode e kind data

/-- `u32::to_ne_bytes`. -/
def u32ToNe (x : UInt32) : Bytes := e.encode 4 x.toNat

/-- The arms of the `match` in `parse_route` for four bytes of data, read as an address or as a
number. -/
def RouteInfo.recordFour (info : RouteInfo) (kind : UInt16) (addr : Ipv4Addr) (word : UInt32) :
    RouteInfo :=
  if kind = rtaDst then { info with destination := some addr }
  else if kind = rtaGateway then { info with gateway := some addr }
  else if kind = rtaPrefsrc then { info with prefsrc := some addr }
  else if kind = rtaOif then { info with oif := some word }
  else if kind = rtaPriority then { info with metric := some word }
  else info

/-- The `match` in `parse_route`; an attribute of another length is passed over. -/
def RouteInfo.record (info : RouteInfo) (kind : UInt16) (data : Bytes) : RouteInfo :=
  if h : data.length = 4 then
    info.recordFour kind ⟨data.toArray, by simpa using h⟩ (UInt32.ofNat (e.decode data))
  else info

/-- `parse_route`. -/
def parseRoute (payload : Bytes) : Except Panic (Except String RouteInfo) := do
  if payload.length < rtmsgLen then return .error "netlink: short rtmsg"
  let info : RouteInfo :=
    { family := ← readAt payload 0
      dstLen := ← readAt payload 1
      table := ← readAt payload 4
      protocol := ← readAt payload 5
      routeType := ← readAt payload 7 }
  match ← Tlv.scan e (RouteInfo.record e) payload rtmsgLen info with
  | none => return .error "netlink: bad rtattr"
  | some info => return .ok info

/-- What identifies a host route of this program: the arguments of the three functions below but
the scope. -/
structure HostRoute where
  dst : Ipv4Addr
  gateway : Option Ipv4Addr
  oif : UInt32
  prefsrc : Option Ipv4Addr
  metric : UInt32
  deriving DecidableEq, Repr

/-- `host_route_body`. -/
def hostRouteBody (r : HostRoute) (scope : UInt8) : Bytes :=
  let body := rtmsg 32 rtTableMain rtprotUdp2raw scope rtnUnicast
  let body := pushAttr e body rtaDst r.dst.toList
  let body := pushAttr e body rtaOif (u32ToNe e r.oif)
  let body := match r.gateway with
    | some gw => pushAttr e body rtaGateway gw.toList
    | none => body
  let body := match r.prefsrc with
    | some src => pushAttr e body rtaPrefsrc src.toList
    | none => body
  pushAttr e body rtaPriority (u32ToNe e r.metric)

/-- `owned_host_route_matches`. -/
def ownedHostRouteMatches (info : RouteInfo) (r : HostRoute) : Bool :=
  info.family == afInet && info.destination == some r.dst && info.dstLen == 32 &&
    info.table == rtTableMain && info.protocol == rtprotUdp2raw &&
    info.routeType == rtnUnicast && info.gateway == r.gateway && info.oif == some r.oif &&
    info.prefsrc == r.prefsrc && info.metric == some r.metric

/-- `owned_host_route_in_payloads`. -/
def ownedHostRouteInPayloads (r : HostRoute) : List Bytes → Except Panic (Except String Bool)
  | [] => .ok (.ok false)
  | payload :: rest => do
    match ← parseRoute e payload with
    | .error err => return .error err
    | .ok info =>
      if ownedHostRouteMatches info r then return .ok true
      else ownedHostRouteInPayloads r rest

end

variable {e : Endian}

/-! ## Totality -/

/-- Parsing a route never panics. -/
theorem parseRoute_returns (e : Endian) (payload : Bytes) :
    Returns (parseRoute e payload) fun _ => True := by
  unfold parseRoute
  refine returns_ite (fun _ => returns_ok trivial) fun hlen => ?_
  simp only [rtmsgLen] at hlen
  refine (readAt_returns (by omega)).bind fun family _ => ?_
  refine (readAt_returns (by omega)).bind fun dstLen _ => ?_
  refine (readAt_returns (by omega)).bind fun table _ => ?_
  refine (readAt_returns (by omega)).bind fun protocol _ => ?_
  refine (readAt_returns (by omega)).bind fun routeType _ => ?_
  refine (Tlv.scan_returns e _ payload _ _).bind fun r _ => ?_
  cases r with
  | none => exact returns_ok trivial
  | some info => exact returns_ok trivial

/-! ## Round trip -/

/-- The attributes of a host route, in the order of its body. -/
def HostRoute.attrs (e : Endian) (r : HostRoute) : List (UInt16 × Bytes) :=
  [(rtaDst, r.dst.toList), (rtaOif, u32ToNe e r.oif)] ++
    r.gateway.toList.map (fun gw => (rtaGateway, gw.toList)) ++
    r.prefsrc.toList.map (fun src => (rtaPrefsrc, src.toList)) ++
    [(rtaPriority, u32ToNe e r.metric)]

theorem hostRouteBody_eq (e : Endian) (r : HostRoute) (scope : UInt8) :
    hostRouteBody e r scope =
      rtmsg 32 rtTableMain rtprotUdp2raw scope rtnUnicast ++ Tlv.encodeAll e (r.attrs e) := by
  obtain ⟨dst, gateway, oif, prefsrc, metric⟩ := r
  cases gateway <;> cases prefsrc <;>
    simp [hostRouteBody, pushAttr, HostRoute.attrs, Tlv.encodeAll]

/-- Every attribute of a host route is four bytes long. -/
theorem HostRoute.length_attrs {r : HostRoute} {a : UInt16 × Bytes} (h : a ∈ r.attrs e) :
    a.2.length = 4 := by
  have hword : ∀ x : UInt32, (u32ToNe e x).length = 4 := fun x => Endian.length_encode e 4 _
  simp only [attrs, List.mem_append, List.mem_cons, List.not_mem_nil, or_false, List.mem_map,
    Option.mem_toList] at h
  obtain (((rfl | rfl) | ⟨gw, -, rfl⟩) | ⟨src, -, rfl⟩) | rfl := h
  · exact Vector.length_toList
  · exact hword _
  · exact Vector.length_toList
  · exact Vector.length_toList
  · exact hword _

section

variable (info : RouteInfo)

theorem record_addr (kind : UInt16) (ip : Ipv4Addr) :
    ∃ word, info.record e kind ip.toList = info.recordFour kind ip word := by
  have hlen : ip.toList.length = 4 := Vector.length_toList
  have haddr : (⟨ip.toList.toArray, by simp⟩ : Ipv4Addr) = ip :=
    Vector.toArray_inj.mp Array.toArray_toList
  refine ⟨UInt32.ofNat (e.decode ip.toList), ?_⟩
  rw [RouteInfo.record, dif_pos hlen, haddr]

theorem record_word (kind : UInt16) (x : UInt32) :
    ∃ addr, info.record e kind (u32ToNe e x) = info.recordFour kind addr x := by
  have hlen : (u32ToNe e x).length = 4 := Endian.length_encode e 4 _
  have hword : UInt32.ofNat (e.decode (u32ToNe e x)) = x := by
    rw [u32ToNe, Endian.decode_encode x.toNat_lt, UInt32.ofNat_toNat]
  refine ⟨⟨(u32ToNe e x).toArray, by simpa using hlen⟩, ?_⟩
  rw [RouteInfo.record, dif_pos hlen, hword]

@[simp] theorem record_dst (ip : Ipv4Addr) :
    info.record e rtaDst ip.toList = { info with destination := some ip } := by
  obtain ⟨word, hrecord⟩ := @record_addr e info rtaDst ip
  exact hrecord

@[simp] theorem record_gateway (ip : Ipv4Addr) :
    info.record e rtaGateway ip.toList = { info with gateway := some ip } := by
  obtain ⟨word, hrecord⟩ := @record_addr e info rtaGateway ip
  exact hrecord

@[simp] theorem record_prefsrc (ip : Ipv4Addr) :
    info.record e rtaPrefsrc ip.toList = { info with prefsrc := some ip } := by
  obtain ⟨word, hrecord⟩ := @record_addr e info rtaPrefsrc ip
  exact hrecord

@[simp] theorem record_oif (x : UInt32) :
    info.record e rtaOif (u32ToNe e x) = { info with oif := some x } := by
  obtain ⟨addr, hrecord⟩ := @record_word e info rtaOif x
  exact hrecord

@[simp] theorem record_priority (x : UInt32) :
    info.record e rtaPriority (u32ToNe e x) = { info with metric := some x } := by
  obtain ⟨addr, hrecord⟩ := @record_word e info rtaPriority x
  exact hrecord

end

/-- What the parser makes of a host route. -/
def HostRoute.info (r : HostRoute) : RouteInfo :=
  { family := afInet, destination := some r.dst, gateway := r.gateway, oif := some r.oif
    prefsrc := r.prefsrc, metric := some r.metric, dstLen := 32, table := rtTableMain
    protocol := rtprotUdp2raw, routeType := rtnUnicast }

/-- Recording the attributes of a host route fills in its fields. -/
theorem foldl_attrs (r : HostRoute) :
    (r.attrs e).foldl (fun s a => s.record e a.1 a.2)
        { family := afInet, dstLen := 32, table := rtTableMain, protocol := rtprotUdp2raw
          routeType := rtnUnicast } = r.info := by
  obtain ⟨dst, gateway, oif, prefsrc, metric⟩ := r
  cases gateway <;> cases prefsrc <;> simp [HostRoute.attrs, HostRoute.info]

/-- A built route is parsed as itself. -/
theorem parseRoute_hostRouteBody (e : Endian) (r : HostRoute) (scope : UInt8) :
    parseRoute e (hostRouteBody e r scope) = .ok (.ok r.info) := by
  have hscan := @Tlv.scan_encodeAll _ e (RouteInfo.record e)
    (rtmsg 32 rtTableMain rtprotUdp2raw scope rtnUnicast) (r.attrs e)
    (fun a ha => by rw [HostRoute.length_attrs ha]; omega)
    { family := afInet, dstLen := 32, table := rtTableMain, protocol := rtprotUdp2raw
      routeType := rtnUnicast }
  rw [foldl_attrs] at hscan
  have hlen : ¬ (rtmsg 32 rtTableMain rtprotUdp2raw scope rtnUnicast ++
      Tlv.encodeAll e (r.attrs e)).length < rtmsgLen := by
    rw [List.length_append]
    exact Nat.not_lt.mpr (Nat.le_add_right _ _)
  rw [parseRoute, hostRouteBody_eq, if_neg hlen]
  change (Tlv.scan e (RouteInfo.record e) _ rtmsgLen _ >>= _) = _
  rw [show rtmsgLen = (rtmsg 32 rtTableMain rtprotUdp2raw scope rtnUnicast).length from rfl]
  refine Eq.trans (congrArg (· >>= _) hscan) ?_
  rfl

/-! ## Recognition -/

/-- A built body matches a route exactly if it was built for it. -/
theorem ownedHostRouteMatches_info (t r : HostRoute) :
    ownedHostRouteMatches t.info r = decide (t = r) := by
  obtain ⟨dst, gateway, oif, prefsrc, metric⟩ := t
  obtain ⟨dst', gateway', oif', prefsrc', metric'⟩ := r
  rw [Bool.eq_iff_iff]
  simp [ownedHostRouteMatches, HostRoute.info, and_assoc]

/-- A route is owned if it is among those built. -/
theorem ownedHostRouteInPayloads_bodies (e : Endian) (r : HostRoute)
    (built : List (HostRoute × UInt8)) :
    ownedHostRouteInPayloads e r (built.map fun b => hostRouteBody e b.1 b.2) =
      .ok (.ok (decide (r ∈ built.map Prod.fst))) := by
  induction built with
  | nil => rfl
  | cons b built ih =>
    rw [List.map_cons, ownedHostRouteInPayloads, parseRoute_hostRouteBody, ok_bind]
    dsimp only
    rw [ownedHostRouteMatches_info, ih]
    by_cases hb : b.1 = r
    · simp [hb]
      rfl
    · simp [hb, Ne.symm hb]

/-- Parsing a built body recovers what it was built from; searching built bodies for a route finds
it exactly if one was built for it, whatever the scopes; and the parser returns on all bytes. -/
theorem owned_route_recognition (e : Endian) :
    (∀ (r : HostRoute) (scope : UInt8), parseRoute e (hostRouteBody e r scope) = .ok (.ok
      { family := afInet, destination := some r.dst, gateway := r.gateway, oif := some r.oif
        prefsrc := r.prefsrc, metric := some r.metric, dstLen := 32, table := 254
        protocol := 235, routeType := 1 })) ∧
      (∀ (r : HostRoute) (built : List (HostRoute × UInt8)), ∃ answer,
        ownedHostRouteInPayloads e r (built.map fun b => hostRouteBody e b.1 b.2) =
          .ok (.ok answer) ∧ (answer = true ↔ ∃ scope, (r, scope) ∈ built)) ∧
      ∀ payload : Bytes, ∃ result, parseRoute e payload = .ok result := by
  refine ⟨parseRoute_hostRouteBody e, fun r built => ?_, fun payload => ?_⟩
  · exact ⟨_, ownedHostRouteInPayloads_bodies e r built, by simp⟩
  · obtain ⟨result, hresult, -⟩ := parseRoute_returns e payload
    exact ⟨result, hresult⟩

end Udp2raw
