import Udp2raw.Endpoint.Controller

/-!
# The first address

`bootstrap` asks DNS first, then takes the cached address, then `--bootstrap-addr`.
A literal endpoint needs none of them.
-/

namespace Udp2raw

namespace Controller

variable (c : Controller)

/-- `CacheEntry`. -/
structure CacheEntry where
  addr : Ipv4Addr
  savedUnixSecs : Option Nat
  deriving DecidableEq, Repr

/-- What the pathname of the cache file leads to. -/
inductive CacheFile where
  | absent
  /-- Anything `load_cache_entry` cannot take for a document, and a file that may not be
  read. -/
  | unreadable
  | document (host : List UInt8) (port : UInt16) (entry : CacheEntry)
  deriving DecidableEq, Repr

/-- `load_cache_entry`, from the document on. -/
def loadCacheEntry (file : CacheFile) (host : List UInt8) (port : UInt16)
    (allowPrivate : Bool) : Except Unit (Option CacheEntry) :=
  match file with
  | .absent => .ok none
  | .unreadable => .error ()
  | .document h p entry =>
    if h ≠ host ∨ (validateHostname h).toOption = none then .ok none
    else if p ≠ port then .ok none
    else if endpointIpOk entry.addr allowPrivate = false then .error ()
    else .ok (some entry)

/-- What `bootstrap` meets: the clocks, the files, whether the state lock is taken, the
resolver's answer and a random number. -/
structure BootIo where
  nowMs : Nat
  wallNow : Nat
  cache : CacheFile
  locked : Bool
  state : StateFile
  answer : Option DnsAnswer
  random : UInt32
  deriving DecidableEq, Repr

/-- `cached_fresh_until`. -/
def cachedFreshUntil (entry : CacheEntry) (nowMs wallNow : Nat) : Option Nat :=
  entry.savedUnixSecs.bind fun saved =>
    if c.policy.enabled = false ∨ satAdd wallNow 300 < saved then none
    else
      let ageMs := satMul (wallNow - saved) 1000
      if ageMs < c.policy.maxAgeMs.toNat then
        some (satAdd nowMs (c.policy.maxAgeMs.toNat - ageMs))
      else none

/-- The cached address of `bootstrap`, if there is one to use. -/
def cachedEntry (spec : EndpointSpec) (opts : EndpointOptions) (file : CacheFile) :
    Option CacheEntry :=
  match opts.cacheFile, spec.name? with
  | true, some name => ((loadCacheEntry file name spec.port opts.allowPrivate).toOption).join
  | _, _ => none

/-- The part of `bootstrap` that reads the persisted limits. -/
def loadLimits (io : BootIo) : Controller :=
  if c.policy.enabled = false then c
  else
    let c := { c with
      fallbackStatePath := c.opts.cacheFile
      fallbackState := .new c.policy.globalCapacity.toNat io.wallNow }
    match c.fallbackStatePath, c.spec.name? with
    | true, some name =>
      if io.locked = false then { c with fallbackStateUsable := false }
      else
        match loadFallbackState io.state name c.spec.port c.policy.globalCapacity.toNat
            c.opts.allowPrivate io.wallNow with
        | .ok (some s) => { c with fallbackState := s }
        | .ok none => c
        | .error _ => { c with fallbackStateUsable := false }
    | _, _ => c

/-- The address `bootstrap` starts with. -/
def firstAddress (queried : Bool) : Option Ipv4Addr :=
  match queried, c.candidates with
  | true, first :: _ =>
    some ((c.committedGood.filter (· ∈ c.candidates)).getD first)
  | _, _ => c.committedGood <|> c.opts.bootstrap

/-- Why `bootstrap` fails. -/
inductive BootError where
  /-- "unsafe --bootstrap-addr {ip}: {why}" -/
  | unsafeBootstrapAddr (ip : Ipv4Addr) (why : String)
  /-- "cannot resolve {name}:{port} and no cached or bootstrap address is available" -/
  | unresolved (name : List UInt8) (port : UInt16)
  deriving DecidableEq, Repr

/-- The controller `bootstrap` starts to fill in. -/
def blank (spec : EndpointSpec) (opts : EndpointOptions) (wallNow : Nat) : Controller where
  spec := spec
  opts := opts
  current := (.v4 #v[0, 0, 0, 0], spec.port)
  backoff := .new opts.backoffMinMs.toNat opts.backoffMaxMs.toNat
  fallbackState := .new 0 wallNow

/-- The controller with what the cache file remembers. -/
def remembered (spec : EndpointSpec) (opts : EndpointOptions) (io : BootIo) : Controller :=
  let cached := cachedEntry spec opts io.cache
  let c := blank spec opts io.wallNow
  { c with
    committedGood := cached.map CacheEntry.addr
    cacheFreshUntilMs := cached.bind (c.cachedFreshUntil · io.nowMs io.wallNow) }

/-- `bootstrap` of a host name, after the check of `--bootstrap-addr`. -/
def bootstrapHost (spec : EndpointSpec) (opts : EndpointOptions) (io : BootIo) :
    Option Controller :=
  let c := ((remembered spec opts io).loadLimits io).startPreferredRound io.nowMs
  let queried := c.query io.nowMs io.answer io.random
  (queried.2.firstAddress queried.1).map fun chosen =>
    { queried.2 with current := (.v4 chosen, spec.port) }.orderCandidates

/-- `bootstrap`. -/
def bootstrap (spec : EndpointSpec) (opts : EndpointOptions) (io : BootIo) :
    Except BootError Controller :=
  match spec with
  | .literal addr port =>
    .ok { blank spec opts io.wallNow with
      current := (addr, port)
      candidates := match addr with
        | .v4 ip => [ip]
        | .v6 _ => [] }
  | .hostname name port =>
    match opts.bootstrap.map fun ip => (ip, checkEndpointIp ip opts.allowPrivate) with
    | some (ip, .error why) => .error (.unsafeBootstrapAddr ip why)
    | _ =>
      match bootstrapHost spec opts io with
      | some c => .ok c
      | none => .error (.unresolved name port)

end Controller

end Udp2raw
