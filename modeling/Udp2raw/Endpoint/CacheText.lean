import Udp2raw.Endpoint.Bootstrap
import Udp2raw.Endpoint.StateText

/-!
# The text of the cache file

`save_cache_with_policy` and `load_cache_entry` on the bytes of the file: a comment,
the endpoint, the address whose handshake succeeded last and the time it was written.
Hosts are texts here; the checks of a host name read its bytes.
-/

namespace Udp2raw

open Text Controller

/-- `str::as_bytes`. -/
def strBytes (text : List Char) : List UInt8 := text.flatMap String.utf8EncodeChar

/-- The messages of `validate_hostname`. -/
def HostnameError.text (name : List Char) : HostnameError → String
  | .length => String.ofList name ++ ": hostname must be 1..253 characters"
  | .labelLength => String.ofList name ++ ": labels must be 1..63 characters"
  | .character => String.ofList name ++ ": only letters, digits and '-' are allowed"
  | .hyphen => String.ofList name ++ ": a label cannot start or end with '-'"
  | .numericTop => String.ofList name ++ ": not a hostname (numeric top-level label)"

/-- The comment in the first line. -/
def cacheHeader : String := "# udp2raw endpoint cache: the last address whose handshake succeeded"

/-- The lines after the comment. -/
def cacheFields (host : List Char) (port : UInt16) (entry : CacheEntry) : List (List Char) :=
  [fieldLine "host" host, fieldLine "port" (decimal port.toNat),
    fieldLine "addr" (ipText entry.addr)] ++
    entry.savedUnixSecs.toList.map fun saved => fieldLine "saved" (decimal saved)

/-- The text of `save_cache_with_policy`. -/
def cacheBody (host : List Char) (port : UInt16) (addr : Ipv4Addr) (saved : Nat) : String :=
  String.ofList (unlines (cacheHeader.toList :: cacheFields host port ⟨addr, some saved⟩))

/-- `save_cache_with_policy` up to the write: the text for the file. -/
def saveCacheText (host : List Char) (port : UInt16) (addr : Ipv4Addr) (allowPrivate : Bool)
    (saved : Nat) : Except String String := do
  match validateHostname (strBytes host) with
  | .error why => .error (why.text host)
  | .ok _ =>
    ensure (strBytes host = canonicalHostname (strBytes host))
      "hostname is not canonical lowercase without a trailing dot"
    ensure (port ≠ 0) "port is zero"
    match checkEndpointIp addr allowPrivate with
    | .error why => .error s!"unsafe endpoint address: {why}"
    | .ok _ => .ok (cacheBody host port addr saved)

/-- The `saved` part of `load_cache_entry`. -/
def loadSaved : Option (List Char) → Except String (Option Nat)
  | none => .ok none
  | some line => do
      let value ← strictField line "saved"
      let saved ← demand "invalid saved timestamp" (parseUnsigned u64Max value)
      ensure (decimal saved = value) "non-canonical saved timestamp"
      .ok (some saved)

/-- `load_cache_entry` on its lines without the comment. -/
def loadCacheLines (l₀ l₁ l₂ : List Char) (l₃ : Option (List Char)) (host : List Char)
    (port : UInt16) (allowPrivate : Bool) : Except String (Option CacheEntry) := do
  let h ← strictField l₀ "host"
  let p ← strictField l₁ "port"
  let a ← strictField l₂ "addr"
  if h ≠ host ∨ (validateHostname (strBytes h)).toOption = none then return none
  let parsedPort ← demand "invalid port" (parseUnsigned 65535 p)
  if decimal parsedPort ≠ p ∨ parsedPort ≠ port.toNat then return none
  let addr ← demand "invalid IPv4 address" (Ipv4Addr.parse a)
  ensure (ipText addr = a) "non-canonical IPv4 address"
  match checkEndpointIp addr allowPrivate with
  | .error why => .error s!"unsafe endpoint address: {why}"
  | .ok _ =>
    let savedUnixSecs ← loadSaved l₃
    return some { addr, savedUnixSecs }

/-- `load_cache_entry`, from the text on. -/
def loadCacheText (text host : List Char) (port : UInt16) (allowPrivate : Bool) :
    Except String (Option CacheEntry) := do
  let text := stripLast text
  ensure ('\r' ∉ text ∧ text ≠ []) "empty or non-canonical line endings"
  let lines := text.splitOn '\n'
  let lines := if lines.head? = some cacheHeader.toList then lines.tail else lines
  match lines with
  | [l₀, l₁, l₂] => loadCacheLines l₀ l₁ l₂ none host port allowPrivate
  | [l₀, l₁, l₂, l₃] => loadCacheLines l₀ l₁ l₂ (some l₃) host port allowPrivate
  | _ => .error "expected exactly host, port, addr and optional saved fields"

/-- `CACHE_MAX_BYTES`. -/
def cacheMaxBytes : Nat := 4096

/-- `load_cache_entry`. -/
def loadCacheFile (contents : StateContents) (host : List Char) (port : UInt16)
    (allowPrivate : Bool) : Except String (Option CacheEntry) :=
  match contents with
  | .absent => .ok none
  | .refused why => .error why
  | .bytes content => do
      let size := content.size
      ensure (size ≤ cacheMaxBytes) s!"length {size} exceeds limit {cacheMaxBytes}"
      let text ← demand "not UTF-8" (String.fromUTF8? content)
      loadCacheText text.toList host port allowPrivate

end Udp2raw
