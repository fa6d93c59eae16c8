import Udp2raw.Core.Text
import Udp2raw.Endpoint.Budget

/-!
# The text of the state file

`serialize_fallback_state` and `load_fallback_state` on the bytes of the file: a
header, the identity of the endpoint, the global bucket, and a line for every pair of
address and DNS set. Everything is read strictly: a document is accepted only in the
form it is written in.
-/

namespace Udp2raw

open Text

/-! ## Addresses -/

/-- `Ipv4Addr::to_string`. -/
def ipText (ip : Ipv4Addr) : List Char :=
  ['.'].intercalate (ip.toList.map fun o => decimal o.toNat)

/-- One part of an address: up to three digits, without leading zeros. -/
def parseOctet (part : List Char) : Option UInt8 :=
  if part.length ≤ 3 ∧ (part.length = 1 ∨ part.head? ≠ some '0') ∧ part.head? ≠ some '+' then
    (parseUnsigned 255 part).map UInt8.ofNat
  else none

/-- `str::parse::<Ipv4Addr>`. -/
def Ipv4Addr.parse (text : List Char) : Option Ipv4Addr :=
  match text.splitOn '.' with
  | [a, b, c, d] => do
      let a ← parseOctet a
      let b ← parseOctet b
      let c ← parseOctet c
      let d ← parseOctet d
      some #v[a, b, c, d]
  | _ => none

/-! ## Writing -/

/-- A host name as a text; the names `validate_hostname` accepts are ASCII. -/
def hostText (host : List UInt8) : List Char := host.map fun b => Char.ofNat b.toNat

/-- A line with a name and a value. -/
def fieldLine (name : String) (value : List Char) : List Char := name.toList ++ '=' :: value

/-- The value of an `entry` line. -/
def entryText (e : BudgetEntry) : List Char :=
  ['|'].intercalate [ipText e.candidate, decimal e.charged, decimal e.notBeforeUnixSecs,
    decimal e.lastUsedUnixSecs, [','].intercalate (e.dnsSet.map ipText)]

/-- The first line. -/
def stateHeader : String := "# udp2raw fallback state v1"

/-- The lines of a document about the host with this text. -/
def documentLines (host : List Char) (port : UInt16) (state : FallbackState) : List (List Char) :=
  [stateHeader.toList, fieldLine "version" ['1'], fieldLine "host" host,
    fieldLine "port" (decimal port.toNat), fieldLine "global_tokens" (decimal state.globalTokens),
    fieldLine "global_updated" (decimal state.globalUpdatedUnixSecs)]
  ++ state.entries.map fun e => fieldLine "entry" (entryText e)

/-- `serialize_fallback_state`, for any text as host. -/
def serializeDocument (host : List Char) (port : UInt16) (state : FallbackState) : String :=
  String.ofList (unlines (documentLines host port state))

/-- The lines of a document. -/
abbrev stateLines (host : List UInt8) (port : UInt16) (state : FallbackState) : List (List Char) :=
  documentLines (hostText host) port state

/-- `serialize_fallback_state`. -/
abbrev serializeFallbackState (host : List UInt8) (port : UInt16) (state : FallbackState) :
    String :=
  serializeDocument (hostText host) port state

/-! ## Reading -/

/-- `strict_field`. -/
def strictField (line : List Char) (name : String) : Except String (List Char) := do
  let value ← demand s!"expected {name}= field" (line.dropPrefix? (name.toList ++ ['=']))
  ensure (value ≠ [] ∧ trim value = value ∧ '=' ∉ value) s!"non-canonical {name} field"
  .ok value

/-- A number in canonical form. -/
def parseStateNumber (max : Nat) (value : List Char) (field : String) : Except String Nat := do
  let parsed ← demand s!"invalid {field}" (parseUnsigned max value)
  ensure (decimal parsed = value) s!"non-canonical {field}"
  .ok parsed

/-- `parse_state_u32`. -/
def parseStateU32 (value : List Char) (field : String) : Except String Nat :=
  parseStateNumber u32Max value field

/-- `parse_state_u64`. -/
def parseStateU64 (value : List Char) (field : String) : Except String Nat :=
  parseStateNumber u64Max value field

/-- `parse_state_ip`. -/
def parseStateIp (value : List Char) (allowPrivate : Bool) : Except String Ipv4Addr := do
  let ip ← demand "invalid state IPv4 address" (Ipv4Addr.parse value)
  ensure (ipText ip = value) "non-canonical state IPv4 address"
  match checkEndpointIp ip allowPrivate with
  | .error why => .error s!"unsafe state address: {why}"
  | .ok _ => .ok ip

/-- One `entry` line, after the entries before it. -/
def loadEntry (allowPrivate : Bool) (wallNow : Nat) (entries : List BudgetEntry)
    (line : List Char) : Except String BudgetEntry := do
  let raw ← strictField line "entry"
  match raw.splitOn '|' with
  | [f₀, f₁, f₂, f₃, f₄] => do
      let candidate ← parseStateIp f₀ allowPrivate
      let charged ← parseStateU32 f₁ "charged count"
      let notBeforeUnixSecs ← parseStateU64 f₂ "cooldown timestamp"
      let lastUsedUnixSecs ← parseStateU64 f₃ "last-used timestamp"
      ensure (charged ≠ 0) "zero-charge entry"
      ensure (lastUsedUnixSecs ≤ satAdd wallNow 300)
        "last-used timestamp is implausibly far in the future"
      ensure (lastUsedUnixSecs ≤ notBeforeUnixSecs ∧
          notBeforeUnixSecs - lastUsedUnixSecs ≤ maxPersistedCooldownSecs)
        "invalid cooldown/last-used timestamp relation"
      let dnsSet ← (f₄.splitOn ',').mapM fun value => parseStateIp value allowPrivate
      ensure (dnsSet = sortDedup dnsSet ∧ dnsSet ≠ [] ∧ dnsSet.length ≤ maxEndpointCandidates)
        "non-canonical DNS set in fallback state"
      ensure (∀ e ∈ entries, ¬ (e.candidate = candidate ∧ e.dnsSet = dnsSet))
        "duplicate fallback budget entry"
      .ok { candidate, dnsSet, charged, notBeforeUnixSecs, lastUsedUnixSecs }
  | _ => .error "invalid fallback budget entry"

/-- The loop over the `entry` lines. -/
def loadEntries (allowPrivate : Bool) (wallNow : Nat) (entries : List BudgetEntry) :
    List (List Char) → Except String (List BudgetEntry)
  | [] => .ok entries
  | line :: lines => do
      let entry ← loadEntry allowPrivate wallNow entries line
      loadEntries allowPrivate wallNow (entries ++ [entry]) lines

/-- `load_fallback_state`, from the text on, for any text as host. -/
def loadDocument (text : List Char) (host : List Char) (port : UInt16) (capacity : Nat)
    (allowPrivate : Bool) (wallNow : Nat) : Except String FallbackState := do
  let text := stripLast text
  ensure ('\r' ∉ text ∧ text ≠ []) "empty fallback state or non-canonical line endings"
  match text.splitOn '\n' with
  | l₀ :: l₁ :: l₂ :: l₃ :: l₄ :: l₅ :: lines => do
      ensure (lines.length ≤ maxBudgetEntries) "fallback state has an invalid number of fields"
      ensure (l₀ = stateHeader.toList) "unsupported fallback state version"
      let version ← strictField l₁ "version"
      ensure (version = ['1']) "unsupported fallback state version"
      let hostField ← strictField l₂ "host"
      ensure (hostField = host) "fallback state endpoint identity mismatch"
      let portField ← strictField l₃ "port"
      ensure (portField = decimal port.toNat) "fallback state endpoint identity mismatch"
      let tokensField ← strictField l₄ "global_tokens"
      let globalTokens ← parseStateU32 tokensField "global token count"
      ensure (globalTokens ≤ capacity) "global token count exceeds configured capacity"
      let updatedField ← strictField l₅ "global_updated"
      let globalUpdatedUnixSecs ← parseStateU64 updatedField "global update timestamp"
      ensure (globalUpdatedUnixSecs ≤ satAdd wallNow 300)
        "global update timestamp is implausibly far in the future"
      let entries ← loadEntries allowPrivate wallNow [] lines
      .ok { globalTokens, globalUpdatedUnixSecs, entries }
  | _ => .error "fallback state has an invalid number of fields"

/-- `load_fallback_state`, from the text on. -/
abbrev loadFallbackText (text : List Char) (host : List UInt8) (port : UInt16) (capacity : Nat)
    (allowPrivate : Bool) (wallNow : Nat) : Except String FallbackState :=
  loadDocument text (hostText host) port capacity allowPrivate wallNow

/-- `STATE_MAX_BYTES`. -/
def stateMaxBytes : Nat := 16 * 1024

/-- What `read_owner_only` finds at the pathname of the state file. -/
inductive StateContents where
  | absent
  /-- A file that may not be read, or not trusted, and why. -/
  | refused (why : String)
  | bytes (content : ByteArray)

/-- `load_fallback_state`, for any text as host. -/
def loadContents (contents : StateContents) (host : List Char) (port : UInt16)
    (capacity : Nat) (allowPrivate : Bool) (wallNow : Nat) :
    Except String (Option FallbackState) :=
  match contents with
  | .absent => .ok none
  | .refused why => .error why
  | .bytes content => do
      let size := content.size
      ensure (size ≤ stateMaxBytes) s!"length {size} exceeds limit {stateMaxBytes}"
      let text ← demand "fallback state is not UTF-8" (String.fromUTF8? content)
      let state ← loadDocument text.toList host port capacity allowPrivate wallNow
      .ok (some state)

/-- `load_fallback_state`. -/
abbrev loadFallbackFile (contents : StateContents) (host : List UInt8) (port : UInt16)
    (capacity : Nat) (allowPrivate : Bool) (wallNow : Nat) :
    Except String (Option FallbackState) :=
  loadContents contents (hostText host) port capacity allowPrivate wallNow

/-! ## What a file says -/

/-- An address in the form it is written in. -/
def readIp (value : List Char) : Option Ipv4Addr :=
  (Ipv4Addr.parse value).filter fun ip => ipText ip = value

/-- The entry of a line. -/
def readEntry (line : List Char) : Option BudgetEntry := do
  let raw ← (strictField line "entry").toOption
  match raw.splitOn '|' with
  | [f₀, f₁, f₂, f₃, f₄] => do
      let candidate ← readIp f₀
      let charged ← parseCanonical u32Max f₁
      let notBeforeUnixSecs ← parseCanonical u64Max f₂
      let lastUsedUnixSecs ← parseCanonical u64Max f₃
      let dnsSet ← (f₄.splitOn ',').mapM readIp
      some { candidate, dnsSet, charged, notBeforeUnixSecs, lastUsedUnixSecs }
  | _ => none

/-- The host name a text can be. -/
def readHost (value : List Char) : Option (List UInt8) :=
  if value.all fun c => c.toNat < 256 then some (value.map fun c => UInt8.ofNat c.toNat) else none

/-- The endpoint and the state a text names, whatever they are. -/
def readDocument (text : List Char) : Option (List UInt8 × UInt16 × FallbackState) :=
  if '\r' ∉ stripLast text ∧ stripLast text ≠ [] then
    match (stripLast text).splitOn '\n' with
    | l₀ :: l₁ :: l₂ :: l₃ :: l₄ :: l₅ :: lines =>
      if l₀ = stateHeader.toList ∧ (strictField l₁ "version").toOption = some ['1'] then do
        let host ← (strictField l₂ "host").toOption.bind readHost
        let port ← (strictField l₃ "port").toOption.bind (parseCanonical 65535)
        let globalTokens ←
          (strictField l₄ "global_tokens").toOption.bind (parseCanonical u32Max)
        let globalUpdatedUnixSecs ←
          (strictField l₅ "global_updated").toOption.bind (parseCanonical u64Max)
        let entries ← lines.mapM readEntry
        some (host, UInt16.ofNat port, { globalTokens, globalUpdatedUnixSecs, entries })
      else none
    | _ => none
  else none

/-- What the pathname of the state file leads to, by its contents. -/
def StateFile.ofContents : StateContents → StateFile
  | .absent => .absent
  | .refused _ => .unreadable
  | .bytes content =>
    if content.size ≤ stateMaxBytes then
      match (String.fromUTF8? content).bind fun text => readDocument text.toList with
      | some (host, port, state) => .document host port state
      | none => .unreadable
    else .unreadable

end Udp2raw
