import Udp2raw.Endpoint.Controller

/-!
# The interpretation of a DNS reply

`interpret` of `dns.rs`: from the query name along the CNAME records of the answer
section to a name with A records. A DNS library decodes the messages; its names are
a parameter here, with what the interpretation relies on.
-/

namespace Udp2raw.Dns

/-- `str::eq_ignore_ascii_case`. -/
def eqIgnoreAsciiCase (a b : String) : Bool :=
  a.toList.map Char.toLower == b.toList.map Char.toLower

/-- The library's `Name`, on absolute names: the comparison ignores case, and the text of a name
determines the name up to it. -/
structure Names (N : Type) where
  same : N → N → Bool
  toAscii : N → String
  same_refl : ∀ a, same a a = true
  same_symm : ∀ {a b}, same a b = true → same b a = true
  same_trans : ∀ {a b c}, same a b = true → same b c = true → same a c = true
  same_of_text : ∀ {a b}, eqIgnoreAsciiCase (toAscii a) (toAscii b) = true → same a b = true

/-- The library's `OpCode`. -/
inductive OpCode where
  | query
  | status
  | notify
  | update
  | unknown (code : UInt8)
  deriving DecidableEq, Repr

/-- How `OpCode` is printed with `{:?}`. -/
def OpCode.debugText : OpCode → String
  | .query => "Query"
  | .status => "Status"
  | .notify => "Notify"
  | .update => "Update"
  | .unknown code => "Unknown(" ++ toString code.toNat ++ ")"

/-- The library's `ResponseCode`; only the first two are told apart here. -/
inductive ResponseCode where
  | noError
  | nxDomain
  | other (code : UInt16)
  deriving DecidableEq, Repr

/-- The library's `RData`; only addresses and aliases are read. -/
inductive RData (N : Type) where
  | a (addr : Ipv4Addr)
  | cname (target : N)
  | other

/-- A record of the answer section. -/
structure Record (N : Type) where
  name : N
  ttl : UInt32
  data : RData N

/-- What `interpret` reads of a message. -/
structure Message (N : Type) where
  opCode : OpCode
  responseCode : ResponseCode
  answers : List (Record N)

/-- The errors of `interpret`. -/
inductive DnsError where
  | nxDomain
  | noData
  | rcode (code : ResponseCode)
  | malformed (text : String)
  deriving DecidableEq, Repr

/-- The answer with all that `interpret` says about it. -/
structure Answer where
  addrs : List Ipv4Addr
  ttl : UInt32
  rawTtl : UInt32
  server : IpAddr × UInt16
  cnames : List String
  viaTcp : Bool
  deriving DecidableEq, Repr

/-- `TTL_MIN_SECS`. -/
def ttlMinSecs : UInt32 := 10

/-- `TTL_MAX_SECS`. -/
def ttlMaxSecs : UInt32 := 3600

/-- `MAX_CNAME_HOPS`. -/
def maxCnameHops : Nat := 8

/-- `u32::min`. -/
def minTtl (a b : UInt32) : UInt32 := if a ≤ b then a else b

/-- `u32::clamp`. -/
def clampTtl (lo hi ttl : UInt32) : UInt32 := if ttl < lo then lo else if hi < ttl then hi else ttl

/-- The least of the times, and `u32::MAX` if there is none. -/
def leastTtl (ttls : List UInt32) : UInt32 := ttls.foldl minTtl 0xffffffff

section

variable {N : Type}

/-- The address of an A record with its time to live. -/
def Record.address? (r : Record N) : Option (Ipv4Addr × UInt32) :=
  match r.data with
  | .a addr => some (addr, r.ttl)
  | _ => none

/-- The target of a CNAME record with its time to live. -/
def Record.alias? (r : Record N) : Option (N × UInt32) :=
  match r.data with
  | .cname target => some (target, r.ttl)
  | _ => none

/-- The variables of the loop in `interpret`. -/
structure Search (N : Type) where
  name : N
  cnames : List String
  chainTtl : UInt32

/-- What a round of the loop comes to. -/
inductive Round (N : Type) where
  | done (result : Except DnsError Answer)
  | again (s : Search N)

variable (names : Names N)

/-- The records of a name. -/
def recordsOf (answers : List (Record N)) (name : N) : List (Record N) :=
  answers.filter fun r => names.same r.name name

/-- The addresses of a name, with the times of their records. -/
def addressesOf (answers : List (Record N)) (name : N) : List (Ipv4Addr × UInt32) :=
  (recordsOf names answers name).filterMap Record.address?

/-- The targets of a name, with the times of their records. -/
def aliasesOf (answers : List (Record N)) (name : N) : List (N × UInt32) :=
  (recordsOf names answers name).filterMap Record.alias?

variable (answers : List (Record N)) (server : IpAddr × UInt16) (viaTcp : Bool)

/-- The body of the loop in `interpret`. -/
def round (s : Search N) : Round N :=
  let found := addressesOf names answers s.name
  let addressTtl := leastTtl (found.map Prod.snd)
  if found ≠ [] then
    if (recordsOf names answers s.name).any fun r => r.alias?.isSome then
      .done (.error (.malformed (names.toAscii s.name ++ " has both CNAME and A records")))
    else
      let rawTtl := minTtl s.chainTtl addressTtl
      .done (.ok {
        addrs := found.map Prod.fst
        ttl := clampTtl ttlMinSecs ttlMaxSecs rawTtl
        rawTtl
        server
        cnames := s.cnames
        viaTcp })
  else
    let cnameRecords := aliasesOf names answers s.name
    match cnameRecords.head? with
    | some first =>
      let target := first.1
      if cnameRecords.any fun c => !names.same c.1 target then
        .done (.error (.malformed ("conflicting CNAME records for " ++ names.toAscii s.name)))
      else
        let ttl := leastTtl (cnameRecords.map Prod.snd)
        if maxCnameHops ≤ s.cnames.length then
          .done (.error (.malformed "cname chain too long"))
        else if names.same target s.name ∨
            s.cnames.any fun c => eqIgnoreAsciiCase c (names.toAscii target) then
          .done (.error (.malformed "cname loop"))
        else
          .again {
            name := target
            cnames := s.cnames ++ [names.toAscii target]
            chainTtl := minTtl s.chainTtl ttl }
    | none => .done (.error .noData)

/-- A round that goes on follows an alias. -/
theorem round_again {s s' : Search N} (h : round names answers server viaTcp s = .again s') :
    addressesOf names answers s.name = [] ∧
      s.cnames.length < maxCnameHops ∧
      ∃ first ∈ aliasesOf names answers s.name,
        (∀ c ∈ aliasesOf names answers s.name, names.same c.1 first.1 = true) ∧
        s' = {
          name := first.1
          cnames := s.cnames ++ [names.toAscii first.1]
          chainTtl :=
            minTtl s.chainTtl (leastTtl ((aliasesOf names answers s.name).map Prod.snd)) } := by
  unfold round at h
  dsimp only at h
  split at h
  · split at h <;> cases h
  next hfound =>
    split at h
    next first hfirst =>
      split at h
      · cases h
      next hsame =>
        split at h
        · cases h
        next hhops =>
          split at h
          · cases h
          · cases h
            refine ⟨not_not.mp hfound, Nat.lt_of_not_le hhops, first, List.mem_of_head? hfirst,
              fun c hc => ?_, rfl⟩
            simpa using List.any_eq_false.mp (Bool.eq_false_of_not_eq_true hsame) c hc
    · cases h

/-- The loop of `interpret`. -/
def interpretLoop (s : Search N) : Except DnsError Answer :=
  match _h : round names answers server viaTcp s with
  | .done result => result
  | .again s' => interpretLoop s'
termination_by maxCnameHops - s.cnames.length
decreasing_by
  obtain ⟨-, hhops, first, -, -, rfl⟩ := round_again names answers server viaTcp _h
  rw [List.length_append, List.length_singleton]
  omega

/-- `interpret`. -/
def interpret (m : Message N) (qname : N) (server : IpAddr × UInt16) (viaTcp : Bool) :
    Except DnsError Answer :=
  if m.opCode ≠ .query then
    .error (.malformed ("opcode " ++ m.opCode.debugText))
  else
    match m.responseCode with
    | .noError =>
      interpretLoop names m.answers server viaTcp
        { name := qname, cnames := [], chainTtl := leastTtl [] }
    | .nxDomain => .error .nxDomain
    | rc => .error (.rcode rc)

end

end Udp2raw.Dns
