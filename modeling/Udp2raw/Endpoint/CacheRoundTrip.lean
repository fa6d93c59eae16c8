import Udp2raw.Endpoint.CacheText
import Udp2raw.Endpoint.Hostname
import Udp2raw.Endpoint.StateCanonical

/-!
# The cache file round trip

What `save_cache_with_policy` writes is read back by `load_cache_entry` for the same
endpoint, and for no other. What `load_cache_entry` returns an entry for is a text of
the prescribed lines, each the print of what was read from it.
-/

namespace Udp2raw

open Text Controller

/-! ## Host names as texts -/

/-- A character whose bytes can stand in a host name is its only byte. -/
theorem utf8EncodeChar_of_host {c : Char} (h : ∀ b ∈ String.utf8EncodeChar c, isHostByte b = true) :
    String.utf8EncodeChar c = [UInt8.ofNat c.toNat] ∧ c.toNat < 128 := by
  have hlead : ∀ n < 256, 192 ≤ n → isHostByte (UInt8.ofNat n) = false := by decide +kernel
  unfold String.utf8EncodeChar at h ⊢
  change _ = [UInt8.ofNat c.val.toNat] ∧ c.val.toNat < 128
  dsimp only at h ⊢
  generalize c.val.toNat = v at h ⊢
  split_ifs at h ⊢ with hone htwo hthree
  · exact ⟨rfl, by omega⟩
  all_goals
    have hfirst := h _ List.mem_cons_self
    rw [hlead _ (by omega) (by omega)] at hfirst
    cases hfirst

/-- A text whose bytes can stand in a host name is those bytes. -/
theorem hostText_strBytes {text : List Char} (h : ∀ b ∈ strBytes text, isHostByte b = true) :
    hostText (strBytes text) = text := by
  induction text with
  | nil => rfl
  | cons c text ih =>
    have hmem : ∀ b, b ∈ strBytes (c :: text) ↔
        b ∈ String.utf8EncodeChar c ∨ b ∈ strBytes text := fun b => by
      rw [strBytes, List.flatMap_cons, List.mem_append]
      rfl
    obtain ⟨hbyte, hascii⟩ := utf8EncodeChar_of_host fun b hb => h b ((hmem b).mpr (.inl hb))
    have hrest := ih fun b hb => h b ((hmem b).mpr (.inr hb))
    have hchar : Char.ofNat (UInt8.ofNat c.toNat).toNat = c := by
      rw [UInt8.toNat_ofNat', Nat.mod_eq_of_lt (by omega), Char.ofNat_toNat]
    rw [strBytes, List.flatMap_cons, hbyte, List.singleton_append, hostText, List.map_cons, hchar]
    exact congrArg (c :: ·) hrest

/-- A host as `save_cache_with_policy` takes it: a plain value of at most 253 characters. -/
structure CacheHost (host : List Char) : Prop where
  nonempty : host ≠ []
  plain : ∀ c ∈ host, plain c = true
  length : host.length ≤ 253

variable {host : List Char} {allowPrivate : Bool} {port : UInt16} {saved : Nat} {entry : CacheEntry}

/-- A valid canonical host name fits on a line of the cache. -/
theorem cacheHost_of_valid (hvalid : validateHostname (strBytes host) = .ok ())
    (hcanonical : strBytes host = canonicalHostname (strBytes host)) : CacheHost host := by
  obtain ⟨n, hname, -, -, hbytes⟩ := validateHostname_ok hvalid
  have hhost : ∀ b ∈ strBytes host, isHostByte b = true := by
    intro b hb
    obtain heq | heq := hname
    · exact hbytes b (heq ▸ hb)
    · rw [heq, List.mem_append, List.mem_singleton] at hb
      obtain hb | rfl := hb
      · exact hbytes b hb
      · decide
  obtain ⟨hplain, hlength⟩ := canonicalHostname_ok hvalid
  rw [← hcanonical] at hplain hlength
  have htext := hostText_strBytes hhost
  refine ⟨fun hnil => ?_, ?_, ?_⟩
  · exact hplain.1 (by rw [hnil]; rfl)
  · rw [← htext]
    exact hplain.2
  · rw [← htext, hostText, List.length_map]
    exact hlength

/-! ## Writing -/

/-- What `save_cache_with_policy` accepts. -/
theorem saveCacheText_eq_ok {addr : Ipv4Addr} {body : String}
    (h : saveCacheText host port addr allowPrivate saved = .ok body) :
    body = cacheBody host port addr saved ∧ CacheHost host ∧
      validateHostname (strBytes host) = .ok () ∧ checkEndpointIp addr allowPrivate = .ok () := by
  unfold saveCacheText at h
  split at h
  · cases h
  next hvalid =>
    obtain ⟨_, hcanonical, h⟩ := Checked.bind_eq_ok.mp h
    obtain ⟨_, -, h⟩ := Checked.bind_eq_ok.mp h
    split at h
    · cases h
    next hcheck =>
      cases h
      exact ⟨rfl, cacheHost_of_valid hvalid (ensure_eq_ok.mp hcanonical), hvalid, hcheck⟩

section

variable {host : List Char} (hhost : CacheHost host) (port : UInt16) (entry : CacheEntry)

include hhost

/-- No line of a cache file has a line end in it. -/
theorem noBreak_cacheLines {c : Char} (hc : c = '\n' ∨ c = '\r') :
    ∀ line ∈ cacheHeader.toList :: cacheFields host port entry, c ∉ line := by
  have hnames : ∀ name ∈ ["host", "port", "addr", "saved"], c ∉ name.toList := by
    obtain rfl | rfl := hc
    · decide
    · decide
  have hheader : c ∉ cacheHeader.toList := by
    obtain rfl | rfl := hc
    · decide +kernel
    · decide +kernel
  intro line hline
  simp only [cacheFields, List.mem_cons, List.mem_append, List.not_mem_nil, or_false,
    List.mem_map] at hline
  obtain rfl | (rfl | rfl | rfl) | ⟨saved, -, rfl⟩ := hline
  · exact hheader
  · exact not_mem_fieldLine hc (hnames _ (by decide)) hhost.plain
  · exact not_mem_fieldLine hc (hnames _ (by decide)) fun c => plain_of_mem_decimal
  · exact not_mem_fieldLine hc (hnames _ (by decide)) fun c => plain_ipText
  · exact not_mem_fieldLine hc (hnames _ (by decide)) fun c => plain_of_mem_decimal

/-- A cache file is far below its limit. -/
theorem size_cacheBody_le {saved : Nat} (hsaved : saved ≤ u64Max) (addr : Ipv4Addr) :
    (cacheBody host port addr saved).toUTF8.size ≤ cacheMaxBytes := by
  have hport : (decimal port.toNat).length ≤ 5 :=
    length_decimal_le (by decide) (port.toNat_lt.trans (by decide))
  have htime : (decimal saved).length ≤ 20 :=
    length_decimal_le (by decide) (hsaved.trans_lt (by decide))
  have haddr := length_ipText_le addr
  have hlength := hhost.length
  have hheader : cacheHeader.toList.length = 68 := by decide +kernel
  have hnames : "host".toList.length = 4 ∧ "port".toList.length = 4 ∧ "addr".toList.length = 4 ∧
      "saved".toList.length = 5 := by decide
  have htext : (unlines (cacheHeader.toList :: cacheFields host port ⟨addr, some saved⟩)).length ≤
      400 := by
    simp only [unlines, cacheFields, Option.toList_some, List.map_cons, List.map_nil,
      List.cons_append, List.nil_append, List.flatMap_cons, List.flatMap_nil, List.length_append,
      fieldLine, List.length_cons, List.length_nil, hheader]
    omega
  refine (size_toUTF8_le _).trans ?_
  rw [cacheMaxBytes]
  omega

end

/-! ## Reading what was written -/

theorem parse_ipText (ip : Ipv4Addr) : Ipv4Addr.parse (ipText ip) = some ip :=
  (Option.filter_eq_some_iff.mp (readIp_ipText ip)).1

theorem ipText_ne_nil (ip : Ipv4Addr) : ipText ip ≠ [] := by
  intro hnil
  have hparse := parse_ipText ip
  rw [hnil] at hparse
  cases hparse

theorem loadSaved_fieldLine (h : saved ≤ u64Max) :
    loadSaved (some (fieldLine "saved" (decimal saved))) = .ok (some saved) := by
  rw [loadSaved, strictField_fieldLine "saved" (decimal_ne_nil _) fun c => plain_of_mem_decimal,
    Checked.ok_bind, parseUnsigned_decimal, if_pos h, demand, Checked.ok_bind, ensure, if_pos rfl]
  rfl

/-- The written lines belong to their endpoint, and to no other. -/
theorem loadCacheLines_cacheFields (hhost : CacheHost host)
    (hvalid : validateHostname (strBytes host) = .ok ()) (port : UInt16) (addr : Ipv4Addr)
    (hsaved : saved ≤ u64Max) (host' : List Char) (port' : UInt16) (allowPrivate : Bool) :
    loadCacheLines (fieldLine "host" host) (fieldLine "port" (decimal port.toNat))
        (fieldLine "addr" (ipText addr)) (some (fieldLine "saved" (decimal saved))) host' port'
        allowPrivate =
      if host = host' ∧ port = port' then
        match checkEndpointIp addr allowPrivate with
        | .error why => .error s!"unsafe endpoint address: {why}"
        | .ok _ => .ok (some ⟨addr, some saved⟩)
      else .ok none := by
  have hrange : port.toNat ≤ 65535 := Nat.le_of_lt_succ port.toNat_lt
  rw [loadCacheLines, strictField_fieldLine "host" hhost.nonempty hhost.plain, Checked.ok_bind,
    strictField_fieldLine "port" (decimal_ne_nil _) fun c => plain_of_mem_decimal,
    Checked.ok_bind, strictField_fieldLine "addr" (ipText_ne_nil addr) fun c => plain_ipText,
    Checked.ok_bind]
  by_cases hsame : host = host'
  · have hknown : ¬ (host ≠ host' ∨ (validateHostname (strBytes host)).toOption = none) := by
      rw [hvalid]
      simp [hsame, Except.toOption]
    rw [if_neg hknown, parseUnsigned_decimal, if_pos hrange, demand, Checked.ok_bind]
    by_cases hport : port = port'
    · rw [if_neg (by simp [hport]), parse_ipText, demand, Checked.ok_bind, ensure, if_pos rfl,
        Checked.ok_bind, if_pos ⟨hsame, hport⟩, loadSaved_fieldLine hsaved]
      rfl
    · rw [if_pos (.inr fun heq => hport (UInt16.toNat_inj.mp heq)),
        if_neg fun hboth => hport hboth.2]
      rfl
  · rw [if_pos (.inl hsame), if_neg fun hboth => hsame hboth.1]
    rfl

/-- The reader splits the written text into its four fields. -/
theorem loadCacheText_cacheBody (hhost : CacheHost host) (port : UInt16) (addr : Ipv4Addr)
    (saved : Nat) (host' : List Char) (port' : UInt16) (allowPrivate : Bool) :
    loadCacheText (cacheBody host port addr saved).toList host' port' allowPrivate =
      loadCacheLines (fieldLine "host" host) (fieldLine "port" (decimal port.toNat))
        (fieldLine "addr" (ipText addr)) (some (fieldLine "saved" (decimal saved))) host' port'
        allowPrivate := by
  have hbreak := noBreak_cacheLines hhost port ⟨addr, some saved⟩ (.inl rfl)
  have hends := ends_unlines (by simp [cacheFields]) hbreak
    (noBreak_cacheLines hhost port ⟨addr, some saved⟩ (.inr rfl))
  have hsplit := lines_unlines (List.cons_ne_nil _ _) hbreak
  rw [loadCacheText, cacheBody, String.toList_ofList]
  dsimp only
  rw [ensure, if_pos hends, Checked.ok_bind, hsplit, List.head?_cons, if_pos rfl]
  rfl

theorem loadCacheFile_cacheBody (hhost : CacheHost host) (port : UInt16) (addr : Ipv4Addr)
    (hsaved : saved ≤ u64Max) (host' : List Char) (port' : UInt16) (allowPrivate : Bool) :
    loadCacheFile (.bytes (cacheBody host port addr saved).toUTF8) host' port' allowPrivate =
      loadCacheText (cacheBody host port addr saved).toList host' port' allowPrivate := by
  rw [loadCacheFile, ensure, if_pos (size_cacheBody_le hhost port hsaved addr), Checked.ok_bind,
    fromUTF8?_toUTF8, demand, Checked.ok_bind]

/-! ## What is read -/

/-- A time that is read stands on the line in its one canonical form. -/
theorem loadSaved_eq_ok {line : Option (List Char)} {saved : Option Nat}
    (h : loadSaved line = .ok saved) :
    line = saved.map (fun n => fieldLine "saved" (decimal n)) ∧ ∀ n ∈ saved, n ≤ u64Max := by
  cases line with
  | none =>
    cases h
    exact ⟨rfl, fun n hn => by cases hn⟩
  | some line =>
    obtain ⟨value, hvalue, h⟩ := Checked.bind_eq_ok.mp h
    obtain ⟨n, hn, h⟩ := Checked.bind_eq_ok.mp h
    obtain ⟨_, hprint, h⟩ := Checked.bind_eq_ok.mp h
    cases h
    have hprint := ensure_eq_ok.mp hprint
    have hread := demand_eq_ok.mp hn
    rw [← hprint, parseUnsigned_decimal] at hread
    split_ifs at hread with hmax
    refine ⟨?_, fun m hm => ?_⟩
    · rw [eq_fieldLine hvalue, ← hprint]
      rfl
    · cases hm
      exact hmax

/-- Lines that give an entry are the lines of that entry, for the endpoint asked for. -/
theorem loadCacheLines_eq_some {l₀ l₁ l₂ : List Char} {l₃ : Option (List Char)}
    (h : loadCacheLines l₀ l₁ l₂ l₃ host port allowPrivate = .ok (some entry)) :
    l₀ :: l₁ :: l₂ :: l₃.toList = cacheFields host port entry ∧
      validateHostname (strBytes host) = .ok () ∧ endpointIpOk entry.addr allowPrivate = true ∧
      ∀ saved ∈ entry.savedUnixSecs, saved ≤ u64Max := by
  obtain ⟨hostField, hhostLine, h⟩ := Checked.bind_eq_ok.mp h
  obtain ⟨portField, hportLine, h⟩ := Checked.bind_eq_ok.mp h
  obtain ⟨addrField, haddrLine, h⟩ := Checked.bind_eq_ok.mp h
  split_ifs at h with hhost
  · cases h
  obtain ⟨parsedPort, hparsed, h⟩ := Checked.bind_eq_ok.mp h
  split_ifs at h with hport
  · cases h
  obtain ⟨addr, haddr, h⟩ := Checked.bind_eq_ok.mp h
  obtain ⟨_, hprint, h⟩ := Checked.bind_eq_ok.mp h
  split at h
  · cases h
  next hcheck =>
    obtain ⟨saved, hsaved, h⟩ := Checked.bind_eq_ok.mp h
    cases h
    obtain ⟨rfl, hrange⟩ := loadSaved_eq_ok hsaved
    simp only [not_or, not_not] at hhost hport
    obtain ⟨rfl, hvalid⟩ := hhost
    obtain ⟨hcanonical, rfl⟩ := hport
    refine ⟨?_, ?_, endpointIpOk_iff.mpr hcheck, hrange⟩
    · rw [eq_fieldLine hhostLine, eq_fieldLine hportLine, eq_fieldLine haddrLine, ← hcanonical,
        ← ensure_eq_ok.mp hprint]
      cases saved <;> rfl
    · cases hv : validateHostname (strBytes hostField) with
      | error why => simp [hv, Except.toOption] at hvalid
      | ok u => rfl

/-- A text that loads is the canonical text of what it loads. -/
theorem loadCacheText_eq_some {text : List Char}
    (h : loadCacheText text host port allowPrivate = .ok (some entry)) :
    (stripLast text = ['\n'].intercalate (cacheFields host port entry) ∨
      stripLast text = ['\n'].intercalate (cacheHeader.toList :: cacheFields host port entry)) ∧
      validateHostname (strBytes host) = .ok () ∧ endpointIpOk entry.addr allowPrivate = true ∧
      ∀ saved ∈ entry.savedUnixSecs, saved ≤ u64Max := by
  obtain ⟨_, -, h⟩ := Checked.bind_eq_ok.mp h
  have htext : ['\n'].intercalate ((stripLast text).splitOn '\n') = stripLast text :=
    List.intercalate_splitOn '\n'
  dsimp only at h
  generalize hlines : (if ((stripLast text).splitOn '\n').head? = some cacheHeader.toList then
    ((stripLast text).splitOn '\n').tail else (stripLast text).splitOn '\n') = lines at h
  -- the lines without the comment are those of the entry
  obtain ⟨hfields, hrest⟩ : lines = cacheFields host port entry ∧
      validateHostname (strBytes host) = .ok () ∧ endpointIpOk entry.addr allowPrivate = true ∧
      ∀ saved ∈ entry.savedUnixSecs, saved ≤ u64Max := by
    split at h
    · exact loadCacheLines_eq_some h
    · exact loadCacheLines_eq_some h
    · cases h
  refine ⟨?_, hrest⟩
  rw [← hfields, ← hlines]
  split_ifs with hheader
  · right
    cases hsplit : (stripLast text).splitOn '\n' with
    | nil => exact absurd hsplit (List.splitOn_ne_nil _ _)
    | cons first rest =>
      rw [hsplit] at hheader htext
      rw [← htext, Option.some.inj hheader]
      rfl
  · exact .inl htext.symm

/-- The text of a cache file for an endpoint: the fields, with or without the comment before them
and the end of the last line. -/
def IsCacheText (host : List Char) (port : UInt16) (entry : CacheEntry) (text : String) : Prop :=
  ∃ lines ∈ [cacheFields host port entry, cacheHeader.toList :: cacheFields host port entry],
    text.toList = ['\n'].intercalate lines ∨ text.toList = unlines lines

/-- What `load_cache_entry` takes an entry from. -/
theorem loadCacheFile_eq_some {content : ByteArray}
    (h : loadCacheFile (.bytes content) host port allowPrivate = .ok (some entry)) :
    content.size ≤ cacheMaxBytes ∧
      (∃ text : String, content = text.toUTF8 ∧ IsCacheText host port entry text) ∧
      validateHostname (strBytes host) = .ok () ∧ endpointIpOk entry.addr allowPrivate = true ∧
      ∀ saved ∈ entry.savedUnixSecs, saved ≤ u64Max := by
  obtain ⟨_, hsize, h⟩ := Checked.bind_eq_ok.mp h
  obtain ⟨text, htext, h⟩ := Checked.bind_eq_ok.mp h
  obtain ⟨hlines, hrest⟩ := loadCacheText_eq_some h
  refine ⟨ensure_eq_ok.mp hsize, ⟨text, toUTF8_of_fromUTF8? (demand_eq_ok.mp htext), ?_⟩, hrest⟩
  obtain hlines | hlines := hlines
  · exact ⟨_, List.mem_cons_self, eq_of_stripLast (List.cons_ne_nil _ _) hlines⟩
  · exact ⟨_, List.mem_cons_of_mem _ List.mem_cons_self,
      eq_of_stripLast (List.cons_ne_nil _ _) hlines⟩

/-- What `save_cache_with_policy` writes at a time is within the size limit and read back as the
address with that time, and for another host or another port as no entry. An entry is only read
from the prescribed lines for the host and port asked for, with an address in canonical form that
the policy approves and a time in canonical form, if there is one. -/
theorem cache_round_trip :
    (∀ (host : List Char) (port : UInt16) (addr : Ipv4Addr) (allowPrivate : Bool) (w : UInt64)
      (body : String), saveCacheText host port addr allowPrivate w.toNat = .ok body →
      body.toUTF8.size ≤ 4096 ∧
        loadCacheFile (.bytes body.toUTF8) host port allowPrivate =
          .ok (some ⟨addr, some w.toNat⟩) ∧
        ∀ (host' : List Char) (port' : UInt16) (allowPrivate' : Bool),
          host' ≠ host ∨ port' ≠ port →
          loadCacheFile (.bytes body.toUTF8) host' port' allowPrivate' = .ok none) ∧
    ∀ (content : ByteArray) (host : List Char) (port : UInt16) (allowPrivate : Bool)
      (entry : CacheEntry),
      loadCacheFile (.bytes content) host port allowPrivate = .ok (some entry) →
      content.size ≤ 4096 ∧
        (∃ text : String, content = text.toUTF8 ∧ IsCacheText host port entry text) ∧
        validateHostname (strBytes host) = .ok () ∧
        checkEndpointIp entry.addr allowPrivate = .ok () ∧
        ∀ saved ∈ entry.savedUnixSecs, saved < 2 ^ 64 := by
  constructor
  · intro host port addr allowPrivate w body h
    obtain ⟨rfl, hhost, hvalid, hcheck⟩ := saveCacheText_eq_ok h
    have hsaved : w.toNat ≤ u64Max := Nat.le_of_lt_succ w.toNat_lt
    refine ⟨size_cacheBody_le hhost port hsaved addr, ?_, ?_⟩
    · rw [loadCacheFile_cacheBody hhost port addr hsaved, loadCacheText_cacheBody hhost,
        loadCacheLines_cacheFields hhost hvalid port addr hsaved, if_pos ⟨rfl, rfl⟩, hcheck]
    · intro host' port' allowPrivate' hother
      rw [loadCacheFile_cacheBody hhost port addr hsaved, loadCacheText_cacheBody hhost,
        loadCacheLines_cacheFields hhost hvalid port addr hsaved]
      refine if_neg fun hboth => ?_
      obtain hne | hne := hother
      · exact hne hboth.1.symm
      · exact hne hboth.2.symm
  · intro content host port allowPrivate entry h
    obtain ⟨hsize, htext, hvalid, hok, hrange⟩ := loadCacheFile_eq_some h
    exact ⟨hsize, htext, hvalid, endpointIpOk_iff.mp hok,
      fun saved hmem => Nat.lt_succ_of_le (hrange saved hmem)⟩

/-- The file for `x.y` on port 443 with the address 1.2.3.4. -/
theorem cache_round_trip_xy :
    let addr : Ipv4Addr := ⟨⟨[1, 2, 3, 4]⟩, rfl⟩
    ∃ body, saveCacheText ['x', '.', 'y'] 443 addr false 1700000000 = .ok body ∧
      loadCacheFile (.bytes body.toUTF8) ['x', '.', 'y'] 443 false =
        .ok (some ⟨addr, some 1700000000⟩) ∧
      loadCacheFile (.bytes body.toUTF8) ['x', '.', 'z'] 443 false = .ok none ∧
      IsCacheText ['x', '.', 'y'] 443 ⟨addr, some 1700000000⟩ body := by
  intro addr
  have hsave : saveCacheText ['x', '.', 'y'] 443 addr false (1700000000 : UInt64).toNat =
      .ok (cacheBody ['x', '.', 'y'] 443 addr 1700000000) := rfl
  obtain ⟨-, hload, hother⟩ := cache_round_trip.1 _ _ _ _ _ _ hsave
  obtain ⟨-, ⟨text, htext, hlines⟩, -⟩ := cache_round_trip.2 _ _ _ _ _ hload
  exact ⟨_, hsave, hload, hother _ _ _ (.inl (by decide)), String.toByteArray_inj.mp htext ▸ hlines⟩

end Udp2raw
