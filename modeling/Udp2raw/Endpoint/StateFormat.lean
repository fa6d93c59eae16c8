import Udp2raw.Endpoint.Entries
import Udp2raw.Endpoint.StateText
import Udp2raw.Endpoint.Steps

/-!
# The format of the state file

The bytes of a state file are first a document, whatever it says, and then a state
that is accepted or not. So the controllers that work on documents do what the
controllers that work on bytes do. What they write is read back as it was.
-/

namespace Udp2raw

open Text

/-! ## Reading is reading a document and checking it -/

/-- Up to the error text the source reads a canonical number. -/
theorem toOption_parseStateNumber (max : Nat) (value : List Char) (field : String) :
    (parseStateNumber max value field).toOption = parseCanonical max value := by
  simp only [parseStateNumber, toOption_bind, toOption_demand, toOption_ensure, ite_some_bind,
    parseCanonical]
  cases parseUnsigned max value with
  | none => rfl
  | some n =>
    rw [Option.bind_some, Option.filter_some]
    simp only [decide_eq_true_eq]
    rfl

/-- Up to the error text the source reads an address and checks it. -/
theorem toOption_parseStateIp (value : List Char) (allowPrivate : Bool) :
    (parseStateIp value allowPrivate).toOption
      = (readIp value).filter fun ip => endpointIpOk ip allowPrivate := by
  simp only [parseStateIp, toOption_bind, toOption_demand, toOption_ensure, ite_some_bind, readIp]
  cases Ipv4Addr.parse value with
  | none => rfl
  | some ip =>
    rw [Option.bind_some, Option.filter_some]
    by_cases hcanonical : ipText ip = value
    · simp only [hcanonical, decide_true, if_true, Option.filter_some, endpointIpOk]
      cases checkEndpointIp ip allowPrivate <;> rfl
    · simp only [hcanonical, decide_false]
      rfl

/-- An entry is read, then checked by itself and against those before it. -/
theorem toOption_loadEntry (allowPrivate : Bool) (wallNow : Nat) (entries : List BudgetEntry)
    (line : List Char) :
    (loadEntry allowPrivate wallNow entries line).toOption = (readEntry line).filter fun e =>
      e.loadable allowPrivate wallNow && decide (e.key ∉ entries.map BudgetEntry.key) := by
  simp only [loadEntry, readEntry, toOption_bind]
  cases (strictField line "entry").toOption with
  | none => rfl
  | some raw =>
    simp only [Option.bind_some, Option.bind_eq_bind]
    generalize raw.splitOn '|' = fields
    split
    next f₀ f₁ f₂ f₃ f₄ =>
      simp only [toOption_bind, toOption_ensure, ite_some_bind, parseStateU32, parseStateU64,
        toOption_parseStateNumber, toOption_parseStateIp, toOption_mapM, mapM_filter]
      cases readIp f₀ with
      | none => rfl
      | some candidate =>
        cases parseCanonical u32Max f₁ with
        | none => simp
        | some charged =>
          cases parseCanonical u64Max f₂ with
          | none => simp
          | some notBefore =>
            cases parseCanonical u64Max f₃ with
            | none => simp
            | some lastUsed =>
              cases (f₄.splitOn ',').mapM readIp with
              | none => simp
              | some dnsSet =>
                simp only [Option.bind_some, Option.filter_some, ite_some_bind, ← ite_and]
                refine if_congr ?_ rfl rfl
                simp only [BudgetEntry.loadable, BudgetEntry.key, Bool.and_eq_true,
                  decide_eq_true_eq, List.mem_map, Prod.mk.injEq, not_exists, not_and]
                tauto
    next => rfl

/-- The loop collects the entries if each passes its checks and no key comes twice. -/
theorem toOption_loadEntries (allowPrivate : Bool) (wallNow : Nat) (entries : List BudgetEntry)
    (lines : List (List Char)) (hnodup : (entries.map BudgetEntry.key).Nodup) :
    (loadEntries allowPrivate wallNow entries lines).toOption
      = (lines.mapM readEntry).bind fun new =>
        if (new.all fun e => e.loadable allowPrivate wallNow) ∧
            ((entries ++ new).map BudgetEntry.key).Nodup then
          some (entries ++ new)
        else none := by
  induction lines generalizing entries with
  | nil =>
    simp only [loadEntries, List.mapM_nil, Option.pure_def, Option.bind_some, List.all_nil,
      List.append_nil, hnodup, true_and, if_true]
    rfl
  | cons line lines ih =>
    rw [loadEntries, toOption_bind, toOption_loadEntry, List.mapM_cons]
    cases readEntry line with
    | none => rfl
    | some e =>
      simp only [Option.filter_some, ite_some_bind, Bool.and_eq_true, decide_eq_true_eq,
        Option.bind_eq_bind, Option.bind_some, Option.pure_def, Option.bind_assoc]
      split_ifs with hok
      · have hnodup' : ((entries ++ [e]).map BudgetEntry.key).Nodup := by
          rw [List.map_append, List.map_singleton, ← List.concat_eq_append]
          exact hnodup.concat hok.2
        rw [ih (entries ++ [e]) hnodup']
        cases lines.mapM readEntry with
        | none => rfl
        | some new =>
          simp only [Option.bind_some, List.append_assoc, List.singleton_append,
            List.all_cons, hok.1, Bool.true_and]
      · -- a refused entry refuses the document, whatever follows it
        cases lines.mapM readEntry with
        | none => rfl
        | some new =>
          rw [Option.bind_some, if_neg]
          rintro ⟨hall, hnew⟩
          rw [List.all_cons, Bool.and_eq_true] at hall
          refine hok ⟨hall.1, fun hmem => ?_⟩
          rw [List.map_append, List.map_cons] at hnew
          exact (List.nodup_append.mp hnew).2.2 _ hmem _ List.mem_cons_self rfl

/-- The checks of the document's own values and of its entries. -/
theorem toOption_loadFallbackState_document (h : List UInt8) (p : UInt16) (s : FallbackState)
    (host : List UInt8) (port : UInt16) (capacity : Nat) (allowPrivate : Bool) (wallNow : Nat) :
    (loadFallbackState (.document h p s) host port capacity allowPrivate wallNow).toOption
      = if s.entries.length ≤ maxBudgetEntries ∧ h = host ∧ p = port ∧
          s.globalTokens ≤ capacity ∧ s.globalUpdatedUnixSecs ≤ satAdd wallNow 300 ∧
          (s.entries.all fun e => e.loadable allowPrivate wallNow) ∧
          (s.entries.map BudgetEntry.key).Nodup then some (some s) else none := by
  unfold loadFallbackState
  dsimp only
  by_cases hok : s.entries.length ≤ maxBudgetEntries ∧ h = host ∧ p = port ∧
      s.globalTokens ≤ capacity ∧ s.globalUpdatedUnixSecs ≤ satAdd wallNow 300 ∧
      (s.entries.all fun e => e.loadable allowPrivate wallNow) ∧
      (s.entries.map BudgetEntry.key).Nodup
  · rw [if_pos hok]
    obtain ⟨hlen, rfl, rfl, htokens, hupdated, hentries, hnodup⟩ := hok
    have hnodup : (s.entries.map fun e => (e.candidate, e.dnsSet)).Nodup := hnodup
    rw [if_neg (Nat.not_lt.mpr hlen), if_neg (by simp), if_neg (Nat.not_lt.mpr htokens),
      if_neg (Nat.not_lt.mpr hupdated), if_neg (not_not.mpr hentries), if_neg (not_not.mpr hnodup)]
    rfl
  · rw [if_neg hok]
    split_ifs with hlen hid htokens hupdated hentries hnodup
    all_goals try rfl
    refine absurd ⟨Nat.le_of_not_lt hlen, ?_, ?_, Nat.le_of_not_lt htokens,
      Nat.le_of_not_lt hupdated, hentries, hnodup⟩ hok
    · exact not_not.mp (not_or.mp hid).1
    · exact not_not.mp (not_or.mp hid).2

/-! ## Identities -/

theorem toNat_charOfByte (b : UInt8) : (Char.ofNat b.toNat).toNat = b.toNat := by
  have hvalid : b.toNat.isValidChar := .inl (by have hlt := b.toNat_lt; omega)
  rw [Char.ofNat, dif_pos hvalid]
  rfl

variable {host : List UInt8} {value : List Char} {β : Type} {ip : Ipv4Addr} {c : Char}
  {s : FallbackState}

/-- A text is one host name at most. -/
theorem readHost_eq_some_iff : readHost value = some host ↔ value = hostText host := by
  unfold readHost hostText
  constructor
  · intro h
    split_ifs at h with hlow
    cases h
    rw [List.all_eq_true] at hlow
    rw [List.map_map]
    refine (List.map_id value).symm.trans (List.map_congr_left fun c hc => ?_)
    have hc := of_decide_eq_true (hlow c hc)
    have hbyte : (UInt8.ofNat c.toNat).toNat = c.toNat := UInt8.toNat_ofNat_of_lt hc
    rw [Function.comp_apply, hbyte, Char.ofNat_toNat]
    rfl
  · rintro rfl
    rw [if_pos, List.map_map]
    · refine congrArg some ((List.map_congr_left fun b _ => ?_).trans (List.map_id host))
      rw [Function.comp_apply, toNat_charOfByte]
      exact UInt8.ofNat_toNat
    · rw [List.all_eq_true]
      intro c hc
      obtain ⟨b, -, rfl⟩ := List.mem_map.mp hc
      rw [toNat_charOfByte]
      exact decide_eq_true b.toNat_lt

theorem readHost_hostText (host : List UInt8) : readHost (hostText host) = some host :=
  readHost_eq_some_iff.mpr rfl

/-- A field that has to have a given value. -/
theorem bind_ite_eq {α : Type} [DecidableEq α] (field : Option α) (value : α) (rest : Option β) :
    (field.bind fun v => if v = value then rest else none)
      = if field = some value then rest else none := by
  cases field with
  | none => simp
  | some v => simp

/-- The field of the host name, read first. -/
theorem bind_hostField (field : Option (List Char)) (host : List UInt8) (rest : Option β) :
    (field.bind fun v => if v = hostText host then rest else none)
      = (field.bind readHost).bind fun h => if h = host then rest else none := by
  rw [bind_ite_eq, bind_ite_eq]
  refine if_congr ?_ rfl rfl
  rw [Option.bind_eq_some_iff]
  simp only [readHost_eq_some_iff, exists_eq_right]

/-- The field of the port, read first. -/
theorem bind_portField (field : Option (List Char)) (port : UInt16) (rest : Option β) :
    (field.bind fun v => if v = decimal port.toNat then rest else none)
      = (field.bind (parseCanonical 65535)).bind fun n =>
        if UInt16.ofNat n = port then rest else none := by
  cases field with
  | none => rfl
  | some v =>
    rw [Option.bind_some, Option.bind_some]
    cases h : parseCanonical 65535 v with
    | none =>
      rw [Option.bind_none, if_neg]
      rintro rfl
      rw [parseCanonical_decimal, if_pos (Nat.le_of_lt_succ port.toNat_lt)] at h
      cases h
    | some n =>
      obtain ⟨rfl, hle⟩ := parseCanonical_eq_some_iff.mp h
      have hn : (UInt16.ofNat n).toNat = n := UInt16.toNat_ofNat_of_lt' (Nat.lt_succ_of_le hle)
      rw [Option.bind_some]
      refine if_congr ⟨fun heq => ?_, fun heq => ?_⟩ rfl rfl
      · rw [decimal_injective heq, UInt16.ofNat_toNat]
      · rw [← heq, hn]

/-- The field of a number, read first. -/
theorem bind_numberField (field : Option (List Char)) (max : Nat) (rest : Nat → Option β) :
    (field.bind fun v => (parseCanonical max v).bind rest)
      = (field.bind (parseCanonical max)).bind rest :=
  (Option.bind_assoc field (parseCanonical max) rest).symm

/-- Reading the text of a state is reading a document and checking it. -/
theorem toOption_loadFallbackText (text : List Char) (host : List UInt8) (port : UInt16)
    (capacity : Nat) (allowPrivate : Bool) (wallNow : Nat) :
    (loadFallbackText text host port capacity allowPrivate wallNow).toOption.map some
      = (readDocument text).bind fun d =>
        (loadFallbackState (.document d.1 d.2.1 d.2.2) host port capacity allowPrivate
          wallNow).toOption := by
  simp only [loadDocument, readDocument, toOption_bind, toOption_ensure, ite_some_bind,
    toOption_loadFallbackState_document]
  split_ifs with hends
  · generalize (stripLast text).splitOn '\n' = lines
    split
    next l₀ l₁ l₂ l₃ l₄ l₅ lines =>
      simp only [toOption_bind, toOption_ensure, ite_some_bind, parseStateU32, parseStateU64,
        toOption_parseStateNumber,
        toOption_loadEntries allowPrivate wallNow [] lines List.nodup_nil,
        bind_hostField, bind_portField, bind_numberField,
        bind_ite_eq (strictField l₁ "version").toOption, ← ite_and, Option.bind_eq_bind,
        List.nil_append]
      by_cases hhead : l₀ = stateHeader.toList ∧
          (strictField l₁ "version").toOption = some ['1']
      · simp only [hhead, and_true, and_self, if_true]
        generalize (strictField l₂ "host").toOption.bind readHost = h
        generalize (strictField l₃ "port").toOption.bind (parseCanonical 65535) = p
        generalize (strictField l₄ "global_tokens").toOption.bind (parseCanonical u32Max) = tokens
        generalize (strictField l₅ "global_updated").toOption.bind (parseCanonical u64Max) = updated
        cases hentries : lines.mapM readEntry with
        | none => cases h <;> cases p <;> cases tokens <;> cases updated <;> simp
        | some entries =>
          cases h with
          | none => simp
          | some h =>
            cases p with
            | none => simp
            | some p =>
              cases tokens with
              | none => simp
              | some tokens =>
                cases updated with
                | none => simp
                | some updated =>
                  simp only [Option.bind_some, ← ite_and, ite_some_bind]
                  rw [length_of_mapM_eq_some hentries]
                  split_ifs <;> rfl
      · rw [if_neg hhead, if_neg fun hall => hhead hall.2]
        rfl
    next => rfl
  · rfl

/-- A controller that works on documents does what one that works on bytes does. -/
theorem toOption_loadFallbackFile (contents : StateContents) (host : List UInt8) (port : UInt16)
    (capacity : Nat) (allowPrivate : Bool) (wallNow : Nat) :
    (loadFallbackFile contents host port capacity allowPrivate wallNow).toOption
      = (loadFallbackState (.ofContents contents) host port capacity allowPrivate
          wallNow).toOption := by
  cases contents with
  | absent => rfl
  | refused why => rfl
  | bytes content =>
    simp only [loadContents, StateFile.ofContents, toOption_bind, toOption_ensure,
      ite_some_bind, toOption_demand]
    split_ifs with hsize
    · cases String.fromUTF8? content with
      | none => rfl
      | some text =>
        rw [Option.bind_some, Option.bind_some]
        have hread := toOption_loadFallbackText text.toList host port capacity allowPrivate
          wallNow
        cases hdocument : readDocument text.toList with
        | none =>
          rw [hdocument, Option.bind_none, Option.map_eq_none_iff] at hread
          rw [hread]
          rfl
        | some d =>
          rw [hdocument, Option.bind_some] at hread
          rw [← hread]
          cases (loadFallbackText text.toList host port capacity allowPrivate
            wallNow).toOption <;> rfl
    · rfl

/-! ## What is written is read back -/

theorem plain_dot : plain '.' = true := by decide

/-- The text of an address is made of digits and dots. -/
theorem mem_ipText (h : c ∈ ipText ip) : c = '.' ∨ c.isDigit = true := by
  obtain h | ⟨text, htext, h⟩ := mem_intercalate h
  · exact .inl (List.mem_singleton.mp h)
  · obtain ⟨o, -, rfl⟩ := List.mem_map.mp htext
    exact .inr (isDigit_of_mem_decimal h)

theorem not_mem_ipText (hdot : c ≠ '.') (hdigit : c.isDigit = false) : c ∉ ipText ip := by
  intro h
  obtain rfl | h := mem_ipText h
  · exact hdot rfl
  · rw [h] at hdigit
    cases hdigit

theorem plain_ipText (h : c ∈ ipText ip) : plain c = true := by
  obtain rfl | h := mem_ipText h
  · exact plain_dot
  · exact plain_of_isDigit h

theorem parseOctet_decimal (o : UInt8) : parseOctet (decimal o.toNat) = some o := by
  have hall : ∀ n < 256, parseOctet (decimal n) = some (UInt8.ofNat n) := by decide +kernel
  rw [hall o.toNat o.toNat_lt, UInt8.ofNat_toNat]

/-- An address is read back from its text. -/
theorem readIp_ipText (ip : Ipv4Addr) : readIp (ipText ip) = some ip := by
  have hsplit : (ipText ip).splitOn '.' = ip.toList.map fun o => decimal o.toNat := by
    refine List.splitOn_intercalate '.' (fun text htext => ?_) ?_
    · obtain ⟨o, -, rfl⟩ := List.mem_map.mp htext
      exact not_mem_decimal (by decide)
    · rw [ne_eq, List.map_eq_nil_iff, ← List.length_eq_zero_iff, Vector.length_toList]
      decide
  have hparse : Ipv4Addr.parse (ipText ip) = some ip := by
    unfold Ipv4Addr.parse
    rw [hsplit]
    obtain ⟨⟨_ | ⟨a, _ | ⟨b, _ | ⟨c, _ | ⟨d, _ | ⟨e, octets⟩⟩⟩⟩⟩⟩, hsize⟩ := ip
    case cons.cons.cons.cons.nil =>
      have hlist : (Vector.mk #[a, b, c, d] hsize).toList = [a, b, c, d] := rfl
      rw [hlist]
      simp only [List.map_cons, List.map_nil, parseOctet_decimal]
      rfl
    all_goals simp at hsize
  rw [readIp, hparse, Option.filter_some, if_pos (decide_eq_true rfl)]

theorem length_ipText_le (ip : Ipv4Addr) : (ipText ip).length ≤ 16 := by
  refine (length_intercalate_le (k := 3) fun text htext => ?_).trans ?_
  · obtain ⟨o, -, rfl⟩ := List.mem_map.mp htext
    have hlt := o.toNat_lt
    exact length_decimal_le (by decide) (by omega)
  · simp

/-- A field is read back if its value is a plain one. -/
theorem strictField_fieldLine (name : String) (hne : value ≠ [])
    (hplain : ∀ c ∈ value, plain c = true) :
    strictField (fieldLine name value) name = .ok value := by
  have hline : fieldLine name value = (name.toList ++ ['=']) ++ value := by simp [fieldLine]
  have hspace : ∀ c ∈ value, isSpace c = false := by
    intro c hc
    have h := hplain c hc
    rw [plain, Bool.and_eq_true] at h
    simpa using h.1
  have hequals : '=' ∉ value := fun h => absurd (hplain '=' h) (by decide)
  unfold strictField
  rw [hline, List.dropPrefix?_append_of_beq value (beq_self_eq_true _)]
  rw [demand, Checked.ok_bind, ensure, if_pos ⟨hne, trim_eq_self hspace, hequals⟩, Checked.ok_bind]

/-- The numbers of an entry are those of its types, and its DNS set is not empty. -/
structure BudgetEntry.Fits (e : BudgetEntry) : Prop where
  charged : e.charged ≤ u32Max
  notBefore : e.notBeforeUnixSecs ≤ u64Max
  lastUsed : e.lastUsedUnixSecs ≤ u64Max
  dnsSet : e.dnsSet ≠ []

theorem plain_dnsText {ips : List Ipv4Addr} :
    ∀ c ∈ [','].intercalate (ips.map ipText), plain c = true := by
  refine plain_intercalate (fun c hc => ?_) fun text htext c hc => ?_
  · rw [List.mem_singleton.mp hc]
    decide
  · obtain ⟨ip, -, rfl⟩ := List.mem_map.mp htext
    exact plain_ipText hc

theorem plain_entryText (e : BudgetEntry) : ∀ c ∈ entryText e, plain c = true := by
  refine plain_intercalate (fun c hc => ?_) fun text htext c hc => ?_
  · rw [List.mem_singleton.mp hc]
    decide
  · simp only [List.mem_cons, List.not_mem_nil, or_false] at htext
    obtain rfl | rfl | rfl | rfl | rfl := htext
    · exact plain_ipText hc
    · exact plain_of_mem_decimal hc
    · exact plain_of_mem_decimal hc
    · exact plain_of_mem_decimal hc
    · exact plain_dnsText c hc

/-- The set written is the set read. -/
theorem readIps_dnsText {ips : List Ipv4Addr} (h : ips ≠ []) :
    (([','].intercalate (ips.map ipText)).splitOn ',').mapM readIp = some ips := by
  rw [List.splitOn_intercalate ',' ?_ (by simpa using h)]
  · clear h
    induction ips with
    | nil => rfl
    | cons ip ips ih =>
      rw [List.map_cons, List.mapM_cons, readIp_ipText, ih]
      rfl
  · intro text htext
    obtain ⟨ip, -, rfl⟩ := List.mem_map.mp htext
    exact not_mem_ipText (by decide) (by decide)

/-- The fields of an entry. -/
theorem splitOn_entryText (e : BudgetEntry) :
    (entryText e).splitOn '|' = [ipText e.candidate, decimal e.charged,
      decimal e.notBeforeUnixSecs, decimal e.lastUsedUnixSecs,
      [','].intercalate (e.dnsSet.map ipText)] := by
  refine List.splitOn_intercalate '|' (fun text htext => ?_) (List.cons_ne_nil _ _)
  simp only [List.mem_cons, List.not_mem_nil, or_false] at htext
  obtain rfl | rfl | rfl | rfl | rfl := htext
  · exact not_mem_ipText (by decide) (by decide)
  · exact not_mem_decimal (by decide)
  · exact not_mem_decimal (by decide)
  · exact not_mem_decimal (by decide)
  · intro h
    obtain h | ⟨text, htext, h⟩ := mem_intercalate h
    · exact absurd (List.mem_singleton.mp h) (by decide)
    · obtain ⟨ip, -, rfl⟩ := List.mem_map.mp htext
      exact not_mem_ipText (by decide) (by decide) h

/-- An entry is read back from its line. -/
theorem readEntry_fieldLine {e : BudgetEntry} (h : e.Fits) :
    readEntry (fieldLine "entry" (entryText e)) = some e := by
  have hne : entryText e ≠ [] := by
    intro hnil
    have hfive := congrArg List.length (splitOn_entryText e)
    rw [hnil] at hfive
    simp at hfive
  unfold readEntry
  rw [strictField_fieldLine "entry" hne (plain_entryText e)]
  simp only [Except.toOption, Option.bind_eq_bind, Option.bind_some, splitOn_entryText,
    readIp_ipText, parseCanonical_decimal, if_pos h.charged, if_pos h.notBefore,
    if_pos h.lastUsed, readIps_dnsText h.dnsSet]

/-- A host name whose text is a plain value. -/
def PlainHost (host : List UInt8) : Prop := host ≠ [] ∧ ∀ c ∈ hostText host, plain c = true

/-- The numbers of a state are those of its types. -/
structure FallbackState.Fits (s : FallbackState) : Prop where
  tokens : s.globalTokens ≤ u32Max
  updated : s.globalUpdatedUnixSecs ≤ u64Max
  entries : ∀ e ∈ s.entries, e.Fits

theorem plain_version : ∀ c ∈ ['1'], plain c = true := by
  intro c hc
  rw [List.mem_singleton.mp hc]
  decide

/-- A line of a plain value has no line end in it. -/
theorem not_mem_fieldLine (hc : c = '\n' ∨ c = '\r') {name : String} (hname : c ∉ name.toList)
    (hvalue : ∀ c ∈ value, plain c = true) : c ∉ fieldLine name value := by
  intro hmem
  rw [fieldLine, List.mem_append, List.mem_cons] at hmem
  obtain hmem | rfl | hmem := hmem
  · exact hname hmem
  · exact absurd hc (by decide)
  · have hplain := hvalue c hmem
    obtain rfl | rfl := hc
    · exact absurd hplain (by decide)
    · exact absurd hplain (by decide)

/-- A line of a document has no line end in it. -/
theorem noBreak_stateLines (hhost : PlainHost host) (port : UInt16) (s : FallbackState)
    (hc : c = '\n' ∨ c = '\r') : ∀ line ∈ stateLines host port s, c ∉ line := by
  have hnames : ∀ name ∈ ["version", "host", "port", "global_tokens", "global_updated", "entry"],
      c ∉ name.toList := by
    obtain rfl | rfl := hc
    · decide
    · decide
  have hheader : c ∉ stateHeader.toList := by
    obtain rfl | rfl := hc
    · decide
    · decide
  intro line hline
  rw [stateLines, documentLines, List.mem_append] at hline
  obtain hline | hline := hline
  · simp only [List.mem_cons, List.not_mem_nil, or_false] at hline
    obtain rfl | rfl | rfl | rfl | rfl | rfl := hline
    · exact hheader
    · exact not_mem_fieldLine hc (hnames _ (by decide)) plain_version
    · exact not_mem_fieldLine hc (hnames _ (by decide)) hhost.2
    · exact not_mem_fieldLine hc (hnames _ (by decide)) fun c => plain_of_mem_decimal
    · exact not_mem_fieldLine hc (hnames _ (by decide)) fun c => plain_of_mem_decimal
    · exact not_mem_fieldLine hc (hnames _ (by decide)) fun c => plain_of_mem_decimal
  · obtain ⟨e, -, rfl⟩ := List.mem_map.mp hline
    exact not_mem_fieldLine hc (hnames _ (by decide)) (plain_entryText e)

/-- The entries written are the entries read. -/
theorem readEntries_stateLines {entries : List BudgetEntry} (h : ∀ e ∈ entries, e.Fits) :
    (entries.map fun e => fieldLine "entry" (entryText e)).mapM readEntry = some entries := by
  induction entries with
  | nil => rfl
  | cons e entries ih =>
    rw [List.map_cons, List.mapM_cons, readEntry_fieldLine (h e List.mem_cons_self),
      ih fun e' h' => h e' (List.mem_cons_of_mem _ h')]
    rfl

/-- A document is read back from its text. -/
theorem readDocument_stateLines (hhost : PlainHost host) (port : UInt16) (hs : s.Fits) :
    readDocument (unlines (stateLines host port s)) = some (host, port, s) := by
  have hne : stateLines host port s ≠ [] := List.cons_ne_nil _ _
  have hsplit := lines_unlines hne (noBreak_stateLines hhost port s (.inl rfl))
  have hends := ends_unlines (by simp [stateLines, documentLines])
    (noBreak_stateLines hhost port s (.inl rfl)) (noBreak_stateLines hhost port s (.inr rfl))
  have hhostText : hostText host ≠ [] := by
    rw [hostText, ne_eq, List.map_eq_nil_iff]
    exact hhost.1
  have hport : port.toNat ≤ 65535 := Nat.le_of_lt_succ port.toNat_lt
  unfold readDocument
  rw [if_pos hends, hsplit, stateLines, documentLines]
  simp only [List.cons_append, List.nil_append]
  rw [strictField_fieldLine "version" (List.cons_ne_nil _ _) plain_version,
    strictField_fieldLine "host" hhostText hhost.2,
    strictField_fieldLine "port" (decimal_ne_nil _) fun c => plain_of_mem_decimal,
    strictField_fieldLine "global_tokens" (decimal_ne_nil _) fun c => plain_of_mem_decimal,
    strictField_fieldLine "global_updated" (decimal_ne_nil _) fun c => plain_of_mem_decimal]
  simp only [Except.toOption, and_self, if_true, Option.bind_eq_bind, Option.bind_some,
    readHost_hostText, parseCanonical_decimal, if_pos hport, if_pos hs.tokens,
    if_pos hs.updated, readEntries_stateLines hs.entries, UInt16.ofNat_toNat]

/-! ## Sizes -/

/-- The length of an entry is bounded. -/
theorem length_entryText_le {e : BudgetEntry} (h : e.Fits)
    (hfew : e.dnsSet.length ≤ maxEndpointCandidates) : (entryText e).length ≤ 206 := by
  have hcandidate := length_ipText_le e.candidate
  have hcharged : (decimal e.charged).length ≤ 10 :=
    length_decimal_le (by decide) (h.charged.trans_lt (by decide))
  have hnotBefore : (decimal e.notBeforeUnixSecs).length ≤ 20 :=
    length_decimal_le (by decide) (h.notBefore.trans_lt (by decide))
  have hlastUsed : (decimal e.lastUsedUnixSecs).length ≤ 20 :=
    length_decimal_le (by decide) (h.lastUsed.trans_lt (by decide))
  have hset : ([','].intercalate (e.dnsSet.map ipText)).length ≤ 8 * (16 + 1) := by
    refine (length_intercalate_le (k := 16) fun text htext => ?_).trans ?_
    · obtain ⟨ip, -, rfl⟩ := List.mem_map.mp htext
      exact length_ipText_le ip
    · rw [List.length_map]
      exact Nat.mul_le_mul_right _ hfew
  rw [entryText]
  simp only [List.intercalate_cons_cons, List.intercalate_singleton, List.length_append,
    List.length_singleton]
  omega

/-- A document of a full table is far below the limit. -/
theorem length_stateText_le (hhost : host.length ≤ 253) (port : UInt16) (hs : s.Fits)
    (hlen : s.entries.length ≤ maxBudgetEntries)
    (hfew : ∀ e ∈ s.entries, e.dnsSet.length ≤ maxEndpointCandidates) :
    (unlines (stateLines host port s)).length ≤ 4000 := by
  have hentries : (unlines (s.entries.map fun e => fieldLine "entry" (entryText e))).length
      ≤ 16 * 213 := by
    refine (length_unlines_le (k := 213) fun line hline => ?_).trans ?_
    · obtain ⟨e, he, rfl⟩ := List.mem_map.mp hline
      have h := length_entryText_le (hs.entries e he) (hfew e he)
      have hname : "entry".toList.length = 5 := by decide
      rw [fieldLine, List.length_append, List.length_cons, hname]
      omega
    · rw [List.length_map]
      exact Nat.mul_le_mul_right _ hlen
  have hport : (decimal port.toNat).length ≤ 5 :=
    length_decimal_le (by decide) (port.toNat_lt.trans (by decide))
  have htokens : (decimal s.globalTokens).length ≤ 10 :=
    length_decimal_le (by decide) (hs.tokens.trans_lt (by decide))
  have hupdated : (decimal s.globalUpdatedUnixSecs).length ≤ 20 :=
    length_decimal_le (by decide) (hs.updated.trans_lt (by decide))
  rw [stateLines, documentLines, unlines_append, List.length_append]
  have hhead : stateHeader.toList.length = 27 := by decide
  have hname : (hostText host).length = host.length := List.length_map _
  simp only [unlines, List.flatMap_cons, List.flatMap_nil, List.length_append, fieldLine,
    List.length_cons, List.length_nil, hhead, hname] at hentries ⊢
  have hnames : "version".toList.length = 7 ∧ "host".toList.length = 4 ∧
      "port".toList.length = 4 ∧ "global_tokens".toList.length = 13 ∧
      "global_updated".toList.length = 14 := by decide
  omega

/-! ## Files -/

/-- The file `charge_fallback` writes. -/
def writtenFile (host : List UInt8) (port : UInt16) (s : FallbackState) : StateContents :=
  .bytes (serializeFallbackState host port s).toUTF8

/-- A written state is below the size limit of the reader. -/
theorem size_serializeFallbackState_lt (hhost : host.length ≤ 253) (port : UInt16) (hs : s.Fits)
    (hlen : s.entries.length ≤ maxBudgetEntries)
    (hfew : ∀ e ∈ s.entries, e.dnsSet.length ≤ maxEndpointCandidates) :
    (serializeFallbackState host port s).toUTF8.size < stateMaxBytes := by
  have hlength := length_stateText_le hhost port hs hlen hfew
  have hsize := size_toUTF8_le (unlines (stateLines host port s))
  exact hsize.trans_lt (Nat.lt_of_le_of_lt (Nat.mul_le_mul_left 4 hlength) (by decide))

/-- A written file is the document that was written. -/
theorem ofContents_writtenFile (hplain : PlainHost host) (hhost : host.length ≤ 253) (port : UInt16)
    (hs : s.Fits) (hlen : s.entries.length ≤ maxBudgetEntries)
    (hfew : ∀ e ∈ s.entries, e.dnsSet.length ≤ maxEndpointCandidates) :
    StateFile.ofContents (writtenFile host port s) = .document host port s := by
  have hread : (String.fromUTF8? (serializeFallbackState host port s).toUTF8).bind
      (fun text => readDocument text.toList) = some (host, port, s) := by
    rw [fromUTF8?_toUTF8, Option.bind_some, serializeFallbackState, serializeDocument,
      String.toList_ofList, readDocument_stateLines hplain port hs]
  rw [writtenFile, StateFile.ofContents,
    if_pos (size_serializeFallbackState_lt hhost port hs hlen hfew).le, hread]

end Udp2raw
