import Udp2raw.Endpoint.Reload

/-!
# State files are canonical

What `load_fallback_state` accepts is what `serialize_fallback_state` writes, up to the
end of the last line: every field is compared with the print of what was read from it.
The numbers and addresses of an accepted state are in their ranges.
-/

namespace Udp2raw

open Text

variable {host : List Char} {port : UInt16} {capacity wallNow : Nat} {allowPrivate : Bool}
  {s : FallbackState}

/-! ## Fields -/

/-- A field is read from the one line that writes it. -/
theorem eq_fieldLine {line value : List Char} {name : String}
    (h : strictField line name = .ok value) : line = fieldLine name value := by
  obtain ⟨found, hfound, h⟩ := Checked.bind_eq_ok.mp h
  obtain ⟨_, -, h⟩ := Checked.bind_eq_ok.mp h
  cases h
  obtain ⟨start, rfl, hstart⟩ := List.dropPrefix?_eq_some_iff.mp (demand_eq_ok.mp hfound)
  rw [eq_of_beq hstart, fieldLine, List.append_assoc, List.singleton_append]

theorem eq_ipText {value : List Char} {ip : Ipv4Addr} (h : readIp value = some ip) :
    value = ipText ip := by
  have hprint := (Option.filter_eq_some_iff.mp h).2
  exact (of_decide_eq_true hprint).symm

theorem eq_decimal {max n : Nat} {value : List Char} (h : parseCanonical max value = some n) :
    value = decimal n :=
  (parseCanonical_eq_some_iff.mp h).1

/-- The line of an entry is the one that is written for it. -/
theorem line_of_readEntry {line : List Char} {e : BudgetEntry} (h : readEntry line = some e) :
    line = fieldLine "entry" (entryText e) := by
  obtain ⟨raw, hraw, h⟩ := Option.bind_eq_some_iff.mp h
  have hline : line = fieldLine "entry" raw := by
    cases hfield : strictField line "entry" with
    | error why =>
      rw [hfield] at hraw
      cases hraw
    | ok value =>
      rw [hfield] at hraw
      cases hraw
      exact eq_fieldLine hfield
  split at h
  next f₀ f₁ f₂ f₃ f₄ hsplit =>
    obtain ⟨candidate, hcandidate, h⟩ := Option.bind_eq_some_iff.mp h
    obtain ⟨charged, hcharged, h⟩ := Option.bind_eq_some_iff.mp h
    obtain ⟨notBefore, hnotBefore, h⟩ := Option.bind_eq_some_iff.mp h
    obtain ⟨lastUsed, hlastUsed, h⟩ := Option.bind_eq_some_iff.mp h
    obtain ⟨dnsSet, hset, h⟩ := Option.bind_eq_some_iff.mp h
    cases h
    have hset : f₄ = [','].intercalate (dnsSet.map ipText) := by
      rw [← eq_map_of_mapM_eq_some (fun _ _ => eq_ipText) hset, List.intercalate_splitOn]
    have hraw : ['|'].intercalate [f₀, f₁, f₂, f₃, f₄] = raw := by
      rw [← hsplit, List.intercalate_splitOn]
    rw [hline, ← hraw, entryText, eq_ipText hcandidate,
      eq_decimal hcharged, eq_decimal hnotBefore, eq_decimal hlastUsed, hset]
  next => cases h

/-- The entries of a document are those of its lines, and pass the checks. -/
theorem loadEntries_eq_ok {lines : List (List Char)} {entries : List BudgetEntry}
    (h : loadEntries allowPrivate wallNow [] lines = .ok entries) :
    lines = entries.map (fun e => fieldLine "entry" (entryText e)) ∧
      (∀ e ∈ entries, e.loadable allowPrivate wallNow = true) ∧
      (entries.map BudgetEntry.key).Nodup := by
  have hload := toOption_loadEntries allowPrivate wallNow [] lines List.nodup_nil
  rw [h] at hload
  obtain ⟨new, hread, hload⟩ := Option.bind_eq_some_iff.mp hload.symm
  rw [List.nil_append] at hload
  split_ifs at hload with hchecks
  obtain rfl := Option.some.inj hload
  exact ⟨eq_map_of_mapM_eq_some (fun _ _ => line_of_readEntry) hread,
    List.all_eq_true.mp hchecks.1, hchecks.2⟩

/-- A number is read from its one decimal form. -/
theorem parseStateNumber_eq_ok {max n : Nat} {value : List Char} {field : String}
    (h : parseStateNumber max value field = .ok n) : value = decimal n := by
  obtain ⟨parsed, -, h⟩ := Checked.bind_eq_ok.mp h
  obtain ⟨_, hprint, h⟩ := Checked.bind_eq_ok.mp h
  cases h
  exact (ensure_eq_ok.mp hprint).symm

/-! ## Documents -/

/-- A document that is accepted has the lines of its state. -/
theorem loadDocument_eq_ok {text : List Char}
    (h : loadDocument text host port capacity allowPrivate wallNow = .ok s) :
    stripLast text = ['\n'].intercalate (documentLines host port s) ∧
      s.Acceptable capacity allowPrivate wallNow := by
  obtain ⟨_, -, h⟩ := Checked.bind_eq_ok.mp h
  split at h
  next l₀ l₁ l₂ l₃ l₄ l₅ lines hsplit =>
    obtain ⟨_, hfew, h⟩ := Checked.bind_eq_ok.mp h
    obtain ⟨_, hheader, h⟩ := Checked.bind_eq_ok.mp h
    obtain ⟨version, hversion, h⟩ := Checked.bind_eq_ok.mp h
    obtain ⟨_, hone, h⟩ := Checked.bind_eq_ok.mp h
    obtain ⟨hostField, hhostLine, h⟩ := Checked.bind_eq_ok.mp h
    obtain ⟨_, hhost, h⟩ := Checked.bind_eq_ok.mp h
    obtain ⟨portField, hportLine, h⟩ := Checked.bind_eq_ok.mp h
    obtain ⟨_, hport, h⟩ := Checked.bind_eq_ok.mp h
    obtain ⟨tokensField, htokensLine, h⟩ := Checked.bind_eq_ok.mp h
    obtain ⟨tokens, htokens, h⟩ := Checked.bind_eq_ok.mp h
    obtain ⟨_, hcapacity, h⟩ := Checked.bind_eq_ok.mp h
    obtain ⟨updatedField, hupdatedLine, h⟩ := Checked.bind_eq_ok.mp h
    obtain ⟨updated, hupdated, h⟩ := Checked.bind_eq_ok.mp h
    obtain ⟨_, hfuture, h⟩ := Checked.bind_eq_ok.mp h
    obtain ⟨entries, hentries, h⟩ := Checked.bind_eq_ok.mp h
    cases h
    obtain ⟨hlines, hloadable, hnodup⟩ := loadEntries_eq_ok hentries
    have hcount : entries.length ≤ maxBudgetEntries := by
      have hlength := ensure_eq_ok.mp hfew
      rwa [hlines, List.length_map] at hlength
    refine ⟨?_, hcount, ensure_eq_ok.mp hcapacity, ensure_eq_ok.mp hfuture, hloadable, hnodup⟩
    have htext :
        ['\n'].intercalate (l₀ :: l₁ :: l₂ :: l₃ :: l₄ :: l₅ :: lines) = stripLast text := by
      rw [← hsplit, List.intercalate_splitOn]
    rw [← htext, ensure_eq_ok.mp hheader,
      eq_fieldLine hversion, ensure_eq_ok.mp hone, eq_fieldLine hhostLine, ensure_eq_ok.mp hhost,
      eq_fieldLine hportLine, ensure_eq_ok.mp hport, eq_fieldLine htokensLine,
      parseStateNumber_eq_ok htokens, eq_fieldLine hupdatedLine, parseStateNumber_eq_ok hupdated,
      hlines]
    rfl
  next => cases h

/-- A text whose end is stripped to the lines of a document is what is written, or lacks its last
character. -/
theorem eq_serializeDocument {text : String}
    (h : stripLast text.toList = ['\n'].intercalate (documentLines host port s)) :
    text = serializeDocument host port s ∨ text ++ "\n" = serializeDocument host port s := by
  have hne : documentLines host port s ≠ [] := List.cons_ne_nil _ _
  obtain hshort | hwhole := eq_of_stripLast hne h
  · refine .inr (String.toList_inj.mp ?_)
    rw [serializeDocument, String.toList_ofList, unlines_eq_intercalate hne, ← hshort,
      String.toList_append]
    rfl
  · refine .inl (String.toList_inj.mp ?_)
    rw [serializeDocument, String.toList_ofList, hwhole]

/-- What an accepted state is like. -/
structure FallbackState.WellFormed (s : FallbackState) (capacity : Nat) (allowPrivate : Bool)
    (wallNow : Nat) : Prop where
  tokens : s.globalTokens ≤ capacity
  updated : s.globalUpdatedUnixSecs ≤ wallNow + 300
  few : s.entries.length ≤ 16
  keys : (s.entries.map fun e => (e.candidate, e.dnsSet)).Nodup
  candidate : ∀ e ∈ s.entries, endpointIpOk e.candidate allowPrivate = true
  charged : ∀ e ∈ s.entries, 1 ≤ e.charged
  sets : ∀ e ∈ s.entries, e.dnsSet ≠ [] ∧ e.dnsSet.length ≤ 8 ∧
    (e.dnsSet.Pairwise fun a b => a.toU32 < b.toU32) ∧
    ∀ ip ∈ e.dnsSet, endpointIpOk ip allowPrivate = true
  used : ∀ e ∈ s.entries, e.lastUsedUnixSecs ≤ wallNow + 300
  cooldown : ∀ e ∈ s.entries, e.lastUsedUnixSecs ≤ e.notBeforeUnixSecs ∧
    e.notBeforeUnixSecs - e.lastUsedUnixSecs ≤ 86400

/-- An acceptable state is well formed. -/
theorem FallbackState.Acceptable.wellFormed (h : s.Acceptable capacity allowPrivate wallNow) :
    s.WellFormed capacity allowPrivate wallNow := by
  have hsat : satAdd wallNow 300 ≤ wallNow + 300 := Nat.min_le_left _ _
  have hentry : ∀ e ∈ s.entries, _ := fun e he => by
    have hok := h.entries e he
    simp only [BudgetEntry.loadable, Bool.and_eq_true, decide_eq_true_eq, List.all_eq_true] at hok
    exact hok
  refine ⟨h.tokens, h.updated.trans hsat, h.few, h.nodup, fun e he => ?_, fun e he => ?_,
    fun e he => ?_, fun e he => ?_, fun e he => ?_⟩
  all_goals
    obtain ⟨⟨⟨⟨⟨⟨⟨⟨hip, hcharged⟩, hlast⟩, hrest⟩, hspan⟩, hips⟩, hset⟩, hne⟩, hfew⟩ := hentry e he
  · exact hip
  · exact Nat.one_le_iff_ne_zero.mpr hcharged
  · exact ⟨hne, hfew, hset ▸ pairwise_sortDedup e.dnsSet, hips⟩
  · exact hlast.trans hsat
  · exact ⟨hrest, hspan⟩

/-- What is loaded is a text with the lines of its state. -/
theorem loadContents_eq_ok {contents : StateContents}
    (h : loadContents contents host port capacity allowPrivate wallNow = .ok (some s)) :
    ∃ text : String, contents = .bytes text.toUTF8 ∧
      stripLast text.toList = ['\n'].intercalate (documentLines host port s) ∧
      s.Acceptable capacity allowPrivate wallNow := by
  unfold loadContents at h
  split at h
  · cases h
  · cases h
  next content =>
    obtain ⟨_, -, h⟩ := Checked.bind_eq_ok.mp h
    obtain ⟨text, htext, h⟩ := Checked.bind_eq_ok.mp h
    obtain ⟨state, hstate, h⟩ := Checked.bind_eq_ok.mp h
    cases h
    have hbytes := toUTF8_of_fromUTF8? (demand_eq_ok.mp htext)
    exact ⟨text, congrArg _ hbytes, loadDocument_eq_ok hstate⟩

/-- `load_fallback_state` accepts canonical documents only: the bytes are those of the text
`serialize_fallback_state` writes for the state that is returned, with or without its last line
end; that state is well formed; and what else is loaded as this state, at any time and under any
limits, is the same text up to that line end. -/
theorem only_canonical_documents_load {contents : StateContents}
    (h : loadContents contents host port capacity allowPrivate wallNow = .ok (some s)) :
    (∃ text : String, contents = .bytes text.toUTF8 ∧
      (text = serializeDocument host port s ∨ text ++ "\n" = serializeDocument host port s)) ∧
    s.WellFormed capacity allowPrivate wallNow ∧
    ∀ (other : StateContents) (capacity' wallNow' : Nat) (allowPrivate' : Bool),
      loadContents other host port capacity' allowPrivate' wallNow' = .ok (some s) →
      ∃ a b : String, contents = .bytes a.toUTF8 ∧ other = .bytes b.toUTF8 ∧
        (a = b ∨ a = b ++ "\n" ∨ a ++ "\n" = b) := by
  obtain ⟨text, hbytes, hlines, hs⟩ := loadContents_eq_ok h
  have htext := eq_serializeDocument hlines
  refine ⟨⟨text, hbytes, htext⟩, hs.wellFormed, ?_⟩
  intro other capacity' wallNow' allowPrivate' hother
  obtain ⟨text', hbytes', hlines', -⟩ := loadContents_eq_ok hother
  refine ⟨text, text', hbytes, hbytes', ?_⟩
  obtain hwhole' | hshort' := eq_serializeDocument hlines'
  · obtain hwhole | hshort := htext
    · exact .inl (hwhole.trans hwhole'.symm)
    · exact .inr (.inr (hshort.trans hwhole'.symm))
  · obtain hwhole | hshort := htext
    · exact .inr (.inl (hwhole.trans hshort'.symm))
    · have heq := congrArg String.toList (hshort.trans hshort'.symm)
      rw [String.toList_append, String.toList_append] at heq
      exact .inl (String.toList_inj.mp (List.append_cancel_right heq))

/-- The document of a first charge. -/
theorem only_canonical_documents_load_first_charge :
    loadContents (writtenFile [120] 443 firstCharge) (hostText [120]) 443 3 false 1040
      = .ok (some firstCharge) ∧ firstCharge.WellFormed 3 false 1040 := by
  have hplain : PlainHost [120] := by
    refine ⟨by decide, fun c hc => ?_⟩
    rw [List.mem_singleton.mp hc]
    decide
  have hfits : firstCharge.Fits :=
    ⟨by decide, by decide, List.forall_mem_singleton.mpr
      ⟨by decide, by decide, by decide, by decide⟩⟩
  have hs : firstCharge.Acceptable 3 false 1040 :=
    ⟨by decide, by decide, by decide, by decide, by decide⟩
  have hload : loadFallbackFile (writtenFile [120] 443 firstCharge) [120] 443 3 false 1040
      = .ok (some firstCharge) := (loadFallbackFile_writtenFile hplain (by decide) hfits hs).2
  exact ⟨hload, (only_canonical_documents_load hload).2.1⟩

end Udp2raw
