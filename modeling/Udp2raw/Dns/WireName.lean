import Udp2raw.Dns.Interpret

/-!
# Names as lists of labels

Absolute names as they are on the wire, compared without regard to case and written
with a dot after each label. Bytes that are not letters, digits, hyphens and the like
are written with a backslash, so that a text can be read back in one way only.
-/

namespace Udp2raw.Dns

/-- An absolute name: labels of any bytes. -/
structure WireName where
  labels : List (List UInt8)
  nonempty : ∀ label ∈ labels, label ≠ []

/-- The bytes that stand for themselves in a label, at its start or further on. -/
def isSafe (first : Bool) (b : UInt8) : Bool :=
  48 ≤ b && b ≤ 57 || 65 ≤ b && b ≤ 90 || 97 ≤ b && b ≤ 122 || b == 95 ||
    bif first then b == 42 else b == 45

/-- A byte of a label in a text. -/
def escape (first : Bool) (b : UInt8) : List Char :=
  if isSafe first b then [Char.ofNat b.toNat]
  else if 32 < b && b < 127 then ['\\', Char.ofNat b.toNat]
  else ['\\', Nat.digitChar (b.toNat / 64), Nat.digitChar (b.toNat / 8 % 8),
    Nat.digitChar (b.toNat % 8)]

/-- A label with the dot after it. -/
def labelText : List UInt8 → List Char
  | [] => ['.']
  | b :: rest => escape true b ++ (rest.flatMap (escape false) ++ ['.'])

/-- A name as a text; the root is a single dot. -/
def WireName.text (n : WireName) : List Char :=
  if n.labels = [] then ['.'] else n.labels.flatMap labelText

/-! ## Reading a text -/

/-- The byte at the start of a text, and the rest of the text. -/
def readByte : List Char → Option (Nat × List Char)
  | [] => none
  | c :: rest =>
    if c = '.' then none
    else if c ≠ '\\' then some (c.toNat, rest)
    else
      match rest with
      | [] => none
      | d :: rest =>
        if d.isDigit = false then some (d.toNat, rest)
        else
          match rest with
          | e :: g :: rest =>
            some (64 * (d.toNat - 48) + 8 * (e.toNat - 48) + (g.toNat - 48), rest)
          | _ => none

/-- A byte is read without what follows. -/
theorem readByte_append {text rest : List Char} {b : Nat} (h : readByte text = some (b, rest))
    (more : List Char) : readByte (text ++ more) = some (b, rest ++ more) := by
  cases text with
  | nil => cases h
  | cons c tail =>
    unfold readByte at h ⊢
    rw [List.cons_append]
    dsimp only at h ⊢
    split_ifs at h ⊢ with hdot hplain
    · cases h
      rfl
    · cases tail with
      | nil => cases h
      | cons d tail =>
        rw [List.cons_append]
        dsimp only at h ⊢
        split_ifs at h ⊢ with hdigit
        · cases h
          rfl
        · split at h
          · cases h
            rfl
          · cases h

/-- An escaped byte is read back. -/
theorem readByte_escape (first : Bool) (b : UInt8) (more : List Char) :
    readByte (escape first b ++ more) = some (b.toNat, more) := by
  have hall : ∀ first, ∀ n < 256, readByte (escape first (UInt8.ofNat n)) = some (n, []) := by
    decide +kernel
  have hb := hall first b.toNat b.toNat_lt
  rw [UInt8.ofNat_toNat] at hb
  exact readByte_append hb more

theorem escape_inj {first : Bool} {a b : UInt8} {x y : List Char}
    (h : escape first a ++ x = escape first b ++ y) : a = b ∧ x = y := by
  have hread := readByte_escape first a x
  rw [h, readByte_escape] at hread
  obtain ⟨hbyte, hrest⟩ := Prod.mk.inj (Option.some.inj hread)
  exact ⟨UInt8.toNat_inj.mp hbyte.symm, hrest.symm⟩

theorem escape_ne_dot (first : Bool) (b : UInt8) (x y : List Char) :
    escape first b ++ x ≠ '.' :: y := by
  intro h
  have hread := readByte_escape first b x
  rw [h] at hread
  cases hread

/-- The dot after a label is the first one that is not part of an escaped byte. -/
theorem escapes_inj {label label' : List UInt8} {x y : List Char}
    (h : label.flatMap (escape false) ++ '.' :: x = label'.flatMap (escape false) ++ '.' :: y) :
    label = label' ∧ x = y := by
  induction label generalizing label' with
  | nil =>
    cases label' with
    | nil => exact ⟨rfl, (List.cons.inj h).2⟩
    | cons b rest =>
      rw [List.flatMap_cons, List.append_assoc] at h
      exact absurd h.symm (escape_ne_dot _ _ _ _)
  | cons b rest ih =>
    cases label' with
    | nil =>
      rw [List.flatMap_cons, List.append_assoc] at h
      exact absurd h (escape_ne_dot _ _ _ _)
    | cons b' rest' =>
      rw [List.flatMap_cons, List.flatMap_cons, List.append_assoc, List.append_assoc] at h
      obtain ⟨rfl, htail⟩ := escape_inj h
      obtain ⟨rfl, hrest⟩ := ih htail
      exact ⟨rfl, hrest⟩

/-- A label is determined by its text. -/
theorem labelText_inj {label label' : List UInt8} {x y : List Char} (hne : label ≠ [])
    (hne' : label' ≠ []) (h : labelText label ++ x = labelText label' ++ y) :
    label = label' ∧ x = y := by
  obtain ⟨b, rest, rfl⟩ := List.exists_cons_of_ne_nil hne
  obtain ⟨b', rest', rfl⟩ := List.exists_cons_of_ne_nil hne'
  simp only [labelText, List.append_assoc, List.singleton_append] at h
  obtain ⟨rfl, htail⟩ := escape_inj h
  obtain ⟨rfl, hrest⟩ := escapes_inj htail
  exact ⟨rfl, hrest⟩

/-- The labels are determined by their text. -/
theorem labels_inj {labels labels' : List (List UInt8)} (hne : ∀ label ∈ labels, label ≠ [])
    (hne' : ∀ label ∈ labels', label ≠ [])
    (h : labels.flatMap labelText = labels'.flatMap labelText) : labels = labels' := by
  have hstart : ∀ label : List UInt8, labelText label ≠ [] := by
    intro label
    cases label with
    | nil => exact List.cons_ne_nil _ _
    | cons b rest => simp [labelText]
  induction labels generalizing labels' with
  | nil =>
    cases labels' with
    | nil => rfl
    | cons label' rest' =>
      rw [List.flatMap_nil, List.flatMap_cons] at h
      exact absurd (List.append_eq_nil_iff.mp h.symm).1 (hstart label')
  | cons label rest ih =>
    cases labels' with
    | nil =>
      rw [List.flatMap_nil, List.flatMap_cons] at h
      exact absurd (List.append_eq_nil_iff.mp h).1 (hstart label)
    | cons label' rest' =>
      rw [List.flatMap_cons, List.flatMap_cons] at h
      obtain ⟨rfl, htail⟩ :=
        labelText_inj (hne _ List.mem_cons_self) (hne' _ List.mem_cons_self) h
      rw [ih (fun l hl => hne l (List.mem_cons_of_mem _ hl))
        (fun l hl => hne' l (List.mem_cons_of_mem _ hl)) htail]

/-- A text is the text of one name. -/
theorem text_inj {a b : WireName} (h : a.text = b.text) : a.labels = b.labels := by
  have hroot : ∀ n : WireName, n.labels ≠ [] → n.labels.flatMap labelText ≠ ['.'] := by
    intro n hn hdot
    obtain ⟨label, rest, hlabels⟩ := List.exists_cons_of_ne_nil hn
    obtain ⟨b, bytes, rfl⟩ := List.exists_cons_of_ne_nil
      (n.nonempty label (hlabels ▸ List.mem_cons_self))
    rw [hlabels, List.flatMap_cons, labelText, List.append_assoc] at hdot
    exact escape_ne_dot _ _ _ _ hdot
  unfold WireName.text at h
  split_ifs at h with ha hb hb
  · rw [ha, hb]
  · exact absurd h.symm (hroot b hb)
  · exact absurd h (hroot a ha)
  · exact labels_inj a.nonempty b.nonempty h

/-! ## Case -/

/-- The name in lower case. -/
def WireName.lower (n : WireName) : WireName where
  labels := n.labels.map (List.map toAsciiLowercase)
  nonempty := by
    intro label hlabel
    obtain ⟨label, hmem, rfl⟩ := List.mem_map.mp hlabel
    exact fun hnil => n.nonempty label hmem (List.map_eq_nil_iff.mp hnil)

theorem map_toLower_escape (first : Bool) (b : UInt8) :
    (escape first b).map Char.toLower = escape first (toAsciiLowercase b) := by
  have hall : ∀ first, ∀ n < 256, (escape first (UInt8.ofNat n)).map Char.toLower =
      escape first (toAsciiLowercase (UInt8.ofNat n)) := by decide +kernel
  have hb := hall first b.toNat b.toNat_lt
  rwa [UInt8.ofNat_toNat] at hb

/-- The text in lower case is that of the label in lower case. -/
theorem map_toLower_labelText (label : List UInt8) :
    (labelText label).map Char.toLower = labelText (label.map toAsciiLowercase) := by
  cases label with
  | nil => rfl
  | cons b rest =>
    simp only [labelText, List.map_append, List.map_flatMap, map_toLower_escape, List.map_cons,
      List.flatMap_map]
    rfl

theorem map_toLower_text (n : WireName) : n.text.map Char.toLower = n.lower.text := by
  unfold WireName.text WireName.lower
  simp only [List.map_eq_nil_iff]
  split_ifs with hroot
  · rfl
  · rw [List.map_flatMap, List.flatMap_map]
    simp only [map_toLower_labelText]

/-- The names with their comparison and text. -/
def wireNames : Names WireName where
  same a b := a.lower.labels == b.lower.labels
  toAscii n := String.ofList n.text
  same_refl a := beq_self_eq_true _
  same_symm h := beq_iff_eq.mpr (beq_iff_eq.mp h).symm
  same_trans h h' := beq_iff_eq.mpr ((beq_iff_eq.mp h).trans (beq_iff_eq.mp h'))
  same_of_text := by
    intro a b h
    rw [eqIgnoreAsciiCase, beq_iff_eq, String.toList_ofList, String.toList_ofList,
      map_toLower_text, map_toLower_text] at h
    exact beq_iff_eq.mpr (text_inj h)

end Udp2raw.Dns
