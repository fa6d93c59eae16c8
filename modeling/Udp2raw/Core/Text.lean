import Mathlib.Algebra.Order.Ring.Nat
import Mathlib.Data.List.DropRight

/-!
# Lines, fields and decimal numbers

Texts are lists of characters. A number is written in decimal and read back with the
leniency of an unsigned integer parser: a sign and leading zeros are allowed, so a
number in canonical form is one that is written the way it was read. Reading
with an error text for every failure comes down to reading without.
-/

namespace Text

/-! ## Decimal numbers -/

/-- A number as it is printed. -/
def decimal (n : Nat) : List Char := Nat.toDigits 10 n

/-- A number up to `max`, with an optional sign and leading zeros. -/
def parseUnsigned (max : Nat) (text : List Char) : Option Nat :=
  let digits := if text.head? = some '+' then text.tail else text
  if digits ≠ [] ∧ digits.all Char.isDigit = true ∧ Nat.ofDigitChars 10 digits 0 ≤ max then
    some (Nat.ofDigitChars 10 digits 0)
  else none

theorem decimal_ne_nil (n : Nat) : decimal n ≠ [] := Nat.toDigits_ne_nil

variable {n k : Nat} {c : Char} {text : List Char} {lines : List (List Char)}

theorem isDigit_of_mem_decimal (h : c ∈ decimal n) : c.isDigit = true :=
  Nat.isDigit_of_mem_toDigits (by decide) (by decide) h

/-- What is not a digit does not occur in a number. -/
theorem not_mem_decimal (h : c.isDigit = false) : c ∉ decimal n := by
  intro hmem
  rw [isDigit_of_mem_decimal hmem] at h
  cases h

theorem length_decimal_le (hk : 0 < k) (h : n < 10 ^ k) : (decimal n).length ≤ k :=
  (Nat.length_toDigits_le_iff (by decide) hk).mpr h

/-- Reading a printed number. -/
theorem parseUnsigned_decimal (max n : Nat) :
    parseUnsigned max (decimal n) = if n ≤ max then some n else none := by
  have hsign : (decimal n).head? ≠ some '+' := by
    intro h
    exact not_mem_decimal (by decide) (List.mem_of_mem_head? h)
  have hdigits : (decimal n).all Char.isDigit = true := by
    rw [List.all_eq_true]
    intro c hc
    exact isDigit_of_mem_decimal hc
  have hvalue : Nat.ofDigitChars 10 (decimal n) 0 = n := Nat.ofDigitChars_ten_toDigits
  simp only [parseUnsigned, if_neg hsign, hvalue, hdigits, decimal_ne_nil, ne_eq,
    not_false_eq_true, true_and]

theorem decimal_injective : Function.Injective decimal := by
  intro m n h
  have hm : Nat.ofDigitChars 10 (decimal m) 0 = m := Nat.ofDigitChars_ten_toDigits
  have hn : Nat.ofDigitChars 10 (decimal n) 0 = n := Nat.ofDigitChars_ten_toDigits
  rw [← hm, h, hn]

/-- A number up to `max` that is written the way it is printed. -/
def parseCanonical (max : Nat) (text : List Char) : Option Nat :=
  (parseUnsigned max text).filter fun n => decimal n = text

/-- A number is read from its decimal text alone. -/
theorem parseCanonical_eq_some_iff {max : Nat} :
    parseCanonical max text = some n ↔ text = decimal n ∧ n ≤ max := by
  rw [parseCanonical, Option.filter_eq_some_iff, decide_eq_true_eq]
  constructor
  · rintro ⟨hread, rfl⟩
    rw [parseUnsigned_decimal] at hread
    split_ifs at hread with hmax
    exact ⟨rfl, hmax⟩
  · rintro ⟨rfl, hmax⟩
    exact ⟨by rw [parseUnsigned_decimal, if_pos hmax], rfl⟩

/-- A written number is read if it is in range. -/
theorem parseCanonical_decimal (max n : Nat) :
    parseCanonical max (decimal n) = if n ≤ max then some n else none := by
  split_ifs with hmax
  · exact parseCanonical_eq_some_iff.mpr ⟨rfl, hmax⟩
  · rw [Option.eq_none_iff_forall_ne_some]
    intro m hm
    obtain ⟨heq, hle⟩ := parseCanonical_eq_some_iff.mp hm
    rw [decimal_injective heq] at hmax
    exact hmax hle

/-! ## Blanks -/

/-- The characters with the Unicode property `White_Space`. -/
def isSpace (c : Char) : Bool :=
  let n := c.toNat
  (9 ≤ n && n ≤ 13) || n = 0x20 || n = 0x85 || n = 0xa0 || n = 0x1680
    || (0x2000 ≤ n && n ≤ 0x200a) || n = 0x2028 || n = 0x2029 || n = 0x202f || n = 0x205f
    || n = 0x3000

/-- A text without the blanks around it. -/
def trim (text : List Char) : List Char := (text.dropWhile isSpace).rdropWhile isSpace

/-- A text without spaces is not trimmed. -/
theorem trim_eq_self (h : ∀ c ∈ text, isSpace c = false) : trim text = text := by
  have hleft : text.dropWhile isSpace = text := by
    cases text with
    | nil => rfl
    | cons c text =>
      rw [List.dropWhile_cons_of_neg]
      simp [h c List.mem_cons_self]
  rw [trim, hleft, List.rdropWhile_eq_self_iff]
  intro hne
  simp [h _ (List.getLast_mem hne)]

/-! ## Values -/

/-- A character of a field's value: neither blank nor the sign after the field's name. -/
def plain (c : Char) : Bool := !isSpace c && c != '='

theorem plain_of_isDigit (h : c.isDigit = true) : plain c = true := by
  have hne : c ≠ '=' := by
    rintro rfl
    cases h
  simp only [Char.isDigit, Bool.and_eq_true, decide_eq_true_eq, ge_iff_le,
    UInt32.le_iff_toNat_le] at h
  have hzero : '0'.val.toNat = 48 := rfl
  have hnine : '9'.val.toNat = 57 := rfl
  have hspace : isSpace c = false := by
    simp only [isSpace, Char.toNat, Bool.or_eq_false_iff, Bool.and_eq_false_iff,
      decide_eq_false_iff_not]
    omega
  simp [plain, hspace, hne]

theorem plain_of_mem_decimal (h : c ∈ decimal n) : plain c = true :=
  plain_of_isDigit (isDigit_of_mem_decimal h)

/-- What joined texts consist of. -/
theorem mem_intercalate {α : Type} {sep : List α} {texts : List (List α)} {c : α}
    (h : c ∈ sep.intercalate texts) : c ∈ sep ∨ ∃ text ∈ texts, c ∈ text := by
  induction texts with
  | nil => cases h
  | cons text texts ih =>
    cases texts with
    | nil =>
      rw [List.intercalate_singleton] at h
      exact .inr ⟨text, List.mem_singleton_self text, h⟩
    | cons next texts =>
      rw [List.intercalate_cons_cons, List.mem_append, List.mem_append] at h
      obtain (h | h) | h := h
      · exact .inr ⟨text, List.mem_cons_self, h⟩
      · exact .inl h
      · obtain h | ⟨text', htext', h⟩ := ih h
        · exact .inl h
        · exact .inr ⟨text', List.mem_cons_of_mem _ htext', h⟩

/-- The parts before and after the last separator. -/
def rsplitOnce {α : Type} [DecidableEq α] (sep : α) (text : List α) : Option (List α × List α) :=
  if sep ∈ text then some ((text.rdropWhile (· ≠ sep)).dropLast, text.rtakeWhile (· ≠ sep))
  else none

/-- Plain texts between plain separators are plain. -/
theorem plain_intercalate {sep : List Char} {texts : List (List Char)}
    (hsep : ∀ c ∈ sep, plain c = true) (htexts : ∀ text ∈ texts, ∀ c ∈ text, plain c = true) :
    ∀ c ∈ sep.intercalate texts, plain c = true := by
  intro c hc
  obtain hc | ⟨text, htext, hc⟩ := mem_intercalate hc
  · exact hsep c hc
  · exact htexts text htext c hc

/-- The length of short texts with separators is bounded. -/
theorem length_intercalate_le {sep : List Char} {texts : List (List Char)}
    (h : ∀ text ∈ texts, text.length ≤ k) :
    (sep.intercalate texts).length ≤ texts.length * (k + sep.length) := by
  induction texts with
  | nil => simp
  | cons text texts ih =>
    have hfirst := h text List.mem_cons_self
    have ih := ih fun text' h' => h text' (List.mem_cons_of_mem _ h')
    have hmul : (text :: texts).length * (k + sep.length)
        = texts.length * (k + sep.length) + (k + sep.length) := by
      rw [List.length_cons, Nat.succ_mul]
    rw [hmul]
    cases texts with
    | nil =>
      rw [List.intercalate_singleton]
      omega
    | cons next texts =>
      rw [List.intercalate_cons_cons, List.length_append, List.length_append]
      omega

/-! ## Lines -/

/-- Lines, each with its end. -/
def unlines (lines : List (List Char)) : List Char := lines.flatMap (· ++ ['\n'])

/-- Lines are separated and ended by newlines. -/
theorem unlines_eq_intercalate (h : lines ≠ []) :
    unlines lines = ['\n'].intercalate lines ++ ['\n'] := by
  induction lines with
  | nil => exact absurd rfl h
  | cons line lines ih =>
    cases lines with
    | nil => simp [unlines]
    | cons next lines =>
      have ih := ih (List.cons_ne_nil _ _)
      rw [unlines, List.flatMap_cons, ← unlines, ih, List.intercalate_cons_cons]
      simp

theorem unlines_append (a b : List (List Char)) : unlines (a ++ b) = unlines a ++ unlines b :=
  List.flatMap_append

/-- The length of short lines is bounded. -/
theorem length_unlines_le (h : ∀ line ∈ lines, line.length < k) :
    (unlines lines).length ≤ lines.length * k := by
  induction lines with
  | nil => simp [unlines]
  | cons line lines ih =>
    have hfirst := h line List.mem_cons_self
    have ih := ih fun line' h' => h line' (List.mem_cons_of_mem _ h')
    rw [List.length_cons, Nat.succ_mul, unlines, List.flatMap_cons, ← unlines]
    simp only [List.length_append, List.length_singleton]
    omega

/-- A text without the end of its last line. -/
def stripLast (text : List Char) : List Char :=
  if text.getLast? = some '\n' then text.dropLast else text

theorem stripLast_unlines (h : lines ≠ []) :
    stripLast (unlines lines) = ['\n'].intercalate lines := by
  rw [unlines_eq_intercalate h, stripLast, if_pos (by simp), List.dropLast_concat]

/-- The lines of a text are those it was made of. -/
theorem lines_unlines (h : lines ≠ []) (hbreak : ∀ line ∈ lines, '\n' ∉ line) :
    (stripLast (unlines lines)).splitOn '\n' = lines := by
  rw [stripLast_unlines h, List.splitOn_intercalate '\n' hbreak h]

/-- A text with given lines has the end of the last one or lacks it. -/
theorem eq_of_stripLast (hne : lines ≠ []) (h : stripLast text = ['\n'].intercalate lines) :
    text = ['\n'].intercalate lines ∨ text = unlines lines := by
  unfold stripLast at h
  split_ifs at h with hends
  · right
    rw [unlines_eq_intercalate hne, ← h]
    exact (List.dropLast_append_getLast? '\n' hends).symm
  · exact .inl h

/-- Lines without line ends of their own make a text that is not empty and has no carriage
return. -/
theorem ends_unlines (h : 1 < lines.length) (hbreak : ∀ line ∈ lines, '\n' ∉ line)
    (hreturn : ∀ line ∈ lines, '\r' ∉ line) :
    '\r' ∉ stripLast (unlines lines) ∧ stripLast (unlines lines) ≠ [] := by
  have hne : lines ≠ [] := List.ne_nil_of_length_pos (by omega)
  have hsplit := lines_unlines hne hbreak
  refine ⟨fun hmem => ?_, fun hnil => ?_⟩
  · rw [stripLast_unlines hne] at hmem
    obtain hmem | ⟨line, hline, hmem⟩ := mem_intercalate hmem
    · exact absurd (List.mem_singleton.mp hmem) (by decide)
    · exact hreturn line hline hmem
  · rw [hnil] at hsplit
    rw [← hsplit] at h
    exact absurd h (by decide)

/-! ## Bytes -/

theorem fromUTF8?_toUTF8 (s : String) : String.fromUTF8? s.toUTF8 = some s := by
  unfold String.fromUTF8?
  rw [String.toUTF8_eq_toByteArray, dif_pos s.isValidUTF8]
  rfl

theorem toUTF8_of_fromUTF8? {content : ByteArray} {s : String}
    (h : String.fromUTF8? content = some s) : content = s.toUTF8 := by
  unfold String.fromUTF8? at h
  split_ifs at h
  cases h
  rfl

/-- A character takes at most four bytes. -/
theorem size_toUTF8_le (text : List Char) : (String.ofList text).toUTF8.size ≤ 4 * text.length := by
  rw [String.toUTF8_eq_toByteArray, String.size_toByteArray]
  induction text with
  | nil => simp
  | cons c text ih =>
    have hc := c.utf8Size_le_four
    rw [String.ofList_cons, String.utf8ByteSize_append, String.utf8ByteSize_singleton,
      List.length_cons]
    omega

/-! ## Errors -/

section

variable {α β ε : Type}

/-- A value that has to be there. -/
def demand (why : ε) : Option α → Except ε α
  | some a => .ok a
  | none => .error why

/-- A condition that has to hold. -/
def ensure (condition : Prop) [Decidable condition] (why : ε) : Except ε Unit :=
  if condition then .ok () else .error why

theorem demand_eq_ok {why : ε} {o : Option α} {a : α} : demand why o = .ok a ↔ o = some a := by
  cases o <;> simp [demand]

theorem ensure_eq_ok {condition : Prop} [Decidable condition] {why : ε} {u : Unit} :
    ensure condition why = .ok u ↔ condition := by
  unfold ensure
  split_ifs with h <;> simp [h]

@[simp] theorem toOption_demand (why : ε) (o : Option α) : (demand why o).toOption = o := by
  cases o <;> rfl

@[simp] theorem toOption_bind (x : Except ε α) (f : α → Except ε β) :
    (x >>= f).toOption = x.toOption.bind fun a => (f a).toOption := by
  cases x <;> rfl

@[simp] theorem toOption_ensure (condition : Prop) [Decidable condition] (why : ε) :
    (ensure condition why).toOption = if condition then some () else none := by
  unfold ensure
  split_ifs <;> rfl

/-- A condition before the rest. -/
theorem ite_some_bind (condition : Prop) [Decidable condition] (a : α) (f : α → Option β) :
    (if condition then some a else none).bind f = if condition then f a else none := by
  split_ifs <;> rfl

/-- Forgetting the error commutes with a loop. -/
theorem toOption_mapM (f : α → Except ε β) (l : List α) :
    (l.mapM f).toOption = l.mapM fun a => (f a).toOption := by
  induction l with
  | nil => rfl
  | cons a l ih =>
    rw [List.mapM_cons, List.mapM_cons, toOption_bind]
    refine congrArg (Option.bind (f a).toOption) (funext fun b => ?_)
    rw [toOption_bind, ih]
    rfl

variable {bs : List β} {l : List α} {f : α → Option β}

/-- A loop that returns has one result for each element. -/
theorem length_of_mapM_eq_some (h : l.mapM f = some bs) : bs.length = l.length := by
  induction l generalizing bs with
  | nil =>
    cases h
    rfl
  | cons a l ih =>
    rw [List.mapM_cons, Option.bind_eq_bind] at h
    obtain ⟨b, -, h⟩ := Option.bind_eq_some_iff.mp h
    obtain ⟨rest, hrest, h⟩ := Option.bind_eq_some_iff.mp h
    cases h
    rw [List.length_cons, List.length_cons, ih hrest]

/-- Every result comes from an element. -/
theorem mem_of_mapM_eq_some (h : l.mapM f = some bs) : ∀ b ∈ bs, ∃ a, f a = some b := by
  induction l generalizing bs with
  | nil =>
    cases h
    intro b hb
    cases hb
  | cons a l ih =>
    rw [List.mapM_cons, Option.bind_eq_bind] at h
    obtain ⟨b₀, hb₀, h⟩ := Option.bind_eq_some_iff.mp h
    obtain ⟨rest, hrest, h⟩ := Option.bind_eq_some_iff.mp h
    cases h
    intro b hb
    obtain rfl | hb := List.mem_cons.mp hb
    · exact ⟨a, hb₀⟩
    · exact ih hrest b hb

/-- A list whose values are read back from what they print is the list of their prints. -/
theorem eq_map_of_mapM_eq_some {g : β → α} (hprint : ∀ a b, f a = some b → a = g b)
    (h : l.mapM f = some bs) : l = bs.map g := by
  induction l generalizing bs with
  | nil =>
    cases h
    rfl
  | cons a l ih =>
    rw [List.mapM_cons, Option.bind_eq_bind] at h
    obtain ⟨b, hb, h⟩ := Option.bind_eq_some_iff.mp h
    obtain ⟨rest, hrest, h⟩ := Option.bind_eq_some_iff.mp h
    cases h
    rw [List.map_cons, ← hprint a b hb, ← ih hrest]

/-- Checking every value of a list is checking the list. -/
theorem mapM_filter (f : α → Option β) (p : β → Bool) (l : List α) :
    (l.mapM fun a => (f a).filter p) = (l.mapM f).filter fun bs => bs.all p := by
  induction l with
  | nil => rfl
  | cons a l ih =>
    rw [List.mapM_cons, List.mapM_cons, ih]
    cases f a with
    | none => rfl
    | some b =>
      cases l.mapM f with
      | none => cases h : p b <;> simp [Option.filter_some, h]
      | some bs =>
        cases h : p b <;> cases h' : bs.all p <;> simp [Option.filter_some, h, h']

end

end Text
