import MotionScript.Json.Amount
import MotionScript.Json.Printer
import MotionScript.Json.Reader
import Mathlib.Data.List.DropRight

/-!
# Written values are read back

A value that is written over several lines is read back as it was, up to the spelling of its
strings: a control character that has no short escape comes back as the code unit by which it was
written. The texts stay the same, and so does everything that is read from them by name.
-/
namespace MotionScript
open Number

/-! ## Numerals -/

def Number.AreDigits (digits : List Char) : Prop := digits ≠ [] ∧ ∀ c ∈ digits, c.isDigit

/-- A numeral as a number may be written: there are digits wherever digits may stand, and a zero
before others does not. -/
structure Number.Numeral.Legal (n : Numeral) : Prop where
  whole : AreDigits n.whole
  leading : n.whole.head? = some '0' → n.whole.length = 1
  fraction : ∀ digits ∈ n.fraction, AreDigits digits
  exponent : ∀ power ∈ n.exponent, AreDigits power.digits

namespace Json

theorem areDigits_toDigits (n : Nat) : AreDigits (Nat.toDigits 10 n) :=
  ⟨Nat.toDigits_ne_nil, fun _ hc => Nat.isDigit_of_mem_toDigits (by decide) (by decide) hc⟩

theorem head?_toDigits {n : Nat} (hn : 0 < n) : (Nat.toDigits 10 n).head? ≠ some '0' := by
  induction n using Nat.strongRecOn with
  | ind n ih =>
    by_cases hlt : n < 10
    · have hchar : ∀ n < 10, 0 < n → [n.digitChar].head? ≠ some '0' := by decide
      rw [Nat.toDigits_of_lt_base hlt]
      exact hchar n hlt hn
    · rw [Nat.toDigits_of_base_le (by decide) (Nat.le_of_not_lt hlt), List.head?_append,
        Option.or_of_isSome (by simp)]
      exact ih (n / 10) (by omega) (by omega)

theorem legal_toDigits (negative : Bool) (n : Nat) :
    Numeral.Legal ⟨negative, Nat.toDigits 10 n, none, none⟩ where
  whole := areDigits_toDigits n
  leading h := by
    rcases Nat.eq_zero_or_pos n with rfl | hn
    · rfl
    · exact absurd h (head?_toDigits hn)
  fraction := by simp
  exponent := by simp

theorem ne_of_isDigit {c d : Char} (hc : c.isDigit) (hd : d.isDigit = false) : c ≠ d := by
  rintro rfl
  exact absurd hc (by simp [hd])

def EndsNumber (rest : List Char) : Prop :=
  ∀ c ∈ rest.head?, ¬ c.isDigit ∧ c ≠ '.' ∧ c ≠ 'e' ∧ c ≠ 'E'

variable {rest : List Char}

theorem readDigits?_append {digits : List Char} (hdigits : AreDigits digits)
    (hrest : ∀ c ∈ rest.head?, ¬ c.isDigit) :
    readDigits? (digits ++ rest) = some (digits, rest) := by
  have htake : (digits ++ rest).takeWhile Char.isDigit = digits := by
    rw [List.takeWhile_append_of_pos hdigits.2]
    cases rest with
    | nil => simp
    | cons c rest => simp [hrest c rfl]
  have hdrop : (digits ++ rest).dropWhile Char.isDigit = rest := by
    rw [List.dropWhile_append_of_pos hdigits.2]
    cases rest with
    | nil => simp
    | cons c rest => simp [hrest c rfl]
  unfold readDigits?
  rw [htake, hdrop]
  cases digits with
  | nil => exact absurd rfl hdigits.1
  | cons c digits => rfl

theorem readExponent?_append {exponent : Option PowerOfTen}
    (h : ∀ power ∈ exponent, AreDigits power.digits) (hrest : EndsNumber rest) :
    readExponent? ((exponent.map PowerOfTen.chars).getD [] ++ rest) = some (exponent, rest) := by
  have hdigit (c : Char) (hc : c ∈ rest.head?) : ¬ c.isDigit := (hrest c hc).1
  cases exponent with
  | none =>
    cases rest with
    | nil => rfl
    | cons c rest => simp [readExponent?, (hrest c rfl).2.2.1, (hrest c rfl).2.2.2]
  | some power =>
    obtain ⟨sign, digits⟩ := power
    have hdigits : AreDigits digits := h _ rfl
    have hread := readDigits?_append hdigits hdigit
    cases sign with
    | some sign => cases sign <;> simp [readExponent?, PowerOfTen.chars, Sign.char, hread]
    | none =>
      obtain ⟨c, digits, rfl⟩ := List.exists_cons_of_ne_nil hdigits.1
      have hc : c.isDigit := hdigits.2 c (by simp)
      have hplus : c ≠ '+' := ne_of_isDigit hc rfl
      have hminus : c ≠ '-' := ne_of_isDigit hc rfl
      simp only [readExponent?, PowerOfTen.chars, Option.map_some, Option.getD_some,
        Option.map_none, Option.toList_none, List.cons_append, List.nil_append, true_or,
        if_true] at hread ⊢
      split
      next h => cases h; exact absurd rfl hplus
      next h => cases h; exact absurd rfl hminus
      next => simp [hread]

/-- Neither a digit nor a point begins a power of ten, or what follows a number. -/
theorem head?_exponent (exponent : Option PowerOfTen) (hrest : EndsNumber rest) :
    ∀ c ∈ ((exponent.map PowerOfTen.chars).getD [] ++ rest).head?, ¬ c.isDigit ∧ c ≠ '.' := by
  intro c hc
  cases exponent with
  | none => exact ⟨(hrest c hc).1, (hrest c hc).2.1⟩
  | some power =>
    cases hc
    exact ⟨by decide, by decide⟩

theorem readFraction?_append {fraction : Option (List Char)}
    (h : ∀ digits ∈ fraction, AreDigits digits) (hrest : ∀ c ∈ rest.head?, ¬ c.isDigit ∧ c ≠ '.') :
    readFraction? ((fraction.map ('.' :: ·)).getD [] ++ rest) = some (fraction, rest) := by
  cases fraction with
  | none =>
    unfold readFraction?
    split
    next hpoint => exact absurd rfl (hrest '.' (congrArg List.head? hpoint)).2
    next => rfl
  | some digits => simp [readFraction?, readDigits?_append (h _ rfl) fun c hc => (hrest c hc).1]

theorem head?_fraction (fraction : Option (List Char))
    (hrest : ∀ c ∈ rest.head?, ¬ c.isDigit ∧ c ≠ '.') :
    ∀ c ∈ ((fraction.map ('.' :: ·)).getD [] ++ rest).head?, ¬ c.isDigit := by
  intro c hc
  cases fraction with
  | none => exact (hrest c hc).1
  | some digits =>
    cases hc
    decide

theorem readNumeral?_chars {n : Numeral} (hn : n.Legal) (hrest : EndsNumber rest) :
    readNumeral? (n.chars ++ rest) = some (n, rest) := by
  obtain ⟨negative, whole, fraction, exponent⟩ := n
  obtain ⟨hwhole, hleading, hfraction, hexponent⟩ := hn
  dsimp only at hwhole hleading hfraction hexponent
  have hhead := head?_exponent exponent hrest
  have hpower := readExponent?_append hexponent hrest
  have hpoint := readFraction?_append hfraction hhead
  have hdigits := readDigits?_append hwhole (head?_fraction fraction hhead)
  have hlead : ¬ (whole.head? = some '0' ∧ whole.length ≠ 1) := fun h => h.2 (hleading h.1)
  have hunsigned : readUnsigned? negative (whole ++ ((fraction.map ('.' :: ·)).getD [] ++
      ((exponent.map PowerOfTen.chars).getD [] ++ rest))) =
      some (⟨negative, whole, fraction, exponent⟩, rest) := by
    simp [readUnsigned?, readWhole?, hdigits, hlead, hpoint, hpower]
  have hchars : Numeral.chars ⟨negative, whole, fraction, exponent⟩ ++ rest =
      (if negative then ['-'] else []) ++ (whole ++
        ((fraction.map ('.' :: ·)).getD [] ++
          ((exponent.map PowerOfTen.chars).getD [] ++ rest))) := by
    simp [Numeral.chars]
  rw [hchars]
  cases negative with
  | true => simpa [readNumeral?] using hunsigned
  | false =>
    -- without a sign the first character is a digit, so it is not taken for one
    obtain ⟨c, digits, rfl⟩ := List.exists_cons_of_ne_nil hwhole.1
    have hminus : c ≠ '-' := ne_of_isDigit (hwhole.2 c (by simp)) rfl
    simp only [Bool.false_eq_true, if_false, List.nil_append, List.cons_append] at hunsigned ⊢
    unfold readNumeral?
    split
    next h => cases h; exact absurd rfl hminus
    next => exact hunsigned

/-! ## Strings -/

def Piece.reread : Piece → Piece
  | .char c => if escapeChar c = unitEscape c.toNat then .unit c.toNat else .char c
  | .unit code => .unit code

theorem unitEscape_of_lt : ∀ code < 0x20, ∃ a b c d, unitEscape code = ['\\', 'u', a, b, c, d] ∧
    hexUnit? a b c d = some code := by
  have hdigits : ∀ code < 0x20, unitEscape code =
      ['\\', 'u', '0', '0', if code < 16 then '0' else '1', Nat.digitChar (code % 16)] ∧
      hexUnit? '0' '0' (if code < 16 then '0' else '1') (Nat.digitChar (code % 16)) =
        some code := by decide
  exact fun code hcode => ⟨_, _, _, _, hdigits code hcode⟩

/-- A character is written by a letter, by its code unit, or as it is. -/
theorem escapeChar_cases (c : Char) :
    (∃ letter, escapeChar c = ['\\', letter] ∧ letter ≠ 'u' ∧ shortEscape? letter = some c) ∨
      (c.toNat < 0x20 ∧ escapeChar c = unitEscape c.toNat) ∨
      (¬ c.toNat < 0x20 ∧ c ≠ '"' ∧ c ≠ '\\' ∧ escapeChar c = [c]) := by
  unfold escapeChar
  split
  iterate 7 exact .inl ⟨_, rfl, by decide, rfl⟩
  next hquote hslash _ _ _ _ _ =>
    by_cases hcontrol : c.toNat < 0x20
    · exact .inr (.inl ⟨hcontrol, if_pos hcontrol⟩)
    · exact .inr (.inr ⟨hcontrol, hquote, hslash, if_neg hcontrol⟩)

theorem readString?_escapeChar (c : Char) (rest : List Char) : readString? (escapeChar c ++ rest) =
    (readString? rest).map fun (s, rest) => (Piece.reread (.char c) :: s, rest) := by
  rcases escapeChar_cases c with ⟨letter, hescape, hletter, hshort⟩ | ⟨hcontrol, hescape⟩ |
    ⟨hcontrol, hquote, hslash, hescape⟩
  · have hreread : Piece.reread (.char c) = .char c := by
      simp [Piece.reread, hescape, unitEscape, hletter]
    cases hrest : readString? rest <;> simp [hreread, hescape, readString?, hletter, hshort, hrest]
  · obtain ⟨w, x, y, z, hunit, hcode⟩ := unitEscape_of_lt c.toNat hcontrol
    cases hrest : readString? rest <;>
      simp [Piece.reread, hescape, hunit, readString?, hcode, hrest]
  · have hreread : Piece.reread (.char c) = .char c := by
      simp [Piece.reread, hescape, unitEscape]
    cases hrest : readString? rest <;>
      simp [hreread, hescape, readString?, hslash, hcontrol, hrest]

theorem readString?_pieces (text : String) (rest : List Char) :
    readString? ((pieces text).flatMap Piece.chars ++ '"' :: rest) =
      some ((pieces text).map Piece.reread, rest) := by
  unfold pieces
  induction text.toList with
  | nil => rfl
  | cons c chars ih =>
    have hchar := readString?_escapeChar c
      ((chars.map Piece.char).flatMap Piece.chars ++ '"' :: rest)
    simpa [Piece.chars, ih] using hchar

theorem characters?_unit (c : Char) (rest : List Piece) :
    characters? (.unit c.toNat :: rest) = (characters? rest).map (c :: ·) := by
  have hvalid : c.toNat < 0xd800 ∨ 0xdfff < c.toNat ∧ c.toNat < 0x110000 := c.valid
  have hhigh : ¬ (0xd800 ≤ c.toNat ∧ c.toNat < 0xdc00) := by omega
  have hlow : ¬ (0xdc00 ≤ c.toNat ∧ c.toNat < 0xe000) := by omega
  rw [characters?.eq_def]
  dsimp only
  rw [if_neg hhigh, if_neg hlow, Char.ofNat_toNat]

theorem characters?_reread (chars : List Char) :
    characters? ((chars.map Piece.char).map Piece.reread) = some chars := by
  induction chars with
  | nil => rfl
  | cons c chars ih =>
    rw [List.map_cons, List.map_cons, Piece.reread]
    split
    · rw [characters?_unit, ih, Option.map_some]
    · rw [characters?, ih, Option.map_some]

@[simp]
theorem text?_reread (text : String) : text? ((pieces text).map Piece.reread) = some text := by
  rw [text?, pieces, characters?_reread, Option.map_some, String.ofList_toList]

/-! ## Values -/

mutual

/-- A value whose numbers may be written as they are and whose strings are texts. -/
def IsLegal : Json → Prop
  | .number n => n.Legal
  | .string s => ∃ text, s = pieces text
  | .array items => AreLegal items
  | .object members => AreMembersLegal members
  | _ => True

def AreLegal : List Json → Prop
  | [] => True
  | item :: rest => IsLegal item ∧ AreLegal rest

def AreMembersLegal : List (List Piece × Json) → Prop
  | [] => True
  | (key, value) :: rest => (∃ text, key = pieces text) ∧ IsLegal value ∧ AreMembersLegal rest

end

mutual

def reread : Json → Json
  | .string s => .string (s.map Piece.reread)
  | .array items => .array (rereadItems items)
  | .object members => .object (rereadMembers members)
  | value => value

def rereadItems : List Json → List Json
  | [] => []
  | item :: rest => reread item :: rereadItems rest

def rereadMembers : List (List Piece × Json) → List (List Piece × Json)
  | [] => []
  | (key, value) :: rest => (key.map Piece.reread, reread value) :: rereadMembers rest

end

/-! ### Between the tokens -/

@[simp]
theorem skipGap_cons {c : Char} (hc : isGap c = false) (text : List Char) :
    skipGap (c :: text) = c :: text := by
  simp [skipGap, hc]

@[simp]
theorem skipGap_lineBreak (level : Nat) (text : List Char) :
    skipGap (lineBreak level ++ text) = skipGap text := by
  refine List.dropWhile_append_of_pos fun c hc => ?_
  simp only [lineBreak, List.mem_cons, List.mem_replicate] at hc
  rcases hc with rfl | ⟨-, rfl⟩ <;> rfl

@[simp]
theorem skipGap_skipGap (text : List Char) : skipGap (skipGap text) = skipGap text := by
  simp [skipGap, List.dropWhile_idempotent]

theorem readValue?_skipGap (fuel : Nat) (text : List Char) :
    readValue? fuel (skipGap text) = readValue? fuel text := by
  cases fuel with
  | zero => rfl
  | succ fuel => rw [readValue?, readValue?, skipGap_skipGap]

theorem readValue?_lineBreak (fuel level : Nat) (text : List Char) :
    readValue? fuel (lineBreak level ++ text) = readValue? fuel text := by
  rw [← readValue?_skipGap, skipGap_lineBreak, readValue?_skipGap]

theorem readValue?_space (fuel : Nat) (text : List Char) :
    readValue? fuel (' ' :: text) = readValue? fuel text := by
  rw [← readValue?_skipGap, ← readValue?_skipGap fuel text]
  rfl

theorem readItems?_skipGap (fuel : Nat) (text : List Char) :
    readItems? fuel (skipGap text) = readItems? fuel text := by
  cases fuel with
  | zero => rfl
  | succ fuel => rw [readItems?, readItems?, readValue?_skipGap]

theorem readMembers?_skipGap (fuel : Nat) (text : List Char) :
    readMembers? fuel (skipGap text) = readMembers? fuel text := by
  cases fuel with
  | zero => rfl
  | succ fuel => rw [readMembers?, readMembers?, skipGap_skipGap]

theorem endsNumber_lineBreak (level : Nat) (text : List Char) :
    EndsNumber (lineBreak level ++ text) := by
  simp [EndsNumber, lineBreak]

theorem endsNumber_comma (text : List Char) : EndsNumber (',' :: text) := by simp [EndsNumber]

theorem exists_cons_chars {n : Numeral} (hn : n.Legal) :
    ∃ c chars, n.chars = c :: chars ∧ (c = '-' ∨ c.isDigit) := by
  obtain ⟨negative, whole, fraction, exponent⟩ := n
  obtain ⟨c, digits, hwhole⟩ := List.exists_cons_of_ne_nil hn.whole.1
  dsimp only at hwhole
  subst hwhole
  cases negative with
  | true => exact ⟨'-', _, rfl, .inl rfl⟩
  | false => exact ⟨c, _, rfl, .inr (hn.whole.2 c (by simp))⟩

/-- What begins a value: no blank and no closing bracket. -/
theorem exists_cons_prettyChars {value : Json} (hvalue : value.IsLegal) (level : Nat) :
    ∃ c chars, prettyChars level value = c :: chars ∧ isGap c = false ∧ c ≠ ']' := by
  cases value with
  | null => exact ⟨_, _, rfl, rfl, by decide⟩
  | bool b => cases b <;> exact ⟨_, _, rfl, rfl, by decide⟩
  | string s => exact ⟨_, _, rfl, rfl, by decide⟩
  | array items => cases items <;> exact ⟨_, _, rfl, rfl, by decide⟩
  | object members => cases members <;> exact ⟨_, _, rfl, rfl, by decide⟩
  | number n =>
    obtain ⟨c, chars, hchars, hc⟩ := exists_cons_chars hvalue
    refine ⟨c, chars, hchars, ?_⟩
    rcases hc with rfl | hc
    · exact ⟨rfl, by decide⟩
    · have hgap : isGap c = false := by
        simp [isGap, ne_of_isDigit hc (d := ' ') rfl, ne_of_isDigit hc (d := '\n') rfl,
          ne_of_isDigit hc (d := '\t') rfl, ne_of_isDigit hc (d := '\r') rfl]
      exact ⟨hgap, ne_of_isDigit hc rfl⟩

/-! ### One value inside another -/

variable {fuel : Nat} {text : List Char}

theorem readValue?_number {n : Numeral} (hn : n.Legal) (hrest : EndsNumber rest) (fuel : Nat) :
    readValue? (fuel + 1) (n.chars ++ rest) = some (.number n, rest) := by
  have hread := readNumeral?_chars hn hrest
  obtain ⟨c, chars, hchars, hgap, -⟩ := @exists_cons_prettyChars (.number n) hn 0
  obtain ⟨first, more, hfirst, hc⟩ := exists_cons_chars hn
  obtain ⟨rfl, rfl⟩ : first = c ∧ more = chars := by simpa [prettyChars, hfirst] using hchars
  rw [hfirst, List.cons_append] at hread ⊢
  have hne (d : Char) (hd : d ≠ '-' ∧ d.isDigit = false) : first ≠ d := by
    rintro rfl
    rcases hc with rfl | hc
    · exact hd.1 rfl
    · exact ne_of_isDigit hc hd.2 rfl
  rw [readValue?, skipGap_cons hgap]
  split
  next h => exact absurd (List.cons.inj h).1 (hne 'n' (by decide))
  next h => exact absurd (List.cons.inj h).1 (hne 't' (by decide))
  next h => exact absurd (List.cons.inj h).1 (hne 'f' (by decide))
  next h => exact absurd (List.cons.inj h).1 (hne '"' (by decide))
  next h => exact absurd (List.cons.inj h).1 (hne '[' (by decide))
  next h => exact absurd (List.cons.inj h).1 (hne '{' (by decide))
  next => rw [hread]; rfl

theorem readValue?_array {items : List Json} (hitems : readItems? fuel text = some (items, rest))
    (hhead : (skipGap text).head? ≠ some ']') :
    readValue? (fuel + 1) ('[' :: text) = some (.array items, rest) := by
  rw [← readItems?_skipGap] at hitems
  have hopen : skipGap ('[' :: text) = '[' :: text := skipGap_cons (by decide) text
  simp only [readValue?, hopen]
  split
  next h => simp [h] at hhead
  next => rw [hitems]; rfl

theorem readValue?_object {members : List (List Piece × Json)}
    (hmembers : readMembers? fuel text = some (members, rest))
    (hhead : (skipGap text).head? ≠ some '}') :
    readValue? (fuel + 1) ('{' :: text) = some (.object members, rest) := by
  rw [← readMembers?_skipGap] at hmembers
  have hopen : skipGap ('{' :: text) = '{' :: text := skipGap_cons (by decide) text
  simp only [readValue?, hopen]
  split
  next h => simp [h] at hhead
  next => rw [hmembers]; rfl

theorem readItems?_last {item : Json} {after : List Char}
    (hitem : readValue? fuel text = some (item, after)) (hafter : skipGap after = ']' :: rest) :
    readItems? (fuel + 1) text = some ([item], rest) := by
  simp [readItems?, hitem, hafter]

theorem readItems?_cons {item : Json} {items : List Json} {after : List Char}
    (hitem : readValue? fuel text = some (item, ',' :: after))
    (hitems : readItems? fuel after = some (items, rest)) :
    readItems? (fuel + 1) text = some (item :: items, rest) := by
  simp [readItems?, hitem, hitems, isGap]

theorem readMembers?_last {key : String} {value : Json} {after : List Char}
    (hvalue : readValue? fuel text = some (value, after)) (hafter : skipGap after = '}' :: rest)
    (level : Nat) :
    readMembers? (fuel + 1) (lineBreak level ++ stringChars (pieces key) ++ ':' :: ' ' :: text) =
      some ([((pieces key).map Piece.reread, value)], rest) := by
  rw [← readValue?_space] at hvalue
  simp [readMembers?, stringChars, readString?_pieces, hvalue, hafter, isGap]

theorem readMembers?_cons {key : String} {value : Json} {members : List (List Piece × Json)}
    {after : List Char} (hvalue : readValue? fuel text = some (value, ',' :: after))
    (hmembers : readMembers? fuel after = some (members, rest)) (level : Nat) :
    readMembers? (fuel + 1) (lineBreak level ++ stringChars (pieces key) ++ ':' :: ' ' :: text) =
      some (((pieces key).map Piece.reread, value) :: members, rest) := by
  rw [← readValue?_space] at hvalue
  simp [readMembers?, stringChars, readString?_pieces, hvalue, hmembers, isGap]

theorem head?_skipGap_prettyItems {item : Json} (hitem : item.IsLegal) (items : List Json)
    (level : Nat) (after : List Char) :
    (skipGap (prettyItems level (item :: items) ++ after)).head? ≠ some ']' := by
  obtain ⟨c, chars, hchars, hgap, hne⟩ := exists_cons_prettyChars hitem level
  cases items <;> simp [prettyItems, hchars, hgap, hne]

theorem head?_skipGap_prettyMembers (key : List Piece) (value : Json)
    (members : List (List Piece × Json)) (level : Nat) (after : List Char) :
    (skipGap (prettyMembers level ((key, value) :: members) ++ after)).head? ≠ some '}' := by
  cases members <;> simp [prettyMembers, stringChars, isGap]

/-! ### The whole value -/

/-- Values whose text is no longer than the fuel are read back. -/
def ReadsValues (fuel : Nat) : Prop :=
  ∀ (value : Json) (level : Nat) (rest : List Char), value.IsLegal → EndsNumber rest →
  (prettyChars level value).length ≤ fuel →
  readValue? fuel (prettyChars level value ++ rest) = some (value.reread, rest)

def ReadsItems (fuel : Nat) : Prop :=
  ∀ (item : Json) (items : List Json) (level : Nat) (after rest : List Char),
  AreLegal (item :: items) → EndsNumber after → skipGap after = ']' :: rest →
  (prettyItems level (item :: items)).length ≤ fuel →
  readItems? fuel (prettyItems level (item :: items) ++ after) =
    some (rereadItems (item :: items), rest)

def ReadsMembers (fuel : Nat) : Prop :=
  ∀ (key : List Piece) (value : Json) (members : List (List Piece × Json)) (level : Nat)
  (after rest : List Char), AreMembersLegal ((key, value) :: members) → EndsNumber after →
    skipGap after = '}' :: rest →
  (prettyMembers level ((key, value) :: members)).length ≤ fuel →
  readMembers? fuel (prettyMembers level ((key, value) :: members) ++ after) =
    some (rereadMembers ((key, value) :: members), rest)

theorem readsValues_succ (hitems : ReadsItems fuel)
    (hmembers : ReadsMembers fuel) : ReadsValues (fuel + 1) := by
  intro value level rest hvalue hrest hfuel
  match value with
  | .null => rfl
  | .bool b => cases b <;> rfl
  | .number n => exact readValue?_number hvalue hrest fuel
  | .string s =>
    obtain ⟨text, rfl⟩ := hvalue
    simp [prettyChars, stringChars, readValue?, readString?_pieces, reread, isGap]
  | .array [] => rfl
  | .array (item :: items) =>
    have hclose : skipGap (lineBreak level ++ ']' :: rest) = ']' :: rest := by simp [isGap]
    have hread := hitems item items (level + 1) (lineBreak level ++ ']' :: rest) rest hvalue
      (endsNumber_lineBreak _ _) hclose
      (by simp [prettyChars] at hfuel; omega)
    have htext : prettyChars level (.array (item :: items)) ++ rest =
        '[' :: (prettyItems (level + 1) (item :: items) ++ (lineBreak level ++ ']' :: rest)) := by
          simp [prettyChars]
    rw [htext]
    exact readValue?_array hread (head?_skipGap_prettyItems hvalue.1 _ _ _)
  | .object [] => rfl
  | .object ((key, value) :: members) =>
    have hclose : skipGap (lineBreak level ++ '}' :: rest) = '}' :: rest := by simp [isGap]
    have hread := hmembers key value members (level + 1)
      (lineBreak level ++ '}' :: rest) rest hvalue
      (endsNumber_lineBreak _ _) hclose (by simp [prettyChars] at hfuel; omega)
    have htext : prettyChars level (.object ((key, value) :: members)) ++ rest =
        '{' :: (prettyMembers (level + 1) ((key, value) :: members) ++
          (lineBreak level ++ '}' :: rest)) := by
      simp [prettyChars]
    rw [htext]
    exact readValue?_object hread (head?_skipGap_prettyMembers _ _ _ _ _)

theorem readsItems_succ (hvalues : ReadsValues fuel)
    (hitems : ReadsItems fuel) : ReadsItems (fuel + 1) := by
  intro item items level after rest hlegal hends hclose hfuel
  match items with
  | [] =>
    have hitem := hvalues item level after hlegal.1 hends
      (by simp [prettyItems, lineBreak] at hfuel; omega)
    rw [← readValue?_lineBreak fuel level] at hitem
    simpa [prettyItems, rereadItems] using readItems?_last hitem hclose
  | next :: others =>
    have hitem := hvalues item level (',' :: prettyItems level (next :: others) ++ after) hlegal.1
      (endsNumber_comma _)
      (by simp [prettyItems, lineBreak] at hfuel; omega)
    have hothers := hitems next others level after rest hlegal.2 hends hclose
      (by simp [prettyItems, lineBreak] at hfuel ⊢; omega)
    rw [← readValue?_lineBreak fuel level] at hitem
    simpa [prettyItems, rereadItems] using readItems?_cons hitem hothers

theorem readsMembers_succ (hvalues : ReadsValues fuel) (hmembers : ReadsMembers fuel) :
    ReadsMembers (fuel + 1) := by
  intro key value members level after rest hlegal hends hclose hfuel
  obtain ⟨⟨text, rfl⟩, hvalue, hlegal⟩ := hlegal
  match members with
  | [] =>
    have hread := hvalues value level after hvalue hends
      (by simp [prettyMembers, lineBreak] at hfuel; omega)
    simpa [prettyMembers, rereadMembers] using readMembers?_last hread hclose level
  | (nextKey, nextValue) :: others =>
    have hread := hvalues value level
      (',' :: prettyMembers level ((nextKey, nextValue) :: others) ++ after) hvalue
      (endsNumber_comma _)
      (by simp [prettyMembers, lineBreak] at hfuel; omega)
    have hothers := hmembers nextKey nextValue others level after rest hlegal hends hclose
      (by simp [prettyMembers, lineBreak] at hfuel ⊢; omega)
    simpa [prettyMembers, rereadMembers] using readMembers?_cons hread hothers level

theorem readsValues_and (fuel : Nat) : ReadsValues fuel ∧ ReadsItems fuel ∧ ReadsMembers fuel := by
  induction fuel with
  | zero =>
    refine ⟨fun value level rest hvalue _ hfuel => ?_, fun item items level _ _ _ _ _ hfuel => ?_,
      fun key value members level _ _ _ _ _ hfuel => ?_⟩
    · obtain ⟨c, chars, hchars, -, -⟩ := exists_cons_prettyChars hvalue level
      simp [hchars] at hfuel
    · cases items <;> simp [prettyItems, lineBreak] at hfuel
    · cases members <;> simp [prettyMembers, lineBreak] at hfuel
  | succ fuel ih =>
    obtain ⟨hvalues, hitems, hmembers⟩ := ih
    exact ⟨readsValues_succ hitems hmembers, readsItems_succ hvalues hitems,
      readsMembers_succ hvalues hmembers⟩

/-- A value that has been written is read back. -/
theorem parse?_pretty {value : Json} (hvalue : value.IsLegal) :
    parse? value.pretty = some value.reread := by
  have hread := (readsValues_and (2 * (prettyChars 0 value).length + 2)).1 value 0 [] hvalue
    (by simp [EndsNumber]) (by omega)
  have hchars : value.pretty.toList = prettyChars 0 value := String.toList_ofList
  rw [List.append_nil] at hread
  simp only [parse?, hchars, hread, Option.bind_eq_bind, Option.bind_some]
  rfl

end Json
end MotionScript
