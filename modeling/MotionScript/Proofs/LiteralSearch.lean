import MotionScript.Instruction.Vector
import Mathlib.Data.List.Chain
import Mathlib.Data.List.Forall2
import Mathlib.Data.List.TakeWhile

/-!
# Numbers found in a line

Which literals stand in a line is said here without a search: each begins at the first place where
one can begin, takes all characters that it can, and the next one is looked for behind it. A literal
is worth what its text is worth, and a text that holds digits other than those of ASCII is worth
nothing. Where literals are set apart by other words, it is these that are found, and they are the
numbers of a motion.
-/
namespace MotionScript
open Text Number

/-! ## What literals look like -/

/-- An optional sign, at least one digit, an optional point, and further digits. -/
def IsLiteral (text : List Char) : Prop :=
  ∃ sign whole point fraction, text = sign ++ whole ++ point ++ fraction ∧
    sign ∈ [[], ['-'], ['+']] ∧ whole ≠ [] ∧
    (∀ c ∈ whole, isDecimalDigit c) ∧ point ∈ [[], ['.']] ∧ ∀ c ∈ fraction, isDecimalDigit c

def Begins (text : List Char) : Prop := ∃ literal, IsLiteral literal ∧ literal <+: text

/-- The literals of a text: the first stands where a literal begins for the first time and is as
long as it can be there, and the others are those of the text behind it. -/
inductive Found : List Char → List (List Char) → Prop
  | none {text : List Char} : (∀ tail, tail <:+ text → ¬ Begins tail) → Found text []
  | next {before literal rest : List Char} {more : List (List Char)} :
      (∀ tail, tail <:+ before → tail ≠ [] → ¬ Begins (tail ++ literal ++ rest)) →
      IsLiteral literal →
      (∀ longer, IsLiteral longer → longer <+: literal ++ rest → longer.length ≤ literal.length) →
      Found rest more → Found (before ++ literal ++ rest) (literal :: more)

def valueOf? (text : List Char) : Option Float := Number.ofText? (String.ofList text)

def HasAsciiDigits (text : List Char) : Prop := ∀ c ∈ text, isDecimalDigit c → c.isDigit

instance (text : List Char) : Decidable (HasAsciiDigits text) := List.decidableBAll _ text

theorem isDigit_or_le_of_isDecimalDigit {c : Char} (h : isDecimalDigit c) :
    c.isDigit ∨ 0x660 ≤ c.toNat := by
  simp only [isDecimalDigit, List.any_eq_true, Bool.and_eq_true, decide_eq_true_eq] at h
  obtain ⟨first, hfirst, hle, hlt⟩ := h
  have hruns : ∀ first ∈ digitZeros, first = 0x30 ∨ 0x660 ≤ first := by decide
  rcases hruns first hfirst with rfl | hforeign
  · left
    simp only [Char.isDigit, Bool.and_eq_true, decide_eq_true_eq]
    exact ⟨UInt32.le_iff_toNat_le.2 hle, UInt32.le_iff_toNat_le.2 (Nat.le_of_lt_succ hlt)⟩
  · exact .inr (Nat.le_trans hforeign hle)

theorem not_isDigit_sign {c : Char} (h : c ∈ ['-', '+', '.']) : isDecimalDigit c = false := by
  have hsigns : ∀ c ∈ ['-', '+', '.'], isDecimalDigit c = false := by
    simp only [List.forall_mem_cons]
    exact ⟨by decide, by decide, by decide, by simp⟩
  exact hsigns c h

theorem mem_of_sign {sign : List Char} (hsign : sign ∈ [[], ['-'], ['+']]) {c : Char}
    (hc : c ∈ sign) : c ∈ ['-', '+', '.'] := by
  simp only [List.mem_cons, List.not_mem_nil, or_false] at hsign
  rcases hsign with rfl | rfl | rfl <;> simp_all

theorem mem_of_point {point : List Char} (hpoint : point ∈ [[], ['.']]) {c : Char}
    (hc : c ∈ point) : c ∈ ['-', '+', '.'] := by
  simp only [List.mem_cons, List.not_mem_nil, or_false] at hpoint
  rcases hpoint with rfl | rfl <;> simp_all

namespace IsLiteral

variable {text : List Char}

theorem ne_nil (h : IsLiteral text) : text ≠ [] := by
  obtain ⟨sign, whole, point, fraction, rfl, -, hwhole, -⟩ := h
  simp [hwhole]

theorem mem (h : IsLiteral text) {c : Char} (hc : c ∈ text) :
    isDecimalDigit c ∨ c ∈ ['-', '+', '.'] := by
  obtain ⟨sign, whole, point, fraction, rfl, hsign, -, hwhole, hpoint, hfraction⟩ := h
  simp only [List.mem_append] at hc
  rcases hc with ((hc | hc) | hc) | hc
  · exact .inr (mem_of_sign hsign hc)
  · exact .inl (hwhole c hc)
  · exact .inr (mem_of_point hpoint hc)
  · exact .inl (hfraction c hc)

end IsLiteral

/-! ## The search -/

theorem splitSign_append {sign body : List Char} (hsign : sign ∈ [[], ['-'], ['+']])
    (hbody : ∀ c ∈ body.head?, isDecimalDigit c) :
    splitSign (sign ++ body) = (sign == ['-'], body) := by
  simp only [List.mem_cons, List.not_mem_nil, or_false] at hsign
  rcases hsign with rfl | rfl | rfl
  · rw [List.nil_append]
    unfold splitSign
    split
    · simp [not_isDigit_sign] at hbody
    · simp [not_isDigit_sign] at hbody
    · rfl
  · rfl
  · rfl

namespace Literal

/-- A literal as it is read and its text: without a point there are no digits after it. -/
def Writes (l : Literal) (text : List Char) : Prop :=
  ∃ sign point, text = sign ++ l.whole ++ point ++ l.fraction ∧ sign ∈ [[], ['-'], ['+']] ∧
    l.negative = (sign == ['-']) ∧
    l.whole ≠ [] ∧ (∀ c ∈ l.whole, isDecimalDigit c) ∧ point ∈ [[], ['.']] ∧
    (point = [] → l.fraction = []) ∧
    ∀ c ∈ l.fraction, isDecimalDigit c

theorem Writes.isLiteral {l : Literal} {text : List Char} (h : l.Writes text) : IsLiteral text := by
  obtain ⟨sign, point, htext, hsign, -, hne, hwhole, hpoint, -, hfraction⟩ := h
  exact ⟨sign, l.whole, point, l.fraction, htext, hsign, hne, hwhole, hpoint, hfraction⟩

theorem takeDigits?_append {digits : List Char} (hne : digits ≠ [])
    (hdigits : ∀ c ∈ digits, isDecimalDigit c) (rest : List Char) :
    takeDigits? (digits ++ rest) =
      some (digits ++ rest.takeWhile isDecimalDigit, rest.dropWhile isDecimalDigit) := by
  rw [takeDigits?, List.takeWhile_append_of_pos hdigits, List.dropWhile_append_of_pos hdigits]
  split
  next hnil => exact absurd (List.append_eq_nil_iff.mp hnil).1 hne
  next => rfl

theorem take?_eq {text rest digits after : List Char} {negative : Bool}
    (hsign : splitSign text = (negative, rest))
    (hdigits : takeDigits? rest = some (digits, after)) :
    take? text = some (⟨negative, digits, (takeFraction after).1⟩, (takeFraction after).2) := by
      simp [take?, hsign, hdigits]

/-- Where a literal stands, one is taken that is at least as long. -/
theorem exists_take? {literal : List Char} (h : IsLiteral literal) (more : List Char) :
    ∃ l rest, take? (literal ++ more) = some (l, rest) ∧ rest.length ≤ more.length := by
  obtain ⟨sign, whole, point, fraction, rfl, hsign, hne, hwhole, hpoint, hfraction⟩ := h
  have hhead (rest : List Char) : ∀ c ∈ (whole ++ rest).head?, isDecimalDigit c := by
    obtain ⟨first, others, rfl⟩ := List.exists_cons_of_ne_nil hne
    simpa using hwhole first List.mem_cons_self
  simp only [List.mem_cons, List.not_mem_nil, or_false] at hpoint
  simp only [List.append_assoc]
  rcases hpoint with rfl | rfl
  · have hdigits : ∀ c ∈ whole ++ fraction, isDecimalDigit c :=
      List.forall_mem_append.mpr ⟨hwhole, hfraction⟩
    have hnonempty : whole ++ fraction ≠ [] := by simp [hne]
    have htaken := takeDigits?_append hnonempty hdigits more
    rw [List.append_assoc] at htaken
    refine ⟨_, _, take?_eq (splitSign_append hsign (hhead _)) htaken, ?_⟩
    exact Nat.le_trans (length_takeFraction_le _) (length_dropWhile_le _ _)
  · have hstop : isDecimalDigit '.' = false := not_isDigit_sign (by simp)
    have htaken := takeDigits?_append hne hwhole ('.' :: (fraction ++ more))
    simp only [List.takeWhile_cons, hstop, List.dropWhile_cons, Bool.false_eq_true, if_false,
      List.append_nil] at htaken
    refine ⟨_, _, take?_eq (splitSign_append hsign (hhead _)) htaken, ?_⟩
    rw [takeFraction, List.dropWhile_append_of_pos hfraction]
    exact length_dropWhile_le _ _

theorem exists_of_splitSign (text : List Char) :
    ∃ sign, text = sign ++ (splitSign text).2 ∧ sign ∈ [[], ['-'], ['+']] ∧
      (splitSign text).1 = (sign == ['-']) := by
  unfold splitSign
  split
  · exact ⟨['-'], rfl, by simp, rfl⟩
  · exact ⟨['+'], rfl, by simp, rfl⟩
  · exact ⟨[], rfl, by simp, rfl⟩

theorem of_takeDigits? {text digits rest : List Char} (h : takeDigits? text = some (digits, rest)) :
    text = digits ++ rest ∧ digits ≠ [] ∧ ∀ c ∈ digits, isDecimalDigit c := by
  unfold takeDigits? at h
  split at h
  · cases h
  next hne =>
    cases h
    exact ⟨(List.takeWhile_append_dropWhile).symm, hne, fun c hc => List.mem_takeWhile_imp hc⟩

theorem exists_of_takeFraction (text : List Char) :
    ∃ point, text = point ++ (takeFraction text).1 ++ (takeFraction text).2 ∧ point ∈ [[], ['.']] ∧
      (point = [] → (takeFraction text).1 = []) ∧
      ∀ c ∈ (takeFraction text).1, isDecimalDigit c := by
  unfold takeFraction
  split
  next rest => exact ⟨['.'], by simp, by simp, by simp, fun c hc => List.mem_takeWhile_imp hc⟩
  next => exact ⟨[], by simp, by simp, by simp, by simp⟩

/-- What is taken is a literal at the head of the text. -/
theorem exists_of_take? {text rest : List Char} {l : Literal} (h : take? text = some (l, rest)) :
    ∃ literal, text = literal ++ rest ∧ l.Writes literal := by
  obtain ⟨sign, htext, hsign, hnegative⟩ := exists_of_splitSign text
  cases hdigits : takeDigits? (splitSign text).2 with
  | none => simp [take?, hdigits] at h
  | some taken =>
    obtain ⟨whole, after⟩ := taken
    obtain ⟨hbody, hne, hwhole⟩ := of_takeDigits? hdigits
    obtain ⟨point, hafter, hpoint, hnone, hfraction⟩ := exists_of_takeFraction after
    cases (take?_eq rfl hdigits).symm.trans h
    refine ⟨sign ++ whole ++ point ++ (takeFraction after).1, ?_, sign, point, rfl, hsign,
      hnegative, hne, hwhole, hpoint, hnone, hfraction⟩
    calc text = sign ++ (whole ++ after) := by rw [← hbody]; exact htext
      _ = sign ++ (whole ++ (point ++ (takeFraction after).1 ++ (takeFraction after).2)) := by
        rw [← hafter]
      _ = _ := by simp only [List.append_assoc]

theorem take?_eq_none_iff {text : List Char} : take? text = none ↔ ¬ Begins text := by
  constructor
  · rintro hnone ⟨literal, hliteral, more, rfl⟩
    obtain ⟨l, rest, htake, -⟩ := exists_take? hliteral more
    rw [hnone] at htake
    cases htake
  · intro hbegins
    cases htake : take? text with
    | none => rfl
    | some taken =>
      obtain ⟨literal, rfl, hwrites⟩ := exists_of_take? htake
      exact absurd ⟨literal, hwrites.isLiteral, taken.2, rfl⟩ hbegins

theorem scan_append {before more : List Char}
    (h : ∀ tail, tail <:+ before → tail ≠ [] → ¬ Begins (tail ++ more)) :
    scan (before ++ more) = scan more := by
  induction before with
  | nil => rfl
  | cons c before ih =>
    have hhere : ¬ Begins (c :: (before ++ more)) :=
      h (c :: before) List.suffix_rfl (List.cons_ne_nil _ _)
    rw [List.cons_append, scan_of_none (take?_eq_none_iff.mpr hhere)]
    exact ih fun tail htail => h tail (htail.trans (List.suffix_cons c before))

theorem scan_nil : scan [] = [] := by
  rw [scan.eq_def]
  rfl

/-- The literals that are read are those that are found. -/
theorem writes_scan {text : List Char} {texts : List (List Char)} (h : Found text texts) :
    List.Forall₂ Writes (scan text) texts := by
  induction h with
  | @none text hnone =>
    have hscan : scan (text ++ []) = scan [] := scan_append fun tail htail _ => by
      simpa using hnone tail htail
    rw [List.append_nil, scan_nil] at hscan
    rw [hscan]
    exact .nil
  | @next before literal rest more hbefore hliteral hlongest _ ih =>
    obtain ⟨l, rest', htake, hle⟩ := exists_take? hliteral rest
    obtain ⟨literal', htext, hwrites⟩ := exists_of_take? htake
    have hle' := hlongest literal' hwrites.isLiteral ⟨rest', htext.symm⟩
    have hlength := congrArg List.length htext
    simp only [List.length_append] at hlength
    obtain ⟨rfl, rfl⟩ := List.append_inj htext (by omega)
    rw [List.append_assoc,
      scan_append (fun tail htail hne => by simpa using hbefore tail htail hne), scan_of_some htake]
    exact .cons hwrites ih

end Literal

namespace Found

theorem cons {c : Char} {text : List Char} {texts : List (List Char)} (h : Found text texts)
    (hc : ¬ Begins (c :: text)) :
    Found (c :: text) texts := by
  cases h with
  | none hnone =>
    refine .none fun tail htail => ?_
    rcases List.suffix_cons_iff.mp htail with rfl | htail
    · exact hc
    · exact hnone tail htail
  | @next before literal rest more hbefore hliteral hlongest hmore =>
    change Found ((c :: before) ++ literal ++ rest) (literal :: more)
    refine .next (fun tail htail hne => ?_) hliteral hlongest hmore
    rcases List.suffix_cons_iff.mp htail with rfl | htail
    · exact hc
    · exact hbefore tail htail hne

theorem exists_texts (text : List Char) : ∃ texts, Found text texts := by
  induction text using Literal.scan.induct with
  | case1 text l rest htake _ ih =>
    obtain ⟨texts, hfound⟩ := ih
    obtain ⟨literal, rfl, hwrites⟩ := Literal.exists_of_take? htake
    refine ⟨literal :: texts, ?_⟩
    change Found ([] ++ literal ++ rest) (literal :: texts)
    refine .next (fun tail htail hne => ?_) hwrites.isLiteral ?_ hfound
    · exact absurd (List.suffix_nil.mp htail) hne
    · rintro longer hlonger ⟨more, hmore⟩
      obtain ⟨l', rest', htake', hle⟩ := Literal.exists_take? hlonger more
      rw [hmore, htake] at htake'
      cases htake'
      have hlength := congrArg List.length hmore
      simp only [List.length_append] at hlength
      omega
  | case2 htake =>
    refine ⟨[], .none fun tail htail => ?_⟩
    rw [List.suffix_nil.mp htail]
    exact Literal.take?_eq_none_iff.mp htake
  | case3 c rest htake ih =>
    obtain ⟨texts, hfound⟩ := ih
    exact ⟨texts, hfound.cons (Literal.take?_eq_none_iff.mp htake)⟩

theorem place_unique {before before' text text' : List Char} (h : before ++ text = before' ++ text')
    (htext : Begins text) (htext' : Begins text')
    (hfirst : ∀ tail, tail <:+ before → tail ≠ [] → ¬ Begins (tail ++ text))
    (hfirst' : ∀ tail, tail <:+ before' → tail ≠ [] → ¬ Begins (tail ++ text')) :
    before = before' ∧ text = text' := by
  rcases List.append_eq_append_iff.mp h with ⟨gap, rfl, rfl⟩ | ⟨gap, rfl, rfl⟩
  · by_cases hgap : gap = []
    · simp [hgap]
    · exact absurd htext (hfirst' gap (List.suffix_append _ _) hgap)
  · by_cases hgap : gap = []
    · simp [hgap]
    · exact absurd htext' (hfirst gap (List.suffix_append _ _) hgap)

theorem isLiteral {text : List Char} {texts : List (List Char)} (h : Found text texts) :
    ∀ literal ∈ texts, IsLiteral literal := by
  induction h with
  | none => simp
  | next _ hliteral _ _ ih => exact List.forall_mem_cons.mpr ⟨hliteral, ih⟩

/-- Of two literals neither can begin earlier or be longer. -/
theorem unique {text : List Char} {texts texts' : List (List Char)} (h : Found text texts)
    (h' : Found text texts') :
    texts = texts' := by
  induction h generalizing texts' with
  | none hnone =>
    cases h' with
    | none => rfl
    | @next before literal rest more _ hliteral _ _ =>
      exact absurd ⟨literal, hliteral, rest, rfl⟩ (hnone (literal ++ rest) ⟨before, by simp⟩)
  | @next before literal rest more hbefore hliteral hlongest hmore ih =>
    generalize htext : before ++ literal ++ rest = text at h'
    cases h' with
    | none hnone =>
      subst htext
      exact absurd ⟨literal, hliteral, rest, rfl⟩ (hnone (literal ++ rest) ⟨before, by simp⟩)
    | @next before' literal' rest' more' hbefore' hliteral' hlongest' hmore' =>
      simp only [List.append_assoc] at htext hbefore hbefore'
      obtain ⟨-, hsame⟩ :=
        place_unique htext ⟨literal, hliteral, rest, rfl⟩ ⟨literal', hliteral', rest', rfl⟩
          hbefore hbefore'
      have hle := hlongest literal' hliteral' ⟨rest', hsame.symm⟩
      have hle' := hlongest' literal hliteral ⟨rest, hsame⟩
      obtain ⟨rfl, rfl⟩ := List.append_inj hsame (Nat.le_antisymm hle' hle)
      rw [ih hmore']

end Found

/-! ## What literals are worth -/

theorem toLower_of_isDecimalDigit {c : Char} (h : isDecimalDigit c) : c.toLower = c := by
  unfold Char.toLower
  split
  next hupper =>
    have hlow : 'A'.toNat ≤ c.toNat := UInt32.le_iff_toNat_le.1 hupper.1
    have hhigh : c.toNat ≤ 'Z'.toNat := UInt32.le_iff_toNat_le.1 hupper.2
    have hA : 'A'.toNat = 65 := rfl
    have hZ : 'Z'.toNat = 90 := rfl
    rcases isDigit_or_le_of_isDecimalDigit h with hdigit | hforeign
    · have hcode := toNat_of_isDigit hdigit
      omega
    · omega
  next => rfl

namespace Literal

theorem readPower?_cons {c : Char} (h : isDecimalDigit c) (rest : List Char) :
    readPower? (c :: rest) = none := by
  have hmarks : isDecimalDigit 'e' = false ∧ isDecimalDigit 'E' = false := by decide
  have hne : ¬ (c = 'e' ∨ c = 'E') := by
    rintro (rfl | rfl) <;> simp [hmarks] at h
  rw [readPower?, if_neg hne]

theorem splitDigits_append {digits : List Char} (h : ∀ c ∈ digits, c.isDigit) (rest : List Char) :
    splitDigits (digits ++ rest) = (digits ++ (splitDigits rest).1, (splitDigits rest).2) := by
  rw [splitDigits, List.takeWhile_append_of_pos h, List.dropWhile_append_of_pos h]
  rfl

theorem splitDigits_self {digits : List Char} (h : ∀ c ∈ digits, c.isDigit) :
    splitDigits digits = (digits, []) := by
  simpa [splitDigits] using splitDigits_append h []

/-- Digits that are not all of ASCII are cut before the first that is not. -/
theorem splitDigits_of_foreign {digits : List Char} (hdigits : ∀ c ∈ digits, isDecimalDigit c)
    (h : digits.all Char.isDigit = false) (rest : List Char) :
    ∃ front c back, splitDigits (digits ++ rest) = (front, c :: back) ∧ isDecimalDigit c := by
  induction digits with
  | nil => cases h
  | cons c digits ih =>
    obtain ⟨hc, hdigits⟩ := List.forall_mem_cons.mp hdigits
    by_cases hdigit : c.isDigit
    · obtain ⟨front, d, back, hsplit, hd⟩ := ih hdigits (by simpa [hdigit] using h)
      refine ⟨c :: front, d, back, ?_, hd⟩
      simp only [splitDigits, Prod.mk.injEq] at hsplit
      simp [splitDigits, hdigit, hsplit.1, hsplit.2]
    · exact ⟨[], c, digits ++ rest, by simp [splitDigits, hdigit], hc⟩

theorem readUnsigned?_eq {whole point fraction : List Char} (hne : whole ≠ [])
    (hwhole : ∀ c ∈ whole, isDecimalDigit c) (hpoint : point ∈ [[], ['.']])
    (hnone : point = [] → fraction = []) (hfraction : ∀ c ∈ fraction, isDecimalDigit c) :
    readUnsigned? (whole ++ (point ++ fraction)) =
      if (whole ++ fraction).all Char.isDigit
        then some (nearest (digitsToNat (whole ++ fraction)) (-fraction.length))
      else none := by
  cases hasciiWhole : whole.all Char.isDigit with
  | false =>
    obtain ⟨front, c, back, hsplit, hc⟩ :=
      splitDigits_of_foreign hwhole hasciiWhole (point ++ fraction)
    have hdot : ∀ rest, c :: back = '.' :: rest → False := by
      rintro rest ⟨⟩
      simp [not_isDigit_sign] at hc
    simp [readUnsigned?, hsplit, hasciiWhole, readPower?_cons hc]
  | true =>
    rw [List.all_eq_true] at hasciiWhole
    simp only [List.mem_cons, List.not_mem_nil, or_false] at hpoint
    rcases hpoint with rfl | rfl
    · rw [hnone rfl]
      simp [readUnsigned?, splitDigits_self hasciiWhole, hne, readPower?,
        List.all_eq_true.mpr hasciiWhole]
    · have hsplit : splitDigits (whole ++ '.' :: fraction) = (whole, '.' :: fraction) := by
        have hdot : splitDigits ('.' :: fraction) = ([], '.' :: fraction) := rfl
        rw [splitDigits_append hasciiWhole, hdot, List.append_nil]
      cases hasciiFraction : fraction.all Char.isDigit with
      | false =>
        obtain ⟨front, c, back, hsplit', hc⟩ := splitDigits_of_foreign hfraction hasciiFraction []
        rw [List.append_nil] at hsplit'
        simp [readUnsigned?, hsplit, hsplit', hne, hasciiFraction, readPower?_cons hc]
      | true =>
        have hsplit' := splitDigits_self (List.all_eq_true.mp hasciiFraction)
        simp [readUnsigned?, hsplit, hsplit', hne, hasciiFraction, readPower?,
          List.all_eq_true.mpr hasciiWhole]

theorem Writes.value?_eq {l : Literal} {text : List Char} (h : l.Writes text) :
    l.value? = valueOf? text := by
  obtain ⟨sign, point, rfl, hsign, hnegative, hne, hwhole, hpoint, hnone, hfraction⟩ := h
  obtain ⟨first, others, hfirst⟩ := List.exists_cons_of_ne_nil hne
  have hdigit : isDecimalDigit first := hwhole first (by simp [hfirst])
  have hsplit : splitSign (sign ++ (l.whole ++ (point ++ l.fraction))) =
      (l.negative, l.whole ++ (point ++ l.fraction)) := by
    rw [hnegative]
    exact splitSign_append hsign (by simpa [hfirst] using hdigit)
  -- no word for an infinity or for no number begins with a digit
  have hword (word : List Char) (h : ∀ c ∈ word.head?, isDecimalDigit c = false) (hne : word ≠ []) :
      String.ofList ((l.whole ++ (point ++ l.fraction)).map Char.toLower) ≠ String.ofList word := by
    intro he
    obtain ⟨c, rest, rfl⟩ := List.exists_cons_of_ne_nil hne
    have hchars := String.ofList_injective he
    rw [hfirst, List.cons_append, List.map_cons, toLower_of_isDecimalDigit hdigit] at hchars
    cases hchars
    simp [h first rfl] at hdigit
  have hinf : String.ofList ((l.whole ++ (point ++ l.fraction)).map Char.toLower) ≠ "inf" :=
    hword "inf".toList (by simp; decide) (by decide)
  have hinfinity : String.ofList
      ((l.whole ++ (point ++ l.fraction)).map Char.toLower) ≠ "infinity" :=
    hword "infinity".toList (by simp; decide) (by decide)
  have hnan : String.ofList ((l.whole ++ (point ++ l.fraction)).map Char.toLower) ≠ "nan" :=
    hword "nan".toList (by simp; decide) (by decide)
  simp only [valueOf?, Number.ofText?, String.toList_ofList, List.append_assoc, hsplit, hinf,
    hinfinity, hnan, or_self, if_false, readUnsigned?_eq hne hwhole hpoint hnone hfraction, value?]
  split <;> rfl

theorem Writes.hasAsciiDigits_iff {l : Literal} {text : List Char} (h : l.Writes text) :
    HasAsciiDigits text ↔ (l.whole ++ l.fraction).all Char.isDigit := by
  obtain ⟨sign, point, rfl, hsign, -, -, hwhole, hpoint, -, hfraction⟩ := h
  simp only [List.all_eq_true, HasAsciiDigits, List.mem_append]
  refine ⟨fun h c hc => ?_, fun h c hc hdigit => ?_⟩
  · rcases hc with hc | hc
    · exact h c (by simp [hc]) (hwhole c hc)
    · exact h c (by simp [hc]) (hfraction c hc)
  · simp only [or_assoc] at hc
    rcases hc with hc | hc | hc | hc
    · simp [not_isDigit_sign (mem_of_sign hsign hc)] at hdigit
    · exact h c (.inl hc)
    · simp [not_isDigit_sign (mem_of_point hpoint hc)] at hdigit
    · exact h c (.inr hc)

/-- Exactly the literals in ASCII digits are worth something. -/
theorem valueOf?_eq_none_iff {text : List Char} (h : IsLiteral text) :
    valueOf? text = none ↔ ¬ HasAsciiDigits text := by
  obtain ⟨l, rest, htake, hle⟩ := exists_take? h []
  obtain rfl := List.length_eq_zero_iff.mp (Nat.le_zero.mp hle)
  obtain ⟨literal, htext, hwrites⟩ := exists_of_take? htake
  rw [List.append_nil, List.append_nil] at htext
  rw [htext, hwrites.hasAsciiDigits_iff, ← hwrites.value?_eq, value?]
  split <;> simp_all

/-- The values of a line are those of the literals found in it. -/
theorem values_eq {line : String} {texts : List (List Char)} (h : Found line.toList texts) :
    values line = texts.filterMap valueOf? := by
  have hwrites := writes_scan h
  rw [values]
  generalize scan line.toList = literals at hwrites
  clear h
  induction hwrites with
  | nil => rfl
  | cons hwrite _ ih => rw [List.filterMap_cons, List.filterMap_cons, hwrite.value?_eq, ih]

end Literal

/-! ## Literals set apart -/

def IsPlain (text : List Char) : Prop := ∀ c ∈ text, isDecimalDigit c = false ∧ c ∉ ['-', '+', '.']

instance (text : List Char) : Decidable (IsPlain text) := List.decidableBAll _ text

/-- A text before literals, and literals in ASCII digits with the texts behind them; only the last
literal may be followed by nothing. -/
structure SetApart (before : List Char) (parts : List (List Char × List Char)) : Prop where
  plain : IsPlain before
  literals : ∀ part ∈ parts, IsLiteral part.1 ∧ HasAsciiDigits part.1 ∧ IsPlain part.2
  apart : parts.IsChain fun part _ => part.2 ≠ []

def joined (before : List Char) (parts : List (List Char × List Char)) : List Char :=
  before ++ parts.flatMap fun part => part.1 ++ part.2

theorem IsLiteral.not_mem_plain {literal text : List Char} (h : IsLiteral literal)
    (ht : IsPlain text) {c : Char} (hc : c ∈ text) :
    c ∉ literal := by
  intro hm
  obtain ⟨hdigit, hmark⟩ := ht c hc
  rcases h.mem hm with hm | hm
  · simp [hdigit] at hm
  · exact hmark hm

theorem IsPlain.not_begins {text : List Char} (h : IsPlain text) (hne : text ≠ [])
    (more : List Char) :
    ¬ Begins (text ++ more) := by
  rintro ⟨literal, hliteral, hbegin⟩
  obtain ⟨c, text, rfl⟩ := List.exists_cons_of_ne_nil hne
  obtain ⟨d, literal, rfl⟩ := List.exists_cons_of_ne_nil hliteral.ne_nil
  obtain ⟨rfl, -⟩ := List.cons_prefix_cons.mp hbegin
  exact hliteral.not_mem_plain h List.mem_cons_self List.mem_cons_self

theorem IsLiteral.length_le {literal longer after rest : List Char} (hlonger : IsLiteral longer)
    (hafter : IsPlain after) (hrest : after = [] → rest = [])
    (hbegin : longer <+: literal ++ (after ++ rest)) :
    longer.length ≤ literal.length := by
  by_contra hlt
  have hle := Nat.le_of_lt (Nat.lt_of_not_le hlt)
  obtain ⟨further, rfl⟩ := List.prefix_of_prefix_length_le (List.prefix_append _ _) hbegin hle
  have hfurther : further ≠ [] := by
    rintro rfl
    simp at hlt
  have hbehind := (List.prefix_append_right_inj literal).mp hbegin
  cases after with
  | nil =>
    rw [hrest rfl] at hbehind
    exact hfurther (List.prefix_nil.mp hbehind)
  | cons c after =>
    obtain ⟨d, further, rfl⟩ := List.exists_cons_of_ne_nil hfurther
    obtain ⟨rfl, -⟩ := List.cons_prefix_cons.mp hbehind
    exact hlonger.not_mem_plain hafter List.mem_cons_self (by simp)

theorem SetApart.found {before : List Char} {parts : List (List Char × List Char)}
    (h : SetApart before parts) :
    Found (joined before parts) (parts.map Prod.fst) := by
  induction parts generalizing before with
  | nil =>
    refine .none fun tail htail hbegins => ?_
    have hplain : IsPlain tail := fun c hc => h.plain c (by simpa [joined] using htail.mem hc)
    rw [← List.append_nil tail] at hbegins
    refine hplain.not_begins (fun hnil => ?_) [] hbegins
    obtain ⟨literal, hliteral, hbegin⟩ := hbegins
    exact hliteral.ne_nil (List.prefix_nil.mp (by simpa [hnil] using hbegin))
  | cons part parts ih =>
    obtain ⟨literal, after⟩ := part
    obtain ⟨⟨hliteral, -, hafter⟩, hliterals⟩ := List.forall_mem_cons.mp h.literals
    obtain ⟨hapart, hchain⟩ := List.isChain_cons.mp h.apart
    have hrest : after = [] → (parts.flatMap fun part => part.1 ++ part.2) = [] := by
      intro hnil
      cases parts with
      | nil => rfl
      | cons next parts => exact absurd hnil (hapart next rfl)
    have hline : joined before ((literal, after) :: parts) = before ++ literal ++
        joined after parts := by
      simp [joined]
    rw [hline]
    refine .next (fun tail htail hne => ?_) hliteral
      (fun longer hlonger => hlonger.length_le hafter hrest)
      (ih ⟨hafter, hliterals, hchain⟩)
    rw [List.append_assoc]
    exact IsPlain.not_begins (fun c hc => h.plain c (htail.mem hc)) hne _

/-! ## The numbers of a motion -/

def MotionParams.along (p : MotionParams) : Axis → Float
  | .x => p.dx
  | .y => p.dy
  | .z => p.dz

/-- A vector that takes its numbers from a list: the first is the distance along an axis, up to the
sign of the direction, and the second is the velocity if it is asked for. -/
structure MotionParams.Takes (p : MotionParams) (axis : Axis) (sign : Float) (asked : Prop)
    (numbers : List Float) : Prop where
  distance : ∃ first ∈ numbers.head?, p.along axis = sign * first
  others : ∀ other, other ≠ axis → p.along other = 0
  velocity : asked → numbers[1]? = some p.velocity
  unasked : ¬ asked → p.velocity = 1

theorem Motion.params_of_axis {motion : Motion} {axis : Axis} {sign : Float}
    (h : motion.axis? = some (axis, sign)) (line : String) :
    let asked := "velocity".toList <:+: line.toList
    let numbers := Literal.values line
    ((∃ p, motion.params line = .ok p) ↔ 1 ≤ numbers.length ∧ (asked → 2 ≤ numbers.length)) ∧
      ∀ p, motion.params line = .ok p → p.Takes axis sign asked numbers := by
  intro asked numbers
  have hasked : Text.occurs "velocity".toList line.toList = true ↔ asked := occurs_iff
  have hothers (distance velocity : Float) : ∀ other, other ≠ axis →
      MotionParams.along { MotionParams.withAxis {} axis distance with velocity } other = 0 := by
    intro other hne
    cases axis <;> cases other <;> first | rfl | exact absurd rfl hne
  have halong (distance velocity : Float) :
      MotionParams.along { MotionParams.withAxis {} axis distance with velocity } axis =
        distance := by cases axis <;> rfl
  simp only [params, h]
  rcases hnumbers : Literal.values line with _ | ⟨first, rest⟩
  · simp [numbers, hnumbers]
  by_cases hmentioned : asked
  · simp only [if_pos (hasked.mpr hmentioned)]
    cases rest with
    | nil => simp [numbers, hnumbers, hmentioned]
    | cons velocity rest =>
      refine ⟨by simp [numbers, hnumbers], fun p hp => ?_⟩
      cases hp
      exact ⟨⟨first, by simp [numbers, hnumbers], halong _ _⟩, hothers _ _,
        fun _ => by simp [numbers, hnumbers], fun hnot => absurd hmentioned hnot⟩
  · simp only [if_neg fun h => hmentioned (hasked.mp h)]
    refine ⟨by simp [numbers, hnumbers, hmentioned], fun p hp => ?_⟩
    cases hp
    have hdefault (distance : Float) : MotionParams.withAxis {} axis distance =
        { MotionParams.withAxis {} axis distance with velocity := 1 } := by cases axis <;> rfl
    rw [hdefault]
    exact ⟨⟨first, by simp [numbers, hnumbers], halong _ _⟩, hothers _ _,
      fun hyes => absurd hyes hmentioned, fun _ => rfl⟩

/-- The numbers of a line are the values of the literals found in it. -/
theorem numbers_of_line (line : String) :
    (∃! texts, Found line.toList texts) ∧
      (∀ texts, Found line.toList texts → Literal.values line = texts.filterMap valueOf? ∧
        ∀ text ∈ texts, valueOf? text = none ↔ ¬ HasAsciiDigits text) ∧
      ∀ before parts, SetApart before parts → line.toList = joined before parts →
        (Literal.values line).map some = parts.map (fun part => valueOf? part.1) ∧
          ∀ motion : Motion, ∀ axis sign, motion.axis? = some (axis, sign) →
            let asked := "velocity".toList <:+: line.toList
            ((∃ p, motion.params line = .ok p) ↔ 1 ≤ parts.length ∧ (asked → 2 ≤ parts.length)) ∧
              ∀ p, motion.params line = .ok p → p.Takes axis sign asked (Literal.values line) := by
  obtain ⟨texts, hfound⟩ := Found.exists_texts line.toList
  refine ⟨⟨texts, hfound, fun _ h => h.unique hfound⟩,
    fun texts' hfound' => ⟨Literal.values_eq hfound', fun text htext => ?_⟩,
    fun before parts hparts hline => ?_⟩
  · exact Literal.valueOf?_eq_none_iff (hfound'.isLiteral text htext)
  · have hvalues : (Literal.values line).map some = parts.map fun part => valueOf? part.1 := by
      have hfound' : Found line.toList (parts.map Prod.fst) := hline ▸ hparts.found
      have hworth : ∀ part ∈ parts, (valueOf? part.1).isSome := by
        intro part hpart
        obtain ⟨hliteral, hascii, -⟩ := hparts.literals part hpart
        exact Option.isSome_iff_ne_none.mpr fun hnone =>
          (Literal.valueOf?_eq_none_iff hliteral).mp hnone hascii
      rw [Literal.values_eq hfound', List.filterMap_map,
        List.map_filterMap_some_eq_filter_map_isSome]
      exact List.filter_eq_self.mpr (List.forall_mem_map.mpr hworth)
    have hlength : (Literal.values line).length = parts.length := by
      simpa using congrArg List.length hvalues
    refine ⟨hvalues, fun motion axis sign haxis => ?_⟩
    rw [← hlength]
    exact motion.params_of_axis haxis line

/-- A signed distance, and a velocity that ends with a point. -/
theorem numbers_of_line_forward :
    let line := "go forward +3.5 at velocity 2."
    let parts := [("+3.5".toList, " at velocity ".toList), ("2.".toList, [])]
    SetApart "go forward ".toList parts ∧ line.toList = joined "go forward ".toList parts ∧
      Motion.axis? .forward = some (.y, 1) ∧ Literal.values line = [3.5, 2] ∧
      ∃ p, Motion.params .forward line = .ok p ∧
      p.Takes .y 1 ("velocity".toList <:+: line.toList) (Literal.values line) := by
  intro line parts
  have hfirst : IsLiteral "+3.5".toList :=
    ⟨['+'], ['3'], ['.'], ['5'], rfl, by simp, by simp, by simp; decide, by simp, by simp; decide⟩
  have hsecond : IsLiteral "2.".toList :=
    ⟨[], ['2'], ['.'], [], rfl, by simp, by simp, by simp; decide, by simp, by simp⟩
  have hparts : SetApart "go forward ".toList parts := by
    refine ⟨by decide, ?_, by simp [parts]⟩
    simp only [parts, List.forall_mem_cons]
    exact ⟨⟨hfirst, by decide, by decide⟩, ⟨hsecond, by decide, by decide⟩, by simp⟩
  have hline : line.toList = joined "go forward ".toList parts := by decide
  obtain ⟨-, -, hjoined⟩ := numbers_of_line line
  obtain ⟨hvalues, hmotion⟩ := hjoined _ _ hparts hline
  obtain ⟨hsome, htakes⟩ := hmotion .forward .y 1 rfl
  obtain ⟨p, hp⟩ := hsome.mpr ⟨by simp [parts], fun _ => by simp [parts]⟩
  have hworth : parts.map (fun part => valueOf? part.1) = [(3.5 : Float), 2].map some := rfl
  have hnumbers := (List.map_inj_right fun _ _ => Option.some.inj).mp (hvalues.trans hworth)
  exact ⟨hparts, hline, rfl, hnumbers, p, hp, htakes p hp⟩

end MotionScript
