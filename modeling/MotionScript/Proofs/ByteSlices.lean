import MotionScript.Instruction.Classify

/-!
# Slices by offsets in bytes

A text may be kept in UTF-8, and then a word is found at an offset in bytes and what follows it is
cut off at such an offset. A word in ASCII is found only where its characters stand, since the bytes
of every other character are no codes of ASCII. So no cut falls inside a character, and what is cut
off by bytes is what follows by characters.
-/
namespace MotionScript.Text

def bytes (text : List Char) : List UInt8 := text.flatMap String.utf8EncodeChar

/-- The first offset at which some bytes stand among others. -/
def offset? (word : List UInt8) : List UInt8 → Option Nat
  | [] => if word = [] then some 0 else none
  | byte :: rest => if word <+: byte :: rest then some 0 else (offset? word rest).map (· + 1)

def blankOffset? : List Char → Option Nat
  | [] => none
  | c :: rest => if isBlank c then some 0 else (blankOffset? rest).map (· + c.utf8Size)

/-- The text from an offset in bytes on; there is none if the offset falls inside a character or
behind the end. -/
def sliceFrom? : List Char → Nat → Option (List Char)
  | text, 0 => some text
  | [], _ + 1 => none
  | c :: text, offset + 1 =>
    if c.utf8Size ≤ offset + 1 then sliceFrom? text (offset + 1 - c.utf8Size) else none

@[simp] theorem bytes_cons (c : Char) (text : List Char) :
    bytes (c :: text) = String.utf8EncodeChar c ++ bytes text := rfl

@[simp] theorem bytes_append (first second : List Char) :
    bytes (first ++ second) = bytes first ++ bytes second :=
  List.flatMap_append

/-! ## Offsets -/

theorem offset?_of_prefix {word text : List UInt8} (h : word <+: text) :
    offset? word text = some 0 := by
  cases text with
  | nil => rw [offset?, if_pos (List.prefix_nil.mp h)]
  | cons byte rest => rw [offset?, if_pos h]

theorem offset?_append {word front rest : List UInt8}
    (h : ∀ tail, tail <:+ front → tail ≠ [] → ¬ word <+: tail ++ rest) :
    offset? word (front ++ rest) = (offset? word rest).map (· + front.length) := by
  induction front with
  | nil => simp
  | cons byte front ih =>
    have hhere : ¬ word <+: byte :: (front ++ rest) :=
      h (byte :: front) List.suffix_rfl (List.cons_ne_nil _ _)
    rw [List.cons_append, offset?, if_neg hhere,
      ih fun tail htail => h tail (htail.trans (List.suffix_cons byte front)), Option.map_map]
    rfl

@[simp] theorem sliceFrom?_zero (text : List Char) : sliceFrom? text 0 = some text := by
  cases text <;> rfl

theorem sliceFrom?_cons (c : Char) (text : List Char) (offset : Nat) :
    sliceFrom? (c :: text) (offset + c.utf8Size) = sliceFrom? text offset := by
  obtain ⟨size, hsize⟩ := Nat.exists_eq_add_one_of_ne_zero (Nat.ne_of_gt c.utf8Size_pos)
  rw [hsize, ← Nat.add_assoc, sliceFrom?, if_pos (by omega)]
  congr 1
  omega

theorem sliceFrom?_append (front rest : List Char) :
    sliceFrom? (front ++ rest) (bytes front).length = some rest := by
  induction front with
  | nil => exact sliceFrom?_zero rest
  | cons c front ih =>
    rw [bytes_cons, List.length_append, String.length_utf8EncodeChar, Nat.add_comm,
      List.cons_append, sliceFrom?_cons, ih]

theorem sliceFrom?_blankOffset? (text : List Char) :
    match blankOffset? text with
    | none => dropWord text = []
    | some offset => sliceFrom? text offset = some (dropWord text) := by
  induction text with
  | nil => rfl
  | cons c text ih =>
    by_cases hc : isBlank c
    · simp [blankOffset?, hc, dropWord, sliceFrom?]
    · cases hoffset : blankOffset? text with
      | none => simpa [blankOffset?, hc, hoffset, dropWord] using ih
      | some offset => simpa [blankOffset?, hc, hoffset, dropWord, sliceFrom?_cons] using ih

/-! ## Bytes of characters -/

theorem utf8EncodeChar_of_lt {c : Char} (h : c.toNat < 0x80) :
    String.utf8EncodeChar c = [UInt8.ofNat c.toNat] := by
  have hcode : c.val.toNat ≤ 127 := Nat.le_of_lt_succ h
  rw [String.utf8EncodeChar.eq_1, if_pos hcode]
  rfl

theorem le_of_mem_utf8EncodeChar {c : Char} (h : 0x80 ≤ c.toNat) :
    ∀ byte ∈ String.utf8EncodeChar c, 0x80 ≤ byte.toNat := by
  have hcode : ¬ c.val.toNat ≤ 127 := Nat.not_le.mpr h
  have hmarked (bits mark size : Nat) (hmark : 0x80 ≤ mark) (hsize : mark + size ≤ 0x100)
      (hpos : 0 < size) :
      0x80 ≤ (UInt8.ofNat (bits % size + mark)).toNat := by
    have hlt := Nat.mod_lt bits hpos
    rw [UInt8.toNat_ofNat', Nat.mod_eq_of_lt (by omega)]
    omega
  rw [String.utf8EncodeChar.eq_1, if_neg hcode]
  split
  · simp only [List.forall_mem_cons]
    exact ⟨hmarked _ _ 32 (by decide) (by decide) (by decide),
      hmarked _ _ 64 (by decide) (by decide) (by decide), by simp⟩
  · split
    · simp only [List.forall_mem_cons]
      exact ⟨hmarked _ _ 16 (by decide) (by decide) (by decide),
        hmarked _ _ 64 (by decide) (by decide) (by decide),
        hmarked _ _ 64 (by decide) (by decide) (by decide), by simp⟩
    · simp only [List.forall_mem_cons]
      exact ⟨hmarked _ _ 8 (by decide) (by decide) (by decide),
        hmarked _ _ 64 (by decide) (by decide) (by decide),
        hmarked _ _ 64 (by decide) (by decide) (by decide),
        hmarked _ _ 64 (by decide) (by decide) (by decide), by simp⟩

theorem code_eq {c d : Char} (hc : c.toNat < 0x80) (hd : d.toNat < 0x80)
    (h : UInt8.ofNat c.toNat = UInt8.ofNat d.toNat) : c = d := by
  have hcodes := congrArg UInt8.toNat h
  rw [UInt8.toNat_ofNat', UInt8.toNat_ofNat', Nat.mod_eq_of_lt (by omega),
    Nat.mod_eq_of_lt (by omega)] at hcodes
  exact Char.toNat_inj.mp hcodes

/-- A character outside ASCII has no byte that begins a word in ASCII. -/
theorem not_prefix_of_code {c : Char} (hc : c.toNat < 0x80) {word front rest : List UInt8}
    (hfront : ∀ byte ∈ front, 0x80 ≤ byte.toNat) (hne : front ≠ []) :
    ¬ UInt8.ofNat c.toNat :: word <+: front ++ rest := by
  obtain ⟨byte, front, rfl⟩ := List.exists_cons_of_ne_nil hne
  intro hbegin
  obtain ⟨rfl, -⟩ := List.cons_prefix_cons.mp hbegin
  have hle := hfront _ List.mem_cons_self
  rw [UInt8.toNat_ofNat', Nat.mod_eq_of_lt (by omega)] at hle
  omega

/-! ## Words in ASCII -/

section

variable {word : List Char} (hascii : ∀ c ∈ word, c.toNat < 0x80)
include hascii

/-- The bytes of a word stand at the head of a text exactly if its characters do. -/
theorem bytes_prefix_iff {text : List Char} : bytes word <+: bytes text ↔ word <+: text := by
  refine ⟨fun h => ?_, ?_⟩
  · induction word generalizing text with
    | nil => exact List.nil_prefix
    | cons c word ih =>
      obtain ⟨hc, hword⟩ := List.forall_mem_cons.mp hascii
      rw [bytes_cons, utf8EncodeChar_of_lt hc] at h
      cases text with
      | nil => cases List.prefix_nil.mp h
      | cons d text =>
        rcases Nat.lt_or_ge d.toNat 0x80 with hd | hd
        · rw [bytes_cons, utf8EncodeChar_of_lt hd] at h
          obtain ⟨hcode, h⟩ := List.cons_prefix_cons.mp h
          rw [code_eq hc hd hcode]
          exact List.cons_prefix_cons.mpr ⟨rfl, ih hword h⟩
        · exact absurd h
            (not_prefix_of_code hc (le_of_mem_utf8EncodeChar hd) String.utf8EncodeChar_ne_nil)
  · rintro ⟨rest, rfl⟩
    exact ⟨bytes rest, (bytes_append word rest).symm⟩

theorem offset?_cons {c : Char} {text : List Char} (hne : word ≠ []) (h : ¬ word <+: c :: text) :
    offset? (bytes word) (bytes (c :: text)) =
      (offset? (bytes word) (bytes text)).map (· + c.utf8Size) := by
  rw [← String.length_utf8EncodeChar c]
  refine offset?_append fun tail htail htail' => ?_
  rcases Nat.lt_or_ge c.toNat 0x80 with hc | hc
  · rw [utf8EncodeChar_of_lt hc] at htail
    rcases List.suffix_cons_iff.mp htail with rfl | hnil
    · have hbytes : ¬ bytes word <+: bytes (c :: text) := by rwa [bytes_prefix_iff hascii]
      rwa [bytes_cons, utf8EncodeChar_of_lt hc] at hbytes
    · exact absurd (List.suffix_nil.mp hnil) htail'
  · obtain ⟨d, word, rfl⟩ := List.exists_cons_of_ne_nil hne
    have hd := hascii d List.mem_cons_self
    rw [bytes_cons, utf8EncodeChar_of_lt hd]
    exact not_prefix_of_code hd
      (fun byte hbyte => le_of_mem_utf8EncodeChar hc byte (htail.mem hbyte)) htail'

/-- The bytes of a word are found where its characters are, and what follows them is what follows
the word. -/
theorem offset?_bytes (hne : word ≠ []) (text : List Char) :
    match afterFirst? word text with
    | none => offset? (bytes word) (bytes text) = none
    | some rest => ∃ offset, offset? (bytes word) (bytes text) = some offset ∧
        sliceFrom? text (offset + (bytes word).length) = some rest := by
  induction text with
  | nil =>
    obtain ⟨c, word, rfl⟩ := List.exists_cons_of_ne_nil hne
    have hbytes : bytes (c :: word) ≠ [] := by simp [String.utf8EncodeChar_ne_nil]
    rw [afterFirst?, if_neg hne]
    exact if_neg hbytes
  | cons c text ih =>
    by_cases hbegin : word <+: c :: text
    · rw [afterFirst?, if_pos hbegin]
      obtain ⟨rest, hrest⟩ := hbegin
      refine ⟨0, offset?_of_prefix ((bytes_prefix_iff hascii).mpr ⟨rest, hrest⟩), ?_⟩
      rw [← hrest, List.drop_left, Nat.zero_add, sliceFrom?_append]
    · rw [afterFirst?, if_neg hbegin]
      cases hafter : afterFirst? word text with
      | none =>
        rw [hafter] at ih
        change offset? (bytes word) (bytes (c :: text)) = none
        rw [offset?_cons hascii hne hbegin, ih, Option.map_none]
      | some rest =>
        rw [hafter] at ih
        obtain ⟨offset, hoffset, hslice⟩ := ih
        refine ⟨offset + c.utf8Size,
          by rw [offset?_cons hascii hne hbegin, hoffset, Option.map_some], ?_⟩
        rw [Nat.add_right_comm, sliceFrom?_cons, hslice]

end

end MotionScript.Text
