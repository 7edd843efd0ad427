/-!
# Blank characters, trimming and words

Lines of instructions are cut at blanks. A blank is a character with the Unicode property
`White_Space`, so a no-break space and an ideographic space separate words, while a zero-width space
does not.
-/
namespace MotionScript.Text

/-- A character with the Unicode property `White_Space`. -/
def isBlank (c : Char) : Bool :=
  let n := c.toNat
  (9 ≤ n && n ≤ 13) || n == 0x20 || n == 0x85 || n == 0xa0 || n == 0x1680 ||
    (0x2000 ≤ n && n ≤ 0x200a) ||
    n == 0x2028 || n == 0x2029 || n == 0x202f || n == 0x205f || n == 0x3000

def trimStart (text : List Char) : List Char := text.dropWhile isBlank

def trimEnd (text : List Char) : List Char := (trimStart text.reverse).reverse

def trim (text : List Char) : List Char := trimEnd (trimStart text)

/-- The first maximal run of characters that are not blank, if there is one. -/
def firstWord? (text : List Char) : Option (List Char) :=
  match (trimStart text).takeWhile (!isBlank ·) with
  | [] => none
  | word => some word

/-- What is left from the first blank on; nothing when there is no blank. -/
def dropWord (text : List Char) : List Char := text.dropWhile (!isBlank ·)

theorem firstWord?_eq_some_iff {text word : List Char} :
    firstWord? text = some word ↔ word ≠ [] ∧ (trimStart text).takeWhile (!isBlank ·) = word := by
  unfold firstWord?
  split
  · next h => simp only [h]; constructor
              · intro h; cases h
              · rintro ⟨h₁, h₂⟩; exact absurd h₂.symm h₁
  · next w h => simp only [Option.some.injEq]; constructor
                · rintro rfl; exact ⟨h, rfl⟩
                · exact And.right

theorem not_isBlank_of_mem_firstWord? {text word : List Char} {c : Char}
    (h : firstWord? text = some word) (hc : c ∈ word) : isBlank c = false := by
  obtain ⟨-, rfl⟩ := firstWord?_eq_some_iff.1 h
  simpa using List.all_eq_true.1 List.all_takeWhile c hc

end MotionScript.Text
