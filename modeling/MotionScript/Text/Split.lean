/-!
# Splitting at a character

A text is cut wherever a mark stands, so it has one piece more than it has marks, and no piece holds
the mark.
-/
namespace MotionScript.Text

def splitAt (mark : Char) : List Char → List (List Char)
  | [] => [[]]
  | c :: rest =>
    if c = mark then [] :: splitAt mark rest
    else
      match splitAt mark rest with
      | [] => [[c]]
      | piece :: more => (c :: piece) :: more

/-- The lines of a text; a last line without an end counts when it is not empty. -/
def lines (text : String) : List String :=
  let pieces := splitAt '\n' text.toList
  ((if pieces.getLast? = some [] then pieces.dropLast else pieces)).map String.ofList

theorem length_splitAt (mark : Char) (text : List Char) :
    (splitAt mark text).length = text.count mark + 1 := by
  induction text with
  | nil => rfl
  | cons c rest ih =>
    by_cases h : c = mark
    · simp [splitAt, h, ih]
    · have : splitAt mark rest ≠ [] := by intro h; simp [h] at ih
      obtain ⟨piece, more, hp⟩ := List.exists_cons_of_ne_nil this
      simp [splitAt, h, hp, ← ih]

theorem splitAt_of_not_mem {mark : Char} {text : List Char} (h : mark ∉ text) :
    splitAt mark text = [text] := by
  induction text with
  | nil => rfl
  | cons c rest ih =>
    rw [List.mem_cons, not_or] at h
    rw [splitAt, if_neg (Ne.symm h.1), ih h.2]

theorem splitAt_append {mark : Char} (before after : List Char) :
    splitAt mark (before ++ mark :: after) = splitAt mark before ++ splitAt mark after := by
  induction before with
  | nil => simp [splitAt]
  | cons c rest ih =>
    have hne : splitAt mark rest ≠ [] := by
      rw [← List.length_pos_iff, length_splitAt]
      exact Nat.succ_pos _
    obtain ⟨piece, more, hpieces⟩ := List.exists_cons_of_ne_nil hne
    rw [List.cons_append, splitAt, splitAt, ih, hpieces]
    split <;> rfl

end MotionScript.Text
