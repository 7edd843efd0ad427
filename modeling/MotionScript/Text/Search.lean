/-!
# Words inside a text

A keyword counts wherever its characters stand in a row, also inside a longer word. `afterFirst?`
gives what follows the first such place, and `occurs_iff` says that one exists exactly when the
keyword is an infix of the text.
-/
namespace MotionScript.Text

/-- What follows the first place where `word` stands in `text`. -/
def afterFirst? (word : List Char) : List Char → Option (List Char)
  | [] => if word = [] then some [] else none
  | c :: rest =>
    if word <+: c :: rest then some ((c :: rest).drop word.length) else afterFirst? word rest

def occurs (word text : List Char) : Bool := (afterFirst? word text).isSome

theorem occurs_iff {word text : List Char} : occurs word text ↔ word <:+: text := by
  induction text with
  | nil => by_cases h : word = [] <;> simp [occurs, afterFirst?, h]
  | cons c rest ih =>
    by_cases h : word <+: c :: rest
    · simp [occurs, afterFirst?, h, h.isInfix]
    · have : occurs word (c :: rest) = occurs word rest := by simp [occurs, afterFirst?, h]
      rw [this, ih, List.infix_cons_iff]
      simp [h]

end MotionScript.Text
