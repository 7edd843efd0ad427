import MotionScript.Number.Numeral

/-!
# JSON values as written

A value keeps what its text says and no more: numbers are numerals, strings are characters and
escaped code units, and the members of an object stand in their order with repetitions. What a
number or a string is worth is asked later, so a value that nobody reads may hold a number out of
range or half of a surrogate pair.
-/
namespace MotionScript

/-- A part of a JSON string: a character, or a 16-bit code unit given by a `u` escape. -/
inductive Json.Piece
  | char (c : Char)
  | unit (code : Nat)
  deriving DecidableEq, Repr

inductive Json
  | null
  | bool (value : Bool)
  | number (numeral : Number.Numeral)
  | string (pieces : List Json.Piece)
  | array (items : List Json)
  | object (members : List (List Json.Piece × Json))

namespace Json

def pieces (text : String) : List Piece := text.toList.map .char

def ofText (text : String) : Json := .string (pieces text)

/-- The characters that a string stands for; two escaped surrogates in a row make one character, and
a surrogate alone makes none. -/
def characters? : List Piece → Option (List Char)
  | [] => some []
  | .char c :: rest => (characters? rest).map (c :: ·)
  | .unit high :: rest =>
    if 0xd800 ≤ high ∧ high < 0xdc00 then
      match rest with
      | .unit low :: rest =>
        if 0xdc00 ≤ low ∧ low < 0xe000 then
          (characters? rest).map
            (Char.ofNat (0x10000 + 0x400 * (high - 0xd800) + (low - 0xdc00)) :: ·)
        else none
      | _ => none
    else if 0xdc00 ≤ high ∧ high < 0xe000 then none
    else (characters? rest).map (Char.ofNat high :: ·)

def text? (s : List Piece) : Option String := (characters? s).map String.ofList

end Json
end MotionScript
