import MotionScript.Text.Printable

/-!
# Quoted text

A text shown on one line of a rendering stands in double quotes. Quotes and backslashes are escaped,
the usual controls have their short escapes, and every other character that would not show as itself
is written by its code point in braces. So the quoted form holds no line break and no tab.
-/
namespace MotionScript.Text

def codePointEscape (c : Char) : List Char :=
  ['\\', 'u', '{'] ++ Nat.toDigits 16 c.toNat ++ ['}']

def quoteChar (c : Char) : List Char :=
  match c with
  | '\x00' => ['\\', '0']
  | '\t' => ['\\', 't']
  | '\r' => ['\\', 'r']
  | '\n' => ['\\', 'n']
  | '\\' => ['\\', '\\']
  | '"' => ['\\', '"']
  | c => if isExtender c || !isPrintable c then codePointEscape c else [c]

def quoted (text : String) : String :=
  String.ofList ('"' :: text.toList.flatMap quoteChar ++ ['"'])

end MotionScript.Text
