import MotionScript.Text.HexDigit

/-!
# Quoted texts of TOML

A basic text stands between double quotes and knows escapes, a literal text stands between single
quotes and knows none. Long texts stand between three quotes, may hold line ends, and may end in up
to two quotes of their own; a line end of two characters counts as one. No text holds a control
character other than the tab.
-/
namespace MotionScript.Toml

def isPlain (c : Char) : Bool := c == '\t' || (0x20 ≤ c.toNat && c.toNat ≠ 0x7f)

def isSpace (c : Char) : Bool := c == ' ' || c == '\t'

def lineEnd? : List Char → Option (List Char)
  | '\n' :: rest => some rest
  | '\r' :: '\n' :: rest => some rest
  | _ => none

def shortEscape? : Char → Option Char
  | 'b' => some '\x08'
  | 't' => some '\t'
  | 'n' => some '\n'
  | 'f' => some '\x0c'
  | 'r' => some '\r'
  | '"' => some '"'
  | '\\' => some '\\'
  | _ => none

def codePoint? (digits : List Char) : Option Char := do
  let code ← Text.baseToNat? 16 digits
  if code.isValidChar then some (.ofNat code) else none

/-- The end of a long text after three quotes: quotes that follow at once belong to the text, so the
last three close it. -/
def closeLong? (quote : Char) (rest : List Char) : Option (List Char × List Char) :=
  let own := rest.takeWhile (· == quote)
  if own.length ≤ 2 then some (own, rest.drop own.length) else none

def push (c : Char) : Option (List Char × List Char) → Option (List Char × List Char) :=
  Option.map fun (text, rest) => (c :: text, rest)

/-- A basic text whose opening quotes have been read. A backslash at the end of a line skips the
blanks and line ends up to the next character. -/
def readBasic? (long skipping : Bool) : List Char → Option (List Char × List Char)
  | '"' :: '"' :: '"' :: rest => if long then closeLong? '"' rest else some ([], '"' :: '"' :: rest)
  | '"' :: rest => if long then push '"' (readBasic? long false rest) else some ([], rest)
  | '\\' :: 'u' :: a :: b :: c :: d :: rest => do
    push (← codePoint? [a, b, c, d]) (readBasic? long false rest)
  | '\\' :: 'U' :: a :: b :: c :: d :: e :: f :: g :: h :: rest => do
    push (← codePoint? [a, b, c, d, e, f, g, h]) (readBasic? long false rest)
  | '\\' :: letter :: rest =>
    match shortEscape? letter with
    | some c => push c (readBasic? long false rest)
    | none =>
      if long && (lineEnd? ((letter :: rest).dropWhile isSpace)).isSome
        then readBasic? long true rest else none
  | '\r' :: '\n' :: rest =>
    if !long then none
    else if skipping then readBasic? long true rest
    else push '\n' (readBasic? long false rest)
  | c :: rest =>
    if skipping && (isSpace c || c == '\n') then readBasic? long true rest
    else if isPlain c || (long && c == '\n') then push c (readBasic? long false rest)
    else none
  | [] => none

def readLiteral? (long : Bool) : List Char → Option (List Char × List Char)
  | '\x27' :: '\x27' :: '\x27' :: rest =>
    if long then closeLong? '\x27' rest else some ([], '\x27' :: '\x27' :: rest)
  | '\x27' :: rest => if long then push '\x27' (readLiteral? long rest) else some ([], rest)
  | '\r' :: '\n' :: rest => if long then push '\n' (readLiteral? long rest) else none
  | c :: rest => if isPlain c || (long && c == '\n') then push c (readLiteral? long rest) else none
  | [] => none

def dropLineEnd (text : List Char) : List Char := (lineEnd? text).getD text

def readShort? : List Char → Option (List Char × List Char)
  | '"' :: rest => readBasic? false false rest
  | '\x27' :: rest => readLiteral? false rest
  | _ => none

/-- The text in quotes at the head of a text. A line end right after three opening quotes does not
count. -/
def readQuoted? : List Char → Option (List Char × List Char)
  | '"' :: '"' :: '"' :: rest => readBasic? true false (dropLineEnd rest)
  | '\x27' :: '\x27' :: '\x27' :: rest => readLiteral? true (dropLineEnd rest)
  | text => readShort? text

def escaped (c : Char) : List Char :=
  match c with
  | '"' => ['\\', '"']
  | '\\' => ['\\', '\\']
  | '\x08' => ['\\', 'b']
  | '\t' => ['\\', 't']
  | '\n' => ['\\', 'n']
  | '\x0c' => ['\\', 'f']
  | '\r' => ['\\', 'r']
  | c =>
    if isPlain c then [c]
    else ['\\', 'u', '0', '0', (c.toNat / 16).digitChar.toUpper, (c.toNat % 16).digitChar.toUpper]

def quoted (text : String) : String := String.ofList ('"' :: text.toList.flatMap escaped ++ ['"'])

end MotionScript.Toml
