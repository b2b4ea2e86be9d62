import TapeMachine.Decimal.Binary
import TapeMachine.Numeral
import TapeMachine.Text.Letter
import TapeMachine.Text.Utf8

/-!
# Tokens of expressions

Compile-time expressions are scanned into names, keywords, literals and symbols.
Blanks and comments separate tokens. The end of a line counts outside brackets
only, and a backslash in front of it joins two lines.
-/

namespace TapeMachine.Expr

/-- The tokens of the expression language. -/
inductive Token where
  | name (s : String)
  | keyword (s : String)
  | int (n : Int)
  | float (x : Float)
  /-- A text literal, as its bytes. -/
  | text (bytes : List UInt8)
  | symbol (s : String)
  | newline

namespace Token

/-- Words that cannot be names. Some of them have no use in expressions. -/
def keywords : List String :=
  ["and", "break", "continue", "def", "elif", "else", "for", "if", "in", "lambda", "load", "not",
    "or", "pass", "return", "while", "as", "class", "del", "except", "finally", "from", "global",
    "import", "is", "nonlocal", "raise", "try", "with", "yield", "async", "await"]

/-- Symbols, longer ones before their beginnings. -/
def symbols : List (List Char) :=
  ["<<=", ">>=", "//=", "<=", ">=", "==", "!=", "+=", "-=", "/=", "%=", "&=", "|=", "^=", "*=",
    "<<", ">>", "//", "**", "=", "<", ">", "+", "-", "%", "/", "&", "|", "^", ":", ";", "~", "*",
    ",", "(", ")", "[", "]", "\x7b", "\x7d"].map String.toList

/-- The first symbol at the front of a text, and what follows it. -/
def symbol? (cs : List Char) : Option (String × List Char) :=
  (symbols.find? (·.isPrefixOf cs)).map fun s => (String.ofList s, cs.drop s.length)

/-- Whether a name can start with the character. -/
def startsName (c : Char) : Bool := c == '_' || Text.isLetter c

/-- Whether a name can go on with the character. -/
def continuesName (c : Char) : Bool := c.isDigit || startsName c

/-! ## Numbers -/

/-- The value of digits in a base. -/
def digitsValue (base : Nat) (ds : List Char) : Nat :=
  ds.foldl (fun n d => n * base + (Numeral.digit? d).getD 0) 0

/-- Whether a character is a digit of the base. -/
def isDigitOf (base : Nat) (c : Char) : Bool := (Numeral.digit? c).any (· < base)

/-- A whole number after its base mark. One in base two or eight has to fit into
a signed word of 64 bits. -/
def markedNumber? (base : Nat) (cs : List Char) : Option (Token × List Char) :=
  let (ds, rest) := cs.span (isDigitOf base)
  let n := digitsValue base ds
  if ds.isEmpty then none
  else if base != 16 && Word.half ≤ n then none
  else some (.int n, rest)

/-- The size from which an exponent takes no further digits. -/
def exponentLimit : Nat := 10000

/-- The value of the digits of an exponent. Once it has reached the limit, the digits
that follow are skipped. -/
def exponentValue (ds : List Char) : Nat :=
  ds.foldl (fun n d => if n < exponentLimit then n * 10 + (Numeral.digit? d).getD 0 else n) 0

/-- The exponent of a decimal, if the text goes on with one. -/
def exponent? : List Char → Option (Int × List Char)
  | [] => some (0, [])
  | e :: cs =>
    if e == 'e' || e == 'E' then
      let (negative, digits) := Numeral.signOf cs
      let (ds, rest) := digits.span Char.isDigit
      if ds.isEmpty then none
      else
        let n : Int := exponentValue ds
        some (if negative then -n else n, rest)
    else some (0, e :: cs)

/-- A decimal from the digits before its point, with the point or exponent at the
front of the text. -/
def decimal? (whole cs : List Char) : Option (Token × List Char) := do
  let (part, rest) := match cs with
    | '.' :: cs => cs.span Char.isDigit
    | cs => ([], cs)
  let (exponent, rest) ← exponent? rest
  let x ← Decimal.ofScientific? (digitsValue 10 (whole ++ part)) (exponent - part.length)
  return (.float x, rest)

/-- A number that starts with a digit and has no base mark. -/
def plainNumber? (cs : List Char) : Option (Token × List Char) :=
  let (ds, rest) := cs.span Char.isDigit
  match rest with
  | '.' :: _ | 'e' :: _ | 'E' :: _ => decimal? ds rest
  | _ =>
    -- A zero in front of other digits was once octal, and is refused.
    if ds.head? == some '0' && ds.any (· != '0') then none
    else some (.int (digitsValue 10 ds), rest)

/-- A number at the front of a text that starts with a digit or a point, or the
point alone. -/
def number? : List Char → Option (Token × List Char)
  | '.' :: d :: cs =>
    if d.isDigit then decimal? [] ('.' :: d :: cs) else some (.symbol ".", d :: cs)
  | ['.'] => some (.symbol ".", [])
  | '0' :: mark :: cs =>
    if mark == 'x' || mark == 'X' then markedNumber? 16 cs
    else if mark == 'o' || mark == 'O' then markedNumber? 8 cs
    else if mark == 'b' || mark == 'B' then markedNumber? 2 cs
    else plainNumber? ('0' :: mark :: cs)
  | cs => plainNumber? cs

/-! ## Texts -/

/-- The inside of a text literal that one quote closes, in reverse, and the rest. -/
def quoted? (quote : Char) : List Char → List Char → Option (List Char × List Char)
  | _, [] => none
  | inside, c :: cs =>
    if c == quote then some (inside, cs)
    else if c == '\n' then none
    else if c == '\\' then
      match cs with
      | [] => none
      | e :: cs => quoted? quote (e :: '\\' :: inside) cs
    else quoted? quote (c :: inside) cs

/-- The inside of a text literal that three quotes close, in reverse, and the
rest. The number counts the quotes just before. -/
def tripleQuoted? (quote : Char) : Nat → List Char → List Char → Option (List Char × List Char)
  | _, _, [] => none
  | seen, inside, c :: cs =>
    if c == quote then
      if seen == 2 then some (inside.drop 2, cs)
      else tripleQuoted? quote (seen + 1) (c :: inside) cs
    else if c == '\\' then
      match cs with
      | [] => none
      | e :: cs => tripleQuoted? quote 0 (e :: '\\' :: inside) cs
    else tripleQuoted? quote 0 (c :: inside) cs

/-- The character that a letter stands for after a backslash. -/
def escaped? : Char → Option Char
  | 'a' => some '\x07'
  | 'b' => some '\x08'
  | 'f' => some '\x0c'
  | 'n' => some '\n'
  | 'r' => some '\r'
  | 't' => some '\t'
  | 'v' => some '\x0b'
  | '\\' => some '\\'
  | '\'' => some '\''
  | '"' => some '"'
  | _ => none

/-- The character with a code of exactly `count` hexadecimal digits, up to a
greatest code, and what follows it. -/
def coded? (count greatest : Nat) (cs : List Char) : Option (Char × List Char) :=
  let ds := cs.take count
  let n := digitsValue 16 ds
  if ds.length = count ∧ ds.all (isDigitOf 16) ∧ n ≤ greatest ∧ n.isValidChar then
    some (Char.ofNat n, cs.drop count)
  else none

/-- The inside of a text literal with its escapes resolved, in reverse. An escaped
line end joins two lines. The fuel is the number of characters. -/
def unescape? : Nat → List Char → List Char → Option (List Char)
  | _, done, [] => some done
  | 0, _, _ => none
  | fuel + 1, done, '\\' :: e :: cs =>
    if e == '\n' then unescape? fuel done cs
    else if let some c := escaped? e then unescape? fuel (c :: done) cs
    else if isDigitOf 8 e then
      let ds := ((e :: cs).take 3).takeWhile (isDigitOf 8)
      let n := digitsValue 8 ds
      if 127 < n then none else unescape? fuel (Char.ofNat n :: done) ((e :: cs).drop ds.length)
    else if e == 'x' then do
      let (c, rest) ← coded? 2 127 cs
      unescape? fuel (c :: done) rest
    else if e == 'u' then do
      let (c, rest) ← coded? 4 0x10FFFF cs
      unescape? fuel (c :: done) rest
    else if e == 'U' then do
      let (c, rest) ← coded? 8 0x10FFFF cs
      unescape? fuel (c :: done) rest
    else none
  | fuel + 1, done, c :: cs => if c == '\\' then none else unescape? fuel (c :: done) cs

/-- A text literal from its opening quote on. In a raw one, a backslash is a
character like others. -/
def literal? (raw : Bool) (cs : List Char) : Option (Token × List Char) := do
  let (inside, rest) ← match cs with
    | q :: r :: s :: cs =>
      if q == r && r == s then tripleQuoted? q 0 [] cs else quoted? q [] (r :: s :: cs)
    | q :: cs => quoted? q [] cs
    | [] => none
  let inside := inside.reverse
  if raw then return (.text (Text.utf8Bytes inside), rest)
  let done ← unescape? inside.length [] inside
  return (.text (Text.utf8Bytes done.reverse), rest)

/-! ## Scanning -/

/-- The kind of word that a name is. -/
def ofWord (s : String) : Token := if keywords.contains s then .keyword s else .name s

/-- The token at the front of a text that starts neither with a blank nor with
the end of a line. -/
def next? : List Char → Option (Token × List Char)
  | [] => none
  | c :: cs =>
    if c == '"' || c == '\'' then literal? false (c :: cs)
    else if startsName c then
      match c, cs with
      | 'r', '"' :: _ | 'r', '\'' :: _ => literal? true cs
      | _, _ =>
        let (word, rest) := (c :: cs).span continuesName
        some (ofWord (String.ofList word), rest)
    else if c.isDigit || c == '.' then number? (c :: cs)
    else (symbol? (c :: cs)).map fun (s, rest) => (.symbol s, rest)

/-- How deep the brackets are nested after a token. No bracket may close that was
not opened. -/
def depthAfter? (depth : Nat) : Token → Option Nat
  | .symbol s =>
    if s == "(" || s == "[" || s == "\x7b" then some (depth + 1)
    else if s == ")" || s == "]" || s == "\x7d" then if depth = 0 then none else some (depth - 1)
    else some depth
  | _ => some depth

/-- Whether a character separates tokens on a line. -/
def isGap (c : Char) : Bool := c == ' ' || c == '\t'

/-- Scans a text into tokens, which are collected in reverse. A null character
ends the text. Outside brackets no line starts with a blank. -/
def scanFrom : (fuel depth : Nat) → (lineStart : Bool) → List Token → List Char →
    Option (List Token)
  | 0, _, _, _, _ => none
  | fuel + 1, depth, lineStart, done, cs =>
    match cs.dropWhile isGap with
    | [] => some done.reverse
    | c :: rest =>
      if c == '\x00' then some done.reverse
      else if c == '#' then
        scanFrom fuel depth lineStart done (rest.dropWhile fun c => c != '\n' && c != '\x00')
      else if c == '\n' then
        if 0 < depth || lineStart then scanFrom fuel depth true done rest
        else scanFrom fuel depth true (.newline :: done) rest
      else if lineStart && depth == 0 && cs.head?.any isGap then none
      else if c == '\\' then
        match rest with
        | '\n' :: rest => scanFrom fuel depth false done rest
        | _ => none
      else
        match next? (c :: rest) with
        | none => none
        | some (token, rest) =>
          match depthAfter? depth token with
          | none => none
          | some depth => scanFrom fuel depth false (token :: done) rest

/-- A text in which every line ends with a line feed, behind a part in reverse. -/
def unifyLineEnds : List Char → List Char → List Char
  | done, [] => done.reverse
  | done, '\r' :: '\n' :: cs => unifyLineEnds ('\n' :: done) cs
  | done, '\r' :: cs => unifyLineEnds ('\n' :: done) cs
  | done, c :: cs => unifyLineEnds (c :: done) cs

/-- The tokens of a text, unless it cannot be scanned. -/
def scan? (cs : List Char) : Option (List Token) :=
  let cs := unifyLineEnds [] cs
  scanFrom (cs.length + 1) 0 true [] cs

end Token

end TapeMachine.Expr
