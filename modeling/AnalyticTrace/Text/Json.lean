namespace AnalyticTrace.Text

/-- A number as it is written: `± digits * 10 ^ exponent`. Zeros at the end of a whole number are
among the digits, those at the end of a fraction are not. -/
structure Numeral where
  negative : Bool
  digits : Nat
  exponent : Int
  deriving DecidableEq, Repr

/-- A JSON document. A string is missing where a surrogate in it stands alone; members keep their
order, and a name may come twice. -/
inductive Json where
  | null
  | bool (b : Bool)
  | number (n : Numeral)
  | string (s : Option String)
  | array (items : List Json)
  | object (members : List (Option String × Json))

namespace Numeral

/-- The digits that are told apart. A point halfway between two doubles has fewer. -/
def maxDigits : Nat := 768

/-- A number of too many digits is read as the first of them and a one: it is above whatever they
alone would be, and never halfway between two doubles. -/
def cut (n : Numeral) : Numeral :=
  let surplus := (toString n.digits).length - maxDigits
  if surplus = 0 then n
  else
    { n with
      digits := n.digits / Nat.pow 10 surplus * 10 + 1
      exponent := n.exponent + surplus - 1 }

/-- The double closest to a number that has been cut, the even one of two, unless there is none
within half a step. A reader that only does its best may end up one step in the last place away,
as on decimals of sixteen or seventeen digits. -/
def toFloat? (n : Numeral) : Option Float :=
  let n := n.cut
  let top := n.exponent + (toString n.digits).length
  let magnitude :=
    if n.digits = 0 ∨ top < -400 then 0
    else if 400 < top then 1 / 0
    else Float.ofScientific n.digits (n.exponent < 0) n.exponent.natAbs
  if magnitude.isFinite then some (if n.negative then -magnitude else magnitude) else none

end Numeral

namespace Json

def isSpace (c : Char) : Bool := c == ' ' || c == '\t' || c == '\n' || c == '\r'

def skipSpace (s : List Char) : List Char := s.dropWhile isSpace

/-- A run of digits that is not empty, and what follows. -/
def digits? (s : List Char) : Option (List Char × List Char) :=
  match s.span Char.isDigit with
  | ([], _) => none
  | run => some run

/-- The value of a run of digits behind those of `n`. -/
def appendDigits (n : Nat) (ds : List Char) : Nat :=
  ds.foldl (fun n d => 10 * n + (d.toNat - '0'.toNat)) n

def natural? (s : List Char) : Option (Nat × List Char) :=
  (digits? s).map fun (ds, rest) => (appendDigits 0 ds, rest)

/-- A whole number without a needless zero in front. -/
def whole? : List Char → Option (Nat × List Char)
  | '0' :: s => match s with
    | c :: _ => if c.isDigit then none else some (0, s)
    | [] => some (0, s)
  | s => natural? s

def dropZeros (ds : List Char) : List Char := (ds.reverse.dropWhile (· == '0')).reverse

/-- The digits behind a point, if there is one, appended to those before it, with their number. -/
def fraction? (whole : Nat) : List Char → Option (Nat × Nat × List Char)
  | '.' :: s => (digits? s).map fun (ds, rest) =>
    (appendDigits whole (dropZeros ds), (dropZeros ds).length, rest)
  | s => some (whole, 0, s)

def exponentDigits? : List Char → Option (Int × List Char)
  | '+' :: s => (natural? s).map fun (n, rest) => (n, rest)
  | '-' :: s => (natural? s).map fun (n, rest) => (-n, rest)
  | s => (natural? s).map fun (n, rest) => (n, rest)

def exponent? : List Char → Option (Int × List Char)
  | 'e' :: s => exponentDigits? s
  | 'E' :: s => exponentDigits? s
  | s => some (0, s)

def unsigned? (negative : Bool) (s : List Char) : Option (Numeral × List Char) := do
  let (n, s) ← whole? s
  let (n, places, s) ← fraction? n s
  let (e, s) ← exponent? s
  return (⟨negative, n, e - places⟩, s)

def numeral? : List Char → Option (Numeral × List Char)
  | '-' :: s => unsigned? true s
  | s => unsigned? false s

def hexDigit? (c : Char) : Option Nat :=
  if c.isDigit then some (c.toNat - '0'.toNat)
  else if 'a' ≤ c ∧ c ≤ 'f' then some (c.toNat - 'a'.toNat + 10)
  else if 'A' ≤ c ∧ c ≤ 'F' then some (c.toNat - 'A'.toNat + 10)
  else none

def hex? (ds : List Char) : Option Nat :=
  ds.foldlM (fun n d => (hexDigit? d).map (16 * n + ·)) 0

def escaped? : Char → Option Char
  | '"' => some '"'
  | '\\' => some '\\'
  | '/' => some '/'
  | 'b' => some '\x08'
  | 'f' => some '\x0c'
  | 'n' => some '\n'
  | 'r' => some '\r'
  | 't' => some '\t'
  | _ => none

/-- What stands before the closing quote, as code points and surrogates, and what follows. -/
def codes? : List Char → Option (List Nat × List Char)
  | '"' :: s => some ([], s)
  | '\\' :: 'u' :: a :: b :: c :: d :: s => do
    let code ← hex? [a, b, c, d]
    let (codes, rest) ← codes? s
    return (code :: codes, rest)
  | '\\' :: c :: s => do
    let c ← escaped? c
    let (codes, rest) ← codes? s
    return (c.toNat :: codes, rest)
  | c :: s => do
    guard (' ' ≤ c)
    let (codes, rest) ← codes? s
    return (c.toNat :: codes, rest)
  | [] => none

def isHighSurrogate (n : Nat) : Bool := 0xD800 ≤ n && n < 0xDC00

def isLowSurrogate (n : Nat) : Bool := 0xDC00 ≤ n && n < 0xE000

/-- Joins the two halves of every pair of surrogates. -/
def joinSurrogates? : List Nat → Option (List Char)
  | [] => some []
  | high :: low :: rest =>
    if isHighSurrogate high && isLowSurrogate low then
      (joinSurrogates? rest).map
        (Char.ofNat (0x10000 + (high - 0xD800) * 0x400 + (low - 0xDC00)) :: ·)
    else if isHighSurrogate high || isLowSurrogate high then none
    else (joinSurrogates? (low :: rest)).map (Char.ofNat high :: ·)
  | [code] => if isHighSurrogate code || isLowSurrogate code then none else some [Char.ofNat code]

def string? (s : List Char) : Option (Option String × List Char) :=
  (codes? s).map fun (codes, rest) => ((joinSurrogates? codes).map String.ofList, rest)

mutual

/-- A value and what follows; `fuel` bounds the calls inside each other. -/
def value? : Nat → List Char → Option (Json × List Char)
  | 0, _ => none
  | fuel + 1, s => match skipSpace s with
    | 'n' :: 'u' :: 'l' :: 'l' :: rest => some (.null, rest)
    | 't' :: 'r' :: 'u' :: 'e' :: rest => some (.bool true, rest)
    | 'f' :: 'a' :: 'l' :: 's' :: 'e' :: rest => some (.bool false, rest)
    | '"' :: rest => (string? rest).map fun (text, rest) => (.string text, rest)
    | '[' :: rest => match skipSpace rest with
      | ']' :: rest => some (.array [], rest)
      | rest => items? fuel [] rest
    | '{' :: rest => match skipSpace rest with
      | '}' :: rest => some (.object [], rest)
      | rest => members? fuel [] rest
    | rest => (numeral? rest).map fun (n, rest) => (.number n, rest)

/-- The items after those read before, in reverse. -/
def items? : Nat → List Json → List Char → Option (Json × List Char)
  | 0, _, _ => none
  | fuel + 1, before, s => match value? fuel s with
    | none => none
    | some (item, s) => match skipSpace s with
      | ',' :: rest => items? fuel (item :: before) rest
      | ']' :: rest => some (.array (item :: before).reverse, rest)
      | _ => none

/-- The members after those read before, in reverse. -/
def members? : Nat → List (Option String × Json) → List Char → Option (Json × List Char)
  | 0, _, _ => none
  | fuel + 1, before, s => match member? fuel (skipSpace s) with
    | none => none
    | some (member, s) => match skipSpace s with
      | ',' :: rest => members? fuel (member :: before) rest
      | '}' :: rest => some (.object (member :: before).reverse, rest)
      | _ => none

def member? : Nat → List Char → Option ((Option String × Json) × List Char)
  | 0, _ => none
  | fuel + 1, s => match s with
    | '"' :: s => match string? s with
      | none => none
      | some (name, s) => match skipSpace s with
        | ':' :: s => (value? fuel s).map fun (value, rest) => ((name, value), rest)
        | _ => none
    | _ => none

end

/-- Reads a document with nothing but space around it. Three calls inside each other have read a
character at least, so the fuel never runs out. -/
def parse? (text : String) : Option Json := do
  let (value, rest) ← value? (3 * text.length + 3) text.toList
  guard (skipSpace rest).isEmpty
  return value

end Json
end AnalyticTrace.Text
