import EntityStore.Calendar.Basic
import EntityStore.Toml.Basic

/-!
Reading the parts of TOML documents: keys, texts, numbers, dates, arrays and tables in braces. A
reader takes something off the front of a text, or fails.
-/

namespace EntityStore.Toml

abbrev Reader := StateT (List Char) Option

namespace Reader

variable {α : Type}

def next : Reader Char := fun cs =>
  match cs with
  | c :: rest => some (c, rest)
  | [] => none

def remaining : Reader (List Char) := get

def take? (s : String) : Reader Bool := fun cs =>
  if s.toList.isPrefixOf cs then some (true, cs.drop s.length) else some (false, cs)

def takeAny? : List String → Reader Bool
  | [] => return false
  | s :: others => do
    if ← take? s then return true else takeAny? others

def expect (s : String) : Reader Unit := do
  guard (← take? s)

def skipWhile (p : Char → Bool) : Reader Unit := fun cs =>
  some ((), cs.dropWhile p)

def takeWhile (p : Char → Bool) : Reader (List Char) := fun cs =>
  some (cs.takeWhile p, cs.dropWhile p)

/-- So many characters of a kind. -/
def takeExactly (n : Nat) (p : Char → Bool) : Reader (List Char) := do
  let cs := (← remaining).take n
  guard (cs.length = n && cs.all p)
  modify (·.drop n)
  return cs

/-- Repeats a reader until it answers nothing, at most so often. -/
def repeatUpTo (r : Reader (Option α)) : Nat → Reader (List α)
  | 0 => failure
  | n + 1 => do
    match ← r with
    | none => return []
    | some a => return a :: (← repeatUpTo r n)

def repeatUntilDone (r : Reader (Option α)) : Reader (List α) := do
  repeatUpTo r ((← remaining).length + 1)

/-- One or more items with a separator between them, at most so many. -/
def separatedUpTo (item : Reader α) (separator : String) : Nat → Reader (List α)
  | 0 => failure
  | n + 1 => do
    let a ← item
    if ← take? separator then return a :: (← separatedUpTo item separator n) else return [a]

def separated (item : Reader α) (separator : String) : Reader (List α) := do
  separatedUpTo item separator ((← remaining).length + 1)

def whole (r : Reader α) (cs : List Char) : Option α :=
  match r.run cs with
  | some (a, []) => some a
  | _ => none

end Reader

open Reader

/-! White space and comments -/

def isSpace (c : Char) : Bool := c == ' ' || c == '\t'

def isVisible (c : Char) : Bool :=
  c == '\t' || (0x20 ≤ c.toNat && c.toNat != 0x7F)

def skipSpaces : Reader Unit := skipWhile isSpace

def skipComment : Reader Unit := do
  if ← take? "#" then skipWhile isVisible

def skipLine : Reader (Option Unit) := do
  skipSpaces
  skipComment
  if ← take? "\n" then return some () else return none

def skipFiller : Reader Unit := do
  let _ ← repeatUntilDone skipLine

/-! Texts -/

def isHexDigit (c : Char) : Bool :=
  c.isDigit || ('a' ≤ c && c ≤ 'f') || ('A' ≤ c && c ≤ 'F')

def digitValue (c : Char) : Nat :=
  if c.isDigit then c.toNat - '0'.toNat
  else if 'a' ≤ c then c.toNat - 'a'.toNat + 10
  else c.toNat - 'A'.toNat + 10

def digitsValue (base : Nat) (ds : List Char) : Nat :=
  ds.foldl (fun n c => base * n + digitValue c) 0

def codePoint (width : Nat) : Reader Char := do
  let n := digitsValue 16 (← takeExactly width isHexDigit)
  guard n.isValidChar
  return Char.ofNat n

/-- What a backslash stands for together with what follows it. -/
def escaped : Reader Char := do
  match ← next with
  | 'b' => return '\x08'
  | 't' => return '\t'
  | 'n' => return '\n'
  | 'f' => return '\x0c'
  | 'r' => return '\r'
  | '"' => return '"'
  | '\\' => return '\\'
  | 'u' => codePoint 4
  | 'U' => codePoint 8
  | _ => failure

def visible (c : Char) : Reader (List Char) := do
  guard (isVisible c)
  return [c]

/-- The next part of a text in double quotes, or its end. -/
def quotedPart : Reader (Option (List Char)) := do
  match ← next with
  | '"' => return none
  | '\\' => return some [← escaped]
  | c => return some (← visible c)

def literalPart : Reader (Option (List Char)) := do
  match ← next with
  | '\'' => return none
  | c => return some (← visible c)

/-- The end of a text of several lines: three quotes, with up to two more in front that belong to
the text. -/
def closingQuotes (quote : Char) : Reader (Option (List Char)) := do
  let n := ((← remaining).takeWhile (· == quote)).length
  if 5 < n then failure
  else if n = 3 then
    modify (·.drop 3)
    return none
  else
    modify (·.drop 1)
    return some [quote]

/-- What follows a backslash in a text of several lines. At the end of a line it takes all the white
space up to the next character. -/
def continued : Reader (List Char) := do
  match (← remaining).dropWhile isSpace with
  | '\n' :: rest =>
    set (rest.dropWhile fun c => isSpace c || c == '\n')
    return []
  | _ => return [← escaped]

/-- The next part of a text of several lines, or its end. -/
def longPart (quote : Char) : Reader (Option (List Char)) := do
  match ← remaining with
  | [] => failure
  | c :: rest =>
    if c = quote then closingQuotes quote
    else do
      set rest
      if c = '\n' then return some [c]
      else if c = '\\' && quote = '"' then return some (← continued)
      else return some (← visible c)

def textOf (parts : Reader (Option (List Char))) : Reader String := do
  return String.ofList (← repeatUntilDone parts).flatten

def longText (quote : Char) : Reader String := do
  let _ ← take? "\n"
  textOf (longPart quote)

def shortText? : Reader (Option String) := do
  if ← take? "\"" then return some (← textOf quotedPart)
  else if ← take? "'" then return some (← textOf literalPart)
  else return none

def text? : Reader (Option String) := do
  if ← take? "\"\"\"" then return some (← longText '"')
  else if ← take? "'''" then return some (← longText '\'')
  else shortText?

/-! Keys -/

def isKeyChar (c : Char) : Bool := c.isAlphanum || c == '-' || c == '_'

/-- A key between dots: a text or a plain name, with spaces around it. -/
def simpleKey : Reader String := do
  skipSpaces
  let key ← match ← shortText? with
    | some s => pure s
    | none => do
      let cs ← takeWhile isKeyChar
      guard !cs.isEmpty
      pure (String.ofList cs)
  skipSpaces
  return key

def nestingLimit : Nat := 80

def dottedKey : Reader (List String) := do
  let keys ← separated simpleKey "."
  guard (keys.length < nestingLimit)
  return keys

/-! Numbers, dates and times -/

def digitGroups (p : Char → Bool) : Reader (List Char) := do
  let groups ← separated (takeWhile p) "_"
  guard (groups.all (!·.isEmpty))
  return groups.flatten

def sign : Reader Bool := do
  if ← take? "-" then return true
  let _ ← take? "+"
  return false

def plainDigits : Reader (List Char) := do
  let ds ← digitGroups Char.isDigit
  guard (ds.length = 1 || ds.head? != some '0')
  return ds

def bounded (n : Int) : Reader Value := do
  guard (Int64.minValue.toInt ≤ n && n ≤ Int64.maxValue.toInt)
  return .integer n

def decimalInteger : Reader Value := do
  let negative ← sign
  let n := digitsValue 10 (← plainDigits)
  bounded (if negative then -n else n)

def basedInteger (mark : String) (base : Nat) : Reader Value := do
  expect mark
  let isDigit := fun c => isHexDigit c && digitValue c < base
  bounded (digitsValue base (← digitGroups isDigit))

def exponent : Reader Int := do
  guard (← takeAny? ["e", "E"])
  let negative ← sign
  let n := digitsValue 10 (← digitGroups Char.isDigit)
  return if negative then -n else n

def fraction : Reader (List Char) := do
  expect "."
  digitGroups Char.isDigit

/-- The least number that rounds to infinity in sixty-four bits: it lies halfway between the
greatest double and the power of two above it. -/
def infinityBound : Nat := Nat.pow 2 1024 - Nat.pow 2 970

/-- Whether digits times a power of ten round to infinity in sixty-four bits. The position of the
first digit that is not zero decides, unless the number has exactly as many digits in front of the
point as the bound; so no power is ever computed that is much larger than the bound. -/
def roundsToInfinity (digits : List Char) (power : Int) : Bool :=
  let digits := digits.dropWhile (· == '0')
  let places := digits.length + power
  if digits.isEmpty || places < 309 then false
  else if 309 < places then true
  else
    let n := digitsValue 10 digits
    infinityBound * Nat.pow 10 (-power).toNat ≤ n * Nat.pow 10 power.toNat

/-- The form of a number with a fraction or an exponent. A positive number that rounds to infinity
has to be written as such. -/
def floatForm : Reader Unit := do
  let negative ← sign
  if ← takeAny? ["inf", "nan"] then return
  let whole ← plainDigits
  let decimals ← fraction <|> return []
  let power ← if decimals.isEmpty then exponent else exponent <|> return 0
  guard (negative || !roundsToInfinity (whole ++ decimals) (power - decimals.length))

def fixedNumber (width : Nat) : Reader Nat := do
  return digitsValue 10 (← takeExactly width Char.isDigit)

def dateForm : Reader Unit := do
  let year ← fixedNumber 4
  expect "-"
  let month ← fixedNumber 2
  expect "-"
  let day ← fixedNumber 2
  guard (Date.ofParts? year month day).isSome

def hourAndMinute : Reader Unit := do
  let hour ← fixedNumber 2
  expect ":"
  let minute ← fixedNumber 2
  guard (hour < 24 && minute < 60)

def timeForm : Reader Unit := do
  hourAndMinute
  expect ":"
  guard ((← fixedNumber 2) ≤ 60)
  if ← take? "." then
    guard !(← takeWhile Char.isDigit).isEmpty

def zoneForm : Reader Unit := do
  if ← takeAny? ["Z", "z"] then return
  guard (← takeAny? ["+", "-"])
  hourAndMinute

def zonedTimeForm : Reader Unit := do
  timeForm
  zoneForm <|> return

def dateTimeForm : Reader Unit := do
  dateForm
  guard (← takeAny? ["T", "t", " "])
  zonedTimeForm

def isScalarChar (c : Char) : Bool :=
  c.isAlphanum || c == '+' || c == '-' || c == '_' || c == '.' || c == ':'

/-- The characters of a date and a time, where the two stand one after the other. -/
def spacedWord (word : List Char) : Reader (List Char) := do
  guard ((dateForm.whole word).isSome && (← take? " "))
  let time ← takeWhile isScalarChar
  guard (zonedTimeForm.whole time).isSome
  return word ++ ' ' :: time

/-- The value that a word stands for. -/
def scalarOf (word : List Char) : Option Value :=
  let written := String.ofList word
  if written = "true" then some (.bool true)
  else if written = "false" then some (.bool false)
  else
    (decimalInteger.whole word) <|> ((basedInteger "0x" 16).whole word)
      <|> ((basedInteger "0o" 8).whole word) <|> ((basedInteger "0b" 2).whole word)
      <|> ((floatForm.whole word).map fun _ => .float written)
      <|> (((dateForm <|> timeForm).whole word).map fun _ => .moment written)
      <|> ((dateTimeForm.whole word).map fun _ => .moment written)

def scalar : Reader Value := do
  let word ← takeWhile isScalarChar
  let word ← spacedWord word <|> return word
  match scalarOf word with
  | some v => return v
  | none => failure

/-! Arrays and tables in braces -/

/-- The next item of an array, or its end. A comma may stand behind the last item. -/
def arrayItem (value : Reader Value) : Reader (Option Value) := do
  skipFiller
  if ← take? "]" then return none
  let v ← value
  skipFiller
  if !(← take? ",") then guard ((← remaining).head? == some ']')
  return some v

/-- A key, an equals sign and a value. -/
def pair (value : Reader Value) : Reader Pair := do
  let keys ← dottedKey
  expect "="
  skipSpaces
  let v ← value
  skipSpaces
  return ⟨keys.dropLast, keys.getLast?.getD "", v⟩

/-- The members of a table in braces, on one line. -/
def bracesPairs (value : Reader Value) : Reader (List Pair) := do
  skipSpaces
  if ← take? "\x7d" then return []
  let pairs ← separated (pair value) ","
  expect "\x7d"
  return pairs

/-- A value with at most so many brackets around another. -/
def value : Nat → Reader Value
  | 0 => scalarOrText
  | depth + 1 => do
    if ← take? "[" then return .array (← repeatUntilDone (arrayItem (value depth)))
    else if ← take? "\x7b" then
      match Members.addPairs [] (← bracesPairs (value depth)) with
      | some members => return .table .braces members
      | none => failure
    else scalarOrText
where
  scalarOrText : Reader Value := do
    match ← text? with
    | some s => return .text s
    | none => scalar

end EntityStore.Toml
