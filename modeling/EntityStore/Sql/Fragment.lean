/-!
Pieces of a statement: text, and slots where a parameter's placeholder goes. While a statement is
put together a slot is spelled by its number between two marks; `pieces` reads such a text back. A
text that brings marks of its own is read by the same rule.
-/

namespace EntityStore.Sql

inductive Piece
  | text (s : String)
  | slot (index : Nat)
  deriving DecidableEq, Repr

abbrev Fragment := List Piece

def raw (s : String) : Fragment := [.text s]

def joined (separator : String) (parts : List Fragment) : Fragment :=
  List.intercalate (raw separator) parts

def slotMark : Char := '\x01'

def decimal (n : Nat) : String :=
  String.ofList (Nat.toDigits 10 n)

def Piece.marked : Piece → List Char
  | .text s => s.toList
  | .slot index => slotMark :: Nat.toDigits 10 index ++ [slotMark]

def marked (f : Fragment) : List Char :=
  f.flatMap Piece.marked

/-- The parts of a text between its marks. -/
def splitMarks : List Char → List (List Char)
  | [] => [[]]
  | c :: rest =>
    if c = slotMark then [] :: splitMarks rest
    else match splitMarks rest with
      | [] => [[c]]
      | part :: parts => (c :: part) :: parts

/-- A number in base ten, with or without a plus sign. -/
def readIndex? (cs : List Char) : Option Nat :=
  let digits := match cs with
    | '+' :: rest => rest
    | cs => cs
  if digits.isEmpty || !digits.all Char.isDigit then none
  else some (digits.foldl (fun n c => 10 * n + (c.toNat - '0'.toNat)) 0)

/-- The piece for one part: between two marks the number of one of the slots, else text. -/
def pieceOf? (slots : Nat) (inside : Bool) (part : List Char) : Option Piece :=
  let text := if part.isEmpty then none else some (Piece.text (String.ofList part))
  match readIndex? part with
  | some index => if inside && decide (index < slots) then some (.slot index) else text
  | none => text

def piecesOf (slots : Nat) (inside : Bool) : List (List Char) → List Piece
  | [] => []
  | part :: parts => (pieceOf? slots inside part).toList ++ piecesOf slots (!inside) parts

def pieces (slots : Nat) (cs : List Char) : List Piece :=
  piecesOf slots false (splitMarks cs)

end EntityStore.Sql
