import EntityStore.Toml.Reader

/-!
TOML documents. A document is a list of sections, each a header and keys with values; the keys in
front of the first header belong to the document's own table. The sections are put together in
order.
-/

namespace EntityStore.Toml

open Reader

/-- A line that says something. -/
inductive Line
  | header (path : List String)
  | listHeader (path : List String)
  | pair (p : Pair)

/-- What a line says, if it says anything. -/
def statement? : Reader (Option Line) := do
  skipSpaces
  match (← remaining).head? with
  | none | some '\n' | some '#' => return none
  | some '[' =>
    if ← take? "[[" then
      let path ← dottedKey
      expect "]]"
      return some (.listHeader path)
    else
      expect "["
      let path ← dottedKey
      expect "]"
      return some (.header path)
  | _ => return some (.pair (← pair (value (nestingLimit - 1))))

/-- One line with its comment and its end. -/
def line? : Reader (Option (List Line)) := do
  if (← remaining).isEmpty then return none
  let statement ← statement?
  skipSpaces
  skipComment
  if !(← take? "\n") then guard (← remaining).isEmpty
  return some statement.toList

def unifyLineEnds : List Char → List Char
  | '\r' :: '\n' :: rest => '\n' :: unifyLineEnds rest
  | c :: rest => c :: unifyLineEnds rest
  | [] => []

def withoutMark : List Char → List Char
  | '\ufeff' :: rest => rest
  | cs => cs

def lines (source : String) : Option (List Line) :=
  ((repeatUntilDone line?).whole (unifyLineEnds (withoutMark source.toList))).map List.flatten

/-- The keys up to the next header, and the lines from it on. -/
def leadingPairs : List Line → List Pair × List Line
  | .pair p :: rest =>
    let (pairs, rest) := leadingPairs rest
    (p :: pairs, rest)
  | rest => ([], rest)

/-- Adds the sections of a document to its table, where at most so many lines are left. -/
def addSections : Nat → Members → List Line → Option Members
  | _, root, [] => some root
  | 0, _, _ => none
  | n + 1, root, line :: rest => do
    let (pairs, rest) := leadingPairs rest
    let root ← match line with
      | .header path =>
        Members.changeAt false (Members.defineTable (path.getLast?.getD "") pairs) path.dropLast
          .header root
      | .listHeader path =>
        Members.changeAt false (Members.appendTable (path.getLast?.getD "") pairs) path.dropLast
          .header root
      | .pair p => root.addPair p
    addSections n root rest

def read? (source : String) : Option Members := do
  let lines ← lines source
  let (pairs, rest) := leadingPairs lines
  addSections rest.length (← Members.addPairs [] pairs) rest

end EntityStore.Toml
