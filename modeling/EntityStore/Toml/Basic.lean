/-!
Values of TOML documents, and how tables are put together from keys with dots and from headers. A
table that is written out, by a header or between braces, is defined once; one that is only named on
the way to another may still be written out by a header later.
-/

namespace EntityStore.Toml

/-- How a table has come to be. -/
inductive TableOrigin
  | braces
  | header
  | headerPath
  | dottedKey
  deriving DecidableEq, Repr

inductive Value
  | bool (b : Bool)
  | text (s : String)
  | integer (n : Int)
  | float (written : String)
  | moment (written : String)
  | array (items : List Value)
  | table (origin : TableOrigin) (members : List (String × Value))
  | tables (items : List (List (String × Value)))

abbrev Members := List (String × Value)

structure Pair where
  path : List String
  key : String
  value : Value

namespace Members

def put (key : String) (value : Value) : Members → Members
  | [] => [(key, value)]
  | (k, v) :: rest => if k = key then (k, value) :: rest else (k, v) :: put key value rest

def changeLast (change : Members → Option Members) : List Members → Option (List Members)
  | [] => none
  | [last] => return [← change last]
  | first :: rest => return first :: (← changeLast change rest)

def wayOrigin (dotted : Bool) : TableOrigin :=
  if dotted then .dottedKey else .headerPath

/-- Changes the table at the end of a path, and makes the tables on the way that are missing. A key
with dots does not enter tables that were written out. -/
def changeAt (dotted : Bool) (change : TableOrigin → Members → Option Members) :
    List String → TableOrigin → Members → Option Members
  | [], origin, members => change origin members
  | key :: path, _, members =>
    match members.lookup key with
    | none => do
      let inner ← changeAt dotted change path (wayOrigin dotted) []
      return members ++ [(key, .table (wayOrigin dotted) inner)]
    | some (.table origin inner) => do
      if origin = .braces || (dotted && origin = .header) then none
      return put key (.table origin (← changeAt dotted change path origin inner)) members
    | some (.tables items) => do
      return put key (.tables (← changeLast (changeAt dotted change path .header) items)) members
    | some _ => none

def addKey (p : Pair) (origin : TableOrigin) (members : Members) : Option Members :=
  if (!p.path.isEmpty && origin != .dottedKey) || (members.lookup p.key).isSome then none
  else some (members ++ [(p.key, p.value)])

def addPair (members : Members) (p : Pair) : Option Members :=
  changeAt true (addKey p) p.path .header members

def addPairs (members : Members) (pairs : List Pair) : Option Members :=
  pairs.foldlM addPair members

/-- Writes out the table of a name, which has at most been on the way to others. -/
def defineTable (key : String) (pairs : List Pair) (_ : TableOrigin) (members : Members) :
    Option Members :=
  match members.lookup key with
  | none => return put key (.table .header (← addPairs [] pairs)) members
  | some (.table .headerPath inner) =>
    return put key (.table .header (← addPairs inner pairs)) members
  | some _ => none

/-- Adds a table to those of a name. -/
def appendTable (key : String) (pairs : List Pair) (_ : TableOrigin) (members : Members) :
    Option Members :=
  match members.lookup key with
  | none => return put key (.tables [← addPairs [] pairs]) members
  | some (.tables items) => return put key (.tables (items ++ [← addPairs [] pairs])) members
  | some _ => none

end Members

end EntityStore.Toml
