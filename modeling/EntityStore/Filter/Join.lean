import EntityStore.Model.Entity

/-!
Join graphs: the tables that a statement reads, in the order in which they were first needed. A key
names the member path that brought a table in, so one path always leads to one alias.
-/

namespace EntityStore

/-- The levels of the model that is asked for are always there; what is reached through a relation may be
missing. -/
inductive JoinKind
  | inner
  | leftOuter
  deriving DecidableEq, Repr

structure TableAlias where
  number : Nat
  deriving DecidableEq, Repr

def TableAlias.text (a : TableAlias) : String :=
  "t" ++ String.ofList (Nat.toDigits 10 a.number)

/-- The condition `left.leftColumn = node.rightColumn`. -/
structure JoinOn where
  left : TableAlias
  leftColumn : String
  rightColumn : String
  deriving DecidableEq, Repr

structure JoinNode where
  key : String
  tableAlias : TableAlias
  table : String
  kind : JoinKind
  on? : Option JoinOn
  deriving DecidableEq, Repr

/-- The tables of a statement. Where a relation to many rows was walked, the graph is a collection: a row of
the root may come out more than once. -/
structure JoinGraph where
  root : JoinNode
  joins : List JoinNode := []
  collection : Bool := false
  deriving DecidableEq, Repr

namespace JoinGraph

def rootAlias : TableAlias := ⟨0⟩

def nodes (g : JoinGraph) : List JoinNode := g.root :: g.joins

def size (g : JoinGraph) : Nat := g.nodes.length

def aliasOf? (g : JoinGraph) (key : String) : Option TableAlias :=
  (g.nodes.find? (·.key == key)).map (·.tableAlias)

/-- The alias under the key, with a new node if the key is new. -/
def ensure (g : JoinGraph) (key table : String) (kind : JoinKind) (on : JoinOn) :
    TableAlias × JoinGraph :=
  match g.aliasOf? key with
  | some found => (found, g)
  | none =>
    let next : TableAlias := ⟨g.size⟩
    let node : JoinNode := { key, tableAlias := next, table, kind, on? := some on }
    (next, { g with joins := g.joins ++ [node] })

def levelKey (parentKey : String) (level : EntityModel) : String :=
  parentKey ++ "@" ++ level.table

def hopKey (parentKey field : String) : String :=
  if parentKey = "" then field else parentKey ++ "." ++ field

def joinLevel (rootModel : EntityModel) (g : JoinGraph) (level : EntityModel) : JoinGraph :=
  (g.ensure (levelKey "" level) level.table .inner
    ⟨rootAlias, rootModel.primaryKey, level.primaryKey⟩).2

def ofModel (m : EntityModel) : JoinGraph :=
  let root : JoinNode :=
    { key := "", tableAlias := rootAlias, table := m.root.table, kind := .inner, on? := none }
  m.levels.tail.foldl (joinLevel m.root) { root }

end JoinGraph

end EntityStore
