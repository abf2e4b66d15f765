import EntityStore.Model.Column

/-!
Models of stored types. A type that extends another is kept in one table for each level of its
chain, and all its rows share one id. `levels` lists the chain from the root on; looking up a name
starts at the other end, so a level hides what the levels above it call the same.
-/

namespace EntityStore

/-- One level of a chain: its table and what it declares itself. -/
structure Level where
  path : String
  table : String
  primaryKey : String
  columns : List Column
  deriving DecidableEq, Repr

structure EntityModel where
  own : Level
  above : List Level := []
  deriving DecidableEq, Repr

structure Schema where
  model : ModelRef → EntityModel

namespace EntityModel

def path (m : EntityModel) : String := m.own.path

def table (m : EntityModel) : String := m.own.table

def primaryKey (m : EntityModel) : String := m.own.primaryKey

def columns (m : EntityModel) : List Column := m.own.columns

def parent? (m : EntityModel) : Option EntityModel :=
  match m.above with
  | [] => none
  | next :: rest => some ⟨next, rest⟩

def isRoot (m : EntityModel) : Bool :=
  m.above.isEmpty

def same (a b : EntityModel) : Bool :=
  a.path == b.path

def chainFrom (own : Level) : List Level → List EntityModel
  | [] => [⟨own, []⟩]
  | next :: rest => ⟨own, next :: rest⟩ :: chainFrom next rest

def chain (m : EntityModel) : List EntityModel :=
  chainFrom m.own m.above

def levels (m : EntityModel) : List EntityModel :=
  m.chain.reverse

def rootFrom (own : Level) : List Level → EntityModel
  | [] => ⟨own, []⟩
  | next :: rest => rootFrom next rest

def root (m : EntityModel) : EntityModel :=
  rootFrom m.own m.above

def descendsFrom (m ancestor : EntityModel) : Bool :=
  m.levels.any (·.same ancestor)

def ownColumns (m : EntityModel) : List Column :=
  m.columns.filter Column.isPhysical

def findColumn? (m : EntityModel) (name : String) : Option (EntityModel × Column) :=
  m.chain.findSome? fun level => (level.columns.find? (·.answersTo name)).map fun c => (level, c)

def primaryColumn? (m : EntityModel) : Option Column :=
  (m.findColumn? m.primaryKey).map (·.2)

def manyColumns (m : EntityModel) : List (EntityModel × Column) :=
  m.levels.flatMap fun level => (level.columns.filter Column.isMany).map fun c => (level, c)

def relatesTo (schema : Schema) (related : EntityModel) (c : Column) : Bool :=
  match c.target? with
  | some target => related.descendsFrom (schema.model target)
  | none => false

def addMember (found : List (EntityModel × Column)) (member : EntityModel × Column) :
    List (EntityModel × Column) :=
  if found.any (·.2.name == member.2.name) then found else found ++ [member]

/-- The relations, single or to many, that lead to `related` or to a level above it. Nearer levels
come first and hide what the levels above them call the same. -/
def relatedMembers (schema : Schema) (m related : EntityModel) : List (EntityModel × Column) :=
  let members := m.chain.flatMap fun level =>
    (level.columns.filter (relatesTo schema related)).map fun c => (level, c)
  members.foldl addMember []

end EntityModel

/-- The table that links the rows of an owner to rows of a target. The pair of ids is its key. -/
structure LinkTable where
  table : String
  field : String
  owner : EntityModel
  ownerColumn : String
  target : EntityModel
  targetColumn : String
  deriving DecidableEq, Repr

/-- A link table's columns are named for the two tables; a table linked to itself gets two names. -/
def LinkTable.between (table field : String) (owner target : EntityModel) : LinkTable where
  table := table
  field := field
  owner := owner
  ownerColumn := owner.table ++ "_id"
  target := target
  targetColumn := if owner.table = target.table then target.table ++ "_target_id"
    else target.table ++ "_id"

/-- The link table behind a relation to many rows. -/
def EntityModel.linkTable? (schema : Schema) (m : EntityModel) (field : String) :
    Option LinkTable :=
  match m.findColumn? field with
  | some (level, column) =>
    match column.kind with
    | .many target table => some (.between table column.name level (schema.model target))
    | _ => none
  | none => none

end EntityStore
