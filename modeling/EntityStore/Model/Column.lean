import EntityStore.Value.Basic

/-!
Columns of a table: scalars, relations that hold the id of a row of another type, and relations to
many rows, which are kept in a table of their own.
-/

namespace EntityStore

/-- The type of a stored value, before a dialect gives it a name. -/
inductive SqlType
  | smallInt
  | int
  | bigInt
  | float
  | bool
  | date
  | dateTime
  | text
  deriving DecidableEq, Repr

namespace SqlType

def label : SqlType → String
  | smallInt => "smallint"
  | int => "int"
  | bigInt => "bigint"
  | float => "float"
  | bool => "bool"
  | date => "date"
  | dateTime => "datetime"
  | text => "text"

def isNumeric : SqlType → Bool
  | smallInt | int | bigInt | float => true
  | _ => false

def isText : SqlType → Bool
  | text => true
  | _ => false

def firstDay : Date :=
  ⟨1, 1, 1, by decide, by decide, by decide⟩

/-- What a missing value counts as when a nullable column is compared with a literal. A missing text
counts as nothing. -/
def absentValue? : SqlType → Option Value
  | smallInt | int | bigInt => some (.int 0)
  | float => some (.float .zero)
  | bool => some (.bool false)
  | date => some (.date firstDay)
  | dateTime => some (.dateTime firstDay.atMidnight)
  | text => none

end SqlType

/-- How much room a text column asks for; other types take no size. -/
inductive TextSize
  | bounded (length : Nat)
  | maxVarChar
  | text
  | mediumText
  | longText
  deriving DecidableEq, Repr

def TextSize.standardLength : Nat := 255

/-- What becomes of a row when the row it points to is deleted. -/
inductive OnDelete
  | cascade
  | setNull
  | restrict
  | noAction
  deriving DecidableEq, Repr

def OnDelete.sql : OnDelete → String
  | .cascade => "CASCADE"
  | .setNull => "SET NULL"
  | .restrict => "RESTRICT"
  | .noAction => "NO ACTION"

structure ModelRef where
  name : String
  deriving DecidableEq, Repr

/-- A relation holds the id of a row of the target, and `field` is the name under which a path walks
there. A relation to many rows has a table of its own, and no column. -/
inductive ColumnKind
  | scalar (type : SqlType) (size : TextSize)
  | relation (field : String) (target : ModelRef) (onDelete : OnDelete)
  | many (target : ModelRef) (table : String)
  deriving DecidableEq, Repr

structure Column where
  name : String
  kind : ColumnKind
  nullable : Bool := false
  unique : Bool := false
  primary : Bool := false
  autoIncrement : Bool := false
  indexed : Bool := false
  deriving DecidableEq, Repr

namespace Column

def generatedKey (name : String) : Column :=
  { name, kind := .scalar .bigInt .maxVarChar, primary := true, autoIncrement := true }

def inheritedKey (name : String) : Column :=
  { generatedKey name with autoIncrement := false }

def scalar (name : String) (type : SqlType) : Column :=
  { name, kind := .scalar type .maxVarChar }

def text (name : String) (size : TextSize) : Column :=
  { name, kind := .scalar .text size }

def relation (name field : String) (target : ModelRef) (onDelete : OnDelete) : Column :=
  { name, kind := .relation field target onDelete }

def many (name : String) (target : ModelRef) (table : String) : Column :=
  { name, kind := .many target table }

def isPhysical (c : Column) : Bool :=
  match c.kind with
  | .many .. => false
  | _ => true

def isMany (c : Column) : Bool :=
  !c.isPhysical

/-- The type of the stored value; a relation stores an id. -/
def sqlType? (c : Column) : Option SqlType :=
  match c.kind with
  | .scalar type _ => some type
  | .relation .. => some .bigInt
  | .many .. => none

def size (c : Column) : TextSize :=
  match c.kind with
  | .scalar _ size => size
  | _ => .maxVarChar

def fieldName (c : Column) : String :=
  match c.kind with
  | .relation field _ _ => field
  | _ => c.name

/-- The model that a relation leads to. -/
def target? (c : Column) : Option ModelRef :=
  match c.kind with
  | .relation _ target _ => some target
  | .many target _ => some target
  | .scalar .. => none

def answersTo (c : Column) (name : String) : Bool :=
  c.name == name || c.fieldName == name

end Column

end EntityStore
