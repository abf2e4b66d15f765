import EntityStore.Error.Cause
import EntityStore.Filter.Group

/-!
Resolving predicates on a model. A dotted path becomes a column of an aliased table, and the join
graph grows by the tables on the way; a predicate becomes a filter over such columns. All clauses of
a statement are resolved on one graph. What was joined before a path failed stays joined.
-/

namespace EntityStore

abbrev Resolve := ExceptT TranslateError (StateM JoinGraph)

namespace Resolve

def ensure (key table : String) (kind : JoinKind) (on : JoinOn) : Resolve TableAlias :=
  modifyGet fun g => g.ensure key table kind on

def markCollection : Resolve Unit :=
  modify fun g => { g with collection := true }

/-- The alias of the table of a level, for the node of its model under the key. -/
def levelAlias (key : String) (model level : EntityModel) : Resolve TableAlias := do
  let node := ((← get).aliasOf? key).getD JoinGraph.rootAlias
  if level.same model.root then return node
  let kind := if key = "" then JoinKind.inner else .leftOuter
  ensure (JoinGraph.levelKey key level) level.table kind
    ⟨node, model.root.primaryKey, level.primaryKey⟩

/-- The names of a path, between its dots. -/
def splitDots : List Char → List (List Char)
  | [] => [[]]
  | c :: rest =>
    if c = '.' then [] :: splitDots rest
    else match splitDots rest with
      | [] => [[c]]
      | name :: names => (c :: name) :: names

def segments (path : String) : List String :=
  (splitDots path.toList).map String.ofList

/-- Walks the names that are left of a path, from the node of a model under a key. -/
def walk (schema : Schema) (path : String) (key : String) (model : EntityModel) :
    List String → Resolve (ColumnRef × Column)
  | [] => throw (.unknownField model.path path)
  | name :: rest => do
    match model.findColumn? name with
    | none => throw (.unknownField model.path path)
    | some (level, column) =>
      let here ← levelAlias key model level
      if rest.isEmpty then
        if column.isPhysical then return (⟨here, column.name⟩, column)
        else throw (.collectionComparison path)
      else
        match column.kind with
        | .relation field target _ =>
          let target := schema.model target
          let next := JoinGraph.hopKey key field
          let _ ← ensure next target.root.table .leftOuter
            ⟨here, column.name, target.root.primaryKey⟩
          walk schema path next target rest
        | .many target table =>
          let target := schema.model target
          let links := LinkTable.between table column.name level target
          let next := JoinGraph.hopKey key column.name
          let link ← ensure (next ++ "#link") links.table .leftOuter
            ⟨here, level.primaryKey, links.ownerColumn⟩
          let _ ← ensure next target.root.table .leftOuter
            ⟨link, links.targetColumn, target.root.primaryKey⟩
          markCollection
          walk schema path next target rest
        | .scalar .. => throw (.notARelation model.path name)

def column (schema : Schema) (model : EntityModel) (path : String) :
    Resolve (ColumnRef × Column) :=
  walk schema path "" model (segments path)

/-- What speaks against an operand for a column of the type, if anything does. -/
def operandFault? (type : SqlType) (op : CompareOp) : Operand → Option String
  | .literal .null =>
    if op = .eq ∨ op = .ne then none else some "null only compares with eq or ne"
  | .literal (.list items) =>
    if op.isMembership then
      if items.any fun v => v.isNull || v.isList then some "membership lists hold scalar values"
      else none
    else some "list operands require in or not_in"
  | .variable _ =>
    if op.isPattern && !type.isText then some "pattern operators require a text column" else none
  | .literal value =>
    if op.isMembership then some "membership requires a list"
    else if op.isPattern then
      if !type.isText then some "pattern operators require a text column"
      else if !value.isText then some "pattern operators require a text operand"
      else none
    else none
  | .raw _ =>
    if op.isMembership then some "membership requires a list"
    else if op.isPattern && !type.isText then some "pattern operators require a text column"
    else none

/-- The comparisons that need no operand: with a missing value, and membership in no list. -/
def constantComparison? (column : ColumnRef) (op : CompareOp) : Operand → Option WhereGroup
  | .literal .null =>
    match op with
    | .eq => some (.null column false)
    | .ne => some (.null column true)
    | _ => none
  | .literal (.list []) =>
    match op with
    | .isIn => some (.const false)
    | .notIn => some (.const true)
    | _ => none
  | _ => none

/-- What a missing value of the column counts as in the comparison: comparing a nullable column with
a literal gives it the type's own value, unless case is ignored. -/
def absentValue? (column : Column) (type : SqlType) (c : Comparison) : Option Value :=
  let compared := c.op.isOrdering || c.op == .eq || c.op == .ne
  match c.operand with
  | .literal _ => if column.nullable && !c.casefold && compared then type.absentValue? else none
  | _ => none

def comparison (schema : Schema) (model : EntityModel) (c : Comparison) : Resolve WhereGroup := do
  let (ref, column) ← column schema model c.field
  let some type := column.sqlType? | throw (.collectionComparison c.field)
  if let some group := constantComparison? ref c.op c.operand then return group
  if let some reason := operandFault? type c.op c.operand then
    throw (.invalidOperand c.field reason)
  if c.casefold && !type.isText then
    throw (.invalidOperand c.field "case-insensitive comparison requires a text column")
  return .leaf
    { column := ref, op := c.op, operand := c.operand, absent? := absentValue? column type c,
      casefold := c.casefold }

mutual

def filter (schema : Schema) (model : EntityModel) : Predicate → Resolve WhereGroup
  | .always => return .const true
  | .never => return .const false
  | .all [] => return .const true
  | .any [] => return .const false
  | .all (p :: ps) => return .all (← filterEach schema model (p :: ps))
  | .any (p :: ps) => return .any (← filterEach schema model (p :: ps))
  | .not p => return .not (← filter schema model p)
  | .isNull field => return .null (← column schema model field).1 false
  | .isNotNull field => return .null (← column schema model field).1 true
  | .compare c => comparison schema model c

def filterEach (schema : Schema) (model : EntityModel) :
    List Predicate → Resolve (List WhereGroup)
  | [] => return []
  | p :: ps => return (← filter schema model p) :: (← filterEach schema model ps)

end

end Resolve

structure Translation where
  filter : WhereGroup
  joins : JoinGraph

def Resolve.runOn {α : Type} (model : EntityModel) (r : Resolve α) :
    Except TranslateError α × JoinGraph :=
  Id.run (r.run (JoinGraph.ofModel model))

/-- Resolves one predicate on a model. -/
def Translation.of (schema : Schema) (model : EntityModel) (p : Predicate) :
    Except TranslateError Translation :=
  match Resolve.runOn model (Resolve.filter schema model p) with
  | (.ok filter, joins) => .ok ⟨filter, joins⟩
  | (.error e, _) => .error e

/-- The one relation by which rows of a model point to rows of the target. -/
def EntityModel.reverseRelation (schema : Schema) (model target : EntityModel) :
    Except TranslateError Column :=
  match ((model.relatedMembers schema target).map (·.2)).filter Column.isPhysical with
  | [single] => .ok single
  | [] => .error (.noReverseRelation model.path target.path)
  | members => .error (.ambiguousReverseRelation model.path target.path
      (", ".intercalate (members.map Column.fieldName)))

end EntityStore
