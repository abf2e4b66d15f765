import EntityStore.Filter.Group
import EntityStore.Sql.Template

/-!
Filters as SQL conditions. Values are parameters; only names, operators and raw fragments stand in
the text. A conjunction or disjunction of several parts has parentheses, so the text reads back as
the filter it was made from.
-/

namespace EntityStore.Sql

def columnText (d : Dialect) (c : ColumnRef) : String :=
  c.tableAlias.text ++ "." ++ d.quote c.column

def JoinKind.words : JoinKind → String
  | .inner => "INNER JOIN"
  | .leftOuter => "LEFT OUTER JOIN"

def joinText (d : Dialect) (node : JoinNode) : String :=
  match node.on? with
  | none => ""
  | some on =>
    " " ++ JoinKind.words node.kind ++ " " ++ d.quote node.table ++ " " ++ node.tableAlias.text
      ++ " ON " ++ columnText d ⟨on.left, on.leftColumn⟩
      ++ " = " ++ columnText d ⟨node.tableAlias, on.rightColumn⟩

def fromText (d : Dialect) (g : JoinGraph) : String :=
  " FROM " ++ d.quote g.root.table ++ " " ++ g.root.tableAlias.text
    ++ String.join (g.joins.map (joinText d))

/-- The comparison sign of an operator that compares with one value. -/
def comparisonSign : CompareOp → String
  | .eq => "="
  | .ne => "<>"
  | .lt => "<"
  | .lte => "<="
  | .gt => ">"
  | .gte => ">="
  | .isIn => "IN"
  | .notIn => "NOT IN"
  | .contains | .startsWith | .endsWith => "LIKE"

/-- The pattern that an operator asks for. -/
def patternOf? : CompareOp → Option PatternKind
  | .contains => some .contains
  | .startsWith => some .startsWith
  | .endsWith => some .endsWith
  | _ => none

def operandValue (pattern? : Option PatternKind) (value : Value) : Value :=
  match pattern?, value with
  | some kind, .text text => .text (kind.wrap text)
  | _, value => value

def operandFragment (pattern? : Option PatternKind) : Operand → Writer Fragment
  | .literal value => Writer.literal (operandValue pattern? value)
  | .variable name => Writer.push (.variable name pattern?)
  | .raw sql => return raw sql

def lowered (casefold : Bool) (f : Fragment) : Fragment :=
  if casefold then raw "LOWER(" ++ f ++ raw ")" else f

def leafColumnText (d : Dialect) (leaf : WhereLeaf) : String :=
  if leaf.casefold then "LOWER(" ++ columnText d leaf.column ++ ")" else columnText d leaf.column

/-- The left side of a comparison, with what a missing value counts as. -/
def leafColumn (d : Dialect) (leaf : WhereLeaf) : Writer Fragment := do
  let column := raw (leafColumnText d leaf)
  match leaf.absent? with
  | none => return column
  | some value =>
    return raw "COALESCE(" ++ column ++ raw ", " ++ (← Writer.literal value) ++ raw ")"

/-- Membership of a column in the operand. -/
def membership (d : Dialect) (leaf : WhereLeaf) (column : Fragment) : Writer Fragment := do
  let negated := leaf.op == .notIn
  let within (list : Fragment) : Fragment :=
    column ++ raw (" " ++ membershipWord negated ++ " (") ++ list ++ raw ")"
  match leaf.operand with
  | .literal (.list items) => return within (← Writer.literals items)
  | .variable name => Writer.push (.list name (leafColumnText d leaf) negated)
  | operand => return within (← operandFragment none operand)

def leafFragment (d : Dialect) (leaf : WhereLeaf) : Writer Fragment := do
  let column ← leafColumn d leaf
  if leaf.op.isMembership then membership d leaf column
  else
    let right ← operandFragment (patternOf? leaf.op) leaf.operand
    return column ++ raw (" " ++ comparisonSign leaf.op ++ " ") ++ lowered leaf.casefold right
      ++ (if leaf.op.isPattern then raw d.likeEscape else [])

def bracketed (word : String) : List Fragment → Fragment
  | [single] => single
  | parts => raw "(" ++ joined word parts ++ raw ")"

mutual

def groupFragment (d : Dialect) : WhereGroup → Writer Fragment
  | .const true => return raw "1 = 1"
  | .const false => return raw "1 = 0"
  | .all parts => return bracketed " AND " (← groupFragments d parts)
  | .any parts => return bracketed " OR " (← groupFragments d parts)
  | .not part => return raw "NOT (" ++ (← groupFragment d part) ++ raw ")"
  | .null column negated =>
    return raw (columnText d column ++ (if negated then " IS NOT NULL" else " IS NULL"))
  | .leaf leaf => leafFragment d leaf

def groupFragments (d : Dialect) : List WhereGroup → Writer (List Fragment)
  | [] => return []
  | g :: gs => return (← groupFragment d g) :: (← groupFragments d gs)

end

def whereFragment (d : Dialect) : Option WhereGroup → Writer Fragment
  | none | some (.const true) => return []
  | some group => return raw " WHERE " ++ (← groupFragment d group)

end EntityStore.Sql
