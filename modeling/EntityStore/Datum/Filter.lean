import EntityStore.Datum.Value
import EntityStore.Filter.Group
import EntityStore.Predicate.Path

/-!
Predicates and resolved filters as plain data: a record with one member, whose key says what kind of
condition it is.
-/

namespace EntityStore

namespace CompareOp

def all : List CompareOp :=
  [eq, ne, lt, lte, gt, gte, isIn, notIn, contains, startsWith, endsWith]

def label : CompareOp → String
  | eq => "eq"
  | ne => "ne"
  | lt => "lt"
  | lte => "lte"
  | gt => "gt"
  | gte => "gte"
  | isIn => "in"
  | notIn => "not_in"
  | contains => "contains"
  | startsWith => "starts_with"
  | endsWith => "ends_with"

end CompareOp

instance : ToDatum CompareOp := ⟨fun op => op.label⟩
instance : OfDatum CompareOp := ⟨fun d => (d.pick? CompareOp.all CompareOp.label).getD .eq⟩

instance : ToDatum Operand := ⟨fun
  | .literal v => .record [("lit", v)]
  | .variable name => .record [("var", name)]
  | .raw sql => .record [("raw", sql)]⟩

instance : OfDatum Operand := ⟨fun
  | .record [("var", name)] => .variable (ofDatum name)
  | .record [("raw", sql)] => .raw (ofDatum sql)
  | d => .literal (d.get "lit")⟩

instance : OfDatum FieldPath := ⟨fun d => ⟨ofDatum d⟩⟩

namespace Datum

def valueList (d : Datum) : List Value :=
  match d.value with
  | .list items => items
  | v => [v]

/-- The question that a method of paths asks: a path, the method's name and its arguments. -/
def pathPredicate (d : Datum) : Predicate :=
  let path : FieldPath := d.nth 0
  let value : Value := d.nth 2
  let values := (d.nth 2 : Datum).valueList
  match (d.nth 1 : String) with
  | "eq" => path.eq value
  | "eq_ci" => path.eqIgnoringCase value
  | "ne" => path.ne value
  | "lt" => path.lt value
  | "lte" => path.lte value
  | "gt" => path.gt value
  | "gte" => path.gte value
  | "contains" => path.contains value
  | "starts_with" => path.startsWith value
  | "ends_with" => path.endsWith value
  | "in_list" => path.isIn values
  | "not_in" => path.notIn values
  | "is_null" => path.isNull
  | "is_not_null" => path.isNotNull
  | "eq_var" => path.eqVariable (d.nth 2)
  | "in_var" => path.inVariable (d.nth 2)
  | "compare_var" => path.compareVariable (d.nth 2) (d.nth 3)
  | _ => path.compareRaw (d.nth 2) (d.nth 3)

mutual

def predicate : Datum → Predicate
  | bool false => .never
  | record [("and", list parts)] => .all (predicates parts)
  | record [("or", list parts)] => .any (predicates parts)
  | record [("not", part)] => .not (predicate part)
  | record [("!", part)] => .not (predicate part)
  | record [("&", list [a, b])] => .both (predicate a) (predicate b)
  | record [("|", list [a, b])] => .either (predicate a) (predicate b)
  | record [("null", path)] => .isNull (ofDatum path)
  | record [("notnull", path)] => .isNotNull (ofDatum path)
  | record [("cmp", c)] => .compare ⟨c.nth 0, c.nth 1, c.nth 2, c.nth 3⟩
  | record [("ref", question)] => question.pathPredicate
  | _ => .always

def predicates : List Datum → List Predicate
  | [] => []
  | d :: rest => predicate d :: predicates rest

end

mutual

def ofPredicate : Predicate → Datum
  | .always => true
  | .never => false
  | .all parts => record [("and", list (ofPredicates parts))]
  | .any parts => record [("or", list (ofPredicates parts))]
  | .not part => record [("not", ofPredicate part)]
  | .compare c => record [("cmp", list [c.field, c.op, c.operand, c.casefold])]
  | .isNull path => record [("null", path)]
  | .isNotNull path => record [("notnull", path)]

def ofPredicates : List Predicate → List Datum
  | [] => []
  | p :: rest => ofPredicate p :: ofPredicates rest

end

instance : OfDatum Predicate := ⟨predicate⟩
instance : ToDatum Predicate := ⟨ofPredicate⟩

end Datum

instance : ToDatum TableAlias := ⟨fun a => a.text⟩
instance : ToDatum ColumnRef := ⟨fun c => [(c.tableAlias : Datum), c.column]⟩

instance : ToDatum WhereLeaf := ⟨fun l =>
  .record [("column", l.column), ("op", l.op), ("operand", l.operand), ("coalesce", l.absent?),
    ("casefold", l.casefold)]⟩

namespace Datum

mutual

def ofGroup : WhereGroup → Datum
  | .const b => record [("const", b)]
  | .all parts => record [("and", list (ofGroups parts))]
  | .any parts => record [("or", list (ofGroups parts))]
  | .not part => record [("not", ofGroup part)]
  | .null column negated => record [("null", column), ("negated", negated)]
  | .leaf l => record [("leaf", l)]

def ofGroups : List WhereGroup → List Datum
  | [] => []
  | g :: rest => ofGroup g :: ofGroups rest

end

instance : ToDatum WhereGroup := ⟨ofGroup⟩

end Datum

instance : ToDatum JoinKind := ⟨fun
  | .inner => "inner"
  | .leftOuter => "left"⟩

instance : ToDatum JoinOn := ⟨fun on => [(on.left : Datum), on.leftColumn, on.rightColumn]⟩

instance : ToDatum JoinNode := ⟨fun n =>
  .record [("key", n.key), ("alias", n.tableAlias), ("table", n.table), ("kind", n.kind),
    ("on", n.on?)]⟩

instance : ToDatum JoinGraph := ⟨fun g =>
  .record [("root", g.root), ("joins", g.joins), ("collection", g.collection), ("len", g.size),
    ("empty", g.nodes.isEmpty)]⟩

end EntityStore
