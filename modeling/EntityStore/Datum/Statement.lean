import EntityStore.Datum.Value
import EntityStore.Sql.Select

/-!
Statements and their templates as plain data.
-/

namespace EntityStore.Sql

namespace PatternKind

def all : List PatternKind := [contains, startsWith, endsWith]

def label : PatternKind → String
  | contains => "contains"
  | startsWith => "starts_with"
  | endsWith => "ends_with"

end PatternKind

instance : ToDatum PatternKind := ⟨fun kind => kind.label⟩

instance : ToDatum SlotSource := ⟨fun
  | .literal v => .record [("lit", v)]
  | .variable name pattern? => .record [("var", name), ("pattern", pattern?)]
  | .list name column negated =>
    .record [("list", name), ("column", column), ("negated", negated)]⟩

instance : OfDatum SlotSource := ⟨fun d =>
  match d.member? "lit", d.member? "var" with
  | some v, _ => .literal (ofDatum v)
  | none, some name =>
    .variable (ofDatum name) ((d.get "pattern" : Datum).pick? PatternKind.all PatternKind.label)
  | none, none => .list (d.get "list") (d.get "column") (d.get "negated")⟩

namespace Template

def slots (t : Template) : List Datum :=
  t.sources.zipIdx.map fun (source, i) =>
    [(slotName i : Datum), slotPlaceholder t.placeholders i, source]

def members (t : Template) : List (String × Datum) :=
  [("sql", t.sql), ("slots", t.slots), ("variables", t.variableNames)]

end Template

instance : ToDatum Template := ⟨fun t => .record t.members⟩

instance : ToDatum BoundParam := ⟨fun p => [(p.name : Datum), p.placeholder, p.value]⟩

namespace Statement

def members (s : Statement) : List (String × Datum) :=
  [("sql", s.sql), ("params", s.params)]

end Statement

instance : ToDatum Statement := ⟨fun s => .record s.members⟩

instance : OfDatum Direction := ⟨fun
  | .text "desc" => .descending
  | _ => .ascending⟩

instance : OfDatum (String × Direction) := ⟨fun d => (d.nth 0, d.nth 1)⟩

namespace Dialect

def all : List Dialect := [generic, postgres, sqlite, mssql]

def named? (d : Datum) : Option Dialect := d.pick? all (·.name)

end Dialect

end EntityStore.Sql
