import EntityStore.Error.Cause
import EntityStore.Sql.Dialect
import EntityStore.Sql.Like

/-!
Statement templates: statements whose parameters may still be variables. Slots are numbered in the
order in which they are asked for. Binding gives each variable its value; a list takes one parameter
for each of its items, so placeholders are numbered anew.
-/

namespace EntityStore.Sql

abbrev Bindings := List (String × Value)

/-- Where the value of a slot comes from. With a pattern, a bound text is made into one; the slot of a
list stands for the whole membership condition. -/
inductive SlotSource
  | literal (value : Value)
  | variable (name : String) (pattern? : Option PatternKind)
  | list (name column : String) (negated : Bool)

def slotName (index : Nat) : String :=
  "p" ++ decimal index

def membershipWord (negated : Bool) : String :=
  if negated then "NOT IN" else "IN"

structure Template where
  placeholders : Placeholders
  sources : List SlotSource
  pieces : List Piece

structure BoundParam where
  name : String
  placeholder : String
  value : Value

structure Statement where
  sql : String
  params : List BoundParam

namespace Statement

def param? (s : Statement) (name : String) : Option Value :=
  (s.params.find? (·.name == name)).map (·.value)

def values (s : Statement) : List Value :=
  s.params.map (·.value)

end Statement

structure BoundSlot where
  text : String
  params : List BoundParam

namespace Template

def slotPlaceholder (style : Placeholders) (index : Nat) : String :=
  style.render (slotName index) (index + 1)

def slotText (style : Placeholders) (index : Nat) : SlotSource → String
  | .list _ column negated =>
    column ++ " " ++ membershipWord negated ++ " (" ++ slotPlaceholder style index ++ ")"
  | _ => slotPlaceholder style index

def slotTexts (style : Placeholders) (index : Nat) : List SlotSource → List String
  | [] => []
  | source :: rest => slotText style index source :: slotTexts style (index + 1) rest

def fill (pieces : List Piece) (texts : List String) : String :=
  String.join (pieces.map fun
    | .text s => s
    | .slot index => texts[index]?.getD "")

def sql (t : Template) : String :=
  fill t.pieces (slotTexts t.placeholders 0 t.sources)

/-- The names of the variables, in the order of their slots. -/
def variableNames (t : Template) : List String :=
  t.sources.filterMap fun
    | .literal _ => none
    | .variable name _ => some name
    | .list name _ _ => some name

def lookup (bindings : Bindings) (name : String) : Except QueryError Value :=
  match bindings.lookup name with
  | some value => .ok value
  | none => .error (.unboundVariable name)

/-- The value of a variable that stands for one value. -/
def scalarValue (name : String) : Option PatternKind → Value → Except QueryError Value
  | some kind, .text text => .ok (.text (kind.wrap text))
  | some _, value => .error (.variableType name value.kindName)
  | none, .list items => .error (.variableType name (Value.list items).kindName)
  | none, value => .ok value

/-- The items of a variable that stands for a list of values. -/
def listItems (name : String) : Value → Except QueryError (List Value)
  | .list items =>
    match items.find? fun v => v.isNull || v.isList with
    | some bad => .error (.variableType name bad.kindName)
    | none => .ok items
  | value => .error (.variableType name value.kindName)

def boundParam (style : Placeholders) (name : String) (position : Nat) (value : Value) :
    BoundParam :=
  ⟨name, style.render name position, value⟩

/-- The parameters for the items of a list, from item number `item` on. -/
def itemParams (style : Placeholders) (name : String) (position item : Nat) :
    List Value → List BoundParam
  | [] => []
  | value :: rest =>
    boundParam style (name ++ "_" ++ decimal item) position value
      :: itemParams style name (position + 1) (item + 1) rest

/-- Binds slot number `index`, whose first parameter has the given position. -/
def bindSlot (style : Placeholders) (bindings : Bindings) (index position : Nat) :
    SlotSource → Except QueryError BoundSlot
  | .literal value =>
    let param := boundParam style (slotName index) position value
    return ⟨param.placeholder, [param]⟩
  | .variable name pattern? => do
    let value ← scalarValue name pattern? (← lookup bindings name)
    let param := boundParam style (slotName index) position value
    return ⟨param.placeholder, [param]⟩
  | .list name column negated => do
    let items ← listItems name (← lookup bindings name)
    if items.isEmpty then
      -- Nothing is a member of the empty list, and everything is no member of it.
      return ⟨if negated then "1 = 1" else "1 = 0", []⟩
    let params := itemParams style (slotName index) position 0 items
    let list := ", ".intercalate (params.map (·.placeholder))
    return ⟨column ++ " " ++ membershipWord negated ++ " (" ++ list ++ ")", params⟩

/-- Binds the slots from number `index` on. -/
def bindSlots (style : Placeholders) (bindings : Bindings) (index position : Nat) :
    List SlotSource → Except QueryError (List BoundSlot)
  | [] => return []
  | source :: rest => do
    let slot ← bindSlot style bindings index position source
    return slot :: (← bindSlots style bindings (index + 1) (position + slot.params.length) rest)

def bind (t : Template) (bindings : Bindings) : Except QueryError Statement := do
  let slots ← bindSlots t.placeholders bindings 0 1 t.sources
  return ⟨fill t.pieces (slots.map (·.text)), slots.flatMap (·.params)⟩

end Template

abbrev Writer := StateM (List SlotSource)

namespace Writer

def push (source : SlotSource) : Writer Fragment :=
  modifyGet fun sources => ([.slot sources.length], sources ++ [source])

def literal (value : Value) : Writer Fragment :=
  push (.literal value)

def literals (values : List Value) : Writer Fragment := do
  return joined ", " (← values.mapM literal)

def ids (ids : List Int64) : Writer Fragment :=
  literals (ids.map .int)

def finish (d : Dialect) (w : Writer Fragment) : Template :=
  let (fragment, sources) := Id.run (w.run [])
  { placeholders := d.placeholders, sources, pieces := pieces sources.length (marked fragment) }

end Writer

def plainTemplate (d : Dialect) (sql : String) : Template :=
  Writer.finish d (return raw sql)

end EntityStore.Sql
