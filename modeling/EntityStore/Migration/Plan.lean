import EntityStore.Model.Entity

/-!
Plans of schema changes. Units of migration declare changes of models and of their properties; a
plan gathers the declarations by model and by property. Declarations about the same target are
merged, so that a plan asks for one action at most of each.
-/

namespace EntityStore.Migration

/-- What is to happen to a model or to a property. -/
inductive Action
  | create
  | update
  | delete
  deriving DecidableEq, Repr

def Action.label : Action → String
  | .create => "create"
  | .update => "update"
  | .delete => "delete"

/-- The action once `next` is asked for as well: the first one stays, but a deletion cancels a
creation and takes the place of an update. -/
def Action.merge (current? : Option Action) (next : Action) : Option Action :=
  match current?, next with
  | none, next => some next
  | some .create, .delete => none
  | some .update, .delete => some .delete
  | some current, _ => some current

structure PropertyOptions where
  primary : Bool := false
  autoIncrement : Bool := false
  unique : Bool := false
  nullable : Bool := false
  indexed : Bool := false
  size : TextSize := .maxVarChar
  default? : Option Value := none

/-- What is to happen to one property of a model. -/
structure PropertyChange where
  name : String
  type? : Option SqlType := none
  options : PropertyOptions := {}
  action? : Option Action := none
  renamedFrom? : Option String := none

namespace PropertyChange

def request (p : PropertyChange) (action : Action) : PropertyChange :=
  { p with action? := Action.merge p.action? action }

def isPending (p : PropertyChange) : Bool :=
  p.action?.isSome

def isNew (p : PropertyChange) : Bool :=
  p.action? == some .create

/-- The column of a property that was added; only a text has a size. -/
def column? (p : PropertyChange) : Option Column :=
  p.type?.map fun type =>
    { name := p.name
      kind := .scalar type (if type.isText then p.options.size else .maxVarChar)
      nullable := p.options.nullable
      unique := p.options.unique
      primary := p.options.primary
      autoIncrement := p.options.autoIncrement
      indexed := p.options.indexed }

end PropertyChange

/-- A declaration about one property. -/
inductive PropertyDeclaration
  | add (name : String) (type : SqlType) (options : PropertyOptions)
  | addPrimary (name : String)
  | rename (old new : String)
  | remove (name : String)

namespace PropertyDeclaration

/-- The property that a declaration is about; a renamed one goes by its new name. -/
def target : PropertyDeclaration → String
  | add name _ _ => name
  | addPrimary name => name
  | rename _ new => new
  | remove name => name

/-- Adds a declaration to what is known of its property. -/
def apply (p : PropertyChange) : PropertyDeclaration → PropertyChange
  | add _ type options => { p.request .create with type? := some type, options }
  | addPrimary _ =>
    { p.request .create with
      type? := some .bigInt
      options := { primary := true, autoIncrement := true } }
  | rename old _ => { p.request .update with renamedFrom? := some old }
  | remove _ => p.request .delete

end PropertyDeclaration

/-- What is to happen to one model and to its properties, in the order of their declaration. -/
structure ModelChange where
  model : EntityModel
  action? : Option Action := none
  renamedFrom? : Option String := none
  properties : List PropertyChange := []

namespace ModelChange

def path (m : ModelChange) : String := m.model.path

def table (m : ModelChange) : String := m.model.table

def request (m : ModelChange) (action : Action) : ModelChange :=
  { m with action? := Action.merge m.action? action }

def pendingProperties (m : ModelChange) : List PropertyChange :=
  m.properties.filter PropertyChange.isPending

def isPending (m : ModelChange) : Bool :=
  m.action?.isSome || !m.pendingProperties.isEmpty

/-- Changes the property of a name, which is made if there is none. -/
def changeProperty (name : String) (change : PropertyChange → PropertyChange) :
    List PropertyChange → List PropertyChange
  | [] => [change { name }]
  | p :: rest =>
    if p.name = name then change p :: rest else p :: changeProperty name change rest

def declareProperty (m : ModelChange) (d : PropertyDeclaration) : ModelChange :=
  { m with properties := changeProperty d.target d.apply m.properties }

end ModelChange

/-- What a declaration asks for the model itself. -/
inductive ModelRequest
  | create
  | rename (oldTable : String)
  | delete
  | select

structure Declaration where
  model : EntityModel
  request : ModelRequest
  properties : List PropertyDeclaration := []

namespace Declaration

/-- What a declaration asks for the model itself, added to what is known of the model. -/
def applyRequest (m : ModelChange) : ModelRequest → ModelChange
  | .create => m.request .create
  | .rename oldTable => { m.request .update with renamedFrom? := some oldTable }
  | .delete => m.request .delete
  | .select => m

def apply (d : Declaration) (m : ModelChange) : ModelChange :=
  d.properties.foldl ModelChange.declareProperty (applyRequest m d.request)

end Declaration

structure Plan where
  models : List ModelChange := []

namespace Plan

/-- Changes what is known of a model, which is taken up if it is new. -/
def changeModel (model : EntityModel) (change : ModelChange → ModelChange) :
    List ModelChange → List ModelChange
  | [] => [change { model }]
  | m :: rest =>
    if m.model.same model then change m :: rest else m :: changeModel model change rest

def declare (p : Plan) (d : Declaration) : Plan :=
  ⟨changeModel d.model d.apply p.models⟩

def ofDeclarations (ds : List Declaration) : Plan :=
  ds.foldl declare {}

def pendingModels (p : Plan) : List ModelChange :=
  p.models.filter ModelChange.isPending

def isEmpty (p : Plan) : Bool :=
  !p.models.any ModelChange.isPending

end Plan

structure MigrationUnit where
  name : String
  declarations : List Declaration

def MigrationUnit.plan (u : MigrationUnit) : Plan :=
  .ofDeclarations u.declarations

end EntityStore.Migration
