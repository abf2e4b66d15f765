import EntityStore.Error.Cause
import EntityStore.Model.Entity

/-!
The forest of registered models. A model is inserted after the one it extends, so a parent's index
is smaller than its child's, and every node knows the root that it had when it came.
-/

namespace EntityStore

namespace Forest

structure Node where
  model : EntityModel
  alias? : Option String
  parent? : Option Nat
  children : List Nat
  root : Nat
  deriving DecidableEq, Repr

end Forest

structure Forest where
  nodes : List Forest.Node := []
  paths : List (String × Nat) := []
  deriving DecidableEq, Repr

namespace Forest

def capacity : Nat := UInt32.size

def size (f : Forest) : Nat := f.nodes.length

def node? (f : Forest) (id : Nat) : Option Node := f.nodes[id]?

def find? (f : Forest) (path : String) : Option Nat := f.paths.lookup path

def rootUnder (f : Forest) (parent? : Option Nat) : Nat :=
  match parent?.bind f.node? with
  | some node => node.root
  | none => f.size

/-- The forest with a node at the end, entered in the children of its parent. -/
def append (f : Forest) (model : EntityModel) (alias? : Option String) (parent? : Option Nat) :
    Forest where
  nodes :=
    let linked := match parent? with
      | some p => f.nodes.modify p fun node => { node with children := node.children ++ [f.size] }
      | none => f.nodes
    linked ++ [{ model, alias?, parent?, children := [], root := f.rootUnder parent? }]
  paths := f.paths ++ (model.path :: alias?.toList).map (·, f.size)

/-- Inserts a model. Its path and alias must be new and its parent's path known. -/
def insert (f : Forest) (model : EntityModel) (alias? : Option String) :
    Except RegistryError (Nat × Forest) := do
  match (model.path :: alias?.toList).find? fun path => (f.find? path).isSome with
  | some path => throw (.alreadyRegistered path)
  | none => pure ()
  let parent? ← match model.parent? with
    | none => pure none
    | some parent =>
      match f.find? parent.path with
      | some p => pure (some p)
      | none => throw (.parentNotRegistered model.path parent.path)
  if capacity ≤ f.size then throw (.capacity f.size)
  return (f.size, f.append model alias? parent?)

/-- The nodes above a node, the nearest first. -/
def ancestors (f : Forest) (id : Nat) : List Nat :=
  match (f.node? id).bind (·.parent?) with
  | some p => if p < id then p :: ancestors f p else []
  | none => []
termination_by id

/-- The nodes below a node: each child in order, with all that is below it at once after it. -/
def descendants (f : Forest) (id : Nat) : List Nat :=
  match f.node? id with
  | some node => node.children.flatMap fun c =>
      if id < c ∧ c < f.size then c :: descendants f c else []
  | none => []
termination_by f.size - id

end Forest

end EntityStore
