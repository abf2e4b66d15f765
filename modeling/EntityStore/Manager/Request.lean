import EntityStore.Manager.Basic

/-!
Requests as values: what to do with a manager, the name under which errors are reported, and what
the bare form gives where there is no value. A manager, a database and a session all carry out the
same requests.
-/

namespace EntityStore

structure Request (σ ε α β : Type) where
  name : String
  run : Setting σ → Manager ε → Engine σ ε (Outcome α)
  bare : Option α → β

namespace Request

variable {σ ε : Type}

def many (name : String) (run : Setting σ → Manager ε → Engine σ ε (Outcome (List ε))) :
    Request σ ε (List ε) (List ε) :=
  ⟨name, run, fun value? => value?.getD []⟩

def perhaps (name : String) (run : Setting σ → Manager ε → Engine σ ε (Outcome (Option ε))) :
    Request σ ε (Option ε) (Option ε) :=
  ⟨name, run, Option.join⟩

def one (name : String) (run : Setting σ → Manager ε → Engine σ ε (Outcome ε)) :
    Request σ ε ε (Option ε) :=
  ⟨name, run, id⟩

def getAll : Request σ ε (List ε) (List ε) :=
  many "get_all" fun env m => m.getAll env

def getById (id : Int64) : Request σ ε (Option ε) (Option ε) :=
  perhaps "get_by_id" fun env m => m.getById env id

def getByIds (ids : List Int64) : Request σ ε (List ε) (List ε) :=
  many "get_by_ids" fun env m => m.getByIds env ids

def referencing (target : EntityModel) (ids : List Int64) : Request σ ε (List ε) (List ε) :=
  many "referencing" fun env m => m.referencing env target ids

def filter (p : Predicate) : Request σ ε (List ε) (List ε) :=
  many "filter" fun env m => m.filter env p

def single (p : Predicate) : Request σ ε (Option ε) (Option ε) :=
  perhaps "single" fun env m => m.single env p

def exist (p : Predicate) : Request σ ε Bool Bool :=
  ⟨"exist", fun env m => m.exist env p, fun value? => value?.getD false⟩

def create (item : ε) : Request σ ε ε (Option ε) :=
  one "create" fun env m => m.create env item

def createMany (items : List ε) : Request σ ε (List ε) (List ε) :=
  many "create_many" fun env m => m.createMany env items

def bulkCreate (items : List ε) (withId : Bool) : Request σ ε (List ε) (List ε) :=
  many "bulk_create" fun env m => m.bulkCreate env items withId

def update (item : ε) (fields : List String) : Request σ ε ε (Option ε) :=
  one "update" fun env m => m.update env item fields

def updateMany (items : List ε) (fields : List String) : Request σ ε (List ε) (List ε) :=
  many "update_many" fun env m => m.updateMany env items fields

def delete (item : ε) : Request σ ε ε (Option ε) :=
  one "delete" fun env m => m.delete env item

def deleteMany (items : List ε) : Request σ ε (List ε) (List ε) :=
  many "delete_many" fun env m => m.deleteMany env items

end Request

def Manager.bare {σ ε α β : Type} (env : Setting σ) (m : Manager ε) (r : Request σ ε α β) :
    Engine σ ε β := do
  return r.bare (← Engine.collapse (env.log m.storage) r.name (← r.run env m))

end EntityStore
