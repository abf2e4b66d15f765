import EntityStore.Model.Entity

/-!
Catalogs: named models, each of which may extend one that is named before it.
-/

namespace EntityStore

abbrev Catalog := List (String × EntityModel)

namespace Catalog

def unknownModel : EntityModel := ⟨⟨"", "", "", []⟩, []⟩

def model (c : Catalog) (name : String) : EntityModel :=
  (c.lookup name).getD unknownModel

def schema (c : Catalog) : Schema := ⟨fun r => c.model r.name⟩

def levelsAbove (c : Catalog) (parent? : Option String) : List Level :=
  match parent?.bind fun parent => c.lookup parent with
  | some parent => parent.own :: parent.above
  | none => []

def add (c : Catalog) (name : String) (own : Level) (parent? : Option String) : Catalog :=
  c ++ [(name, ⟨own, c.levelsAbove parent?⟩)]

end Catalog

end EntityStore
