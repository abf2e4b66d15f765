import EntityStore.Config.Basic
import EntityStore.Toml.Document

/-!
Reading the settings of a database from a TOML document. All settings have defaults; a key that is
none of theirs is an error. A group of settings may also be written as an array of its values in
order.
-/

namespace EntityStore

namespace Toml.Value

def bool? : Value → Option Bool
  | .bool b => some b
  | _ => none

def text? : Value → Option String
  | .text s => some s
  | _ => none

def members? : Value → Option Members
  | .table _ members => some members
  | _ => none

def items? : Value → Option (List Value)
  | .array items => some items
  | .tables items => some (items.map (.table .header))
  | _ => none

end Toml.Value

/-- Reads a group of settings, from a table by name or from an array by place. -/
def readGroup {α : Type} (defaults : α) (settings : List (String × (α → Toml.Value → Option α)))
    (v : Toml.Value) : Option α :=
  match v.members?, v.items? with
  | some members, _ =>
    members.foldlM (fun a (key, value) => do (← settings.lookup key) a value) defaults
  | none, some items =>
    (settings.zip items).foldlM (fun a (setting, value) => setting.2 a value) defaults
  | none, none => none

def LogConfig.ofToml? : Toml.Value → Option LogConfig :=
  readGroup {}
    [("print_errors", fun c v => return { c with printErrors := ← v.bool? }),
      ("trace_sql", fun c v => return { c with traceSql := ← v.bool? })]

def MigrationConfig.ofToml? : Toml.Value → Option MigrationConfig :=
  readGroup {}
    [("multiple_providers", fun c v => return { c with multipleProviders := ← v.bool? }),
      ("table", fun c v => return { c with table := ← v.text? })]

def Config.ofToml? : Toml.Value → Option Config :=
  readGroup {}
    [("log", fun c v => return { c with log := ← LogConfig.ofToml? v }),
      ("migration", fun c v => return { c with migration := ← MigrationConfig.ofToml? v })]

/-- The settings that a document describes. -/
def Config.ofText (source : String) : Except ConfigError Config :=
  match Toml.read? source with
  | none => .error (.parse "not a valid document")
  | some members =>
    match Config.ofToml? (.table .header members) with
    | none => .error (.parse "not a valid group of settings")
    | some c => c.validate

def Config.ofFile (path : String) (content : Except String String) : Except ConfigError Config :=
  match content with
  | .error reason => .error (.read path reason)
  | .ok source => Config.ofText source

end EntityStore
