import EntityStore.Error.Cause

/-!
The settings of a database: what it reports and how it migrates.
-/

namespace EntityStore

structure LogConfig where
  printErrors : Bool := false
  traceSql : Bool := false
  deriving DecidableEq, Repr

structure MigrationConfig where
  multipleProviders : Bool := false
  table : String := "_migrations"
  deriving DecidableEq, Repr

structure Config where
  log : LogConfig := {}
  migration : MigrationConfig := {}
  deriving DecidableEq, Repr

def isNameChar (c : Char) : Bool :=
  c.isAlphanum || c == '_'

def Config.validate (c : Config) : Except ConfigError Config :=
  let table := c.migration.table
  if table.toList.isEmpty || !table.toList.all isNameChar then .error (.invalidTableName table)
  else .ok c

end EntityStore
