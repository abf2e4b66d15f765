import EntityStore.Engine.Assoc
import EntityStore.Engine.Event
import EntityStore.Engine.Provider

/-!
Databases that answer from a script. A script has a list of answers for each kind of call, which are
given one by one. Where a list has ended the call succeeds: a statement touches one row, a query
finds none, and an insert gives the next key.
-/

namespace EntityStore

/-- An answer that is given in advance: a failure, or success with the value that it names. Without
one the call succeeds as if the list had ended. -/
abbrev ScriptedAnswer (α : Type) := Except StorageError (Option α)

structure Script where
  connect : List (ScriptedAnswer Unit) := []
  execute : List (ScriptedAnswer Nat) := []
  query : List (ScriptedAnswer (List Row)) := []
  insert : List (ScriptedAnswer Int64) := []
  begin : List (ScriptedAnswer Unit) := []
  commit : List (ScriptedAnswer Unit) := []
  rollback : List (ScriptedAnswer Unit) := []
  inserted : Nat := 0

structure Scripts where
  script : StorageId → Script := fun _ => {}

namespace Scripts

variable {α : Type} (i : StorageId)

def setScript (s : Scripts) (script : Script) : Scripts :=
  ⟨setAt s.script i script⟩

/-- The next of the answers that `queue` finds, or a fallback. -/
def next (queue : Script → List (ScriptedAnswer α))
    (setQueue : Script → List (ScriptedAnswer α) → Script) (fallback : α) :
    Answer Scripts α := fun s =>
  match queue (s.script i) with
  | [] => (.ok fallback, s)
  | answer :: rest =>
    (answer.map (·.getD fallback), s.setScript i (setQueue (s.script i) rest))

/-- The next answer to an insert, which is counted if it succeeds. -/
def nextKey : Answer Scripts Int64 := fun s =>
  let fallback := Int64.ofNat ((s.script i).inserted + 1)
  match next i (·.insert) (fun script rest => { script with insert := rest }) fallback s with
  | (.ok key, s) =>
    let script := s.script i
    (.ok key, s.setScript i { script with inserted := script.inserted + 1 })
  | failed => failed

/-- The database of a storage. -/
def provider (name : String) (dialect : Sql.Dialect) : Provider Scripts where
  name := name
  dialect := dialect
  connect := next i (·.connect) (fun s rest => { s with connect := rest }) ()
  execute _ := next i (·.execute) (fun s rest => { s with execute := rest }) 1
  query _ := next i (·.query) (fun s rest => { s with query := rest }) []
  insert _ := nextKey i
  begin := next i (·.begin) (fun s rest => { s with begin := rest }) ()
  commit := next i (·.commit) (fun s rest => { s with commit := rest }) ()
  rollback := next i (·.rollback) (fun s rest => { s with rollback := rest }) ()

def load (s : Scripts) (script : Script) : Scripts :=
  s.setScript i { script with inserted := (s.script i).inserted }

end Scripts

end EntityStore
