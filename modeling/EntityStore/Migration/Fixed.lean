import EntityStore.Migration.Provider

/-!
Providers of migrations that change nothing. Their answers are given in advance: the units that have
run already, and the calls that fail.
-/

namespace EntityStore.Migration

/-- A provider with fixed answers. -/
def Provider.fixed {σ ε : Type} (name : String) (applied : List String)
    (failure? : UnitCall → Option EngineError) : Provider σ ε :=
  let answer := fun (c : UnitCall) =>
    match failure? c with
    | some e => (Attempt.ofExcept (.error e) : Attempt σ ε Unit)
    | none => return
  { name := name
    prepare := answer .prepare
    can := fun unitName => do
      answer (.can unitName)
      return !applied.contains unitName
    save := fun unitName => answer (.save unitName)
    beforeUp := answer .beforeUp
    afterUp := fun success => answer (.afterUp success)
    apply := fun m => answer (.apply m.path) }

end EntityStore.Migration
