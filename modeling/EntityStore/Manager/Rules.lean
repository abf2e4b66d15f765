import EntityStore.Manager.Hooks

/-!
Hooks given as rules. At each point the first rule that applies to the item says what happens; where
no rule applies the item goes through as it is.
-/

namespace EntityStore

inductive RuleEffect (ε : Type)
  | refuse
  | fail (p : Panic)
  | change (f : ε → ε)

structure HookRule (ε : Type) where
  point : HookPoint
  appliesTo : ε → Bool
  effect : RuleEffect ε

namespace HookRule

variable {ε : Type}

def effect? (rules : List (HookRule ε)) (point : HookPoint) (item : ε) : Option (RuleEffect ε) :=
  (rules.find? fun r => r.point == point && r.appliesTo item).map (·.effect)

def check (effect? : Option (RuleEffect ε)) : Except Panic Unit :=
  match effect? with
  | some (.fail p) => .error p
  | _ => .ok ()

end HookRule

/-- The hooks that follow rules. -/
def Hooks.ofRules {ε : Type} (rules : List (HookRule ε)) : Hooks ε where
  can mutation item := do
    let effect? := HookRule.effect? rules ⟨.can, mutation⟩ item
    HookRule.check effect?
    match effect? with
    | some .refuse => return false
    | _ => return true
  before mutation item := do
    let effect? := HookRule.effect? rules ⟨.before, mutation⟩ item
    HookRule.check effect?
    match effect? with
    | some (.change f) => return f item
    | _ => return item
  after mutation item := HookRule.check (HookRule.effect? rules ⟨.after, mutation⟩ item)

end EntityStore
