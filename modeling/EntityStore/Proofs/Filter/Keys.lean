import EntityStore.Filter.Resolve

/-!
Keys of tables in a join graph. As long as the names along a path are plain, a key tells which
relations lead to the table and whether it is the table of a model, of a level or of links.
-/

namespace EntityStore

namespace Resolve

private theorem splitDots_ne_nil (cs : List Char) : splitDots cs ≠ [] := by
  cases cs with
  | nil => exact List.cons_ne_nil _ _
  | cons c cs =>
      unfold splitDots
      split
      · exact List.cons_ne_nil _ _
      · split <;> exact List.cons_ne_nil _ _

private theorem splitDots_dot (cs rest : List Char) :
    splitDots (cs ++ '.' :: rest) = splitDots cs ++ splitDots rest := by
  induction cs with
  | nil => simp [splitDots]
  | cons c cs ih =>
      rw [List.cons_append, splitDots, splitDots, ih]
      split
      · rfl
      · cases split : splitDots cs with
        | nil => exact absurd split (splitDots_ne_nil cs)
        | cons name names => rfl

theorem splitDots_plain {cs : List Char} (plain : '.' ∉ cs) : splitDots cs = [cs] := by
  induction cs with
  | nil => rfl
  | cons c cs ih =>
      rw [List.mem_cons, not_or] at plain
      rw [splitDots, if_neg (Ne.symm plain.1), ih plain.2]

theorem segments_plain {name : String} (plain : '.' ∉ name.toList) : segments name = [name] := by
  rw [segments, splitDots_plain plain]
  exact congrArg (fun s => [s]) String.ofList_toList

end Resolve

namespace JoinGraph

/-- The name is there, without the characters by which keys are put together. -/
def PlainName (name : String) : Prop :=
  name ≠ "" ∧ ∀ c ∈ name.toList, c ≠ '.' ∧ c ≠ '@' ∧ c ≠ '#'

instance (name : String) : Decidable (PlainName name) :=
  @instDecidableAnd _ _ inferInstance (List.decidableBAll _ name.toList)

def pathKey : List String → String
  | [] => ""
  | field :: before => hopKey (pathKey before) field

def linkKey (key : String) : String :=
  key ++ "#link"

variable {fields others : List String}

theorem pathKey_eq_empty (plain : ∀ f ∈ fields, PlainName f) :
    pathKey fields = "" ↔ fields = [] := by
  cases fields with
  | nil => exact ⟨fun _ => rfl, fun _ => rfl⟩
  | cons field before =>
      refine ⟨fun empty => ?_, fun absurd => nomatch absurd⟩
      have here := (plain field List.mem_cons_self).1
      rw [pathKey, hopKey] at empty
      split at empty
      · exact (here empty).elim
      · have letters := congrArg String.toList empty
        simp at letters

theorem mem_pathKey (plain : ∀ f ∈ fields, PlainName f) {c : Char}
    (member : c ∈ (pathKey fields).toList) : c ≠ '@' ∧ c ≠ '#' := by
  induction fields with
  | nil => cases member
  | cons field before ih =>
      have here := (plain field List.mem_cons_self).2 c
      have earlier := ih fun f known => plain f (List.mem_cons_of_mem field known)
      rw [pathKey, hopKey] at member
      split at member
      · exact (here member).2
      · rw [String.toList_append, String.toList_append, List.mem_append,
          List.mem_append] at member
        rcases member with (member | dot) | member
        · exact earlier member
        · rw [List.mem_singleton.1 dot]
          decide
        · exact (here member).2

private theorem segments_pathKey (plain : ∀ f ∈ fields, PlainName f) (further : fields ≠ []) :
    Resolve.segments (pathKey fields) = fields.reverse := by
  induction fields with
  | nil => exact (further rfl).elim
  | cons field before ih =>
      have earlier : ∀ f ∈ before, PlainName f := fun f known =>
        plain f (List.mem_cons_of_mem field known)
      have undotted : '.' ∉ field.toList := fun member =>
        ((plain field List.mem_cons_self).2 '.' member).1 rfl
      rw [pathKey, hopKey]
      split
      · next empty =>
          rw [(pathKey_eq_empty earlier).1 empty, Resolve.segments,
            Resolve.splitDots_plain undotted]
          simp
      · next further =>
          have prior := ih earlier fun none => further ((pathKey_eq_empty earlier).2 none)
          rw [Resolve.segments] at prior ⊢
          have letters : (pathKey before ++ "." ++ field).toList =
              (pathKey before).toList ++ '.' :: field.toList := by
            rw [String.toList_append, String.toList_append, List.append_assoc]
            rfl
          rw [letters, Resolve.splitDots_dot, List.map_append, prior,
            Resolve.splitDots_plain undotted, List.reverse_cons]
          simp

theorem pathKey_injective (plain : ∀ f ∈ fields, PlainName f)
    (otherPlain : ∀ f ∈ others, PlainName f) (same : pathKey fields = pathKey others) :
    fields = others := by
  by_cases none : fields = []
  · rw [none] at same ⊢
    exact ((pathKey_eq_empty otherPlain).1 same.symm).symm
  · have some : others ≠ [] := fun empty =>
      none ((pathKey_eq_empty plain).1 (same.trans ((pathKey_eq_empty otherPlain).2 empty)))
    have paths := congrArg Resolve.segments same
    rw [segments_pathKey plain none, segments_pathKey otherPlain some] at paths
    exact List.reverse_inj.1 paths

/-- What stands before the first `c` of a list is determined. -/
theorem before_first {c : Char} {cs rest ds more : List Char} (free : c ∉ cs) (otherFree : c ∉ ds)
    (same : cs ++ c :: rest = ds ++ c :: more) : cs = ds ∧ rest = more := by
  induction cs generalizing ds with
  | nil =>
      cases ds with
      | nil => exact ⟨rfl, (List.cons.inj same).2⟩
      | cons d ds => exact (otherFree ((List.cons.inj same).1 ▸ List.mem_cons_self)).elim
  | cons a cs ih =>
      cases ds with
      | nil => exact (free ((List.cons.inj same).1 ▸ List.mem_cons_self)).elim
      | cons d ds =>
          obtain ⟨rfl, rest⟩ := List.cons.inj same
          rw [List.mem_cons, not_or] at free otherFree
          obtain ⟨rfl, rfl⟩ := ih free.2 otherFree.2 rest
          exact ⟨rfl, rfl⟩

theorem toList_levelKey (key : String) (level : EntityModel) :
    (levelKey key level).toList = key.toList ++ '@' :: level.table.toList := by
  rw [levelKey, String.toList_append, String.toList_append, List.append_assoc]
  rfl

theorem levelKey_injective (plain : ∀ f ∈ fields, PlainName f)
    (otherPlain : ∀ f ∈ others, PlainName f) {level other : EntityModel}
    (same : levelKey (pathKey fields) level = levelKey (pathKey others) other) :
    fields = others ∧ level.table = other.table := by
  have letters := congrArg String.toList same
  rw [toList_levelKey, toList_levelKey] at letters
  obtain ⟨keys, tables⟩ := before_first (fun member => (mem_pathKey plain member).1 rfl)
    (fun member => (mem_pathKey otherPlain member).1 rfl) letters
  exact ⟨pathKey_injective plain otherPlain (String.toList_inj.1 keys), String.toList_inj.1 tables⟩

theorem linkKey_injective (plain : ∀ f ∈ fields, PlainName f)
    (otherPlain : ∀ f ∈ others, PlainName f)
    (same : linkKey (pathKey fields) = linkKey (pathKey others)) : fields = others := by
  have letters := congrArg String.toList same
  rw [linkKey, linkKey, String.toList_append, String.toList_append] at letters
  exact pathKey_injective plain otherPlain (String.toList_inj.1 (List.append_cancel_right letters))

theorem pathKey_ne_levelKey (plain : ∀ f ∈ fields, PlainName f) (key : String)
    (level : EntityModel) : pathKey fields ≠ levelKey key level := by
  intro same
  have met : '@' ∈ (pathKey fields).toList := by simp [same, toList_levelKey]
  exact (mem_pathKey plain met).1 rfl

theorem pathKey_ne_linkKey (plain : ∀ f ∈ fields, PlainName f) (key : String) :
    pathKey fields ≠ linkKey key := by
  intro same
  have met : '#' ∈ (pathKey fields).toList := by simp [same, linkKey]
  exact (mem_pathKey plain met).2 rfl

theorem linkKey_ne_levelKey (plain : ∀ f ∈ fields, PlainName f) (key : String)
    (level : EntityModel) : linkKey (pathKey fields) ≠ levelKey key level := by
  intro same
  have met : '@' ∈ (linkKey (pathKey fields)).toList := by simp [same, toList_levelKey]
  rw [linkKey, String.toList_append, List.mem_append] at met
  rcases met with met | met
  · exact (mem_pathKey plain met).1 rfl
  · revert met
    decide

end JoinGraph

end EntityStore
