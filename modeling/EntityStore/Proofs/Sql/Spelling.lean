import EntityStore.Proofs.Sql.Lexemes
import EntityStore.Proofs.Sql.Writing

/-!
What writers spell. A fragment is spelled by a text whose lexemes have some meaning, given the sources
of the slots; the meaning holds whatever is asked for later. Fragments put together are spelled by
their texts put together.
-/

namespace EntityStore.Sql

open Lexeme

/-! ### Texts -/

theorem spelledOut_append (text more : List Symbol) :
    spelledOut (text ++ more) = spelledOut text ++ spelledOut more :=
  List.flatMap_append

theorem fragmentsOf_append (text more : List Symbol) :
    fragmentsOf (text ++ more) = fragmentsOf text ++ fragmentsOf more :=
  List.filterMap_append

theorem spelledOut_symbols (cs : List Char) : spelledOut (symbols cs) = cs := by
  induction cs with
  | nil => rfl
  | cons c cs ih => exact congrArg (c :: ·) ih

theorem fragmentsOf_symbols (cs : List Char) : fragmentsOf (symbols cs) = [] := by
  induction cs with
  | nil => rfl
  | cons c cs ih => exact ih

theorem marked_append (f g : Fragment) : marked (f ++ g) = marked f ++ marked g :=
  List.flatMap_append

theorem marked_raw (s : String) : marked (raw s) = s.toList :=
  List.append_nil _

/-! ### Fragments -/

abbrev Meaning := List SlotSource → List Lexeme → Prop

/-- Written after some slots and asking for others, the fragment is spelled by a text with these raw
fragments, whose lexemes have the meaning. -/
def Spelled (d : Dialect) (before added : List SlotSource) (f : Fragment) (raws : List String)
    (means : Meaning) : Prop :=
  ∃ text ls, spelledOut text = marked f ∧ fragmentsOf text = raws ∧ Scans d text ls
    ∧ ∀ later, means (before ++ added ++ later) ls

section

variable {d : Dialect} {before added more : List SlotSource} {f g : Fragment}
  {raws raws' : List String} {means means' : Meaning}

theorem Spelled.imp (spelled : Spelled d before added f raws means)
    (weaker : ∀ sources ls, means sources ls → means' sources ls) :
    Spelled d before added f raws means' := by
  obtain ⟨text, ls, spells, fragments, scans, holds⟩ := spelled
  exact ⟨text, ls, spells, fragments, scans, fun later => weaker _ _ (holds later)⟩

theorem spelled_raw {s : String} {ls : List Lexeme} (scans : Scans d (letters s) ls)
    (holds : ∀ sources, means sources ls) : Spelled d before [] (raw s) [] means :=
  ⟨letters s, ls, (spelledOut_symbols _).trans (marked_raw s).symm, fragmentsOf_symbols _, scans,
    fun _ => holds _⟩

theorem spelled_fragment {sql : String} (holds : ∀ sources, means sources [.fragment sql]) :
    Spelled d before [] (raw sql) [sql] means :=
  ⟨[.fragment sql], [.fragment sql], by simp [spelledOut, Symbol.spelled, marked_raw], rfl,
    (closes_fragment sql).scans, fun _ => holds _⟩

private theorem spelled_slot {source : SlotSource}
    (holds : ∀ sources, sources[before.length]? = some source → means sources [.slot before.length]) :
    Spelled d before [source] [.slot before.length] [] means := by
  refine ⟨symbols (Piece.slot before.length).marked, [.slot before.length],
    (spelledOut_symbols _).trans (List.append_nil _).symm, fragmentsOf_symbols _,
    (closes_slot before.length).scans, fun later => holds _ ?_⟩
  rw [List.append_assoc, List.getElem?_append_right (Nat.le_refl _), Nat.sub_self]
  rfl

theorem Spelled.followed {s : String} {ms : List Lexeme} (parts : Parts (letters s))
    (scans : Scans d (letters s) ms) (spelled : Spelled d before added f raws means)
    (whole : ∀ sources ls, means sources ls → means' sources (ls ++ ms)) :
    Spelled d before added (f ++ raw s) raws means' := by
  obtain ⟨text, ls, spells, fragments, first, holds⟩ := spelled
  refine ⟨text ++ letters s, ls ++ ms, ?_, ?_, first.followed parts scans,
    fun later => whole _ _ (holds later)⟩
  · rw [spelledOut_append, letters, spelledOut_symbols, spells, marked_append, marked_raw]
  · rw [fragmentsOf_append, letters, fragmentsOf_symbols, fragments, List.append_nil]

theorem Spelled.enclosed {s t : String} {ls ms : List Lexeme} (closes : Closes d (letters s) ls)
    (parts : Parts (letters t)) (scans : Scans d (letters t) ms)
    (spelled : Spelled d before added f raws means)
    (whole : ∀ sources inner, means sources inner → means' sources (ls ++ (inner ++ ms))) :
    Spelled d before added (raw s ++ f ++ raw t) raws means' := by
  have closed : Spelled d before added (f ++ raw t) raws fun sources all => means' sources (ls ++ all) :=
    spelled.followed parts scans whole
  obtain ⟨text, inner, spells, fragments, first, holds⟩ := closed
  refine ⟨letters s ++ text, ls ++ inner, ?_, ?_, closes.followed first, holds⟩
  · rw [spelledOut_append, letters, spelledOut_symbols, spells, List.append_assoc,
      marked_append (raw s), marked_raw]
  · rw [fragmentsOf_append, letters, fragmentsOf_symbols, fragments, List.nil_append]

def Both (means : Meaning) (between : List Lexeme) (means' : Meaning) : Meaning :=
  fun sources all => ∃ ls ms, all = ls ++ between ++ ms ∧ means sources ls ∧ means' sources ms

/-- Two fragments with fixed text between them. -/
theorem Spelled.joined {s : String} {between : List Lexeme} (parts : Parts (letters s))
    (closes : Closes d (letters s) between) (first : Spelled d before added f raws means)
    (second : Spelled d (before ++ added) more g raws' means') :
    Spelled d before (added ++ more) (f ++ raw s ++ g) (raws ++ raws')
      (Both means between means') := by
  obtain ⟨text, ls, spells, fragments, scans, holds⟩ := first
  obtain ⟨text', ms, spells', fragments', scans', holds'⟩ := second
  refine ⟨text ++ letters s ++ text', ls ++ between ++ ms, ?_, ?_, ?_, fun later => ?_⟩
  · rw [spelledOut_append, spelledOut_append, letters, spelledOut_symbols, spells, spells',
      marked_append, marked_append, marked_raw]
  · rw [fragmentsOf_append, fragmentsOf_append, letters, fragmentsOf_symbols, fragments, fragments',
      List.append_nil]
  · exact (scans.closed parts closes).followed scans'
  · have left := holds (more ++ later)
    have right := holds' later
    rw [← List.append_assoc] at left
    rw [List.append_assoc before] at left right
    exact ⟨ls, ms, rfl, left, right⟩

end

/-! ### Lists of fragments -/

abbrev SpelledEach {α : Type} (d : Dialect) (raws : α → List String) (means : α → Meaning) :
    List SlotSource → List SlotSource → List Fragment → List α → Prop :=
  YieldsEach fun a before added f => Spelled d before added f (raws a) (means a)

/-- Joined by a separator, the fragments mean what the items mean together. -/
theorem SpelledEach.joined {α : Type} {d : Dialect} {raws : α → List String} {means : α → Meaning}
    {whole : List α → Meaning} {separator : String} {between : Lexeme}
    (parts : Parts (letters separator)) (closes : Closes d (letters separator) [between])
    (last : ∀ a sources ls, means a sources ls → whole [a] sources ls)
    (next : ∀ a as sources ls ms, means a sources ls → whole as sources ms →
      whole (a :: as) sources (ls ++ between :: ms))
    {before added : List SlotSource} {fs : List Fragment} {as : List α}
    (each : SpelledEach d raws means before added fs as) (filled : as ≠ []) :
    Spelled d before added (Sql.joined separator fs) (as.flatMap raws) (whole as) := by
  induction each with
  | nil before => exact absurd rfl filled
  | cons first rest ih =>
      cases rest with
      | nil =>
          rw [Sql.joined, List.intercalate_singleton, List.append_nil, List.flatMap_singleton]
          exact first.imp fun sources ls => last _ sources ls
      | cons second rest =>
          rw [Sql.joined, List.intercalate_cons_cons, List.flatMap_cons]
          refine (first.joined parts closes (ih (List.cons_ne_nil _ _))).imp ?_
          rintro sources _ ⟨ls, ms, rfl, left, right⟩
          rw [List.append_assoc]
          exact next _ _ sources ls ms left right

/-! ### Writers -/

/-- What the writer returns is spelled with these raw fragments and this meaning, whatever has been
written before. -/
abbrev Spells (d : Dialect) (w : Writer Fragment) (raws : List String) (means : Meaning) : Prop :=
  Yields w fun before added f => Spelled d before added f raws means

theorem spells_push {d : Dialect} {source : SlotSource} {means : Meaning}
    (holds : ∀ sources index, sources[index]? = some source → means sources [.slot index]) :
    Spells d (Writer.push source) [] means :=
  yields_push source fun before => spelled_slot fun sources => holds sources before.length

/-! ### Fixed texts -/

theorem closes_opening (d : Dialect) : Closes d (letters "(") [.opening] := by
  intro rest
  cases d <;> rfl

theorem closes_closing (d : Dialect) : Closes d (letters ")") [.closing] := by
  intro rest
  cases d <;> rfl

theorem closes_negation (d : Dialect) : Closes d (letters "NOT (") [.word "NOT", .opening] := by
  intro rest
  cases d <;> rfl

theorem closes_lower (d : Dialect) : Closes d (letters "LOWER(") [.word "LOWER", .opening] := by
  intro rest
  cases d <;> rfl

theorem closes_coalesce (d : Dialect) :
    Closes d (letters "COALESCE(") [.word "COALESCE", .opening] := by
  intro rest
  cases d <;> rfl

theorem closes_comma (d : Dialect) : Closes d (letters ", ") [.comma] := by
  intro rest
  cases d <;> rfl

theorem closes_and (d : Dialect) : Closes d (letters " AND ") [.word "AND"] := by
  intro rest
  cases d <;> rfl

theorem closes_or (d : Dialect) : Closes d (letters " OR ") [.word "OR"] := by
  intro rest
  cases d <;> rfl

theorem closes_like (d : Dialect) : Closes d (letters (" " ++ "LIKE" ++ " ")) [.word "LIKE"] := by
  intro rest
  cases d <;> rfl

theorem closes_within (d : Dialect) (negated : Bool) :
    Closes d (letters (" " ++ membershipWord negated ++ " ("))
      ((if negated then [.word "NOT"] else []) ++ [.word "IN", .opening]) := by
  intro rest
  cases negated <;> cases d <;> rfl

end EntityStore.Sql
