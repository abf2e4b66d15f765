import EntityStore.Proofs.Sql.Lexemes
import EntityStore.Proofs.Sql.Scope

/-!
The grammar of conditions. An atom compares a term, matches it with a pattern, looks for it in a list
or asks whether it is missing; NOT binds tighter than AND, AND tighter than OR, and parentheses bind
tightest. Each rule says which lexemes make up which tree. Main statement: no lexemes make up two
trees, so a text that can be read can be read in one way only.
-/

namespace EntityStore.Sql.Grammar

inductive Term
  | column (c : ColumnRef)
  | lower (t : Term)
  | coalesce (t u : Term)
  | parameter (s : SlotSource)
  | fragment (sql : String)

inductive Test
  | compare (sign : String) (right : Term)
  | like (right : Term) (escape : String)
  | member (negated : Bool) (items : List Term)
  | null (negated : Bool)

inductive Condition
  | const (value : Bool)
  | test (t : Term) (test : Test)
  | listed (negated : Bool) (t : Term) (name : String)
  | not (part : Condition)
  | all (parts : List Condition)
  | any (parts : List Condition)

def grouped {α : Type} (make : List α → α) : List α → α
  | [single] => single
  | parts => make parts

/-! ### Rules -/

def isSingle : SlotSource → Bool
  | .list .. => false
  | _ => true

section

variable (d : Dialect) (sources : List SlotSource)

inductive ReadsTerm : List Lexeme → Term → Prop
  | column (c : ColumnRef) :
      ReadsTerm [.word c.tableAlias.text, .dot, .name c.column] (.column c)
  | lower {ls : List Lexeme} {t : Term} (inner : ReadsTerm ls t) :
      ReadsTerm (.word "LOWER" :: .opening :: (ls ++ [.closing])) (.lower t)
  | coalesce {ls ms : List Lexeme} {t u : Term} (first : ReadsTerm ls t) (second : ReadsTerm ms u) :
      ReadsTerm (.word "COALESCE" :: .opening :: (ls ++ .comma :: (ms ++ [.closing])))
        (.coalesce t u)
  | parameter {index : Nat} {s : SlotSource} (source : sources[index]? = some s)
      (single : isSingle s = true) : ReadsTerm [.slot index] (.parameter s)
  | fragment (sql : String) : ReadsTerm [.fragment sql] (.fragment sql)

/-- Terms with commas between them. -/
inductive ReadsTerms : List Lexeme → List Term → Prop
  | last {ls : List Lexeme} {t : Term} (term : ReadsTerm sources ls t) : ReadsTerms ls [t]
  | next {ls ms : List Lexeme} {t : Term} {ts : List Term} (term : ReadsTerm sources ls t)
      (rest : ReadsTerms ms ts) : ReadsTerms (ls ++ .comma :: ms) (t :: ts)

def comparisonSigns : List String :=
  ["=", "<>", "<", "<=", ">", ">="]

def negation (negated : Bool) : List Lexeme :=
  if negated then [.word "NOT"] else []

inductive ReadsTest : List Lexeme → Test → Prop
  | compare {sign : String} {ls : List Lexeme} {t : Term} (known : sign ∈ comparisonSigns)
      (right : ReadsTerm sources ls t) : ReadsTest (.sign sign :: ls) (.compare sign t)
  | like {ls : List Lexeme} {t : Term} (right : ReadsTerm sources ls t) (escape : String) :
      ReadsTest (.word "LIKE" :: (ls ++ [.word "ESCAPE", .quoted escape])) (.like t escape)
  | member {ls : List Lexeme} {ts : List Term} (negated : Bool) (items : ReadsTerms sources ls ts) :
      ReadsTest (negation negated ++ .word "IN" :: .opening :: (ls ++ [.closing]))
        (.member negated ts)
  | null (negated : Bool) :
      ReadsTest (.word "IS" :: (negation negated ++ [.word "NULL"])) (.null negated)

def bit (value : Bool) : String :=
  if value then "1" else "0"

inductive ReadsAtom : List Lexeme → Condition → Prop
  | const (value : Bool) :
      ReadsAtom [.word "1", .sign "=", .word (bit value)] (.const value)
  | test {ls ms : List Lexeme} {t : Term} {test : Test} (left : ReadsTerm sources ls t)
      (right : ReadsTest sources ms test) : ReadsAtom (ls ++ ms) (.test t test)
  | listed {index : Nat} {name column : String} {negated : Bool} {t : Term}
      (source : sources[index]? = some (.list name column negated))
      (left : ReadsTerm sources (Lexeme.scan d (letters column)) t) :
      ReadsAtom [.slot index] (.listed negated t name)

inductive Binding
  | tight
  | conjunction
  | disjunction

/-- The lexemes make up the parts: one part if they are bound tightly, else those of a conjunction or
a disjunction. -/
inductive Reads : Binding → List Lexeme → List Condition → Prop
  | atom {ls : List Lexeme} {c : Condition} (atom : ReadsAtom d sources ls c) : Reads .tight ls [c]
  | not {ls : List Lexeme} {c : Condition} (inner : Reads .tight ls [c]) :
      Reads .tight (.word "NOT" :: ls) [.not c]
  | parentheses {ls : List Lexeme} {cs : List Condition} (inner : Reads .disjunction ls cs) :
      Reads .tight (.opening :: (ls ++ [.closing])) [grouped .any cs]
  | lastOfAll {ls : List Lexeme} {cs : List Condition} (part : Reads .tight ls cs) :
      Reads .conjunction ls cs
  | nextOfAll {ls ms : List Lexeme} {c : Condition} {cs : List Condition}
      (part : Reads .tight ls [c]) (rest : Reads .conjunction ms cs) :
      Reads .conjunction (ls ++ .word "AND" :: ms) (c :: cs)
  | lastOfAny {ls : List Lexeme} {cs : List Condition} (part : Reads .conjunction ls cs) :
      Reads .disjunction ls [grouped .all cs]
  | nextOfAny {ls ms : List Lexeme} {cs ds : List Condition} (part : Reads .conjunction ls cs)
      (rest : Reads .disjunction ms ds) :
      Reads .disjunction (ls ++ .word "OR" :: ms) (grouped .all cs :: ds)

/-- The text is a condition of this form. -/
def ReadsAs (text : List Symbol) (c : Condition) : Prop :=
  ∃ cs, Reads d sources .disjunction (Lexeme.scan d text) cs ∧ grouped .any cs = c

end

/-! ### One reading only -/

section

variable {d : Dialect} {sources : List SlotSource}

/-- Terms end by themselves: of two that begin the same lexemes neither goes on. -/
theorem ReadsTerm.unique {ls ms rest rest' : List Lexeme} {t u : Term}
    (first : ReadsTerm sources ls t) (second : ReadsTerm sources ms u)
    (same : ls ++ rest = ms ++ rest') : ls = ms ∧ t = u := by
  induction first generalizing ms rest rest' u with
  | column c =>
      cases second with
      | column c' =>
          simp only [List.cons_append, List.nil_append, List.cons.injEq, Lexeme.word.injEq,
            Lexeme.name.injEq, true_and] at same
          obtain ⟨number_same, name, -⟩ := same
          obtain ⟨number, column⟩ := c
          obtain ⟨number', column'⟩ := c'
          cases Clauses.text_injective number_same
          cases name
          exact ⟨rfl, rfl⟩
      | _ => simp at same
  | lower inner ih =>
      cases second with
      | lower inner' =>
          simp only [List.cons_append, List.append_assoc, List.cons.injEq, true_and] at same
          obtain ⟨rfl, rfl⟩ := ih inner' same
          exact ⟨rfl, rfl⟩
      | _ => simp at same
  | coalesce firstTerm secondTerm ihFirst ihSecond =>
      cases second with
      | coalesce firstTerm' secondTerm' =>
          simp only [List.cons_append, List.append_assoc, List.cons.injEq, true_and] at same
          obtain ⟨rfl, rfl⟩ := ihFirst firstTerm' same
          simp only [List.append_cancel_left_eq, List.cons.injEq, true_and] at same
          obtain ⟨rfl, rfl⟩ := ihSecond secondTerm' same
          exact ⟨rfl, rfl⟩
      | _ => simp at same
  | parameter source single =>
      cases second with
      | parameter source' single' =>
          simp only [List.cons_append, List.nil_append, List.cons.injEq, Lexeme.slot.injEq] at same
          obtain ⟨rfl, -⟩ := same
          cases source.symm.trans source'
          exact ⟨rfl, rfl⟩
      | _ => simp at same
  | fragment sql =>
      cases second with
      | fragment sql' =>
          simp only [List.cons_append, List.nil_append, List.cons.injEq,
            Lexeme.fragment.injEq] at same
          obtain ⟨rfl, -⟩ := same
          exact ⟨rfl, rfl⟩
      | _ => simp at same

private theorem ReadsTerm.same {ls : List Lexeme} {t u : Term} (first : ReadsTerm sources ls t)
    (second : ReadsTerm sources ls u) : t = u := by
  have whole : ls ++ [] = ls ++ [] := rfl
  exact (first.unique second whole).2

private theorem ReadsTerms.unique {ls ms rest rest' : List Lexeme} {ts us : List Term}
    (first : ReadsTerms sources ls ts) (second : ReadsTerms sources ms us)
    (ends : rest.head? ≠ some .comma) (ends' : rest'.head? ≠ some .comma)
    (same : ls ++ rest = ms ++ rest') : ls = ms ∧ ts = us := by
  induction first generalizing ms us with
  | last term =>
      cases second with
      | last term' =>
          obtain ⟨rfl, rfl⟩ := term.unique term' same
          exact ⟨rfl, rfl⟩
      | next term' more =>
          rw [List.append_assoc] at same
          obtain ⟨rfl, rfl⟩ := term.unique term' same
          rw [List.append_cancel_left_eq] at same
          subst same
          exact absurd rfl ends
  | next term more ih =>
      rw [List.append_assoc] at same
      cases second with
      | last term' =>
          obtain ⟨rfl, rfl⟩ := term.unique term' same
          rw [List.append_cancel_left_eq] at same
          subst same
          exact absurd rfl ends'
      | next term' more' =>
          rw [List.append_assoc] at same
          obtain ⟨rfl, rfl⟩ := term.unique term' same
          simp only [List.append_cancel_left_eq, List.cons_append, List.cons.injEq,
            true_and] at same
          obtain ⟨rfl, rfl⟩ := ih more' same
          exact ⟨rfl, rfl⟩

private theorem ReadsTest.unique {ls ms rest rest' : List Lexeme} {f g : Test}
    (first : ReadsTest sources ls f) (second : ReadsTest sources ms g)
    (same : ls ++ rest = ms ++ rest') : ls = ms ∧ f = g := by
  cases first with
  | compare known right =>
      cases second with
      | compare known' right' =>
          simp only [List.cons_append, List.cons.injEq, Lexeme.sign.injEq] at same
          obtain ⟨rfl, same⟩ := same
          obtain ⟨rfl, rfl⟩ := right.unique right' same
          exact ⟨rfl, rfl⟩
      | like right' escape' => simp at same
      | member negated' items' => cases negated' <;> simp [negation] at same
      | null negated' => simp at same
  | like right escape =>
      cases second with
      | like right' escape' =>
          simp only [List.cons_append, List.append_assoc, List.cons.injEq, true_and] at same
          obtain ⟨rfl, rfl⟩ := right.unique right' same
          simp only [List.append_cancel_left_eq, List.cons.injEq, Lexeme.quoted.injEq,
            true_and] at same
          obtain ⟨rfl, -⟩ := same
          exact ⟨rfl, rfl⟩
      | compare known' right' => simp at same
      | member negated' items' => cases negated' <;> simp [negation] at same
      | null negated' => simp at same
  | member negated items =>
      cases second with
      | member negated' items' =>
          have equal : negated = negated' := by
            cases negated <;> cases negated' <;> simp [negation] at same ⊢
          subst equal
          simp only [List.append_assoc, List.cons_append, List.append_cancel_left_eq,
            List.cons.injEq, true_and] at same
          obtain ⟨rfl, rfl⟩ := items.unique items' (by simp) (by simp) same
          exact ⟨rfl, rfl⟩
      | compare known' right' => cases negated <;> simp [negation] at same
      | like right' escape' => cases negated <;> simp [negation] at same
      | null negated' => cases negated <;> simp [negation] at same
  | null negated =>
      cases second with
      | null negated' =>
          have equal : negated = negated' := by
            cases negated <;> cases negated' <;> simp [negation] at same ⊢
          subst equal
          exact ⟨rfl, rfl⟩
      | compare known' right' => simp at same
      | like right' escape' => simp at same
      | member negated' items' => cases negated' <;> simp [negation] at same

/-- What an atom begins with: no parenthesis and no negation, and a sign after the first word is
found in a constant only. -/
theorem ReadsTerm.begins {ls : List Lexeme} {t : Term} (reads : ReadsTerm sources ls t) :
    ∃ l more, ls = l :: more ∧ l ≠ .opening ∧ l ≠ .word "NOT"
      ∧ ∀ s, l = .word s → more.head? = some .dot ∨ more.head? = some .opening := by
  cases reads with
  | column c =>
      refine ⟨_, _, rfl, by simp, ?_, fun s _ => Or.inl rfl⟩
      intro same
      have text := congrArg String.toList (Lexeme.word.inj same)
      rw [TableAlias.text, String.toList_append] at text
      exact absurd (List.cons.inj text).1 (by decide)
  | lower inner => exact ⟨_, _, rfl, by simp, by simp, fun s _ => Or.inr rfl⟩
  | coalesce first second => exact ⟨_, _, rfl, by simp, by simp, fun s _ => Or.inr rfl⟩
  | parameter source single => exact ⟨_, _, rfl, by simp, by simp, fun s same => by cases same⟩
  | fragment sql => exact ⟨_, _, rfl, by simp, by simp, fun s same => by cases same⟩

private theorem ReadsAtom.begins {ls : List Lexeme} {c : Condition}
    (reads : ReadsAtom d sources ls c) :
    ∃ l more, ls = l :: more ∧ l ≠ .opening ∧ l ≠ .word "NOT" := by
  cases reads with
  | const value => exact ⟨_, _, rfl, by simp, by simp⟩
  | test left right =>
      obtain ⟨l, more, rfl, first, second, -⟩ := left.begins
      exact ⟨l, _, rfl, first, second⟩
  | listed source left => exact ⟨_, _, rfl, by simp, by simp⟩

private theorem ReadsTerm.not_const {ls rest rest' : List Lexeme} {t : Term} {s : String}
    (reads : ReadsTerm sources ls t) (same : ls ++ rest = .word s :: .sign "=" :: rest') : False := by
  obtain ⟨l, more, rfl, -, -, after⟩ := reads.begins
  simp only [List.cons_append, List.cons.injEq] at same
  obtain ⟨rfl, same⟩ := same
  rcases after s rfl with next | next <;>
    · obtain ⟨others, rfl⟩ : ∃ others, more = _ :: others := List.head?_eq_some_iff.1 next
      simp at same

private theorem ReadsTerm.not_listed {ls rest rest' : List Lexeme} {t : Term} {index : Nat}
    {name column : String} {negated : Bool} (reads : ReadsTerm sources ls t)
    (source : sources[index]? = some (.list name column negated))
    (same : ls ++ rest = .slot index :: rest') : False := by
  cases reads with
  | parameter source' single =>
      simp only [List.cons_append, List.nil_append, List.cons.injEq, Lexeme.slot.injEq] at same
      obtain ⟨rfl, -⟩ := same
      cases source.symm.trans source'
      cases single
  | _ => simp at same

private theorem ReadsAtom.unique {ls ms rest rest' : List Lexeme} {c e : Condition}
    (first : ReadsAtom d sources ls c) (second : ReadsAtom d sources ms e)
    (same : ls ++ rest = ms ++ rest') : ls = ms ∧ c = e := by
  cases first with
  | const value =>
      cases second with
      | const value' =>
          have equal : value = value' := by
            cases value <;> cases value' <;> simp [bit] at same ⊢
          subst equal
          exact ⟨rfl, rfl⟩
      | test left' right' =>
          rw [List.append_assoc] at same
          exact (left'.not_const same.symm).elim
      | listed source' left' => simp at same
  | test left right =>
      rw [List.append_assoc] at same
      cases second with
      | const value' => exact (left.not_const same).elim
      | test left' right' =>
          rw [List.append_assoc] at same
          obtain ⟨rfl, rfl⟩ := left.unique left' same
          rw [List.append_cancel_left_eq] at same
          obtain ⟨rfl, rfl⟩ := right.unique right' same
          exact ⟨rfl, rfl⟩
      | listed source' left' => exact (left.not_listed source' same).elim
  | listed source left =>
      cases second with
      | const value' => simp at same
      | test left' right' =>
          rw [List.append_assoc] at same
          exact (left'.not_listed source same.symm).elim
      | listed source' left' =>
          simp only [List.cons_append, List.nil_append, List.cons.injEq, Lexeme.slot.injEq] at same
          obtain ⟨rfl, -⟩ := same
          cases source.symm.trans source'
          cases left.same left'
          exact ⟨rfl, rfl⟩

def Binding.Stops : Binding → List Lexeme → Prop
  | tight, _ => True
  | conjunction, rest => rest.head? ≠ some (.word "AND")
  | disjunction, rest => rest.head? ≠ some (.word "AND") ∧ rest.head? ≠ some (.word "OR")

/-- Of two readings of the same lexemes, up to where both have to stop, neither goes on, and they give
the same parts. -/
theorem Reads.unique {b : Binding} {ls : List Lexeme} {cs : List Condition}
    (first : Reads d sources b ls cs) :
    ∀ {ms rest rest' : List Lexeme} {es : List Condition}, Reads d sources b ms es →
      b.Stops rest → b.Stops rest' → ls ++ rest = ms ++ rest' → ls = ms ∧ cs = es := by
  have plain : Binding.Stops .tight [] := trivial
  induction first with
  | atom atom =>
      intro ms rest rest' es second _ _ same
      cases second with
      | atom atom' =>
          obtain ⟨rfl, rfl⟩ := atom.unique atom' same
          exact ⟨rfl, rfl⟩
      | not inner' =>
          obtain ⟨l, more, rfl, -, other⟩ := atom.begins
          exact absurd (List.cons.inj same).1 other
      | parentheses inner' =>
          obtain ⟨l, more, rfl, other, -⟩ := atom.begins
          exact absurd (List.cons.inj same).1 other
  | not inner ih =>
      intro ms rest rest' es second _ _ same
      cases second with
      | atom atom' =>
          obtain ⟨l, more, rfl, -, other⟩ := atom'.begins
          exact absurd (List.cons.inj same).1.symm other
      | not inner' =>
          obtain ⟨rfl, equal⟩ := ih inner' trivial trivial (List.cons.inj same).2
          cases equal
          exact ⟨rfl, rfl⟩
      | parentheses inner' => simp at same
  | parentheses inner ih =>
      intro ms rest rest' es second _ _ same
      cases second with
      | atom atom' =>
          obtain ⟨l, more, rfl, other, -⟩ := atom'.begins
          exact absurd (List.cons.inj same).1.symm other
      | not inner' => simp at same
      | parentheses inner' =>
          simp only [List.cons_append, List.append_assoc, List.cons.injEq, true_and] at same
          obtain ⟨rfl, rfl⟩ := ih inner' (by simp [Binding.Stops]) (by simp [Binding.Stops]) same
          exact ⟨rfl, rfl⟩
  | lastOfAll part ih =>
      intro ms rest rest' es second stops _ same
      cases second with
      | lastOfAll part' => exact ih part' trivial trivial same
      | nextOfAll part' more =>
          rw [List.append_assoc] at same
          obtain ⟨rfl, -⟩ := ih part' trivial trivial same
          rw [List.append_cancel_left_eq] at same
          subst same
          exact absurd rfl stops
  | nextOfAll part more ihPart ihRest =>
      intro ms rest rest' es second stops stops' same
      rw [List.append_assoc] at same
      cases second with
      | lastOfAll part' =>
          obtain ⟨rfl, -⟩ := ihPart part' trivial trivial same
          rw [List.append_cancel_left_eq] at same
          subst same
          exact absurd rfl stops'
      | nextOfAll part' more' =>
          rw [List.append_assoc] at same
          obtain ⟨rfl, equal⟩ := ihPart part' trivial trivial same
          cases equal
          simp only [List.append_cancel_left_eq, List.cons_append, List.cons.injEq,
            true_and] at same
          obtain ⟨rfl, rfl⟩ := ihRest more' stops stops' same
          exact ⟨rfl, rfl⟩
  | lastOfAny part ih =>
      intro ms rest rest' es second stops stops' same
      cases second with
      | lastOfAny part' =>
          obtain ⟨rfl, rfl⟩ := ih part' stops.1 stops'.1 same
          exact ⟨rfl, rfl⟩
      | nextOfAny part' more =>
          rw [List.append_assoc] at same
          obtain ⟨rfl, -⟩ := ih part' stops.1 (by simp [Binding.Stops]) same
          rw [List.append_cancel_left_eq] at same
          subst same
          exact absurd rfl stops.2
  | nextOfAny part more ihPart ihRest =>
      intro ms rest rest' es second stops stops' same
      rw [List.append_assoc] at same
      cases second with
      | lastOfAny part' =>
          obtain ⟨rfl, -⟩ := ihPart part' (by simp [Binding.Stops]) stops'.1 same
          rw [List.append_cancel_left_eq] at same
          subst same
          exact absurd rfl stops'.2
      | nextOfAny part' more' =>
          rw [List.append_assoc] at same
          obtain ⟨rfl, rfl⟩ :=
            ihPart part' (by simp [Binding.Stops]) (by simp [Binding.Stops]) same
          simp only [List.append_cancel_left_eq, List.cons_append, List.cons.injEq,
            true_and] at same
          obtain ⟨rfl, rfl⟩ := ihRest more' stops stops' same
          exact ⟨rfl, rfl⟩

theorem ReadsAs.unique {text : List Symbol} {c e : Condition} (first : ReadsAs d sources text c)
    (second : ReadsAs d sources text e) : c = e := by
  obtain ⟨cs, reads, rfl⟩ := first
  obtain ⟨es, reads', rfl⟩ := second
  have ends : Binding.Stops .disjunction [] := ⟨by simp, by simp⟩
  obtain ⟨-, rfl⟩ := reads.unique reads' ends ends rfl
  rfl

end

end EntityStore.Sql.Grammar
