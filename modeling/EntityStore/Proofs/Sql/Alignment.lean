import EntityStore.Proofs.Sql.Binding

/-!
Parameters and placeholders line up. However a statement is put together and bound, each of its
parameters has a name and a placeholder of its own, the placeholder stands in the statement once,
and it stands where the inline text has the parameter's value.
-/

namespace EntityStore.Sql

/-! ### Placeholders -/

private theorem render_ne {style : Placeholders} {name other : String} {i j : Nat}
    (names : name ≠ other)
    (positions : i ≠ j) : style.render name i ≠ style.render other j := by
  intro same
  cases style with
  | named sign => exact names ((String.append_right_inj _).1 same)
  | positional sign =>
      have digits : decimal i = decimal j := (String.append_right_inj _).1 same
      exact positions (decimal_injective digits)

theorem placeholders_distinct {style : Placeholders} {position : Nat} {params : List BoundParam}
    (distinct : (params.map (·.name)).Nodup) (placed : Placed style position params) :
    (params.map (·.placeholder)).Nodup := by
  induction params generalizing position with
  | nil => exact List.nodup_nil
  | cons p params ih =>
      rw [List.map_cons, List.nodup_cons] at distinct
      obtain ⟨own, others⟩ := distinct
      have first : p.placeholder = style.render p.name position := placed 0 p rfl
      have rest : Placed style (position + 1) params := by
        intro k q found
        rw [placed (k + 1) q found]
        congr 1
        omega
      rw [List.map_cons, List.nodup_cons]
      refine ⟨fun member => ?_, ih others rest⟩
      obtain ⟨q, known, same⟩ := List.mem_map.1 member
      obtain ⟨k, found⟩ := List.getElem?_of_mem known
      have names : q.name ≠ p.name := fun equal =>
        own (List.mem_map.2 ⟨q, known, equal⟩)
      rw [first, rest k q found] at same
      exact render_ne names (by omega) same

/-! ### Tokens of a statement -/

def expand (f : Fragment) (tokens : List (List Token)) : List Token :=
  f.flatMap fun
    | .text s => [.text s]
    | .slot index => tokens[index]?.getD []

private theorem printed_expand (spell : BoundParam → String) (f : Fragment)
    (tokens : List (List Token)) :
    printed spell (expand f tokens) = Template.fill f (tokens.map (printed spell)) := by
  induction f with
  | nil => rfl
  | cons piece rest ih =>
      have first : printed spell (expand (piece :: rest) tokens) =
          printed spell (expand [piece] tokens) ++ printed spell (expand rest tokens) := by
        rw [← printed_append]
        congr 1
        simp [expand]
      rw [first, ih, fill_cons]
      congr 1
      cases piece with
      | text s => exact (printed_cons ..).trans String.append_empty
      | slot index =>
          have alone : expand [.slot index] tokens = tokens[index]?.getD [] := List.append_nil _
          rw [alone, Piece.filled, List.getElem?_map]
          cases tokens[index]? <;> rfl

theorem paramsOf_expand (f : Fragment) (tokens : List (List Token)) :
    paramsOf (expand f tokens) = (slotsOf f).flatMap fun i => paramsOf (tokens[i]?.getD []) := by
  induction f with
  | nil => rfl
  | cons piece rest ih =>
      cases piece with
      | text s =>
          have skipped : slotsOf (.text s :: rest) = slotsOf rest := rfl
          rw [skipped, ← ih]
          rfl
      | slot index =>
          have met : slotsOf (.slot index :: rest) = index :: slotsOf rest := rfl
          have parts : expand (.slot index :: rest) tokens =
              tokens[index]?.getD [] ++ expand rest tokens := rfl
          rw [met, parts, paramsOf_append, ih, List.flatMap_cons]

theorem flatMap_positions (tokens : List (List Token)) :
    (List.range' 0 tokens.length).flatMap (fun i => paramsOf (tokens[i]?.getD [])) =
      (tokens.map paramsOf).flatten := by
  have whole : (List.range' 0 tokens.length).map (fun i => tokens[i]?.getD []) = tokens := by
    refine List.ext_getElem (by simp) fun i inRange inside => ?_
    simp [inside]
  have mapped := List.flatMap_map (List.range' 0 tokens.length)
    (f := fun i => tokens[i]?.getD []) (g := paramsOf)
  rw [whole] at mapped
  rw [← List.flatMap_def, mapped]

private theorem paramsOf_expand_perm {f : Fragment} {tokens : List (List Token)}
    (slots : (slotsOf f).Perm (List.range' 0 tokens.length)) :
    (paramsOf (expand f tokens)).Perm (tokens.map paramsOf).flatten := by
  rw [paramsOf_expand, ← flatMap_positions]
  exact slots.flatMap_right _

private theorem fill_finish {inline : SlotSource → String} {added : List SlotSource} {f : Fragment}
    {t : String} (rendered : Rendered inline [] added f t) (texts : List String) :
    Template.fill (pieces added.length (marked f)) texts = Template.fill f texts := by
  refine fill_pieces_marked (fun piece member => ?_) texts
  cases piece with
  | text s => exact rendered.free s member
  | slot index =>
      have met : index ∈ slotsOf f := List.mem_filterMap.2 ⟨_, member, rfl⟩
      have inRange := rendered.slots.mem_iff.1 met
      rw [List.mem_range'_1] at inRange
      exact Nat.lt_of_lt_of_eq inRange.2 (Nat.zero_add _)

theorem bind_eq (t : Template) (bindings : Bindings) :
    t.bind bindings = (Template.bindSlots t.placeholders bindings 0 1 t.sources).map fun slots =>
      ⟨Template.fill t.pieces (slots.map (·.text)), slots.flatMap (·.params)⟩ := by
  rw [Template.bind]
  cases Template.bindSlots t.placeholders bindings 0 1 t.sources <;> rfl

theorem bind_finish {d : Dialect} {inline : SlotSource → String} {w : Writer Fragment}
    {text : String} (writes : Writes inline w text) (bindings : Bindings) :
    (Writer.finish d w).bind bindings =
      (Template.bindSlots d.placeholders bindings 0 1 (w.run []).2).map fun slots =>
        ⟨Template.fill (w.run []).1 (slots.map (·.text)), slots.flatMap (·.params)⟩ := by
  obtain ⟨f, added, ran, rendered⟩ := writes []
  rw [bind_eq, Writer.finish, ran]
  exact congrArg (Except.map · _) (funext fun slots =>
    congrArg (Statement.mk · _) (fill_finish rendered _))

/-- A bound statement as the fragment that was written, with tokens in the place of its slots. -/
theorem bind_expand {d : Dialect} {bindings : Bindings} {w : Writer Fragment}
    {text : (Value → String) → String}
    (writes : ∀ spell, Writes (Inline.source spell bindings) w (text spell)) {s : Statement}
    (bound : (Writer.finish d w).bind bindings = .ok s) :
    ∃ tokens : List (List Token), tokens.length = (w.run []).2.length
      ∧ printed (·.placeholder) (expand (w.run []).1 tokens) = s.sql
      ∧ (tokens.map paramsOf).flatten = s.params
      ∧ ∀ spell : Value → String,
          printed (fun p => spell p.value) (expand (w.run []).1 tokens) = text spell := by
  rw [bind_finish (writes fun _ => "")] at bound
  cases boundSlots : Template.bindSlots d.placeholders bindings 0 1 (w.run []).2 with
  | error e =>
      rw [boundSlots] at bound
      cases bound
  | ok slots =>
      rw [boundSlots] at bound
      cases bound
      obtain ⟨tokens, texts, params, inline⟩ := bindSlots_standFor boundSlots
      have count := congrArg List.length (inline fun _ => "")
      rw [List.length_map, List.length_map] at count
      refine ⟨tokens, count, ?_, ?_, fun spell => ?_⟩
      · rw [printed_expand, texts]
      · rw [params, ← List.flatMap_def]
      · obtain ⟨f, added, ran, rendered⟩ := writes spell []
        have filled := rendered.filled []
        rw [List.nil_append, List.append_nil] at filled
        rw [printed_expand, inline, ran]
        exact filled

/-- A bound statement as tokens that read as the inline text. -/
theorem bind_tokens {d : Dialect} {bindings : Bindings} {w : Writer Fragment}
    {text : (Value → String) → String}
    (writes : ∀ spell, Writes (Inline.source spell bindings) w (text spell)) {s : Statement}
    (bound : (Writer.finish d w).bind bindings = .ok s) :
    ∃ tokens, printed (·.placeholder) tokens = s.sql
      ∧ (paramsOf tokens).Perm s.params
      ∧ ∀ spell : Value → String, printed (fun p => spell p.value) tokens = text spell := by
  obtain ⟨tokens, count, sql, params, inline⟩ := bind_expand writes bound
  obtain ⟨f, added, ran, rendered⟩ := writes (fun _ => "") []
  have slotsMet := rendered.slots
  rw [ran] at count sql inline
  rw [show added.length = tokens.length from count.symm] at slotsMet
  refine ⟨expand f tokens, sql, ?_, inline⟩
  rw [← params]
  exact paramsOf_expand_perm slotsMet

/-! ### Statements -/

/-- The filter comes from a predicate, resolved on some model from some graph. -/
def WhereGroup.Resolved (g : WhereGroup) : Prop :=
  ∃ schema model p before after, (Resolve.filter schema model p).answer before = (.ok g, after)

namespace Emission

/-- The filter of the statement, if it has one, comes from a predicate. -/
def Resolved : Emission → Prop
  | select _ s | selectIds _ s => ∀ g ∈ s.filter?, WhereGroup.Resolved g
  | count _ _ filter? => ∀ g ∈ filter?, WhereGroup.Resolved g
  | _ => True

theorem settled_of_resolved {e : Emission} (resolved : e.Resolved) : e.Settled := by
  have each {filter? : Option WhereGroup} (origin : ∀ g ∈ filter?, WhereGroup.Resolved g) :
      ConditionSettled filter? := by
    intro g known
    obtain ⟨schema, model, p, before, after, answered⟩ := origin g known
    exact Resolve.filter_settled p answered
  cases e with
  | select m s => exact each resolved
  | selectIds m s => exact each resolved
  | count m joins filter? => exact each resolved
  | _ => exact trivial

theorem bind_sql {d : Dialect} {e : Emission} {bindings : Bindings} {slots : List BoundSlot}
    {s : Statement} (free : AllFree e.words) (settled : e.Settled)
    (boundSlots : Template.bindSlots d.placeholders bindings 0 1 ((e.writer d).run []).2 = .ok slots)
    (bound : (e.template d).bind bindings = .ok s) :
    s.sql = Template.fill ((e.writer d).run []).1 (slots.map (·.text)) := by
  have written := e.writes (fun _ => "") bindings d free settled
  rw [template_eq, bind_finish written, boundSlots] at bound
  cases bound
  rfl

/-- The parameters of a bound statement line up with its placeholders: names and placeholders are
told apart, the positions of positional ones count from one, every parameter stands in the
statement once, where the inline text has its value, and without lists binding does not change the
text. -/
theorem parameters_line_up (d : Dialect) (e : Emission) (bindings : Bindings) (s : Statement)
    (resolved : e.Resolved) (free : AllFree e.words)
    (bound : (e.template d).bind bindings = .ok s) :
    (s.params.map (·.name)).Nodup
      ∧ (s.params.map (·.placeholder)).Nodup
      ∧ (d = .postgres → ∀ k p, s.params[k]? = some p → p.placeholder = "$" ++ decimal (k + 1))
      ∧ (∃ tokens, printed (·.placeholder) tokens = s.sql
          ∧ (paramsOf tokens).Perm s.params
          ∧ ∀ spell : Value → String,
              printed (fun p => spell p.value) tokens = e.inline spell bindings d)
      ∧ ((e.template d).ListFree → s.sql = (e.template d).sql) := by
  have settled := settled_of_resolved resolved
  have written (spell : Value → String) :
      Writes (Inline.source spell bindings) (e.writer d) (e.inline spell bindings d) :=
    e.writes spell bindings d free settled
  have tokens := bind_tokens written (template_eq d e ▸ bound)
  have style : (e.template d).placeholders = d.placeholders := by
    rw [template_eq]
    rfl
  refine ⟨?_, ?_, ?_, tokens, ?_⟩
  all_goals
    obtain ⟨slots, boundSlots, bound⟩ := of_bind_ok bound
    cases bound
    obtain ⟨-, distinct, placed⟩ := bindSlots_numbered boundSlots
  · exact distinct
  · exact placeholders_distinct distinct placed
  · rintro rfl k p found
    rw [placed k p found, style, Nat.add_comm 1]
    rfl
  · intro listFree
    show Template.fill _ _ = _
    rw [bindSlots_texts listFree boundSlots]
    rfl

def books : EntityModel where
  own :=
    { path := "Book"
      table := "books"
      primaryKey := "id"
      columns := [Column.generatedKey "id", { Column.scalar "pages" .int with nullable := true }] }

def shortBooks : Emission :=
  .selectIds books
    { joins := JoinGraph.ofModel books
      filter? := some (.all
        [.leaf ⟨⟨⟨0⟩, "pages"⟩, .lt, .literal (.int 300), some (.int 0), false⟩,
          .leaf ⟨⟨⟨0⟩, "id"⟩, .isIn, .variable "ids", none, false⟩])
      limit? := some 10
      offset? := some 20 }

private theorem shortBooks_resolved : shortBooks.Resolved := by
  intro g known
  cases known
  exact ⟨⟨fun _ => books⟩, books,
    .all [.compare { field := "pages", op := .lt, operand := .literal (.int 300) },
      .compare { field := "id", op := .isIn, operand := .variable "ids" }],
    JoinGraph.ofModel books, JoinGraph.ofModel books, rfl⟩

def shortBooksStatement : Statement where
  sql := "SELECT t0.[id] AS [id] FROM [books] t0 WHERE (COALESCE(t0.[pages], @p0) < @p1 AND "
    ++ "t0.[id] IN (@p2_0, @p2_1)) ORDER BY (SELECT NULL) OFFSET @p4 ROWS FETCH NEXT @p3 ROWS ONLY"
  params := [⟨"p0", "@p0", .int 0⟩, ⟨"p1", "@p1", .int 300⟩, ⟨"p2_0", "@p2_0", .int 4⟩,
    ⟨"p2_1", "@p2_1", .int 9⟩, ⟨"p3", "@p3", .int 10⟩, ⟨"p4", "@p4", .int 20⟩]

set_option maxRecDepth 4000 in
/-- The offset's parameter comes last and is printed before the limit's. -/
theorem parameters_line_up_paged :
    (shortBooks.template .mssql).bind [("ids", .list [.int 4, .int 9])] = .ok shortBooksStatement
      ∧ (shortBooksStatement.params.map (·.placeholder)).Nodup
      ∧ ∃ tokens, printed (·.placeholder) tokens = shortBooksStatement.sql
          ∧ (paramsOf tokens).Perm shortBooksStatement.params
          ∧ ∀ spell : Value → String, printed (fun p => spell p.value) tokens =
              shortBooks.inline spell [("ids", .list [.int 4, .int 9])] .mssql := by
  have bound : (shortBooks.template .mssql).bind [("ids", .list [.int 4, .int 9])] =
      .ok shortBooksStatement := rfl
  have aligned := parameters_line_up .mssql shortBooks [("ids", .list [.int 4, .int 9])]
    shortBooksStatement shortBooks_resolved (by decide) bound
  exact ⟨bound, aligned.2.1, aligned.2.2.2.1⟩

end Emission

end EntityStore.Sql
