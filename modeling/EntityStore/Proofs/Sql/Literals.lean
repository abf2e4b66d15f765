import EntityStore.Proofs.Sql.Alignment

/-!
Statements that end in a list of ids. They have no variables, so they bind without bindings; their
text spells the placeholder of every parameter in a row, and the parameters are the ids.
-/

namespace EntityStore.Sql

/-- The statement ends in a list of ids, each a parameter with a placeholder of its own. -/
structure EndsInIds (opening : String) (ids : List Int64) (s : Statement) : Prop where
  sql : s.sql = opening ++ ", ".intercalate (s.params.map (·.placeholder)) ++ ")"
  values : s.values = ids.map .int
  distinct : (s.params.map (·.placeholder)).Nodup

def slotsFrom (index count : Nat) : List Fragment :=
  (List.range' index count).map fun index => [.slot index]

private theorem run_literals (values : List Value) (before : List SlotSource) :
    (values.mapM Writer.literal).run before =
      (slotsFrom before.length values.length, before ++ values.map .literal) := by
  induction values generalizing before with
  | nil =>
      rw [List.mapM_nil, Writer.run_pure, List.map_nil, List.append_nil]
      rfl
  | cons value rest ih =>
      have asked : (Writer.literal value).run before =
          ([.slot before.length], before ++ [.literal value]) := Writer.run_push (.literal value) before
      rw [List.mapM_cons, Writer.run_bind, asked, Writer.run_bind, ih, Writer.run_pure,
        List.length_append, List.append_assoc]
      rfl

private theorem run_ids (ids : List Int64) :
    (Writer.ids ids).run [] =
      (joined ", " (slotsFrom 0 ids.length), (ids.map Value.int).map .literal) := by
  unfold Writer.ids Writer.literals
  rw [Writer.run_bind, run_literals, Writer.run_pure, List.length_map]
  rfl

private theorem legible_slots {separator : String} (free : MarkFree separator)
    {index count bound : Nat}
    (within : index + count ≤ bound) : Legible bound (joined separator (slotsFrom index count)) := by
  induction count generalizing index with
  | zero =>
      intro piece member
      cases member
  | succ count ih =>
      have later : Legible bound (joined separator (slotsFrom (index + 1) count)) :=
        ih (by omega)
      have first : Piece.Legible bound (.slot index) := by
        show index < bound
        omega
      cases count with
      | zero =>
          intro piece member
          rw [List.mem_singleton.1 member]
          exact first
      | succ count =>
          intro piece member
          rcases List.mem_cons.1 member with rfl | member
          · exact first
          · rcases List.mem_cons.1 member with rfl | member
            · exact free
            · exact later piece member

private theorem fill_slots (separator : String) (before texts : List String) :
    Template.fill (joined separator (slotsFrom before.length texts.length)) (before ++ texts) =
      separator.intercalate texts := by
  induction texts generalizing before with
  | nil => rfl
  | cons t rest ih =>
      have here : Piece.filled (before ++ t :: rest) (.slot before.length) = t := by
        simp [Piece.filled]
      have later := ih (before ++ [t])
      rw [List.append_assoc, List.length_append] at later
      cases rest with
      | nil =>
          show Template.fill [.slot before.length] _ = _
          rw [fill_cons, here, String.intercalate_singleton]
          exact String.append_empty
      | cons u rest =>
          have parts : joined separator (slotsFrom before.length (t :: u :: rest).length) =
              .slot before.length :: .text separator
                :: joined separator (slotsFrom (before.length + 1) (u :: rest).length) := rfl
          rw [parts, fill_cons, fill_cons, here, String.intercalate_cons_cons, ← later,
            String.append_assoc]
          rfl

theorem bindSlots_literals (style : Placeholders) (bindings : Bindings) (index position : Nat)
    (values : List Value) :
    ∃ slots, Template.bindSlots style bindings index position (values.map .literal) = .ok slots
      ∧ slots.map (·.text) = (slots.flatMap (·.params)).map (·.placeholder)
      ∧ (slots.flatMap (·.params)).map (·.value) = values := by
  induction values generalizing index position with
  | nil => exact ⟨[], rfl, rfl, rfl⟩
  | cons value rest ih =>
      obtain ⟨slots, bound, texts, same⟩ := ih (index + 1) (position + 1)
      let param := Template.boundParam style (slotName index) position value
      refine ⟨⟨param.placeholder, [param]⟩ :: slots, ?_, ?_, ?_⟩
      · show (Template.bindSlots style bindings (index + 1) (position + 1) (rest.map .literal)
          >>= fun slots => pure (⟨param.placeholder, [param]⟩ :: slots)) = _
        rw [bound]
        rfl
      · rw [List.flatMap_cons, List.map_append, List.map_cons, texts]
        rfl
      · rw [List.flatMap_cons, List.map_append, same]
        rfl

/-! ### A list of ids after a text -/

section

variable {opening : String} (free : MarkFree opening)

def listAfter (opening : String) (count : Nat) : Fragment :=
  raw opening ++ joined ", " (slotsFrom 0 count) ++ raw ")"

private theorem finish_listAfter (d : Dialect) (opening : String) (ids : List Int64) :
    Writer.finish d (do return raw opening ++ (← Writer.ids ids) ++ raw ")") =
      ⟨d.placeholders, (ids.map Value.int).map .literal,
        pieces ids.length (marked (listAfter opening ids.length))⟩ := by
  unfold Writer.finish
  rw [Writer.run_bind, run_ids, Writer.run_pure]
  simp only [Id.run, List.length_map, listAfter]

include free

private theorem legible_listAfter (count : Nat) : Legible count (listAfter opening count) := by
  intro piece member
  rcases List.mem_append.1 member with member | member
  · rcases List.mem_append.1 member with member | member
    · rw [List.mem_singleton.1 member]
      exact free
    · exact legible_slots (by decide) (Nat.le_of_eq (Nat.zero_add _)) piece member
  · rw [List.mem_singleton.1 member]
    show MarkFree ")"
    decide

private theorem fill_listAfter (texts : List String) :
    Template.fill (listAfter opening texts.length) texts =
      opening ++ ", ".intercalate texts ++ ")" := by
  have opened : Template.fill (raw opening) texts = opening := (plain_raw free).filled texts
  have closed : Template.fill (raw ")") texts = ")" := (plain_raw (by decide)).filled texts
  have listed : Template.fill (joined ", " (slotsFrom 0 texts.length)) texts =
      ", ".intercalate texts := fill_slots ", " [] texts
  rw [listAfter, fill_append, fill_append, opened, closed, listed]

theorem listAfter_binds (d : Dialect) (ids : List Int64) :
    ∃ s, (Writer.finish d do return raw opening ++ (← Writer.ids ids) ++ raw ")").bind [] = .ok s
      ∧ EndsInIds opening ids s := by
  obtain ⟨slots, bound, texts, values⟩ :=
    bindSlots_literals d.placeholders [] 0 1 (ids.map Value.int)
  obtain ⟨-, distinct, placed⟩ := bindSlots_numbered bound
  have count : ids.length = (slots.map (·.text)).length := by
    have lengths := congrArg List.length values
    rw [List.length_map, List.length_map] at lengths
    rw [texts, List.length_map, lengths]
  rw [finish_listAfter, Template.bind, bound]
  refine ⟨_, rfl, ?_, values, placeholders_distinct distinct placed⟩
  show Template.fill _ _ = _
  rw [fill_pieces_marked (legible_listAfter free ids.length), count, fill_listAfter free, texts]

end

/-! ### Commands and look-ups -/

theorem delete_binds (d : Dialect) {table column : String} (tableFree : MarkFree table)
    (columnFree : MarkFree column) (ids : List Int64) :
    ∃ s, (delete d table column ids).bind [] = .ok s
      ∧ EndsInIds ("DELETE FROM " ++ d.quote table ++ " WHERE " ++ d.quote column ++ " IN (") ids s := by
  refine listAfter_binds ?_ d ids
  simp only [markFree_append]
  exact ⟨⟨⟨⟨by decide, markFree_quote d tableFree⟩, by decide⟩, markFree_quote d columnFree⟩,
    by decide⟩

theorem setNull_binds (d : Dialect) {table column : String} (tableFree : MarkFree table)
    (columnFree : MarkFree column) (ids : List Int64) :
    ∃ s, (setNull d table column ids).bind [] = .ok s
      ∧ EndsInIds ("UPDATE " ++ d.quote table ++ " SET " ++ d.quote column ++ " = NULL WHERE "
        ++ d.quote column ++ " IN (") ids s := by
  have quoted := markFree_quote d columnFree
  refine listAfter_binds ?_ d ids
  simp only [markFree_append]
  exact ⟨⟨⟨⟨⟨⟨by decide, markFree_quote d tableFree⟩, by decide⟩, quoted⟩, by decide⟩, quoted⟩,
    by decide⟩

theorem selectWhereIn_binds (d : Dialect) {table key column : String} (tableFree : MarkFree table)
    (keyFree : MarkFree key) (columnFree : MarkFree column) (ids : List Int64) :
    ∃ s, (selectWhereIn d table [key] column ids).bind [] = .ok s
      ∧ EndsInIds ("SELECT " ++ d.quote key ++ " FROM " ++ d.quote table ++ " WHERE "
        ++ d.quote column ++ " IN (") ids s := by
  have single : quotedList d [key] = d.quote key := String.intercalate_singleton
  unfold selectWhereIn
  rw [single]
  refine listAfter_binds ?_ d ids
  simp only [markFree_append]
  exact ⟨⟨⟨⟨⟨⟨by decide, markFree_quote d keyFree⟩, by decide⟩, markFree_quote d tableFree⟩,
    by decide⟩, markFree_quote d columnFree⟩, by decide⟩

end EntityStore.Sql
