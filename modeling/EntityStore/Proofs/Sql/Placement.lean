import EntityStore.Proofs.Sql.Literals
import Mathlib.Data.List.Forall2

/-!
Where placeholders stand. In a statement that has values only, every value is a parameter, and the text
has its placeholder at the place of the value: in the rows of an insert, after the columns that an
update sets, in a list of ids. So the text of a statement together with its parameters says what the
statement is to do, and nothing of it is lost on the way.
-/

namespace EntityStore.Sql

abbrev Saying := List BoundParam → String → Prop

/-- Written after some slots, the fragment asks for those of the values and says this with whatever
parameters stand for them. -/
structure Shows (values : List Value) (tells : Saying) (before added : List SlotSource)
    (f : Fragment) : Prop where
  added : added = values.map .literal
  legible : ∀ bound, before.length + values.length ≤ bound → Legible bound f
  tells : ∀ (earlier : List String) (params : List BoundParam) (later : List String),
    earlier.length = before.length → params.map (·.value) = values →
      tells params (Template.fill f (earlier ++ params.map (·.placeholder) ++ later))

def Saying.followed (first second : Saying) : Saying :=
  fun params text => ∃ ps qs t u, params = ps ++ qs ∧ text = t ++ u ∧ first ps t ∧ second qs u

def Saying.plain (text : String) : Saying :=
  fun params said => params = [] ∧ said = text

def Saying.value (v : Value) : Saying :=
  fun params said => ∃ p : BoundParam, p.value = v ∧ params = [p] ∧ said = p.placeholder

def Saying.joined {α : Type} (separator : String) (tells : α → Saying) (items : List α) : Saying :=
  fun params said => ∃ parts : List (List BoundParam × String),
    params = parts.flatMap (·.1) ∧ said = separator.intercalate (parts.map (·.2))
      ∧ List.Forall₂ (fun item part => tells item part.1 part.2) items parts

section

variable {values more : List Value} {tells others whole : Saying} {before added next : List SlotSource}
  {f g : Fragment}

theorem Shows.imp (shows : Shows values tells before added f)
    (weaker : ∀ params said, tells params said → whole params said) :
    Shows values whole before added f :=
  ⟨shows.added, shows.legible, fun earlier params later place valued =>
    weaker _ _ (shows.tells earlier params later place valued)⟩

theorem shows_raw {text : String} (free : MarkFree text) :
    Shows [] (Saying.plain text) before [] (raw text) := by
  refine ⟨rfl, fun bound _ piece member => ?_, fun earlier params later _ valued => ?_⟩
  · rw [List.mem_singleton.1 member]
    exact free
  · exact ⟨List.map_eq_nil_iff.1 valued, (plain_raw free).filled _⟩

theorem shows_value (v : Value) :
    Shows [v] (Saying.value v) before [.literal v] [.slot before.length] := by
  refine ⟨rfl, fun bound within piece member => ?_, fun earlier params later place valued => ?_⟩
  · rw [List.mem_singleton.1 member]
    show before.length < bound
    simp only [List.length_singleton] at within
    omega
  · obtain ⟨p, rfl, same⟩ := List.map_eq_singleton_iff.1 valued
    refine ⟨p, same, rfl, ?_⟩
    rw [fill_cons, ← place]
    simp [Piece.filled, Template.fill]

theorem Shows.followed (first : Shows values tells before added f)
    (second : Shows more others (before ++ added) next g) :
    Shows (values ++ more) (tells.followed others) before (added ++ next) (f ++ g) := by
  refine ⟨?_, fun bound within => ?_, fun earlier params later place valued => ?_⟩
  · rw [first.added, second.added, List.map_append]
  · have counted : added.length = values.length := by rw [first.added, List.length_map]
    rw [List.length_append] at within
    intro piece member
    rcases List.mem_append.1 member with member | member
    · exact first.legible bound (by omega) piece member
    · refine second.legible bound ?_ piece member
      rw [List.length_append]
      omega
  · obtain ⟨ps, qs, rfl, valued, valued'⟩ := List.map_eq_append_iff.1 valued
    have counted : added.length = ps.length := by
      rw [first.added, List.length_map, ← valued, List.length_map]
    have left := first.tells earlier ps (qs.map (·.placeholder) ++ later) place valued
    have right := second.tells (earlier ++ ps.map (·.placeholder)) qs later
      (by rw [List.length_append, List.length_append, place, counted, List.length_map]) valued'
    refine ⟨ps, qs, _, _, rfl, ?_, left, right⟩
    rw [fill_append, List.map_append]
    simp only [List.append_assoc]

def Saying.closed (tells : Saying) (text : String) : Saying :=
  fun params said => ∃ t, tells params t ∧ said = t ++ text

def Saying.opened (text : String) (tells : Saying) : Saying :=
  fun params said => ∃ t, tells params t ∧ said = text ++ t

theorem Shows.closed {text : String} (free : MarkFree text) (shows : Shows values tells before added f) :
    Shows values (tells.closed text) before added (f ++ raw text) := by
  have both := shows.followed (shows_raw free)
  rw [List.append_nil, List.append_nil] at both
  refine both.imp fun params said => ?_
  rintro ⟨ps, _, t, _, rfl, rfl, first, rfl, rfl⟩
  exact ⟨t, by rwa [List.append_nil], rfl⟩

theorem Shows.opened {text : String} (free : MarkFree text) (shows : Shows values tells before added f) :
    Shows values (Saying.opened text tells) before added (raw text ++ f) := by
  rw [← List.append_nil before] at shows
  have both := (shows_raw free).followed shows
  refine both.imp fun params said => ?_
  rintro ⟨_, qs, _, u, rfl, rfl, ⟨rfl, rfl⟩, second⟩
  exact ⟨u, second, rfl⟩

end

/-- Fragments joined by a separator say what each of them says. -/
theorem shows_joined {α : Type} {separator : String} (free : MarkFree separator)
    {values : α → List Value} {tells : α → Saying} {before added : List SlotSource}
    {fs : List Fragment} {items : List α}
    (each : YieldsEach (fun item => Shows (values item) (tells item)) before added fs items) :
    Shows (items.flatMap values) (Saying.joined separator tells items) before added
      (joined separator fs) := by
  induction each with
  | nil before =>
      refine ⟨rfl, fun bound _ piece member => ?_, fun earlier params later _ valued => ?_⟩
      · cases member
      · exact ⟨[], List.map_eq_nil_iff.1 valued, rfl, .nil⟩
  | cons first rest ih =>
      cases rest with
      | nil =>
          rw [joined, List.intercalate_singleton, List.append_nil, List.flatMap_singleton]
          refine first.imp fun params said single => ⟨[(params, said)], ?_, ?_, ?_⟩
          · exact (List.append_nil params).symm
          · rw [List.map_singleton, String.intercalate_singleton]
          · exact .cons single .nil
      | cons second rest =>
          rw [joined, List.intercalate_cons_cons, List.flatMap_cons]
          refine ((first.closed free).followed ih).imp fun params said => ?_
          rintro ⟨ps, _, _, _, rfl, rfl, ⟨t, single, rfl⟩, ⟨parts, rfl, rfl, each⟩⟩
          refine ⟨(ps, t) :: parts, rfl, ?_, .cons single each⟩
          cases each
          exact String.intercalate_cons_cons.symm

/-! ### Statements -/

theorem binds_values {w : Writer Fragment} {values : List Value} {tells : Saying}
    (yields : Yields w (Shows values tells)) (d : Dialect) :
    ∃ s, (Writer.finish d w).bind [] = .ok s ∧ s.values = values
      ∧ (s.params.map (·.placeholder)).Nodup ∧ tells s.params s.sql := by
  obtain ⟨f, added, ran, shows⟩ := yields []
  obtain ⟨slots, bound, texts, valued⟩ := bindSlots_literals d.placeholders [] 0 1 values
  obtain ⟨-, distinct, placed⟩ := bindSlots_numbered bound
  have finished : Writer.finish d w =
      ⟨d.placeholders, values.map .literal, pieces values.length (marked f)⟩ := by
    unfold Writer.finish
    rw [ran, List.nil_append, shows.added]
    simp only [Id.run, List.length_map]
  have legible : Legible values.length f := by
    refine shows.legible values.length ?_
    exact Nat.le_of_eq (Nat.zero_add _)
  have said := shows.tells [] (slots.flatMap (·.params)) [] rfl valued
  rw [List.nil_append, List.append_nil, ← texts] at said
  rw [finished, Template.bind, bound]
  refine ⟨_, rfl, valued, placeholders_distinct distinct placed, ?_⟩
  show tells _ (Template.fill _ _)
  rw [fill_pieces_marked legible]
  exact said

def placeholderList (params : List BoundParam) : String :=
  ", ".intercalate (params.map (·.placeholder))

def Saying.values (values : List Value) : Saying :=
  fun params said => params.map (·.value) = values ∧ said = placeholderList params

private theorem values_of_joined {values : List Value} {params : List BoundParam} {said : String}
    (each : Saying.joined ", " Saying.value values params said) :
    Saying.values values params said := by
  obtain ⟨parts, rfl, rfl, each⟩ := each
  have both : (parts.flatMap (·.1)).map (·.value) = values
      ∧ parts.map (·.2) = (parts.flatMap (·.1)).map (·.placeholder) := by
    induction each with
    | nil => exact ⟨rfl, rfl⟩
    | cons single rest ih =>
        obtain ⟨p, rfl, params, text⟩ := single
        rw [List.flatMap_cons, List.map_cons, params, text, ih.2]
        exact ⟨congrArg _ ih.1, rfl⟩
  exact ⟨both.1, congrArg _ both.2⟩

theorem yields_values (values : List Value) :
    Yields (Writer.literals values) (Shows values (Saying.values values)) := by
  have each := yields_mapM values fun v _ => yields_push (.literal v) fun before => shows_value v
  refine Yields.arranged each fun each => ?_
  have shows := (shows_joined (by decide) each).imp fun _ _ => values_of_joined
  rw [List.flatMap_singleton'] at shows
  exact shows

def placeholderRow (params : List BoundParam) : String :=
  "(" ++ placeholderList params ++ ")"

private theorem yields_row (values : List Value) :
    Yields (rowFragment values) (Shows values fun params said =>
      params.map (·.value) = values ∧ said = placeholderRow params) := by
  refine Yields.arranged (yields_values values) fun shows => ?_
  refine ((shows.opened (by decide)).closed (by decide)).imp fun params said => ?_
  rintro ⟨_, ⟨t, ⟨valued, rfl⟩, rfl⟩, rfl⟩
  exact ⟨valued, rfl⟩

private theorem rows_of_joined {rows : List (List Value)} {params : List BoundParam} {said : String}
    (each : Saying.joined ", " (fun (row : List Value) params said =>
      params.map (·.value) = row ∧ said = placeholderRow params) rows params said) :
    ∃ groups : List (List BoundParam), params = groups.flatten
      ∧ groups.map (·.map (·.value)) = rows
      ∧ said = ", ".intercalate (groups.map placeholderRow) := by
  obtain ⟨parts, rfl, rfl, each⟩ := each
  have both : (parts.map (·.1)).map (·.map (·.value)) = rows
      ∧ parts.map (·.2) = (parts.map (·.1)).map placeholderRow := by
    induction each with
    | nil => exact ⟨rfl, rfl⟩
    | cons single rest ih =>
        exact ⟨congrArg₂ List.cons single.1 ih.1, congrArg₂ List.cons single.2 ih.2⟩
  exact ⟨parts.map (·.1), List.flatMap_def, both.1, congrArg _ both.2⟩

/-- The statement inserts the rows: after the names of the columns each row has its placeholders. -/
structure InsertsRows (d : Dialect) (table : String) (columns : List String)
    (rows : List (List Value)) (s : Statement) : Prop where
  distinct : (s.params.map (·.placeholder)).Nodup
  text : ∃ groups : List (List BoundParam), s.params = groups.flatten
    ∧ groups.map (·.map (·.value)) = rows
    ∧ s.sql = "INSERT INTO " ++ d.quote table ++ " (" ++ quotedList d columns ++ ") VALUES "
      ++ ", ".intercalate (groups.map placeholderRow)

theorem insert_binds (d : Dialect) {table : String} {columns : List String}
    (tableFree : MarkFree table) (columnsFree : ∀ column ∈ columns, MarkFree column)
    (rows : List (List Value)) :
    ∃ s, (insert d table columns rows).bind [] = .ok s ∧ InsertsRows d table columns rows s := by
  have opening : MarkFree
      ("INSERT INTO " ++ d.quote table ++ " (" ++ quotedList d columns ++ ") VALUES ") := by
    simp only [markFree_append]
    exact ⟨⟨⟨⟨by decide, markFree_quote d tableFree⟩, by decide⟩,
      markFree_quotedList d columnsFree⟩, by decide⟩
  have comma : MarkFree ", " := by decide
  have yields := Yields.arranged (yields_mapM rows fun row _ => yields_row row) fun each =>
    (shows_joined comma each).opened opening
  obtain ⟨s, bound, -, distinct, _, joined, sql⟩ := binds_values yields d
  obtain ⟨groups, params, valued, rfl⟩ := rows_of_joined joined
  exact ⟨s, bound, distinct, groups, params, valued, sql⟩

def placeholderAssignment (d : Dialect) (column : String) (p : BoundParam) : String :=
  d.quote column ++ " = " ++ p.placeholder

private theorem yields_assignment (d : Dialect) (set : String × Value) (free : MarkFree set.1) :
    Yields (assignment d set) (Shows [set.2] fun params said =>
      ∃ p : BoundParam, p.value = set.2 ∧ params = [p] ∧ said = placeholderAssignment d set.1 p) := by
  have opening : MarkFree (d.quote set.1 ++ " = ") :=
    markFree_append.2 ⟨markFree_quote d free, by decide⟩
  have value := yields_push (.literal set.2) fun _ => shows_value set.2
  refine Yields.arranged value fun shows => (shows.opened opening).imp fun params said => ?_
  rintro ⟨_, ⟨p, valued, rfl, rfl⟩, rfl⟩
  exact ⟨p, valued, rfl, rfl⟩

private theorem sets_of_joined {d : Dialect} {set : List (String × Value)} {params : List BoundParam}
    {said : String}
    (each : Saying.joined ", " (fun (c : String × Value) params said => ∃ p : BoundParam,
      p.value = c.2 ∧ params = [p] ∧ said = placeholderAssignment d c.1 p) set params said) :
    params.map (·.value) = set.map (·.2)
      ∧ said = ", ".intercalate (List.zipWith (placeholderAssignment d) (set.map (·.1)) params) := by
  obtain ⟨parts, rfl, rfl, each⟩ := each
  have both : (parts.flatMap (·.1)).map (·.value) = set.map (·.2)
      ∧ parts.map (·.2) =
        List.zipWith (placeholderAssignment d) (set.map (·.1)) (parts.flatMap (·.1)) := by
    induction each with
    | nil => exact ⟨rfl, rfl⟩
    | cons single rest ih =>
        obtain ⟨p, valued, params, text⟩ := single
        rw [List.flatMap_cons, params]
        exact ⟨congrArg₂ List.cons valued ih.1, congrArg₂ List.cons text ih.2⟩
  exact ⟨both.1, congrArg _ both.2⟩

/-- The statement sets columns of the rows whose key is one of the ids: each column has the placeholder
of its value, and those of the ids are listed. -/
structure UpdatesRows (d : Dialect) (table : String) (set : List (String × Value)) (key : String)
    (ids : List Int64) (s : Statement) : Prop where
  distinct : (s.params.map (·.placeholder)).Nodup
  text : ∃ sets keys : List BoundParam, s.params = sets ++ keys
    ∧ sets.map (·.value) = set.map (·.2) ∧ keys.map (·.value) = ids.map .int
    ∧ s.sql = "UPDATE " ++ d.quote table ++ " SET "
      ++ ", ".intercalate (List.zipWith (placeholderAssignment d) (set.map (·.1)) sets)
      ++ (" WHERE " ++ d.quote key ++ " IN (") ++ placeholderList keys ++ ")"

theorem update_binds (d : Dialect) {table key : String} {set : List (String × Value)}
    (tableFree : MarkFree table) (keyFree : MarkFree key) (setFree : ∀ c ∈ set, MarkFree c.1)
    (ids : List Int64) :
    ∃ s, (update d table set key ids).bind [] = .ok s ∧ UpdatesRows d table set key ids s := by
  have opening : MarkFree ("UPDATE " ++ d.quote table ++ " SET ") := by
    simp only [markFree_append]
    exact ⟨⟨by decide, markFree_quote d tableFree⟩, by decide⟩
  have middle : MarkFree (" WHERE " ++ d.quote key ++ " IN (") := by
    simp only [markFree_append]
    exact ⟨⟨by decide, markFree_quote d keyFree⟩, by decide⟩
  have comma : MarkFree ", " := by decide
  have closing : MarkFree ")" := by decide
  have sets := yields_mapM set fun c member => yields_assignment d c (setFree c member)
  have yields := Yields.both sets (yields_values (ids.map .int)) fun each keys =>
    ((((shows_joined comma each).opened opening).closed middle).followed keys).closed closing
  obtain ⟨s, bound, -, distinct, said⟩ := binds_values yields d
  obtain ⟨_, ⟨ps, qs, _, _, params, rfl, ⟨_, ⟨_, joined, rfl⟩, rfl⟩, valued, rfl⟩, sql⟩ := said
  obtain ⟨assigned, rfl⟩ := sets_of_joined joined
  exact ⟨s, bound, distinct, ps, qs, params, assigned, valued, sql⟩

theorem lookUp_binds (d : Dialect) {table column : String} {columns : List String}
    (tableFree : MarkFree table) (columnsFree : ∀ column ∈ columns, MarkFree column)
    (columnFree : MarkFree column) (ids : List Int64) :
    ∃ s, (selectWhereIn d table columns column ids).bind [] = .ok s
      ∧ EndsInIds ("SELECT " ++ quotedList d columns ++ " FROM " ++ d.quote table ++ " WHERE "
        ++ d.quote column ++ " IN (") ids s := by
  refine listAfter_binds ?_ d ids
  simp only [markFree_append]
  exact ⟨⟨⟨⟨⟨⟨by decide, markFree_quotedList d columnsFree⟩, by decide⟩, markFree_quote d tableFree⟩,
    by decide⟩, markFree_quote d columnFree⟩, by decide⟩

end EntityStore.Sql
