import EntityStore.Builder.Delete
import EntityStore.Proofs.Engine.Run
import EntityStore.Proofs.Removal.Tables
import EntityStore.Proofs.Sql.Literals

/-!
Databases that do what removal asks of them. Such a database holds tables, and a statement that
removes rows, empties a column or reads keys does to its tables what it says, and nothing else. On
such a database a computation of the engine comes down to the commands it makes.
-/

namespace EntityStore

variable {σ ε α β : Type}

/-- The provider keeps tables, and statements about the columns that they have do to them what
their text says: no more rows go, and no other columns are emptied. -/
structure Interprets (p : Provider σ) (view : σ → Tables) (has : String → String → Prop) :
    Prop where
  executes : ∀ (c : Tables.Command) (s : Sql.Statement) (w : σ), has c.table c.column →
    Sql.EndsInIds (c.opening p.dialect) c.ids s →
    ∃ after, p.execute s w = (.ok ((view w).touched c), after) ∧ view after = (view w).apply c
  selects : ∀ (table key column : String) (ids : List Int64) (s : Sql.Statement) (w : σ),
    has table key → has table column →
    Sql.EndsInIds (Tables.lookUpOpening p.dialect table key column) ids s →
    ∃ after, p.query s w =
        (.ok (((view w).selected table column ids).map fun r => ⟨[(key, r key)]⟩), after)
      ∧ view after = view w

structure Obeys (p : Provider σ) (view : σ → Tables) (has : String → String → Prop) : Prop where
  executes : ∀ c : Tables.Command, has c.table c.column →
    ∃ s, (c.template p.dialect).bind [] = .ok s ∧ ∀ w, ∃ after,
      p.execute s w = (.ok ((view w).touched c), after) ∧ view after = (view w).apply c
  selects : ∀ (table key column : String) (ids : List Int64), has table key → has table column →
    ∃ s, (Sql.selectWhereIn p.dialect table [key] column ids).bind [] = .ok s ∧ ∀ w, ∃ after,
      p.query s w =
          (.ok (((view w).selected table column ids).map fun r => ⟨[(key, r key)]⟩), after)
        ∧ view after = view w

/-- Commands reach the provider as the statements that say so, as long as names bring no marks. -/
theorem Interprets.obeys {p : Provider σ} {view : σ → Tables} {has : String → String → Prop}
    (interprets : Interprets p view has)
    (free : ∀ table column, has table column → Sql.MarkFree table ∧ Sql.MarkFree column) :
    Obeys p view has where
  executes c known := by
    obtain ⟨tableFree, columnFree⟩ := free c.table c.column known
    cases c with
    | delete table column ids =>
        obtain ⟨s, bound, ends⟩ := Sql.delete_binds p.dialect tableFree columnFree ids
        exact ⟨s, bound, fun w => interprets.executes (.delete table column ids) s w known ends⟩
    | setNull table column ids =>
        obtain ⟨s, bound, ends⟩ := Sql.setNull_binds p.dialect tableFree columnFree ids
        exact ⟨s, bound, fun w => interprets.executes (.setNull table column ids) s w known ends⟩
  selects table key column ids hasKey hasColumn := by
    obtain ⟨s, bound, ends⟩ := Sql.selectWhereIn_binds p.dialect (free _ _ hasKey).1
      (free _ _ hasKey).2 (free _ _ hasColumn).2 ids
    exact ⟨s, bound, fun w => interprets.selects table key column ids s w hasKey hasColumn ends⟩

/-! ### Runs on tables -/

def Runs (view : σ → Tables) (x : Attempt σ ε α) (D : Tables) (made : List Tables.Command)
    (a : α) : Prop :=
  ∀ s, view s.outside = D →
    ∃ after, x.run.run s = (.ok a, after) ∧ view after.outside = D.run made

section

variable {view : σ → Tables} {D : Tables} {made more : List Tables.Command}

theorem runs_pure (a : α) : Runs view (pure a : Attempt σ ε α) D [] a := by
  intro s here
  exact ⟨s, rfl, here⟩

theorem Runs.bind {x : Attempt σ ε α} {next : α → Attempt σ ε β} {a : α} {b : β}
    (first : Runs view x D made a) (second : Runs view (next a) (D.run made) more b) :
    Runs view (x >>= next) D (made ++ more) b := by
  intro s here
  obtain ⟨middle, ran, there⟩ := first s here
  obtain ⟨after, ranNext, reached⟩ := second middle there
  refine ⟨after, ?_, ?_⟩
  · rw [Attempt.run_bind_ok ran, ranNext]
  · rw [reached, Tables.run_append]

theorem Runs.after {x : Attempt σ ε α} {next : α → Attempt σ ε β} {a : α} {b : β}
    (first : Runs view x D [] a) (second : Runs view (next a) D made b) :
    Runs view (x >>= next) D made b :=
  Runs.bind first second

theorem Runs.returning {x : Attempt σ ε α} {a : α} (next : α → β) (first : Runs view x D made a) :
    Runs view (x >>= fun a => pure (next a)) D made (next a) := by
  have whole : Runs view (x >>= fun a => pure (next a)) D (made ++ []) (next a) :=
    Runs.bind first (runs_pure (next a))
  rwa [List.append_nil] at whole

private theorem runs_ofExcept {r : Except EngineError α} {a : α} (succeeds : r = .ok a) :
    Runs view (Attempt.ofExcept r : Attempt σ ε α) D [] a := by
  subst succeeds
  exact runs_pure a

/-! ### Statements -/

variable {env : Setting σ} {i : StorageId}

theorem runs_bound {t : Sql.Template} {bindings : Sql.Bindings} {s : Sql.Statement}
    (bound : t.bind bindings = .ok s) :
    Runs view (Storage.bound t bindings : Attempt σ ε _) D [] s := by
  unfold Storage.bound
  rw [bound]
  exact runs_pure s

theorem runs_traceStatement (s : Sql.Statement) :
    Runs view (Storage.traceStatement env i s : Attempt σ ε Unit) D [] () := by
  unfold Storage.traceStatement
  split
  · intro before here
    exact ⟨_, rfl, here⟩
  · exact runs_pure ()

theorem runs_call {event : Bool → Event} {answer : Answer σ α} {a : α}
    (answers : ∀ w, view w = D → ∃ after, answer w = (.ok a, after) ∧ view after = D.run made) :
    Runs view (Storage.answered (Engine.call event answer) : Attempt σ ε α) D made a := by
  intro s here
  obtain ⟨after, answered, reached⟩ := answers s.outside here
  refine ⟨s.called event answer, ?_, ?_⟩
  · rw [Storage.answered, Attempt.run_bind_ok (Attempt.run_lift _ s), Engine.run_call, answered]
    rfl
  · rw [State.called, answered]
    exact reached

variable {has : String → String → Prop}

theorem runs_command (obeys : Obeys (env.provider i) view has) (c : Tables.Command)
    (known : has c.table c.column) :
    Runs view (Storage.executeTemplate env i (c.template (Storage.dialect env i)) :
      Attempt σ ε Nat) D [c] (D.touched c) := by
  obtain ⟨s, bound, executes⟩ := obeys.executes c known
  refine Runs.after (runs_bound bound) (Runs.after (runs_traceStatement s) (runs_call ?_))
  intro w here
  subst here
  exact executes w

theorem runs_executeAll (obeys : Obeys (env.provider i) view has)
    (commands : List Tables.Command) (known : ∀ c ∈ commands, has c.table c.column) :
    Runs view (Storage.executeAll env i (commands.map (·.template (Storage.dialect env i))) :
      Attempt σ ε Unit) D commands () := by
  induction commands generalizing D with
  | nil => exact runs_pure ()
  | cons c rest ih =>
      have first : Runs view
          (Storage.executeTemplate env i (c.template (Storage.dialect env i)) >>= fun _ =>
            pure () : Attempt σ ε Unit) D [c] () :=
        Runs.returning (fun _ => ()) (runs_command obeys c (known c List.mem_cons_self))
      exact Runs.bind first (ih fun other member => known other (List.mem_cons_of_mem c member))

/-! ### Reading ids -/

theorem get_int {row : Row} {key : String} {n : Int64} (found : row.value? key = some (.int n)) :
    row.get Int64 key = .ok n := by
  have read : FieldValue.ofValue? (α := Int64) (.int n) = some n := by
    have bounds : Int64.minValue.toInt ≤ n.toInt ∧ n.toInt ≤ Int64.maxValue.toInt :=
      ⟨n.minValue_le_toInt, n.toInt_le⟩
    show (if Int64.minValue.toInt ≤ n.toInt ∧ n.toInt ≤ Int64.maxValue.toInt then
      some (Int64.ofInt n.toInt) else none) = some n
    rw [if_pos bounds, Int64.ofInt_toInt]
  unfold Row.get
  rw [found]
  simp only [read]

theorem get_id (key : String) (n : Int64) :
    (⟨[(key, .int n)]⟩ : Row).get Int64 key = .ok n :=
  get_int (by simp [Row.value?])

private theorem mapM_get {key : String} {rows : List Cells} {keys : List Int64}
    (keyed : rows.map (· key) = keys.map .int) :
    ((rows.map fun r => (⟨[(key, r key)]⟩ : Row)).mapM fun row => row.get Int64 key) =
      .ok keys := by
  induction rows generalizing keys with
  | nil =>
      cases keys with
      | nil => rfl
      | cons n rest => cases keyed
  | cons r rest ih =>
      cases keys with
      | nil => cases keyed
      | cons n others =>
          rw [List.map_cons, List.map_cons, List.cons.injEq] at keyed
          rw [List.map_cons, List.mapM_cons, keyed.1, get_id, ih keyed.2]
          rfl

theorem runs_query (obeys : Obeys (env.provider i) view has) {table key column : String}
    (ids : List Int64) (hasKey : has table key) (hasColumn : has table column) {keys : List Int64}
    (keyed : (D.selected table column ids).map (· key) = keys.map .int) :
    Runs view (do
        let s ← Storage.bound
          (Sql.selectWhereIn (Storage.dialect env i) table [key] column ids) []
        Builder.readIds env i key s : Attempt σ ε (List Int64)) D [] keys := by
  obtain ⟨s, bound, answers⟩ := obeys.selects table key column ids hasKey hasColumn
  have reads : Runs view (Storage.query env i s : Attempt σ ε (List Row)) D []
      ((D.selected table column ids).map fun r => ⟨[(key, r key)]⟩) := by
    refine Runs.after (runs_traceStatement s) (runs_call ?_)
    intro w here
    subst here
    exact answers w
  exact Runs.after (runs_bound bound) (Runs.after reads (runs_ofExcept (mapM_get keyed)))

end

end EntityStore
