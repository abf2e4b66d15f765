import EntityStore.Proofs.Engine.Labour
import EntityStore.Proofs.Filter.Resolution
import Mathlib.Tactic.Choose

/-!
What may be refused in a request. Whether a path resolves, and whether a comparison is accepted, does
not depend on the tables that are joined already, so a predicate is refused just if one of its leaves
is refused on its own. A request compiles part by part, in an order of its own: the leaves of its
filter, the paths to order by, the columns to keep and the fields to write. It does not compile just if
one of its parts is refused on its own, and the first such part says why.
-/

namespace EntityStore

/-! ### Checks one after the other -/

/-- Where one of several checks fails, those before the first such one have succeeded. -/
theorem exists_first_failure {ε α : Type} {check : α → Except ε Unit} {items : List α} {a : α}
    {e : ε} (member : a ∈ items) (fails : check a = .error e) :
    ∃ before first rest reason, items = before ++ first :: rest ∧
      (∀ b ∈ before, check b = .ok ()) ∧ check first = .error reason ∧
      forM items check = .error reason := by
  induction items with
  | nil => cases member
  | cons item others ih =>
      cases checked : check item with
      | error reason =>
          refine ⟨[], item, others, reason, rfl, List.forall_mem_nil _, checked, ?_⟩
          rw [List.forM_cons, checked]
          rfl
      | ok _ =>
          have later : a ∈ others := by
            rcases List.mem_cons.1 member with rfl | later
            · rw [checked] at fails
              cases fails
            · exact later
          obtain ⟨before, first, rest, reason, rfl, succeed, failed, stops⟩ := ih later
          refine ⟨item :: before, first, rest, reason, rfl, ?_, failed, ?_⟩
          · exact List.forall_mem_cons.2 ⟨checked, succeed⟩
          · rw [List.forM_cons, checked]
            exact stops

mutual

def Predicate.leaves : Predicate → List Predicate
  | .always | .never => []
  | .all parts | .any parts => Predicate.leavesEach parts
  | .not part => Predicate.leaves part
  | .compare c => [.compare c]
  | .isNull field => [.isNull field]
  | .isNotNull field => [.isNotNull field]

def Predicate.leavesEach : List Predicate → List Predicate
  | [] => []
  | p :: ps => Predicate.leaves p ++ Predicate.leavesEach ps

end

namespace Resolve

variable {α β γ δ : Type} {schema : Schema} {model : EntityModel}

/-! ### Resolutions that do not depend on the graph -/

/-- On every graph the resolution succeeds or fails as `x` does; `f` is what of its answer does not
depend on the graph. -/
def Always (f : α → γ) (r : Resolve α) (x : Except TranslateError γ) : Prop :=
  ∀ g, (r.answer g).1.map f = x

theorem always_pure (f : α → γ) (a : α) : Always f (pure a) (.ok (f a)) :=
  fun _ => rfl

theorem always_throw (f : α → γ) (e : TranslateError) : Always f (throw e) (.error e) :=
  fun _ => rfl

theorem Always.bind {f : α → γ} {k : β → δ} {r : Resolve α} {next : α → Resolve β}
    {x : Except TranslateError γ} {y : γ → Except TranslateError δ} (first : Always f r x)
    (second : ∀ a, Always k (next a) (y (f a))) : Always k (r >>= next) (x >>= y) := by
  intro g
  rw [answer_bind]
  have gives := first g
  generalize r.answer g = answered at gives ⊢
  obtain ⟨outcome, reached⟩ := answered
  subst gives
  cases outcome with
  | ok a => exact second a reached
  | error e => rfl

theorem Always.then {k : β → δ} {r : Resolve α} {next : α → Resolve β}
    {x : Except TranslateError δ} (first : Always (fun _ => ()) r (.ok ()))
    (second : ∀ a, Always k (next a) x) : Always k (r >>= next) x :=
  first.bind (y := fun _ => x) second

theorem Always.returning {f : α → Unit} {r : Resolve α} {x : Except TranslateError Unit}
    (first : Always f r x) (done : α → β) : Always (fun _ => ()) (do return done (← r)) x := by
  intro g
  rw [answer_bind]
  have gives := first g
  generalize r.answer g = answered at gives ⊢
  obtain ⟨outcome, reached⟩ := answered
  subst gives
  cases outcome <;> rfl

private theorem Always.forget {f : α → γ} {r : Resolve α} {x : Except TranslateError γ}
    (always : Always f r x) : Always (fun _ => ()) r (x.map fun _ => ()) := by
  intro g
  rw [← always g]
  cases (r.answer g).1 <;> rfl

theorem Always.next {f : α → γ} {k : β → δ} {r : Resolve α} {next : α → Resolve β}
    {x : Except TranslateError γ} (first : Always f r x)
    (second : ∀ c, ∃ y, ∀ a, f a = c → Always k (next a) y) : ∃ z, Always k (r >>= next) z := by
  choose y later using second
  exact ⟨x >>= y, first.bind fun a => later (f a) a rfl⟩

private theorem always_mapM {f : α → Resolve β} {check : α → Except TranslateError Unit}
    (each : ∀ a, Always (fun _ => ()) (f a) (check a)) (items : List α) :
    Always (fun _ => ()) (items.mapM f) (forM items check) := by
  induction items with
  | nil => exact always_pure _ []
  | cons a rest ih =>
      rw [List.mapM_cons, List.forM_cons]
      exact (each a).bind fun b => ih.returning (b :: ·)

/-! ### Paths -/

theorem always_ensure (key table : String) (kind : JoinKind) (on : JoinOn) :
    Always (fun _ => ()) (ensure key table kind on) (.ok ()) :=
  fun _ => rfl

private theorem always_levelAlias (key : String) (model level : EntityModel) :
    Always (fun _ => ()) (levelAlias key model level) (.ok ()) := by
  refine Always.then (r := (get : Resolve JoinGraph)) (fun _ => rfl) fun g => ?_
  split
  · exact always_pure _ _
  · exact always_ensure _ _ _ _

/-- Which column names lead to is told by the models alone. -/
theorem always_walk (path : String) (names : List String) (key : String) (m : EntityModel) :
    ∃ x, Always Prod.snd (walk schema path key m names) x := by
  induction names generalizing key m with
  | nil => exact ⟨_, always_throw _ _⟩
  | cons name rest ih =>
      unfold walk
      cases m.findColumn? name with
      | none => exact ⟨_, always_throw _ _⟩
      | some found =>
          obtain ⟨level, column⟩ := found
          have here := always_levelAlias key m level
          dsimp only
          cases last : rest.isEmpty with
          | true =>
              cases physical : column.isPhysical with
              | true => exact ⟨.ok column, here.then fun a => always_pure Prod.snd (_, column)⟩
              | false => exact ⟨_, here.then fun a => always_throw _ _⟩
          | false =>
              cases column.kind with
              | relation field target _ =>
                  obtain ⟨x, further⟩ := ih (JoinGraph.hopKey key field) (schema.model target)
                  exact ⟨x, here.then fun a => (always_ensure _ _ _ _).then fun _ => further⟩
              | many target table =>
                  obtain ⟨x, further⟩ :=
                    ih (JoinGraph.hopKey key column.name) (schema.model target)
                  refine ⟨x, here.then fun a => (always_ensure _ _ _ _).then fun _ => ?_⟩
                  exact (always_ensure _ _ _ _).then fun _ =>
                    Always.then (r := markCollection) (fun _ => rfl) fun _ => further
              | _ => exact ⟨_, here.then fun a => always_throw _ _⟩

variable (schema model) in
theorem always_column (path : String) : ∃ x, Always Prod.snd (column schema model path) x :=
  always_walk path (segments path) "" model

/-! ### Leaves -/

/-- Whether a comparison needs no operand does not depend on where its column is. -/
theorem constantComparison_cases (op : CompareOp) (operand : Operand) :
    (∀ ref, constantComparison? ref op operand = none) ∨
      ∃ group : ColumnRef → WhereGroup,
        ∀ ref, constantComparison? ref op operand = some (group ref) := by
  unfold constantComparison?
  split
  · split
    · exact .inr ⟨_, fun _ => rfl⟩
    · exact .inr ⟨_, fun _ => rfl⟩
    · exact .inl fun _ => rfl
  · split
    · exact .inr ⟨_, fun _ => rfl⟩
    · exact .inr ⟨_, fun _ => rfl⟩
    · exact .inl fun _ => rfl
  · exact .inl fun _ => rfl

variable (schema model) in
private theorem always_comparison (c : Comparison) :
    ∃ x, Always (fun _ => ()) (comparison schema model c) x := by
  obtain ⟨x, found⟩ := always_column schema model c.field
  refine found.next fun column => ?_
  cases known : column.sqlType? with
  | none =>
      refine ⟨.error (.collectionComparison c.field), fun (ref, _) same => ?_⟩
      subst same
      dsimp only
      rw [known]
      exact always_throw _ _
  | some type =>
      rcases constantComparison_cases c.op c.operand with open' | ⟨group, constant⟩
      · cases fault : operandFault? type c.op c.operand with
        | some reason =>
            refine ⟨.error (.invalidOperand c.field reason), fun (ref, _) same => ?_⟩
            subst same
            dsimp only
            simp only [known, open', fault]
            exact always_throw _ _
        | none =>
            cases cased : c.casefold && !type.isText with
            | true => 
                refine ⟨.error (.invalidOperand c.field
                  "case-insensitive comparison requires a text column"), fun (ref, _) same => ?_⟩
                subst same
                simp only [known, open', fault, cased]
                exact always_throw _ _
            | false =>
                refine ⟨.ok (), fun (ref, _) same => ?_⟩
                subst same
                simp only [known, open', fault, cased]
                exact always_pure _ _
      · refine ⟨.ok (), fun (ref, _) same => ?_⟩
        subst same
        simp only [known, constant]
        exact always_pure _ _

/-! ### Predicates -/

theorem map_translation (p : Predicate) : ((Translation.of schema model p).map fun _ => ()) =
    ((filter schema model p).answer (.ofModel model)).1.map fun _ => () := by
  have run : runOn model (filter schema model p) =
      (filter schema model p).answer (.ofModel model) := rfl
  rw [Translation.of, run]
  generalize (filter schema model p).answer (.ofModel model) = answered
  obtain ⟨outcome, reached⟩ := answered
  cases outcome <;> rfl

private theorem Always.translated {p : Predicate} {x : Except TranslateError Unit}
    (always : Always (fun _ => ()) (filter schema model p) x) :
    Always (fun _ => ()) (filter schema model p)
      ((Translation.of schema model p).map fun _ => ()) := by
  rwa [map_translation, always]

variable (schema model) in
private theorem always_null (field : String) (negated : Bool) :
    ∃ x, Always (fun _ => ())
      (do return .null (← column schema model field).1 negated : Resolve WhereGroup) x := by
  obtain ⟨x, found⟩ := always_column schema model field
  exact found.next fun _ => ⟨.ok (), fun _ _ => always_pure _ _⟩

mutual

/-- A predicate is refused with the error of the first of its leaves that is refused on its own. -/
theorem always_filter (p : Predicate) : Always (fun _ => ()) (filter schema model p)
    (forM p.leaves fun leaf => (Translation.of schema model leaf).map fun _ => ()) := by
  -- A leaf is checked as itself; everything else is checked part by part.
  have single {leaf : Predicate} {x : Except TranslateError Unit}
      (always : Always (fun _ => ()) (filter schema model leaf) x) :
      Always (fun _ => ()) (filter schema model leaf)
        (forM [leaf] fun leaf => (Translation.of schema model leaf).map fun _ => ()) := by
    rw [List.forM_cons, List.forM_nil, bind_pure_unit]
    exact always.translated
  cases p with
  | always => exact always_pure _ _
  | never => exact always_pure _ _
  | all parts =>
      cases parts with
      | nil => exact always_pure _ _
      | cons p ps => exact (always_filterEach (p :: ps)).returning WhereGroup.all
  | any parts =>
      cases parts with
      | nil => exact always_pure _ _
      | cons p ps => exact (always_filterEach (p :: ps)).returning WhereGroup.any
  | not part => exact (always_filter part).returning WhereGroup.not
  | compare c =>
      obtain ⟨x, always⟩ := always_comparison schema model c
      exact single always
  | isNull field =>
      obtain ⟨x, always⟩ := always_null schema model field false
      exact single always
  | isNotNull field =>
      obtain ⟨x, always⟩ := always_null schema model field true
      exact single always

theorem always_filterEach (ps : List Predicate) : Always (fun _ => ()) (filterEach schema model ps)
    (forM (Predicate.leavesEach ps) fun leaf =>
      (Translation.of schema model leaf).map fun _ => ()) := by
  cases ps with
  | nil => exact always_pure _ _
  | cons p ps =>
      rw [Predicate.leavesEach, List.forM_append]
      exact (always_filter p).bind fun g => (always_filterEach ps).returning (g :: ·)

end

end Resolve

/-! ### Verdicts -/

variable {σ ε α β γ : Type}

def judged [Coe β EngineError] : Except β α → Except EngineError Unit
  | .ok _ => .ok ()
  | .error e => .error e

section

variable [Coe β EngineError]

theorem of_judged_error {r : Except β α} {e : EngineError} (refused : judged r = .error e) :
    ∃ reason, r = .error reason ∧ e = reason := by
  cases r with
  | ok a => cases refused
  | error reason =>
      cases refused
      exact ⟨reason, rfl, rfl⟩

theorem judged_map (f : α → γ) (r : Except β α) : judged (r.map f) = judged r := by
  cases r <;> rfl

theorem judged_bind (r : Except β Unit) (next : Unit → Except β Unit) :
    judged (r >>= next) = (judged r >>= fun _ => judged (next ())) := by
  cases r <;> rfl

theorem judged_forM (check : α → Except β Unit) (items : List α) :
    judged (forM items check) = forM items fun a => judged (check a) := by
  induction items with
  | nil => rfl
  | cons a rest ih => rw [List.forM_cons, List.forM_cons, judged_bind, ih]

private theorem judged_mapM (check : α → Except β γ) (items : List α) :
    judged (items.mapM check) = forM items fun a => judged (check a) := by
  induction items with
  | nil => rfl
  | cons a rest ih =>
      rw [List.mapM_cons, List.forM_cons, ← ih]
      cases check a with
      | error e => rfl
      | ok b => cases rest.mapM check <;> rfl

end

/-! ### Parts -/

/-- A part of a request that may be refused. -/
inductive Part
  | leaf (p : Predicate)
  | ordering (path : String)
  | projected (name : String)
  | listing (fields : List String)
  | written (field : String)

namespace Part

/-- What is said of a part on its own, of a request for entities of a model. -/
def verdict (schema : Schema) (model : EntityModel) : Part → Except EngineError Unit
  | .leaf p => judged (Translation.of schema model p)
  | .ordering path => judged (Resolve.runOn model (Resolve.column schema model path)).1
  | .projected name => judged (Query.projected model name)
  | .listing fields => if fields.isEmpty then .error QueryError.noFields else .ok ()
  | .written field => (UpdatePlan.addField model {} field).map fun _ => ()

def ofFilter (filter? : Option Predicate) : List Part :=
  (filter?.map Predicate.leaves).getD [] |>.map leaf

end Part

def Query.parts (q : Query ε) : List Part :=
  Part.ofFilter q.filter? ++ q.order.map fun term => .ordering term.1

def Exist.parts (x : Exist ε) : List Part :=
  Part.ofFilter x.filter?

def Update.parts (u : Update ε) : List Part :=
  .listing u.fields :: u.fields.map .written ++ Part.ofFilter u.filter?

def Delete.parts (x : Delete ε) : List Part :=
  match x.target with
  | .ids _ => []
  | .matching filter? => Part.ofFilter filter?

/-! ### Compiling -/

section

variable {schema : Schema} {model : EntityModel}

theorem forM_ofFilter (filter? : Option Predicate) :
    forM (Part.ofFilter filter?) (Part.verdict schema model) =
      judged (forM ((filter?.map Predicate.leaves).getD []) fun leaf =>
        (Translation.of schema model leaf).map fun _ => ()) := by
  rw [judged_forM, Part.ofFilter, List.forM_map]
  simp only [judged_map, Part.verdict]

private theorem judged_translation (p : Predicate) : judged (Translation.of schema model p) =
    forM (Part.ofFilter (some p)) (Part.verdict schema model) := by
  rw [forM_ofFilter, ← judged_map (fun _ => ()), Resolve.map_translation, Resolve.always_filter]
  rfl

namespace Resolve

theorem Always.judged {f : α → γ} {r : Resolve α} {x : Except TranslateError γ}
    (always : Always f r x) : judged (runOn model r).1 = judged x := by
  rw [← always (.ofModel model), judged_map]
  rfl

variable (schema model) in
theorem always_resolveFilter (filter? : Option Predicate) :
    Always (fun _ => ()) (Builder.resolveFilter schema model filter?)
      (forM ((filter?.map Predicate.leaves).getD []) fun leaf =>
        (Translation.of schema model leaf).map fun _ => ()) := by
  cases filter? with
  | none => exact always_pure _ _
  | some p => exact (always_filter p).returning some

variable (schema model) in
private theorem always_order (order : List (String × Sql.Direction)) :
    Always (fun _ => ())
      (order.mapM fun (path, direction) => do
        let (column, _) ← column schema model path
        return ({ column, direction } : Sql.OrderTerm))
      (forM order fun term => (runOn model (column schema model term.1)).1.map fun _ => ()) := by
  refine always_mapM (fun (path, direction) => ?_) order
  obtain ⟨x, always⟩ := always_column schema model path
  have alone : ((runOn model (column schema model path)).1.map fun _ => ()) = x.map fun _ => () :=
    always.forget (.ofModel model)
  rw [alone]
  exact always.forget.returning fun found => (⟨found.1, direction⟩ : Sql.OrderTerm)

end Resolve

variable {env : Setting σ}

/-- A query compiles just if its parts do, the filter first and then the order. -/
theorem Query.judged_compile (q : Query ε) :
    judged (q.compile env) = forM q.parts (Part.verdict env.schema q.type.model) := by
  have ordered := Resolve.always_order env.schema q.type.model q.order
  have resolved : Resolve.Always (fun _ => ()) (q.resolve env) _ :=
    (Resolve.always_resolveFilter env.schema q.type.model q.filter?).bind (y := fun _ => _)
      fun filter? => ordered.returning (filter?, ·)
  have compiled : judged (q.compile env) = judged (Resolve.runOn q.type.model (q.resolve env)).1 := by
    unfold Query.compile
    generalize Resolve.runOn q.type.model (q.resolve env) = answered
    obtain ⟨outcome, joins⟩ := answered
    cases outcome <;> rfl
  have terms : judged (forM q.order fun term => (Resolve.runOn q.type.model
        (Resolve.column env.schema q.type.model term.1)).1.map fun _ => ()) =
      forM (q.order.map fun term => Part.ordering term.1)
        (Part.verdict env.schema q.type.model) := by
    rw [judged_forM, List.forM_map]
    simp only [judged_map, Part.verdict]
  rw [compiled, resolved.judged, judged_bind, terms, Query.parts, List.forM_append, forM_ofFilter]

private theorem Exist.judged_compile (x : Exist ε) :
    judged (x.compile env) = forM x.parts (Part.verdict env.schema x.type.model) := by
  have compiled : judged (x.compile env) = judged (Resolve.runOn x.type.model
      (Builder.resolveFilter env.schema x.type.model x.filter?)).1 := by
    unfold Exist.compile
    generalize Resolve.runOn x.type.model _ = answered
    obtain ⟨outcome, joins⟩ := answered
    cases outcome <;> rfl
  have resolved := Resolve.always_resolveFilter env.schema x.type.model x.filter?
  rw [compiled, resolved.judged, Exist.parts, forM_ofFilter]

variable (env) in
theorem Builder.judged_idsTemplate (i : StorageId) (model : EntityModel) (p : Predicate) :
    judged (idsTemplate env i model p) =
      forM (Part.ofFilter (some p)) (Part.verdict env.schema model) := by
  rw [← judged_translation, idsTemplate]
  cases Translation.of env.schema model p <;> rfl

private theorem Delete.judged_compile (x : Delete ε) :
    judged (x.compile env) = forM x.parts (Part.verdict env.schema x.type.model) := by
  unfold Delete.compile Delete.parts
  cases x.target with
  | ids ids => rfl
  | matching filter? =>
      have parts : Part.ofFilter filter? = Part.ofFilter (some (filter?.getD .always)) := by
        cases filter? <;> rfl
      dsimp only
      rw [parts, ← Builder.judged_idsTemplate env x.storage]
      cases Builder.idsTemplate env x.storage x.type.model (filter?.getD .always) <;> rfl

/-! ### Updates -/

private theorem UpdatePlan.addField_verdict (model : EntityModel) (plan : UpdatePlan)
    (field : String) :
    ((addField model plan field).map fun _ => ()) =
      Part.verdict schema model (.written field) := by
  simp only [Part.verdict, addField]
  cases model.findColumn? field with
  | none => rfl
  | some found =>
      dsimp only
      split
      · rfl
      · split <;> rfl

private theorem UpdatePlan.resolve_verdict (model : EntityModel) (fields : List String) :
    ((resolve model fields).map fun _ => ()) =
      forM (.listing fields :: fields.map .written) (Part.verdict schema model) := by
  have each (plan : UpdatePlan) : ((fields.foldlM (addField model) plan).map fun _ => ()) =
      forM (fields.map .written) (Part.verdict schema model) := by
    induction fields generalizing plan with
    | nil => rfl
    | cons field rest ih =>
        rw [List.foldlM_cons, List.map_cons, List.forM_cons, ← addField_verdict model plan]
        cases addField model plan field with
        | ok next => exact ih next
        | error e => rfl
  rw [resolve, List.forM_cons, ← each {}, Part.verdict]
  cases fields <;> rfl

private theorem Update.compile_verdict (u : Update ε) : ((u.compile env).map fun _ => ()) =
    forM u.parts (Part.verdict env.schema u.type.model) := by
  rw [Update.parts, List.forM_append, ← UpdatePlan.resolve_verdict, Update.compile]
  cases UpdatePlan.resolve u.type.model u.fields with
  | error e => rfl
  | ok plan =>
      cases u.filter? with
      | none => rfl
      | some p =>
          dsimp only [bind, Except.bind]
          change _ = forM (Part.ofFilter (some p)) _
          rw [← Builder.judged_idsTemplate env u.storage]
          cases Builder.idsTemplate env u.storage u.type.model p <;> rfl

end

/-! ### Runs -/

/-- Runs of requests with the parts that they name, in the order in which these are looked up. -/
inductive Names (env : Setting σ) :
    {α : Type} → Engine σ ε (Outcome α) → EntityModel → List Part → Prop
  | query (q : Query ε) : Names env (q.run env) q.type.model q.parts
  | single (q : Query ε) : Names env (q.single env) q.type.model q.parts
  | rows (q : Query ε) :
      Names env (q.rows env) q.type.model (q.parts ++ q.fields.map .projected)
  | exist (x : Exist ε) : Names env (x.run env) x.type.model x.parts
  | count (x : Exist ε) : Names env (x.count env) x.type.model x.parts
  | update (u : Update ε) : Names env (u.run env) u.type.model u.parts
  | delete (x : Delete ε) : Names env (x.run env) x.type.model x.parts

variable {env : Setting σ}

private theorem Query.run_refused {q : Query ε} {e : EngineError}
    (refused : forM q.parts (Part.verdict env.schema q.type.model) = .error e) :
    q.run env = pure (.ofError e) := by
  rw [← q.judged_compile] at refused
  obtain ⟨reason, compiled, rfl⟩ := of_judged_error refused
  exact Query.run_of_compile_error compiled

private theorem Query.rows_refused {q : Query ε} {e : EngineError}
    (refused : forM (q.parts ++ q.fields.map .projected)
      (Part.verdict env.schema q.type.model) = .error e) : q.rows env = pure (.ofError e) := by
  have columns : forM (q.fields.map .projected) (Part.verdict env.schema q.type.model) =
      judged (q.fields.mapM (projected q.type.model)) := by
    rw [judged_mapM, List.forM_map]
    rfl
  rw [List.forM_append, ← q.judged_compile, columns] at refused
  unfold Query.rows
  cases compiled : q.compile env with
  | error reason =>
      rw [compiled] at refused
      cases refused
      rfl
  | ok t =>
      rw [compiled] at refused
      obtain ⟨reason, unknown, rfl⟩ := of_judged_error refused
      rw [unknown]
      rfl

private theorem Exist.count_refused {x : Exist ε} {e : EngineError}
    (refused : forM x.parts (Part.verdict env.schema x.type.model) = .error e) :
    x.count env = pure (.ofError e) := by
  rw [← x.judged_compile] at refused
  obtain ⟨reason, compiled, rfl⟩ := of_judged_error refused
  exact Exist.count_of_compile_error compiled

/-- A request of which a part is refused answers with that and does nothing else. -/
theorem Names.run_refused {c : Engine σ ε (Outcome α)} {model : EntityModel} {parts : List Part}
    (names : Names env c model parts) {e : EngineError}
    (refused : forM parts (Part.verdict env.schema model) = .error e) : c = pure (.ofError e) := by
  cases names with
  | query q => exact Query.run_refused refused
  | single q =>
      have limited : (q.limit 1).run env = pure (.ofError e) := Query.run_refused refused
      rw [Query.single, limited]
      rfl
  | rows q => exact Query.rows_refused refused
  | exist x =>
      rw [Exist.run, Exist.count_refused refused]
      rfl
  | count x => exact Exist.count_refused refused
  | update u =>
      rw [← u.compile_verdict] at refused
      cases compiled : u.compile env with
      | ok found =>
          rw [compiled] at refused
          cases refused
      | error reason =>
          rw [compiled] at refused
          cases refused
          exact Update.run_of_compile_error compiled
  | delete x =>
      rw [← x.judged_compile] at refused
      obtain ⟨reason, compiled, rfl⟩ := of_judged_error refused
      exact Delete.run_of_compile_error compiled

end EntityStore
