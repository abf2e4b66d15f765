import EntityStore.Proofs.Query.Parts
import EntityStore.Proofs.Sql.Prepared
import EntityStore.Proofs.Transaction.Twins

/-!
Requests that cannot be compiled or bound. A request of which a part is refused makes no call at all.
A ready request of which a variable has no fitting value sends no statement: if it reads it makes no
call, and if it writes it makes those that begin and roll back its transaction. Of such a run nothing
is left behind but that no transaction is open.
-/

namespace EntityStore

variable {σ ε α : Type} {env : Setting σ} {i : StorageId} {s : State σ ε}

/-! ### Ready requests -/

/-- A variable of the template has no value among the bindings, or one that does not fit. -/
def Sql.Template.Unfit (t : Sql.Template) (bindings : Sql.Bindings) : Prop :=
  ∃ source ∈ t.sources, source.fits bindings = false

private theorem Sql.Template.Unfit.fails {t : Sql.Template} {bindings : Sql.Bindings}
    (unfit : t.Unfit bindings) : ∃ e, t.bind bindings = .error e := by
  obtain ⟨source, member, unfit⟩ := unfit
  have whole : (t.bind bindings).isOk = t.sources.all (·.fits bindings) := Sql.bind_isOk t
  cases binds : t.bind bindings with
  | error e => exact ⟨e, rfl⟩
  | ok q =>
      rw [binds] at whole
      have fits := List.all_eq_true.1 whole.symm source member
      rw [unfit] at fits
      cases fits

namespace Compiled

/-- Ready requests that only read, and the template that each run of them binds. -/
inductive Reads (env : Setting σ) : {α : Type} → Compiled σ ε α → Sql.Template → Prop
  | query {q : Query ε} {t : Sql.Template} {c : Compiled σ ε (List ε)}
      (compiled : q.compile env = .ok t) (ready : q.prepare env = .ok c) : Reads env c t
  | exist {x : Exist ε} {t : Sql.Template} {c : Compiled σ ε Bool}
      (compiled : x.compile env = .ok t) (ready : x.prepare env = .ok c) : Reads env c t

/-- Ready requests on storage `i` that write the rows which a template selects. An update without
items has nothing to write to them. -/
inductive Writes (env : Setting σ) (i : StorageId) : Compiled σ ε Nat → Sql.Template → Prop
  | update {u : Update ε} {plan : UpdatePlan} {t : Sql.Template} {c : Compiled σ ε Nat}
      (here : u.storage = i) (compiled : u.compile env = .ok (plan, some t))
      (ready : u.prepare env = .ok c) (given : u.items ≠ []) : Writes env i c t
  | delete {x : Delete ε} {t : Sql.Template} {c : Compiled σ ε Nat} (here : x.storage = i)
      (compiled : x.compile env = .ok (.template t)) (ready : x.prepare env = .ok c) :
      Writes env i c t

variable {t : Sql.Template} {bindings : Sql.Bindings} {e : QueryError}

/-- What only reads fails without a trace. -/
theorem Reads.unbound {c : Compiled σ ε α} (reads : c.Reads env t)
    (fails : t.bind bindings = .error e) (s : State σ ε) :
    (c.execute bindings).run s = (.ofError e, s) := by
  have failed : (Storage.bound t bindings : Attempt σ ε _).run.run s = (.error e, s) :=
    Storage.bound_fails fails
  cases reads with
  | query compiled ready =>
      rw [Query.prepare, compiled] at ready
      cases ready
      exact Attempt.outcome_run (Attempt.run_bind_error failed)
  | @exist x t c compiled ready =>
      rw [Exist.prepare, compiled] at ready
      cases ready
      have counted : (Exist.countWith env x.storage t bindings).run s = (.ofError e, s) :=
        Attempt.outcome_run (Attempt.run_bind_error failed)
      show (Exist.countWith env x.storage t bindings >>= _).run s = _
      rw [Engine.run_bind, counted]
      rfl

private theorem Writes.works {c : Compiled σ ε Nat} (writes : c.Writes env i t) :
    ∃ work : Sql.Bindings → Attempt σ ε Nat, (∀ b, Mutating env i (work b) (c.execute b)) ∧
      ∀ b e, t.bind b = .error e → ∀ s, (work b).run.run s = (.error (e : EngineError), s) := by
  cases writes with
  | @update u plan t c here compiled ready given =>
      refine ⟨_, .preparedUpdate u here compiled ready, fun b e fails s => ?_⟩
      cases items : u.items with
      | nil => exact (given items).elim
      | cons item rest =>
          rw [Update.apply, Update.applySelected, items]
          exact Attempt.run_bind_error (Storage.bound_fails fails)
  | @delete x t c here compiled ready =>
      refine ⟨_, .preparedDelete x here compiled ready, fun b e fails s => ?_⟩
      exact Attempt.run_bind_error (Attempt.run_bind_error (Storage.bound_fails fails))

end Compiled

/-! ### Units whose work fails at once -/

/-- How a unit goes whose work fails with an error before it does anything. -/
inductive Unsent (i : StorageId) (e : EngineError) (s : State σ ε) :
    Outcome α → State σ ε → Prop
  | refused {reason : EngineError} {after : State σ ε} (idle : (s.coordinator i).active? = none)
      (calls : after.calls = s.calls ++ [.begin i false]) :
      Unsent i e s (.ofError reason) after
  | alone {o : Outcome α} {after : State σ ε} {succeeded : Bool}
      (idle : (s.coordinator i).active? = none)
      (calls : after.calls = s.calls ++ [.begin i true, .rollback i succeeded])
      (nothing : o.value? = none) (failure : o.errors.head? = some e) : Unsent i e s o after
  | within {o : Outcome α} {after : State σ ε} {succeeded : Bool}
      (taken : (s.coordinator i).active? ≠ none)
      (calls : after.calls = s.calls ++ [.rollback i succeeded])
      (nothing : o.value? = none) (failure : o.errors.head? = some e) : Unsent i e s o after

/-- What a failed run of a ready request leaves behind. -/
structure Forgotten (i : StorageId) (c : Compiled σ ε α) (s after : State σ ε) : Prop where
  idle : (after.coordinator i).active? = none
  models : after.models = s.models
  later : (s.coordinator i).active? = none → ∀ bindings,
    Alike i after { s with outside := after.outside } ((c.execute bindings).run after)
      ((c.execute bindings).run { s with outside := after.outside })
  anew (s' : State σ ε) : Twins i after s' → (s'.coordinator i).active? = none → ∀ bindings,
    Alike i after s' ((c.execute bindings).run after) ((c.execute bindings).run s')

section

variable {work : Attempt σ ε α} {e : EngineError} (fails : ∀ s, work.run.run s = (.error e, s))

include fails

variable (env i s) in
private theorem models_unsent :
    ((Storage.runInsideTransaction env i work.outcome).run s).2.models = s.models := by
  let kept : Route σ ε :=
    ⟨fun s after => after.models = s.models, fun _ => rfl, fun first second => second.trans first⟩
  have coordinates (j : StorageId) : kept.manner.Coordinates env j :=
    ⟨fun _ => rfl, fun _ _ => rfl, fun _ _ _ _ => rfl, fun _ => rfl, fun _ => rfl, fun _ => rfl⟩
  refine Manner.Coordinates.follows_unit coordinates i (fun s => ?_) s
  rw [Attempt.outcome_run (fails s)]

variable (env) in
omit fails in
private theorem close_unsent (e : EngineError) {t : Transaction} {opened : State σ ε} {depth : Nat}
    (active : (opened.coordinator t.storage).active? = some ⟨t.id, depth⟩) :
    ∃ succeeded, Transaction.Closes env t (.ofError e : Outcome α) .rollback succeeded opened ∧
      ((t.close env (.ofError e : Outcome α)).run opened).1.errors.head? = some e := by
  have held : (opened.coordinator t.storage).holds t.id = true := by
    rw [Party.holds_some active]
    exact decide_eq_true rfl
  obtain ⟨succeeded, closes⟩ :
      ∃ succeeded, t.Closes env (.ofError e : Outcome α) .rollback succeeded opened :=
    Transaction.close_failed rfl held
  obtain ⟨added, closed⟩ := t.close_adds env (.ofError e : Outcome α) opened
  refine ⟨succeeded, closes, ?_⟩
  rw [closed]
  rfl

variable (env i s) in
private theorem unsent : Unsent i e s ((Storage.runInsideTransaction env i work.outcome).run s).1
      ((Storage.runInsideTransaction env i work.outcome).run s).2 ∧
    (((Storage.runInsideTransaction env i work.outcome).run s).2.coordinator i).active? = none := by
  have failed (opened : State σ ε) : work.outcome.run opened = (.ofError e, opened) :=
    Attempt.outcome_run (fails opened)
  rw [Storage.run_unit]
  cases found : (s.coordinator i).active? with
  | none =>
      cases begun : (Storage.begin env i : Attempt σ ε _).run.run s with
      | mk result opened =>
        cases result with
        | error reason =>
            cases Party.effect_refused begun with
            | refused _ _ coordinator members calls =>
                exact ⟨.refused found calls,
                  (congrArg Coordinator.active? coordinator).trans found⟩
        | ok t =>
            obtain ⟨calls, active⟩ := Storage.opens begun found
            obtain rfl := Storage.begin_storage begun
            obtain ⟨succeeded, closes, first⟩ := close_unsent (α := α) env e active
            dsimp only
            rw [failed]
            have made : ((t.close env (.ofError e : Outcome α)).run opened).2.calls =
                s.calls ++ [.begin t.storage true, .rollback t.storage succeeded] := by
              rw [closes.calls, calls, List.append_assoc]
              rfl
            exact ⟨.alone found made closes.value first, closes.idle⟩
  | some transaction =>
      obtain ⟨joined, begun, calls, coordinator⟩ := Storage.joins env found
      have active : (joined.coordinator i).active? =
          some ⟨transaction.id, transaction.depth + 1⟩ := congrArg Coordinator.active? coordinator
      obtain ⟨succeeded, closes, first⟩ := close_unsent (α := α) env e
        (t := ⟨i, transaction.id, transaction.depth + 1⟩) active
      rw [begun]
      dsimp only
      rw [failed]
      have taken : (s.coordinator i).active? ≠ none := by
        rw [found]
        exact Option.some_ne_none _
      have made := closes.calls
      rw [calls] at made
      exact ⟨.within taken made closes.value first, closes.idle⟩

end

/-- A ready request that writes sends no statement in a run that cannot be bound, and is as good as
new afterwards. -/
theorem Compiled.Writes.unbound {c : Compiled σ ε Nat} {t : Sql.Template}
    (writes : c.Writes env i t) {bindings : Sql.Bindings} {e : QueryError}
    (fails : t.bind bindings = .error e) (s : State σ ε) :
    Unsent i e s ((c.execute bindings).run s).1 ((c.execute bindings).run s).2 ∧
      Forgotten i c s ((c.execute bindings).run s).2 := by
  obtain ⟨work, mutating, failed⟩ := writes.works
  have failed := failed bindings e fails
  have models := models_unsent env i s failed
  obtain ⟨unsent, idle⟩ := unsent env i s failed
  rw [← (mutating bindings).unit] at models unsent idle
  have anew (s' : State σ ε) (twins : Twins i ((c.execute bindings).run s).2 s')
      (alone : (s'.coordinator i).active? = none) (more : Sql.Bindings) :
      Alike i ((c.execute bindings).run s).2 s'
        ((c.execute more).run ((c.execute bindings).run s).2) ((c.execute more).run s') := by
    rw [(mutating more).unit]
    exact unit_alike ((mutating more).works (Forgetful.labour env i))
      ((mutating more).works (Does.labour env i)) twins idle alone
  refine ⟨unsent, idle, models, fun alone more => ?_, anew⟩
  exact anew { s with outside := ((c.execute bindings).run s).2.outside }
    ⟨rfl, congrFun models i⟩ alone more

/-! ### Handles -/

namespace Prepared

def withVariables (p : Prepared σ ε α) (settings : List (String × Value)) : Prepared σ ε α :=
  settings.foldl (fun p setting => p.setVariable setting.1 setting.2) p

private theorem withVariables_compiled (p : Prepared σ ε α) (settings : List (String × Value)) :
    (p.withVariables settings).compiled = p.compiled := by
  induction settings generalizing p with
  | nil => rfl
  | cons setting rest ih => exact ih (p.setVariable setting.1 setting.2)

private theorem finish_withVariables {p running : Prepared σ ε α} (started : p.start? = some running)
    (settings : List (String × Value)) : (running.withVariables settings).finish = p := by
  unfold start? at started
  split at started
  · cases started
  · next free =>
      cases started
      rw [finish, withVariables_compiled]
      obtain ⟨compiled, bindings?⟩ := p
      cases bindings? with
      | none => rfl
      | some bindings => exact (free rfl).elim

end Prepared

/-- Nothing is executed for a request that cannot be compiled or bound. If any part of a request is
refused, its run answers with the first that is and leaves the state as it was, trail and all. If a
variable of a ready request has no fitting value, a run that reads leaves the state as it was too; one
that writes makes no call but to begin a transaction, if it opens one, and to roll back. Later runs of
the same handle then go as if there had been no such run, unless it took part in a transaction: that
has ended for all participants. An update by filter without items does nothing, so nothing is bound.
-/
theorem incomplete_requests_execute_nothing (env : Setting σ) (i : StorageId) :
    (∀ {α : Type} {c : Engine σ ε (Outcome α)} {model : EntityModel} {parts : List Part},
      Names env c model parts →
      ∀ part ∈ parts, ∀ e, part.verdict env.schema model = .error e →
        ∃ before first rest reason, parts = before ++ first :: rest ∧
          (∀ p ∈ before, p.verdict env.schema model = .ok ()) ∧
          first.verdict env.schema model = .error reason ∧
          ∀ s, c.run s = (.ofError reason, s)) ∧
    (∀ {α : Type} {c : Compiled σ ε α} {t : Sql.Template}, c.Reads env t →
      ∀ bindings, t.Unfit bindings → ∃ e : QueryError, t.bind bindings = .error e ∧
        ∀ s, (c.execute bindings).run s = (.ofError e, s)) ∧
    (∀ {c : Compiled σ ε Nat} {t : Sql.Template}, c.Writes env i t →
      ∀ bindings, t.Unfit bindings → ∃ e : QueryError, t.bind bindings = .error e ∧
        ∀ s, Unsent i e s ((c.execute bindings).run s).1 ((c.execute bindings).run s).2 ∧
          Forgotten i c s ((c.execute bindings).run s).2) ∧
    (∀ {u : Update ε}, u.items = [] → ∀ plan t bindings s,
      (u.apply env plan (some t) bindings).run.run s = (.ok 0, s)) ∧
    ∀ {α : Type} {p running : Prepared σ ε α}, p.start? = some running → ∀ settings,
      (running.withVariables settings).finish = p := by
  refine ⟨fun names part member e refused => ?_, fun reads bindings unfit => ?_,
    fun writes bindings unfit => ?_, fun none plan t bindings s => ?_,
    fun started settings => Prepared.finish_withVariables started settings⟩
  · obtain ⟨before, first, rest, reason, split, passed, failed, stops⟩ :=
      exists_first_failure member refused
    refine ⟨before, first, rest, reason, split, passed, failed, fun s => ?_⟩
    rw [names.run_refused stops]
    rfl
  · obtain ⟨e, fails⟩ := unfit.fails
    exact ⟨e, fails, reads.unbound fails⟩
  · obtain ⟨e, fails⟩ := unfit.fails
    exact ⟨e, fails, writes.unbound fails⟩
  · rw [Update.apply, Update.applySelected, none]
    rfl

/-! ### Memos -/

def memo : EntityType Record :=
  Record.entityType ⟨0⟩
    ⟨⟨"Memo", "memo", "id", [.generatedKey "id", .text "body" .maxVarChar]⟩, []⟩

def strayMemos : Query Record where
  type := memo
  storage := 0
  filter? := some (.all [.isNotNull "body", .not (.any [.isNull "id", .isNull "title"])])

def memosByBody : Query Record where
  type := memo
  storage := 0
  filter? := some (FieldPath.eqVariable ⟨"body"⟩ "body")

def memoDeletion : Delete Record where
  type := memo
  storage := 0
  target := .matching (some (FieldPath.eqVariable ⟨"body"⟩ "body"))

def memoTemplate : Sql.Template :=
  match memoDeletion.compile Party.scripted with
  | .ok (.template t) => t
  | _ => Sql.plainTemplate .sqlite ""

def readyDeletion : Compiled Scripts Record Nat :=
  memoDeletion.compiled Party.scripted (.template memoTemplate)

theorem memos_refused :
    (∃ reason, ∀ s, (strayMemos.run Party.scripted).run s = (.ofError reason, s)) ∧
      (∃ c, memosByBody.prepare Party.scripted = .ok c ∧ ∃ e : QueryError, ∀ s,
        (c.execute [("title", .text "last")]).run s = (.ofError e, s)) ∧
      (∃ e : QueryError, Unsent 0 e ({ outside := {} } : State Scripts Record)
          ((readyDeletion.execute [("body", .list [])]).run { outside := {} }).1
          ((readyDeletion.execute [("body", .list [])]).run { outside := {} }).2 ∧
        Forgotten 0 readyDeletion { outside := {} }
          ((readyDeletion.execute [("body", .list [])]).run { outside := {} }).2) ∧
      (({ type := memo, storage := 0, items := [] } : Update Record).apply Party.scripted {}
        (some memoTemplate) []).run.run { outside := {} } = (.ok 0, { outside := {} }) := by
  obtain ⟨refused, unread, unwritten, exempt, -⟩ :=
    incomplete_requests_execute_nothing (ε := Record) Party.scripted 0
  refine ⟨?_, ⟨_, rfl, ?_⟩, ?_, exempt rfl _ _ _ _⟩
  · have title : .leaf (.isNull "title") ∈ strayMemos.parts := .tail _ (.tail _ (.head _))
    obtain ⟨_, _, _, reason, -, -, -, run⟩ := refused (.query strayMemos) _ title _ rfl
    exact ⟨reason, run⟩
  · obtain ⟨e, -, run⟩ :=
      unread (.query (q := memosByBody) rfl rfl) [("title", .text "last")]
        ⟨.variable "body" none, .head _, rfl⟩
    exact ⟨e, run⟩
  · obtain ⟨e, -, run⟩ :=
      unwritten (.delete (x := memoDeletion) rfl rfl rfl) [("body", .list [])]
        ⟨.variable "body" none, .head _, rfl⟩
    exact ⟨e, run _⟩

/-- The deletion without its variable, in a transaction that somebody has begun. -/
theorem failed_run_ends_transaction :
    readyDeletion.Writes Party.scripted 0 memoTemplate ∧ memoTemplate.Unfit [] ∧
      ¬ memoTemplate.Unfit [("body", .text "last")] ∧
      let failed := ((readyDeletion.execute []).run underway).2
      let run (s : State Scripts Record) := ((readyDeletion.execute [("body", .text "last")]).run s).2
      ¬ ∃ made, (run failed).calls = failed.calls ++ made ∧
        (run underway).calls = underway.calls ++ made := by
  refine ⟨.delete (x := memoDeletion) rfl rfl rfl, ⟨.variable "body" none, .head _, rfl⟩, ?_, ?_⟩
  · rintro ⟨source, member, unfit⟩
    cases member with
    | head => cases unfit
    | tail _ other => cases other
  · intro failed run ⟨made, calls, calls'⟩
    have alone : ((run failed).calls.drop failed.calls.length).head?.any
        (Event.isStatement 0) = false := rfl
    have within : ((run underway).calls.drop underway.calls.length).head?.any
        (Event.isStatement 0) = true := rfl
    rw [calls, List.drop_left] at alone
    rw [calls', List.drop_left, alone] at within
    cases within

end EntityStore
