import EntityStore.Proofs.Engine.Run
import EntityStore.Proofs.Storing.Contents
import EntityStore.Proofs.Transaction.UnitOfWork

/-!
What an attempt attains on a database of which something is viewed: how it comes out, what the view
shows afterwards, and which changes were made on the way, each by one statement that tells it.
Attempts are followed step by step from the view they begin with, and a unit of work keeps what its
action has attained.
-/

namespace EntityStore

variable {σ ε α β γ W : Type}

def Event.writes (i : StorageId) : Event → Bool
  | .execute j .. | .insert j .. => j == i
  | _ => false

def State.written (i : StorageId) (s : State σ ε) : List Event :=
  s.trail.toList.filter (Event.writes i)

def Event.parameters : Event → List Value
  | .execute _ q _ | .insert _ q _ => q.values
  | _ => []

private theorem Change.parameters_sent (i : StorageId) (q : Sql.Statement) (c : Change) :
    (c.sent i q).parameters = q.values := by
  cases c with
  | insert numbering? => cases numbering? <;> rfl
  | update => rfl
  | delete => rfl

/-- Between two states these changes were made, each by one statement that tells it. -/
def Sent (d : Sql.Dialect) (i : StorageId) (made : List Change) (s after : State σ ε) : Prop :=
  ∃ events, after.written i = s.written i ++ events
    ∧ List.Forall₂ (fun c e => ∃ q, c.Tells d q ∧ e = c.sent i q) made events

namespace Sent

variable {d : Sql.Dialect} {i : StorageId} {made more : List Change} {s middle after : State σ ε}

theorem nothing (same : after.written i = s.written i) : Sent d i [] s after :=
  ⟨[], same.trans (List.append_nil _).symm, .nil⟩

theorem append (first : Sent d i made s middle) (second : Sent d i more middle after) :
    Sent d i (made ++ more) s after := by
  obtain ⟨events, written, told⟩ := first
  obtain ⟨others, writtenNext, toldNext⟩ := second
  exact ⟨events ++ others, by rw [writtenNext, written, List.append_assoc],
    List.rel_append told toldNext⟩

private theorem quietly (first : Sent d i made s middle) (same : after.written i = middle.written i) :
    Sent d i made s after := by
  have whole := first.append (nothing same)
  rwa [List.append_nil] at whole

theorem after_quiet (same : middle.written i = s.written i) (next : Sent d i made middle after) :
    Sent d i made s after :=
  (nothing same).append next

theorem parameters (P : List Value → Prop) (sent : Sent d i made s after)
    (each : ∀ c ∈ made, P c.values) :
    ∃ events, after.written i = s.written i ++ events ∧ ∀ e ∈ events, P e.parameters := by
  obtain ⟨events, written, told⟩ := sent
  refine ⟨events, written, ?_⟩
  clear written
  induction told with
  | nil => exact nofun
  | cons first _ ih =>
      obtain ⟨q, tells, rfl⟩ := first
      obtain ⟨here, others⟩ := List.forall_mem_cons.1 each
      refine List.forall_mem_cons.2 ⟨?_, ih others⟩
      rwa [Change.parameters_sent, tells.values_eq]

end Sent

namespace State

variable {i : StorageId}

theorem written_recorded (s : State σ ε) (e : Event) :
    (s.recorded e).written i = s.written i ++ if e.writes i then [e] else [] := by
  rw [written, recorded, Array.toList_push, List.filter_append, List.filter_singleton, cond_eq_ite]
  rfl

theorem written_reported (s : State σ ε) (t : Trace) : (s.reported t).written i = s.written i :=
  (written_recorded s (.trace t)).trans (List.append_nil _)

theorem written_called (s : State σ ε) (event : Bool → Event) (answer : Answer σ α) :
    (s.called event answer).written i =
      s.written i ++ if (event (answer s.outside).1.isOk).writes i
        then [event (answer s.outside).1.isOk] else [] :=
  written_recorded s _

end State

section

variable (env : Setting σ) (i : StorageId) (view : σ → W)

/-- Where the view shows `v`, the attempt comes out so, shows so afterwards and makes these changes.
-/
def Attains (x : Attempt σ ε α) (v : W) (gives : Except EngineError α → W → List Change → Prop) :
    Prop :=
  ∀ s, view s.outside = v → ∃ r after made, x.run.run s = (r, after)
    ∧ after.coordinator = s.coordinator ∧ Sent (Storage.dialect env i) i made s after
    ∧ gives r (view after.outside) made

def Achieves (x : Attempt σ ε α) (v : W) (gives : α → W → List Change → Prop) : Prop :=
  Attains env i view x v fun r w made => ∃ a, r = .ok a ∧ gives a w made

/-- Wherever it begins, the attempt succeeds if all is good and makes these changes, and else fails.
-/
def Tries (act : W → Change → W) (x : Attempt σ ε α) (good : Prop) (changes : List Change) : Prop :=
  ∀ v, Attains env i view x v fun r w made =>
    (good ∧ (∃ a, r = .ok a) ∧ made = changes ∧ w = changes.foldl act v)
      ∨ (¬good ∧ ∃ e, r = .error e)

/-- Wherever it begins, the attempt succeeds and makes these changes, which act on what is viewed.
-/
def Makes (act : W → Change → W) (x : Attempt σ ε α) (changes : List Change) : Prop :=
  ∀ v, Achieves env i view x v fun _ w made => made = changes ∧ w = changes.foldl act v

end

variable {env : Setting σ} {i : StorageId} {view : σ → W} {v : W}

namespace Attains

variable {x : Attempt σ ε α} {next : α → Attempt σ ε β}
  {gives weaker : Except EngineError α → W → List Change → Prop}
  {whole : Except EngineError β → W → List Change → Prop}

theorem imp (attains : Attains env i view x v gives)
    (each : ∀ {r w made}, gives r w made → weaker r w made) : Attains env i view x v weaker := by
  intro s here
  obtain ⟨r, after, made, ran, coordinator, sent, given⟩ := attains s here
  exact ⟨r, after, made, ran, coordinator, sent, each given⟩

theorem bind (first : Attains env i view x v gives)
    (goesOn : ∀ a w made, gives (.ok a) w made →
      Attains env i view (next a) w fun r w' more => whole r w' (made ++ more))
    (stops : ∀ e w made, gives (.error e) w made → whole (.error e) w made) :
    Attains env i view (x >>= next) v whole := by
  intro s here
  obtain ⟨r, middle, made, ran, coordinator, sent, given⟩ := first s here
  cases r with
  | ok a =>
      obtain ⟨r, after, more, ranNext, coordinator', sent', given'⟩ :=
        goesOn a _ made given middle rfl
      exact ⟨r, after, made ++ more, by rw [Attempt.run_bind_ok ran, ranNext],
        coordinator'.trans coordinator, sent.append sent', given'⟩
  | error e =>
      exact ⟨.error e, middle, made, Attempt.run_bind_error ran, coordinator, sent,
        stops e _ made given⟩

theorem through {V : Type} {part : W → V} {gives : Except EngineError α → V → List Change → Prop}
    (attains : Attains env i (fun w => part (view w)) x (part v) gives) :
    Attains env i view x v fun r w made => gives r (part w) made := by
  intro s here
  exact attains s (congrArg part here)

theorem after {a : α} (first : Achieves env i view x v fun b w made => b = a ∧ w = v ∧ made = [])
    (second : Attains env i view (next a) v whole) : Attains env i view (x >>= next) v whole := by
  refine first.bind ?_ ?_
  · rintro _ w made ⟨_, ⟨⟩, rfl, rfl, rfl⟩
    exact second
  · rintro e w made ⟨_, ⟨⟩, -⟩

end Attains

namespace Achieves

variable {x : Attempt σ ε α} {next : α → Attempt σ ε β} {gives weaker : α → W → List Change → Prop}
  {whole : Except EngineError β → W → List Change → Prop} {holds : β → W → List Change → Prop}

theorem imp (achieves : Achieves env i view x v gives)
    (each : ∀ {a w made}, gives a w made → weaker a w made) : Achieves env i view x v weaker :=
  Attains.imp achieves fun ⟨a, same, given⟩ => ⟨a, same, each given⟩

private theorem attains (achieves : Achieves env i view x v gives)
    (goesOn : ∀ a w made, gives a w made →
      Attains env i view (next a) w fun r w' more => whole r w' (made ++ more)) :
    Attains env i view (x >>= next) v whole := by
  refine Attains.bind achieves ?_ ?_
  · rintro a w made ⟨_, ⟨⟩, given⟩
    exact goesOn a w made given
  · rintro e w made ⟨a, ⟨⟩, -⟩

theorem bind (first : Achieves env i view x v gives)
    (second : ∀ a w made, gives a w made →
      Achieves env i view (next a) w fun b w' more => holds b w' (made ++ more)) :
    Achieves env i view (x >>= next) v holds :=
  first.attains second

theorem returning {next : α → β} (first : Achieves env i view x v gives)
    (each : ∀ {a w made}, gives a w made → holds (next a) w made) :
    Achieves env i view (x >>= fun a => pure (next a)) v holds := by
  refine first.bind fun a w made given => ?_
  intro s here
  subst here
  refine ⟨_, s, [], rfl, rfl, .nothing rfl, next a, rfl, ?_⟩
  dsimp only
  rw [List.append_nil]
  exact each given

end Achieves

section

variable {gives : α → W → List Change → Prop}
    {whole : Except EngineError β → W → List Change → Prop}

theorem achieves_pure {a : α} (given : gives a v []) :
    Achieves env i view (pure a : Attempt σ ε α) v gives := by
  intro s here
  subst here
  exact ⟨.ok a, s, [], rfl, rfl, .nothing rfl, a, rfl, given⟩

theorem attains_refused {e : EngineError} {next : α → Attempt σ ε β}
    (given : whole (.error e) v []) :
    Attains env i view (Attempt.ofExcept (.error e) >>= next) v whole := by
  intro s here
  subst here
  exact ⟨_, s, [], Attempt.run_bind_error rfl, rfl, .nothing rfl, given⟩

theorem Attains.checked {κ : Type} [Coe κ EngineError] {r : Except κ α} {a : α}
    {next : α → Attempt σ ε β} (good : r = .ok a) (second : Attains env i view (next a) v whole) :
    Attains env i view (Attempt.ofResult r >>= next) v whole := by
  subst good
  exact Attains.after (achieves_pure ⟨rfl, rfl, rfl⟩) second

theorem attains_unchecked {κ : Type} [Coe κ EngineError] {r : Except κ α} {e : κ}
    {next : α → Attempt σ ε β} (bad : r = .error e)
    (given : whole (.error (e : EngineError)) v []) :
    Attains env i view (Attempt.ofResult r >>= next) v whole := by
  subst bad
  exact attains_refused given

theorem Attains.bound {t : Sql.Template} {bindings : Sql.Bindings} {q : Sql.Statement}
    {next : Sql.Statement → Attempt σ ε β} (binds : t.bind bindings = .ok q)
    (second : Attains env i view (next q) v whole) :
    Attains env i view (Storage.bound t bindings >>= next) v whole :=
  Attains.checked binds second

/-! ### Statements -/

/-- A call is made once it is reported. -/
theorem achieves_call {q : Sql.Statement} {event : Bool → Event} {answer : Answer σ α}
    (made : List Change)
    (sent : List.Forall₂ (fun c e => ∃ q, c.Tells (Storage.dialect env i) q ∧ e = c.sent i q) made
      (if (event true).writes i then [event true] else []))
    (answers : ∀ w, view w = v → ∃ a after, answer w = (.ok a, after) ∧ gives a (view after) made) :
    Achieves env i view
      (do Storage.traceStatement env i q; Storage.answered (Engine.call event answer) :
      Attempt σ ε α) v gives := by
  intro s here
  obtain ⟨before, traced, outside, coordinator, written⟩ : ∃ before,
      (Storage.traceStatement env i q : Attempt σ ε Unit).run.run s = (.ok (), before)
        ∧ before.outside = s.outside ∧ before.coordinator = s.coordinator
        ∧ before.written i = s.written i := by
    unfold Storage.traceStatement
    split
    · exact ⟨_, rfl, rfl, rfl, State.written_reported s _⟩
    · exact ⟨s, rfl, rfl, rfl, rfl⟩
  obtain ⟨a, after, answered, given⟩ := answers before.outside (outside ▸ here)
  have ran : (Storage.answered (Engine.call event answer) : Attempt σ ε α).run.run before =
      (.ok a, before.called event answer) := by
    rw [Storage.answered, Attempt.run_bind_ok (Attempt.run_lift _ before), Engine.run_call,
      answered]
    rfl
  refine ⟨.ok a, before.called event answer, made, (Attempt.run_bind_ok traced).trans ran,
    coordinator,
    .after_quiet written ⟨_, State.written_called before event answer, ?_⟩, a, rfl, ?_⟩
  · rw [answered]
    exact sent
  · rw [State.called, answered]
    exact given

theorem achieves_query {q : Sql.Statement} {gives : List Row → W → List Change → Prop}
    (answers : ∀ w, view w = v → ∃ rows after, (env.provider i).query q w = (.ok rows, after)
      ∧ gives rows (view after) []) :
    Achieves env i view (Storage.query env i q : Attempt σ ε _) v gives :=
  achieves_call [] .nil answers

end

/-- The provider does to what is viewed what statements say, as far as it knows the changes. -/
def Performs (p : Provider σ) (view : σ → W) (act : W → Change → W) (known : Change → Prop) :
    Prop :=
  ∀ (c : Change) (q : Sql.Statement) (w : σ), known c → c.Tells p.dialect q →
    ∃ n after, p.execute q w = (.ok n, after) ∧ view after = act (view w) c

section

variable {act : W → Change → W} {known : Change → Prop}

private theorem achieves_execute (performs : Performs (env.provider i) view act known) {c : Change}
    {q : Sql.Statement} (knows : known c) (plain : c.sent i q = .execute i q true)
    (tells : c.Tells (Storage.dialect env i) q) :
    Achieves env i view (Storage.execute env i q : Attempt σ ε Nat) v fun _ w made =>
      made = [c] ∧ w = act v c := by
  refine achieves_call [c] ?_ fun w here => ?_
  · have writes : (Event.execute i q true).writes i = true := beq_self_eq_true i
    rw [if_pos writes, ← plain]
    exact .cons ⟨q, tells, rfl⟩ .nil
  · obtain ⟨n, after, answered, shows⟩ := performs c q w knows tells
    exact ⟨n, after, answered, rfl, by rw [shows, here]⟩

theorem makes_template (performs : Performs (env.provider i) view act known) {c : Change}
    (knows : known c) (named : c.Named) (plain : ∀ q, c.sent i q = .execute i q true) :
    Makes env i view act
      (Storage.executeTemplate env i (c.template (Storage.dialect env i)) : Attempt σ ε Nat)
        [c] := by
  intro v
  obtain ⟨q, bound, tells⟩ := c.binds (Storage.dialect env i) named
  exact Attains.bound bound (achieves_execute performs knows (plain q) tells)

end

/-! ### Attempts one after the other -/

section

variable {act : W → Change → W} {x : Attempt σ ε α} {y : Attempt σ ε β} {changes more : List Change}

theorem makes_pure (a : α) : Makes env i view act (pure a : Attempt σ ε α) [] :=
  fun _ => achieves_pure ⟨rfl, rfl⟩

theorem Makes.followed {next : α → Attempt σ ε β} (first : Makes env i view act x changes)
    (second : ∀ a, Makes env i view act (next a) more) :
    Makes env i view act (x >>= next) (changes ++ more) := by
  intro v
  refine (first v).bind ?_
  rintro a _ _ ⟨rfl, rfl⟩
  refine (second a _).imp ?_
  rintro _ _ _ ⟨rfl, rfl⟩
  exact ⟨rfl, (List.foldl_append).symm⟩

theorem Makes.returning {next : α → β} (first : Makes env i view act x changes) :
    Makes env i view act (x >>= fun a => pure (next a)) changes := by
  have whole := first.followed fun a => makes_pure (next a)
  rwa [List.append_nil] at whole

theorem makes_forM {f : γ → Attempt σ ε Unit} {changes : γ → List Change} (items : List γ)
    (each : ∀ item ∈ items, Makes env i view act (f item) (changes item)) :
    Makes env i view act (items.forM f) (items.flatMap changes) := by
  induction items with
  | nil => exact makes_pure ()
  | cons item rest ih =>
      obtain ⟨first, others⟩ := List.forall_mem_cons.1 each
      exact first.followed fun _ => ih others

end

/-! ### Attempts that may fail -/

section

variable {act : W → Change → W} {x : Attempt σ ε α} {good better : Prop}
    {changes more : List Change}

theorem Makes.tries (makes : Makes env i view act x changes) :
    Tries env i view act x True changes :=
  fun v => Attains.imp (makes v) fun ⟨a, same, made, shows⟩ =>
    Or.inl ⟨trivial, ⟨a, same⟩, made, shows⟩

theorem Tries.imp (tries : Tries env i view act x good changes) (same : good ↔ better) :
    Tries env i view act x better changes := by
  rwa [← propext same]

theorem Tries.followed {next : α → Attempt σ ε β} (first : Tries env i view act x good changes)
    (second : ∀ a, Tries env i view act (next a) better more) :
    Tries env i view act (x >>= next) (good ∧ better) (changes ++ more) := by
  intro v
  refine Attains.bind (first v) ?_ ?_
  · rintro a w made (⟨here, -, rfl, rfl⟩ | ⟨-, _, ⟨⟩⟩)
    refine (second a _).imp ?_
    rintro r w made (⟨there, ended, rfl, rfl⟩ | ⟨bad, failed⟩)
    · exact Or.inl ⟨⟨here, there⟩, ended, rfl, List.foldl_append.symm⟩
    · exact Or.inr ⟨fun both => bad both.2, failed⟩
  · rintro e w made (⟨-, ⟨_, ⟨⟩⟩, -⟩ | ⟨bad, -⟩)
    exact Or.inr ⟨fun both => bad both.1, e, rfl⟩

theorem Tries.returning (first : Tries env i view act x good changes) (next : α → β) :
    Tries env i view act (x >>= fun a => pure (next a)) good changes := by
  have whole := first.followed fun a => (makes_pure (next a)).tries
  rw [List.append_nil] at whole
  exact whole.imp (and_iff_left trivial)

theorem tries_checked {κ : Type} [Coe κ EngineError] {r : Except κ α} {a : α}
    {next : α → Attempt σ ε β} (holds : good → r = .ok a) (fails : ¬good → ∃ e, r = .error e)
    (second : Tries env i view act (next a) better changes) :
    Tries env i view act (Attempt.ofResult r >>= next) (good ∧ better) changes := by
  intro v
  by_cases here : good
  · refine Attains.checked (holds here) ((second v).imp ?_)
    rintro r w made (⟨there, ended⟩ | ⟨bad, failed⟩)
    · exact Or.inl ⟨⟨here, there⟩, ended⟩
    · exact Or.inr ⟨fun both => bad both.2, failed⟩
  · obtain ⟨e, failed⟩ := fails here
    exact attains_unchecked failed (Or.inr ⟨fun both => here both.1, e, rfl⟩)

theorem tries_foldlM {f : β → γ → Attempt σ ε β} {good : γ → Prop} {changes : γ → List Change}
    (items : List γ)
    (each : ∀ item ∈ items, ∀ b, Tries env i view act (f b item) (good item) (changes item))
    (b : β) :
    Tries env i view act (items.foldlM f b) (∀ item ∈ items, good item)
      (items.flatMap changes) := by
  induction items generalizing b with
  | nil => exact (makes_pure b).tries.imp (by simp)
  | cons item rest ih =>
      obtain ⟨first, others⟩ := List.forall_mem_cons.1 each
      rw [List.foldlM_cons]
      exact ((first b).followed (ih others)).imp List.forall_mem_cons.symm

end

/-! ### Units of work -/

/-- Beginning and committing succeed, and change nothing that is viewed. -/
structure Transacts (p : Provider σ) (view : σ → W) : Prop where
  begins : ∀ w, ∃ after, p.begin w = (.ok (), after) ∧ view after = view w
  commits : ∀ w, ∃ after, p.commit w = (.ok (), after) ∧ view after = view w

namespace Transacts

variable {s : State σ ε}

private theorem begun (transacts : Transacts (env.provider i) view) (s : State σ ε) :
    ∃ t opened, (Storage.begin env i : Attempt σ ε _).run.run s = (.ok t, opened) ∧ t.storage = i
      ∧ (∃ depth, (opened.coordinator i).active? = some ⟨t.id, depth⟩)
      ∧ opened.written i = s.written i ∧ view opened.outside = view s.outside := by
  have ran := Storage.run_begin env i s
  cases found : (s.coordinator i).active? with
  | some active =>
      obtain ⟨report, joined⟩ := Storage.run_join_open env found
      rw [joined] at ran
      refine ⟨_, _, ran, rfl, ⟨active.depth + 1, ?_⟩, State.written_reported _ _, rfl⟩
      rw [State.coordinator_reported, State.coordinator_assigned]
  | none =>
      obtain ⟨after, answered, same⟩ := transacts.begins s.outside
      rcases Storage.run_join_idle env found with ⟨report, -, opened⟩ | ⟨reason, refused, -⟩
      · rw [opened] at ran
        refine ⟨_, _, ran, rfl, ⟨1, ?_⟩, ?_, ?_⟩
        · rw [State.coordinator_reported, State.coordinator_assigned]
        · rw [State.written_reported]
          exact (State.written_called s _ _).trans (List.append_nil _)
        · show view ((env.provider i).begin s.outside).2 = _
          rw [answered, same]
      · rw [answered] at refused
        cases refused

private theorem closed (transacts : Transacts (env.provider i) view) {t : Transaction}
    (here : t.storage = i)
    {depth : Nat} (active : (s.coordinator i).active? = some ⟨t.id, depth⟩) (a : α) :
    ∃ after, (t.close env (.ok a) : Engine σ ε (Outcome α)).run s = (.ok a, after)
      ∧ after.written i = s.written i ∧ view after.outside = view s.outside := by
  subst here
  by_cases others : 1 < depth
  · exact ⟨_, Transaction.run_close_ok rfl (by simp)
      (Storage.run_commitId_pending env active others),
      rfl, rfl⟩
  · obtain ⟨after, answered, same⟩ := transacts.commits s.outside
    obtain ⟨reply, report, ran, -, committed⟩ :=
      Storage.run_commitId_given env active (Nat.not_lt.1 others)
    have told : reply = .ok .committed := committed (by rw [answered]; rfl)
    subst told
    refine ⟨_, Transaction.run_close_ok rfl (by simp) ran, ?_, ?_⟩
    · rw [State.written_reported]
      exact (State.written_called _ _ _).trans (List.append_nil _)
    · show view ((env.provider t.storage).commit s.outside).2 = _
      rw [answered, same]

private theorem close_error (t : Transaction) (e : EngineError) (s : State σ ε) :
    ((t.close env (.ofError e) : Engine σ ε (Outcome α)).run s).1.isSuccess = false := by
  unfold Transaction.close
  rw [if_neg (by rintro ⟨⟩), Engine.run_bind]
  cases ((t.rollback env).run s).1 <;> rfl

/-- A unit of work that succeeds has an action that succeeded. -/
theorem unit_attains {x : Attempt σ ε α} {gives : Except EngineError α → W → List Change → Prop}
    (transacts : Transacts (env.provider i) view) (attains : Attains env i view x v gives)
    (s : State σ ε) (here : view s.outside = v) :
    (∃ a after made, (Storage.runInsideTransaction env i x.outcome).run s = (.ok a, after)
        ∧ Sent (Storage.dialect env i) i made s after ∧ gives (.ok a) (view after.outside) made)
      ∨ ((Storage.runInsideTransaction env i x.outcome).run s).1.isSuccess = false
        ∧ ∃ e w made, gives (.error e) w made := by
  obtain ⟨t, opened, begun, here', ⟨depth, active⟩, quiet, same⟩ := transacts.begun s
  obtain ⟨r, ended, made, ran, coordinator, sent, given⟩ := attains opened (same.trans here)
  have unit : (Storage.runInsideTransaction env i x.outcome).run s =
      (t.close env (.ofExcept r)).run ended := by
    rw [Storage.run_unit, begun]
    dsimp only
    rw [Attempt.outcome_run ran]
  rw [unit]
  cases r with
  | ok a =>
      obtain ⟨after, closed, quiet', same'⟩ := transacts.closed here' (coordinator ▸ active) a
      exact Or.inl ⟨a, after, made, closed, (Sent.after_quiet quiet sent).quietly quiet',
        by rw [same']; exact given⟩
  | error e => exact Or.inr ⟨close_error t e ended, e, _, made, given⟩

theorem unit_achieves {x : Attempt σ ε α} {gives : α → W → List Change → Prop}
    (transacts : Transacts (env.provider i) view) (achieves : Achieves env i view x v gives)
    (s : State σ ε) (here : view s.outside = v) :
    ∃ a after made, (Storage.runInsideTransaction env i x.outcome).run s = (.ok a, after)
      ∧ Sent (Storage.dialect env i) i made s after ∧ gives a (view after.outside) made := by
  rcases transacts.unit_attains achieves s here with
    ⟨a, after, made, ran, sent, _, ⟨⟩, given⟩ | ⟨-, _, _, _, _, ⟨⟩, -⟩
  exact ⟨a, after, made, ran, sent, given⟩

end Transacts

end EntityStore
