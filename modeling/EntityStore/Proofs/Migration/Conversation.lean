import EntityStore.Migration.Run
import EntityStore.Proofs.Engine.Course
import Mathlib.Data.List.Forall2

/-!
What a unit says to its participants. A run of a unit is a conversation: calls to participants, one
after the other, each with its answer, and nothing else in between but reports. The participants may
answer and do whatever they like, so each phase of a unit is described by the calls it makes.
-/

namespace EntityStore.Migration

variable {σ ε α β : Type}

/-- What a unit asks of a participant. -/
inductive Ask
  | can
  | beforeUp
  | apply (change : ModelChange)
  | save
  | afterUp (success : Bool)

namespace Ask

def isWork : Ask → Bool
  | beforeUp | apply _ | save => true
  | can | afterUp _ => false

def isApply : Ask → Bool
  | apply _ => true
  | _ => false

def isSave : Ask → Bool
  | save => true
  | _ => false

def isAfterUp : Ask → Bool
  | afterUp _ => true
  | _ => false

def brackets : Ask → Bool
  | beforeUp | afterUp _ => true
  | can | apply _ | save => false

theorem isApply_iff {a : Ask} : a.isApply = true ↔ ∃ change, a = .apply change := by
  cases a <;> simp [isApply]

theorem isSave_iff {a : Ask} : a.isSave = true ↔ a = .save := by
  cases a <;> simp [isSave]

def affirmed (a : Attempt σ ε Unit) : Attempt σ ε Bool := do
  a
  return true

def of (unitName : String) (slot : Slot σ ε) : Ask → Attempt σ ε Bool
  | can => slot.can unitName
  | beforeUp => affirmed slot.beforeUp
  | apply change => affirmed (slot.apply change)
  | save => affirmed (slot.save unitName)
  | afterUp success => affirmed (slot.afterUp success)

theorem affirmed_run (a : Attempt σ ε Unit) (s : State σ ε) :
    (affirmed a).run.run s = ((a.run.run s).1.map fun _ => true, (a.run.run s).2) := by
  cases ran : a.run.run s with
  | mk result after =>
      cases result with
      | ok _ => exact Attempt.run_bind_ok ran
      | error e => exact Attempt.run_bind_error ran

end Ask

def Ask.own (unitName : String) (p : Provider σ ε) : Ask → Attempt σ ε Bool
  | can => p.can unitName
  | beforeUp => affirmed p.beforeUp
  | apply change => affirmed (p.apply change)
  | save => affirmed (p.save unitName)
  | afterUp success => affirmed (p.afterUp success)

theorem Ask.affirmed_ok {a : Attempt σ ε Unit} {s after : State σ ε} {b : Bool}
    (ran : (affirmed a).run.run s = (.ok b, after)) : a.run.run s = (.ok (), after) := by
  rw [affirmed_run] at ran
  cases found : a.run.run s with
  | mk result state =>
      rw [found] at ran
      cases result with
      | ok _ =>
          cases ran
          rfl
      | error e => cases ran

def Ask.call (unitName : String) : Ask → UnitCall
  | can => .can unitName
  | beforeUp => .beforeUp
  | apply change => .apply change.path
  | save => .save unitName
  | afterUp success => .afterUp success

/-- A call does what the provider does, and is recorded. -/
theorem Ask.of_eq (ask : Ask) (unitName : String) (slot : Slot σ ε) :
    (ask.of unitName slot).run = (do
      let result ← (ask.own unitName slot.provider).run
      Engine.record (.unitCall slot.storage (ask.call unitName) result.isOk)
      return result : Engine σ ε _) := by
  have plain (c : UnitCall) (a : Attempt σ ε Unit) : (affirmed (slot.call c a)).run = (do
      let result ← (affirmed a).run
      Engine.record (.unitCall slot.storage c result.isOk)
      return result : Engine σ ε _) := by
    funext s
    change (affirmed (slot.call c a)).run.run s = _
    rw [affirmed_run]
    change _ = (((affirmed a).run.run s).1, ((affirmed a).run.run s).2.recorded
      (.unitCall slot.storage c ((affirmed a).run.run s).1.isOk))
    have called : (slot.call c a).run.run s = ((a.run.run s).1,
      (a.run.run s).2.recorded (.unitCall slot.storage c (a.run.run s).1.isOk)) := rfl
    rw [affirmed_run, called]
    cases (a.run.run s).1 <;> rfl
  cases ask with
  | can => rfl
  | beforeUp => exact plain .beforeUp slot.provider.beforeUp
  | apply change => exact plain (.apply change.path) (slot.provider.apply change)
  | save => exact plain (.save unitName) (slot.provider.save unitName)
  | afterUp success => exact plain (.afterUp success) (slot.provider.afterUp success)

theorem Ask.own_ran {ask : Ask} {unitName : String} {slot : Slot σ ε} {s after : State σ ε}
    {result : Except EngineError Bool}
    (ran : (ask.of unitName slot).run.run s = (result, after)) :
    ∃ done e, Event.isCall e = false ∧
      (ask.own unitName slot.provider).run.run s = (result, done) ∧ after = done.recorded e := by
  rw [of_eq] at ran
  have answered : ((ask.own unitName slot.provider).run.run s).1 = result :=
    congrArg Prod.fst ran
  have left : ((ask.own unitName slot.provider).run.run s).2.recorded (.unitCall slot.storage
      (ask.call unitName) ((ask.own unitName slot.provider).run.run s).1.isOk) = after :=
    congrArg Prod.snd ran
  exact ⟨_, .unitCall _ _ _, rfl, Prod.ext answered rfl, left.symm⟩

theorem Ask.tries_of {M : Manner σ ε} {ask : Ask} {unitName : String} {slot : Slot σ ε}
    (own : M.Tries (ask.own unitName slot.provider))
    (records : ∀ e : Event, e.isCall = false → M.Follows (Engine.record e)) :
    M.Tries (ask.of unitName slot) := by
  rw [Manner.Tries, of_eq]
  exact Manner.Follows.bind own fun _ =>
    Manner.Follows.bind (records (.unitCall _ _ _) rfl) fun _ => M.follows_pure _

/-- A call to a participant, known by its place among them, with the answer and the states before
and after. -/
structure Exchange (σ ε : Type) where
  who : Nat
  ask : Ask
  answer : Except EngineError Bool
  before : State σ ε
  after : State σ ε

namespace Exchange

def succeeded (x : Exchange σ ε) : Bool :=
  match x.answer with
  | .ok answer => answer
  | .error _ => false

theorem succeeded_iff {x : Exchange σ ε} : x.succeeded = true ↔ x.answer = .ok true := by
  rw [succeeded]
  cases x.answer with
  | ok b => simp
  | error e => simp

/-- The participant `who` is asked this. -/
def Is (who : Nat) (ask : Ask) (x : Exchange σ ε) : Prop :=
  x.who = who ∧ x.ask = ask

end Exchange

/-- From one state to another with exactly these calls to participants, in this order. -/
inductive Conversation (ps : List (Slot σ ε)) (unitName : String) :
    State σ ε → List (Exchange σ ε) → State σ ε → Prop
  | done (s : State σ ε) : Conversation ps unitName s [] s
  | reported {s after : State σ ε} {said : List (Exchange σ ε)} (t : Trace)
      (rest : Conversation ps unitName (s.reported t) said after) :
      Conversation ps unitName s said after
  | asked (x : Exchange σ ε) {slot : Slot σ ε} {after : State σ ε} {said : List (Exchange σ ε)}
      (here : ps[x.who]? = some slot)
      (ran : (x.ask.of unitName slot).run.run x.before = (x.answer, x.after))
      (rest : Conversation ps unitName x.after said after) :
      Conversation ps unitName x.before (x :: said) after

def Once (wanted : Exchange σ ε → Prop) (said : List (Exchange σ ε))
    (answer : Except EngineError Bool) : Prop :=
  ∃ x, said = [x] ∧ wanted x ∧ x.answer = answer

section

variable {ps : List (Slot σ ε)} {unitName : String}

theorem who_of_storage (distinct : (ps.map Slot.storage).Nodup) {who other : Nat}
    {slot slot' : Slot σ ε} (here : ps[who]? = some slot) (there : ps[other]? = some slot')
    (same : slot'.storage = slot.storage) : other = who := by
  obtain ⟨inside, _⟩ := List.getElem?_eq_some_iff.1 there
  refine (List.getElem?_inj (by rwa [List.length_map]) distinct).1 ?_
  rw [List.getElem?_map, List.getElem?_map, there, here, Option.map_some, Option.map_some, same]

theorem Conversation.trans {s middle after : State σ ε} {first second : List (Exchange σ ε)}
    (begun : Conversation ps unitName s first middle)
    (ended : Conversation ps unitName middle second after) :
    Conversation ps unitName s (first ++ second) after := by
  induction begun with
  | done s => exact ended
  | reported t rest ih => exact .reported t (ih ended)
  | asked x here ran rest ih => exact .asked x here ran (ih ended)

theorem Conversation.single {who : Nat} {slot : Slot σ ε} (here : ps[who]? = some slot) (ask : Ask)
    (s : State σ ε) :
    Conversation ps unitName s
      [⟨who, ask, ((ask.of unitName slot).run.run s).1, s, ((ask.of unitName slot).run.run s).2⟩]
      ((ask.of unitName slot).run.run s).2 :=
  .asked ⟨who, ask, _, s, _⟩ here rfl (.done _)

/-- What is known of a conversation whose first call is `x`. -/
theorem Conversation.of_cons {s after : State σ ε} {x : Exchange σ ε} {said : List (Exchange σ ε)}
    (talk : Conversation ps unitName s (x :: said) after) :
    Conversation ps unitName s [] x.before ∧
      (∃ slot, ps[x.who]? = some slot ∧
        (x.ask.of unitName slot).run.run x.before = (x.answer, x.after)) ∧
      Conversation ps unitName x.after said after := by
  generalize whole : x :: said = all at talk
  induction talk with
  | done s => cases whole
  | reported t rest ih =>
      obtain ⟨begun, ran, ended⟩ := ih whole
      exact ⟨.reported t begun, ran, ended⟩
  | asked y here ran rest ih =>
      cases whole
      exact ⟨.done _, ⟨_, here, ran⟩, rest⟩

theorem Exchange.Is.ran {who : Nat} {ask : Ask} {x : Exchange σ ε} {slot : Slot σ ε}
    (is : x.Is who ask) (here : ps[who]? = some slot)
    (ran : ∃ slot', ps[x.who]? = some slot' ∧
      (x.ask.of unitName slot').run.run x.before = (x.answer, x.after)) :
    (ask.of unitName slot).run.run x.before = (x.answer, x.after) := by
  obtain ⟨rfl, rfl⟩ := is
  obtain ⟨slot', there, ran⟩ := ran
  cases here.symm.trans there
  exact ran

private theorem Conversation.of_append {s after : State σ ε} {first second : List (Exchange σ ε)}
    (talk : Conversation ps unitName s (first ++ second) after) :
    ∃ middle, Conversation ps unitName s first middle ∧
      Conversation ps unitName middle second after := by
  induction first generalizing s with
  | nil => exact ⟨s, .done s, talk⟩
  | cons x rest ih =>
      obtain ⟨begun, ⟨slot, here, ran⟩, ended⟩ := talk.of_cons
      obtain ⟨middle, first, second⟩ := ih ended
      exact ⟨middle, begun.trans (.asked x here ran first), second⟩

theorem Conversation.around {s after : State σ ε} {x : Exchange σ ε}
    {earlier later : List (Exchange σ ε)}
    (talk : Conversation ps unitName s (earlier ++ x :: later) after) :
    Conversation ps unitName s earlier x.before ∧
      (∃ slot, ps[x.who]? = some slot ∧
        (x.ask.of unitName slot).run.run x.before = (x.answer, x.after)) ∧
      Conversation ps unitName x.after later after := by
  obtain ⟨middle, first, rest⟩ := talk.of_append
  obtain ⟨reached, ran, last⟩ := rest.of_cons
  have arriving := first.trans reached
  rw [List.append_nil] at arriving
  exact ⟨arriving, ran, last⟩

theorem Conversation.leads {R : Route σ ε} (reports : ∀ s t, R.leads s (s.reported t))
    {s after : State σ ε} {said : List (Exchange σ ε)}
    (talk : Conversation ps unitName s said after)
    (each : ∀ x ∈ said, ∀ slot, ps[x.who]? = some slot →
      (x.ask.of unitName slot).run.run x.before = (x.answer, x.after) →
        R.leads x.before x.after) :
    R.leads s after := by
  induction talk with
  | done s => exact R.refl s
  | reported t rest ih => exact R.trans (reports _ t) (ih each)
  | asked x here ran rest ih =>
      obtain ⟨first, others⟩ := List.forall_mem_cons.1 each
      exact R.trans (first _ here ran) (ih others)

variable (ps unitName)

def Converses (c : Engine σ ε α) (fits : List (Exchange σ ε) → α → Prop) : Prop :=
  ∀ s, ∃ said, Conversation ps unitName s said (c.run s).2 ∧ fits said (c.run s).1

variable {ps unitName}

namespace Converses

variable {fits : List (Exchange σ ε) → α → Prop}

theorem pure {a : α} (fit : fits [] a) : Converses ps unitName (Pure.pure a) fits :=
  fun s => ⟨[], .done s, fit⟩

theorem weaken {c : Engine σ ε α} {wider : List (Exchange σ ε) → α → Prop}
    (speaks : Converses ps unitName c fits) (leads : ∀ said a, fits said a → wider said a) :
    Converses ps unitName c wider := by
  intro s
  obtain ⟨said, conversation, fit⟩ := speaks s
  exact ⟨said, conversation, leads _ _ fit⟩

theorem bind {c : Engine σ ε α} {next : α → Engine σ ε β}
    {wider : List (Exchange σ ε) → β → Prop} (first : Converses ps unitName c fits)
    (second : ∀ said a, fits said a →
      Converses ps unitName (next a) fun more b => wider (said ++ more) b) :
    Converses ps unitName (c >>= next) wider := by
  intro s
  obtain ⟨said, begun, fit⟩ := first s
  obtain ⟨more, ended, fit⟩ := second said _ fit (c.run s).2
  exact ⟨said ++ more, begun.trans ended, fit⟩

theorem tryBind {x : Attempt σ ε α} {next : α → Attempt σ ε β}
    {fits : List (Exchange σ ε) → Except EngineError α → Prop}
    {wider : List (Exchange σ ε) → Except EngineError β → Prop}
    (first : Converses ps unitName x.run fits)
    (second : ∀ said a, fits said (.ok a) →
      Converses ps unitName (next a).run fun more r => wider (said ++ more) r)
    (failed : ∀ said e, fits said (.error e) → wider said (.error e)) :
    Converses ps unitName (x >>= next).run wider := by
  have continued (said : List (Exchange σ ε)) (r : Except EngineError α) (fit : fits said r) :
      Converses ps unitName (ExceptT.bindCont next r) fun more r => wider (said ++ more) r := by
    cases r with
    | ok a => exact second said a fit
    | error e => exact Converses.pure (by simpa using failed said e fit)
  exact Converses.bind first continued

theorem lift {c : Engine σ ε α} (speaks : Converses ps unitName c fits) :
    Converses ps unitName (Attempt.lift c : Attempt σ ε α).run
      fun said r => ∃ a, r = .ok a ∧ fits said a := by
  intro s
  obtain ⟨said, conversation, fit⟩ := speaks s
  exact ⟨said, conversation, _, rfl, fit⟩

theorem trace {next : Unit → Attempt σ ε β}
    {wider : List (Exchange σ ε) → Except EngineError β → Prop} {level : TraceLevel}
    {target : TraceTarget} {message : String} {fields : List (String × TraceField)}
    (second : Converses ps unitName (next ()).run wider) :
    Converses ps unitName (Attempt.trace level target message fields >>= next).run wider := by
  intro s
  obtain ⟨said, conversation, fit⟩ := second (s.reported ⟨level, target, message, fields⟩)
  exact ⟨said, .reported _ conversation, fit⟩

theorem asks {who : Nat} {slot : Slot σ ε} (here : ps[who]? = some slot) (ask : Ask) :
    Converses ps unitName (ask.of unitName slot).run (Once (Exchange.Is who ask)) :=
  fun s => ⟨_, .single here ask s, _, rfl, ⟨rfl, rfl⟩, rfl⟩

theorem tells {who : Nat} {slot : Slot σ ε} (here : ps[who]? = some slot) (ask : Ask)
    {a : Attempt σ ε Unit} (plain : ask.of unitName slot = Ask.affirmed a) :
    Converses ps unitName a.run fun said r =>
      Once (Exchange.Is who ask) said (r.map fun _ => true) := by
  intro s
  have speaks : Converses ps unitName _ _ := asks here ask
  obtain ⟨said, conversation, fit⟩ := speaks s
  rw [plain, Ask.affirmed_run] at conversation fit
  exact ⟨said, conversation, fit⟩

end Converses

/-! ### Calls in a row -/

/-- Calls made one after the other, each as wanted, up to the first that fails; `complete` tells
whether none has. -/
inductive Asked : List (Exchange σ ε → Prop) → List (Exchange σ ε) → Bool → Prop
  | done : Asked [] [] true
  | failed {wanted : Exchange σ ε → Prop} {rest : List (Exchange σ ε → Prop)} {x : Exchange σ ε}
      (here : wanted x) (failed : x.succeeded = false) : Asked (wanted :: rest) [x] false
  | went {wanted : Exchange σ ε → Prop} {rest : List (Exchange σ ε → Prop)} {x : Exchange σ ε}
      {said : List (Exchange σ ε)} {complete : Bool} (here : wanted x)
      (succeeded : x.succeeded = true) (others : Asked rest said complete) :
      Asked (wanted :: rest) (x :: said) complete

namespace Asked

variable {wanted : List (Exchange σ ε → Prop)} {said : List (Exchange σ ε)} {complete : Bool}

theorem matched (asked : Asked wanted said complete) :
    List.Forall₂ (fun want x => want x) (wanted.take said.length) said := by
  induction asked with
  | done => exact .nil
  | failed here failed => exact .cons here .nil
  | went here succeeded others ih => exact .cons here ih

private theorem length_le (asked : Asked wanted said complete) : said.length ≤ wanted.length := by
  have length := asked.matched.length_eq
  rw [List.length_take] at length
  omega

theorem all (asked : Asked wanted said complete) (whole : complete = true) :
    said.length = wanted.length ∧ ∀ x ∈ said, x.succeeded = true := by
  induction asked with
  | done => exact ⟨rfl, by simp⟩
  | failed here failed => cases whole
  | went here succeeded others ih =>
      obtain ⟨length, all⟩ := ih whole
      exact ⟨congrArg Nat.succ length, List.forall_mem_cons.2 ⟨succeeded, all⟩⟩

theorem last (asked : Asked wanted said complete) (broken : complete = false) :
    ∃ fine x, said = fine ++ [x] ∧ (∀ y ∈ fine, y.succeeded = true) ∧ x.succeeded = false := by
  induction asked with
  | done => cases broken
  | failed here failed => exact ⟨[], _, rfl, by simp, failed⟩
  | went here succeeded others ih =>
      obtain ⟨fine, x, rfl, all, failed⟩ := ih broken
      exact ⟨_ :: fine, x, rfl, List.forall_mem_cons.2 ⟨succeeded, all⟩, failed⟩

private theorem append {others : List (Exchange σ ε → Prop)} {more : List (Exchange σ ε)}
    {ended : Bool}
    (first : Asked wanted said complete) (whole : complete = true)
    (second : Asked others more ended) : Asked (wanted ++ others) (said ++ more) ended := by
  induction first with
  | done => exact second
  | failed here failed => cases whole
  | went here succeeded _ ih => exact .went here succeeded (ih whole)

private theorem stops (first : Asked wanted said complete) (broken : complete = false)
    (others : List (Exchange σ ε → Prop)) : Asked (wanted ++ others) said false := by
  induction first with
  | done => cases broken
  | failed here failed => exact .failed here failed
  | went here succeeded _ ih => exact .went here succeeded (ih broken)

private theorem both {P : Exchange σ ε → Prop}
    (asked : Asked (wanted.map fun want x => want x ∧ P x) said complete) :
    Asked wanted said complete ∧ ∀ x ∈ said, P x := by
  induction wanted generalizing said with
  | nil =>
      cases asked
      exact ⟨.done, by simp⟩
  | cons want rest ih =>
      cases asked with
      | failed here failed => exact ⟨.failed here.1 failed, List.forall_mem_singleton.2 here.2⟩
      | went here succeeded others =>
          obtain ⟨asked, all⟩ := ih others
          exact ⟨.went here.1 succeeded asked, List.forall_mem_cons.2 ⟨here.2, all⟩⟩

theorem split {first second : List (Exchange σ ε → Prop)}
    (asked : Asked (first ++ second) said complete) :
    Asked first said false ∧ complete = false ∨
      ∃ before more, said = before ++ more ∧ Asked first before true ∧
        Asked second more complete := by
  induction first generalizing said with
  | nil => exact .inr ⟨[], said, rfl, .done, asked⟩
  | cons want rest ih =>
      cases asked with
      | failed here failed => exact .inl ⟨.failed here failed, rfl⟩
      | went here succeeded others =>
          rcases ih others with ⟨stopped, same⟩ | ⟨before, more, rfl, first, later⟩
          · exact .inl ⟨.went here succeeded stopped, same⟩
          · exact .inr ⟨_ :: before, more, rfl, .went here succeeded first, later⟩

end Asked

def turns (ask : Ask) (k n : Nat) : List (Exchange σ ε → Prop) :=
  (List.range' k n).map (Exchange.Is · ask)

/-- Calls that are made in turn come from the participants in their order. -/
theorem whos_of_turns {ask : Ask} {k n : Nat} {said : List (Exchange σ ε)}
    (matched : List.Forall₂ (fun want x => want x) ((turns ask k n).take said.length) said) :
    (∀ x ∈ said, x.ask = ask) ∧ said.map Exchange.who = List.range' k said.length := by
  induction n generalizing k said with
  | zero =>
      cases said with
      | nil => exact ⟨by simp, rfl⟩
      | cons x rest => cases matched
  | succ n ih =>
      cases said with
      | nil => exact ⟨by simp, rfl⟩
      | cons x rest =>
          obtain ⟨here, others⟩ := List.forall₂_cons.1 matched
          obtain ⟨asks, whos⟩ := ih others
          exact ⟨List.forall_mem_cons.2 ⟨here.2, asks⟩,
            by rw [List.map_cons, whos, here.1]; rfl⟩

theorem whos_of_fine {ask : Ask} {k n : Nat} {said : List (Exchange σ ε)} {complete : Bool}
    (asked : Asked (turns ask k n) said complete) :
    (said.filter Exchange.succeeded).map Exchange.who =
      List.range' k (said.countP Exchange.succeeded) := by
  induction n generalizing k said with
  | zero =>
      cases asked
      rfl
  | succ n ih =>
      cases asked with
      | failed here failed => simp [failed]
      | went here succeeded others =>
          simp [succeeded, here.1, ih others, List.range'_succ]

variable {slots : List (Slot σ ε)} {k : Nat}

theorem drop_cons {slot : Slot σ ε} (here : ps.drop k = slot :: slots) :
    ps[k]? = some slot ∧ ps.drop (k + 1) = slots := by
  constructor
  · rw [← List.head?_drop, here]
    rfl
  · rw [← List.tail_drop, here]
    rfl

private theorem turns_forall₂ (ask : Ask) (here : ps.drop k = slots) :
    List.Forall₂ (fun slot want => ∃ who, ps[who]? = some slot ∧ want = Exchange.Is who ask)
      slots (turns (σ := σ) (ε := ε) ask k slots.length) := by
  induction slots generalizing k with
  | nil => exact .nil
  | cons slot rest ih =>
      obtain ⟨first, others⟩ := drop_cons here
      exact .cons ⟨k, first, rfl⟩ (ih others)

/-- A loop that makes one call in each round makes calls in a row. -/
theorem Converses.forM {γ : Type} {f : γ → Attempt σ ε PUnit} {items : List γ}
    {wanted : List (Exchange σ ε → Prop)}
    (each : List.Forall₂ (fun item want => Converses ps unitName (f item).run
      fun said r => Once want said (r.map fun _ => true)) items wanted) :
    Converses ps unitName (items.forM f).run fun said r => Asked wanted said r.isOk := by
  induction each with
  | nil => exact .pure .done
  | cons first others ih =>
      refine .tryBind first ?_ ?_
      · rintro said _ ⟨x, rfl, here, answer⟩
        refine ih.weaken fun more r asked => .went here ?_ asked
        rw [Exchange.succeeded, answer]
        rfl
      · rintro said e ⟨x, rfl, here, answer⟩
        refine .failed here ?_
        rw [Exchange.succeeded, answer]
        rfl

/-! ### The phases of a unit -/

/-- The participants are asked whether they agree, up to the first that fails. -/
theorem converses_can (here : ps.drop k = slots) :
    Converses ps unitName
      (slots.mapM fun slot => slot.can unitName : Attempt σ ε (List Bool)).run fun said r =>
      (∀ x ∈ said, x.ask = .can) ∧ ∀ answers, r = .ok answers →
        said.map Exchange.who = List.range' k slots.length ∧
        said.map Exchange.answer = answers.map .ok := by
  induction slots generalizing k with
  | nil =>
      rw [List.mapM_nil]
      exact .pure ⟨by simp, fun answers same => by cases same; exact ⟨rfl, rfl⟩⟩
  | cons slot rest ih =>
      obtain ⟨first, others⟩ := drop_cons here
      rw [List.mapM_cons]
      refine .tryBind (Converses.asks first .can) ?_ ?_
      · rintro said answer ⟨x, rfl, ⟨who, ask⟩, same⟩
        refine .tryBind (ih others) ?_ ?_
        · rintro more answers ⟨asks, found⟩
          obtain ⟨whos, told⟩ := found answers rfl
          refine .pure ⟨by simpa [ask] using asks, fun all same' => ?_⟩
          cases same'
          simp [whos, told, who, same, List.range'_succ]
        · rintro more e ⟨asks, -⟩
          exact ⟨by simpa [ask] using asks, fun _ same' => by cases same'⟩
      · rintro said e ⟨x, rfl, ⟨who, ask⟩, same⟩
        exact ⟨by simpa using ask, fun _ same' => by cases same'⟩

/-- The unit is opened on the participants in turn. -/
theorem converses_openAll (here : ps.drop k = slots) :
    Converses ps unitName (Migrator.openAll slots) fun said r =>
      Asked (turns .beforeUp k slots.length) said r.2.isOk ∧
        r.1 = slots.take (said.countP Exchange.succeeded) := by
  induction slots generalizing k with
  | nil => exact .pure ⟨.done, rfl⟩
  | cons slot rest ih =>
      obtain ⟨first, others⟩ := drop_cons here
      refine .bind (Converses.tells first .beforeUp rfl) ?_
      rintro said r ⟨x, rfl, here, answer⟩
      cases r with
      | error e =>
          have failed : x.succeeded = false := by
            rw [Exchange.succeeded, answer]
            rfl
          exact .pure ⟨.failed here failed, by simp [failed]⟩
      | ok _ =>
          have succeeded : x.succeeded = true := by
            rw [Exchange.succeeded, answer]
            rfl
          refine .bind (ih others) ?_
          rintro more ⟨opened, result⟩ ⟨asked, same⟩
          refine .pure ⟨?_, ?_⟩
          · rw [List.append_nil]
            exact Asked.went here succeeded asked
          · simp only at same
            simp [succeeded, same]

/-- The unit is closed on all that it was opened on, whatever they answer. -/
theorem converses_closeAll (success : Bool) (here : slots <+: ps.drop k) :
    Converses ps unitName (Migrator.closeAll success slots) fun said r =>
      (∀ x ∈ said, x.ask = .afterUp success) ∧
        said.map Exchange.who = List.range' k slots.length ∧
        (r.isOk = true ↔ ∀ x ∈ said, x.succeeded = true) := by
  induction slots generalizing k with
  | nil => exact .pure ⟨by simp, rfl, by simp [Except.isOk, Except.toBool]⟩
  | cons slot rest ih =>
      obtain ⟨tail, whole⟩ := here
      obtain ⟨first, others⟩ := drop_cons whole.symm
      refine .bind (Converses.tells first (.afterUp success) rfl) ?_
      rintro said r ⟨x, rfl, ⟨who, ask⟩, answer⟩
      refine .bind (ih ⟨tail, others.symm⟩) ?_
      rintro more r' ⟨asks, whos, all⟩
      have asks' : ∀ y ∈ [x] ++ more, y.ask = .afterUp success :=
        List.forall_mem_cons.2 ⟨ask, asks⟩
      have whos' : ([x] ++ more).map Exchange.who = List.range' k (rest.length + 1) := by
        rw [List.range'_succ, ← whos, ← who]
        rfl
      cases r with
      | error e =>
          have failed : x.succeeded = false := by
            rw [Exchange.succeeded, answer]
            rfl
          refine .pure ⟨by simpa using asks', by simpa using whos', ?_⟩
          simp [Except.isOk, Except.toBool, failed]
      | ok _ =>
          have succeeded : x.succeeded = true := by
            rw [Exchange.succeeded, answer]
            rfl
          refine .pure ⟨by simpa using asks', by simpa using whos', ?_⟩
          simpa [succeeded] using all

/-- The participant at place `k` holds a model. -/
def HoldsAt (ps : List (Slot σ ε)) (s : State σ ε) (model : EntityModel) (k : Nat) : Prop :=
  ∃ slot, ps[k]? = some slot ∧ (s.models slot.storage).any (·.same model) = true

structure Chosen (ps : List (Slot σ ε)) (s : State σ ε) (model : EntityModel) (who : Nat) :
    Prop where
  holds : HoldsAt ps s model who ∨ who = 0 ∧ ∀ k, ¬ HoldsAt ps s model k
  first : ∀ k < who, ¬ HoldsAt ps s model k

theorem Chosen.unique {s : State σ ε} {model : EntityModel} {who other : Nat}
    (chosen : Chosen ps s model who) (chosen' : Chosen ps s model other) : who = other := by
  rcases chosen.holds with holds | ⟨rfl, nobody⟩
  · rcases chosen'.holds with holds' | ⟨-, nobody⟩
    · rcases Nat.lt_trichotomy who other with before | same | after
      · exact absurd holds (chosen'.first who before)
      · exact same
      · exact absurd holds' (chosen.first other after)
    · exact absurd holds (nobody who)
  · rcases chosen'.holds with holds' | ⟨rfl, -⟩
    · exact absurd holds' (nobody other)
    · rfl

/-- If the call applies a change, it is one of those pending, and it is asked of the participant
that is to make it as things stand. -/
def Exchange.Fits (ps : List (Slot σ ε)) (pending : List ModelChange) (x : Exchange σ ε) : Prop :=
  ∀ c, x.ask = .apply c → c ∈ pending ∧ Chosen ps x.before c.model x.who

theorem Exchange.fits_of_other {pending : List ModelChange} {x : Exchange σ ε}
    (other : x.ask.isApply = false) : x.Fits ps pending := by
  intro c ask
  rw [ask] at other
  cases other

private theorem exists_chosen (inhabited : ps ≠ []) (c : ModelChange) (s : State σ ε) :
    ∃ (who : Nat) (slot : Slot σ ε), ps[who]? = some slot ∧ Chosen ps s c.model who ∧
      (Migrator.slotFor ps c).run s = (some slot, s) := by
  let holds (slot : Slot σ ε) : Bool := (s.models slot.storage).any (·.same c.model)
  have asked : (Migrator.slotFor ps c).run s = ((ps.find? holds).or ps.head?, s) := rfl
  rw [asked]
  cases found : ps.find? holds with
  | some slot =>
      obtain ⟨held, who, inside, rfl, first⟩ := List.find?_eq_some_iff_getElem.1 found
      have here : ps[who]? = some ps[who] := List.getElem?_eq_getElem inside
      refine ⟨who, ps[who], here, ⟨.inl ⟨_, here, held⟩, fun k before => ?_⟩, rfl⟩
      rintro ⟨slot, there, other⟩
      obtain ⟨_, rfl⟩ := List.getElem?_eq_some_iff.1 there
      have missed := first k before
      rw [show holds ps[k] = true from other] at missed
      cases missed
  | none =>
      obtain ⟨slot, rest, rfl⟩ := List.exists_cons_of_ne_nil inhabited
      have nobody (k : Nat) : ¬ HoldsAt (slot :: rest) s c.model k := by
        rintro ⟨other, there, held⟩
        exact List.find?_eq_none.1 found other (List.mem_of_getElem? there) held
      exact ⟨0, slot, rfl, ⟨.inr ⟨rfl, nobody⟩, fun k _ => nobody k⟩, rfl⟩

/-- A model is applied by the participant that is to change it. -/
theorem converses_applyModel (inhabited : ps ≠ []) {pending : List ModelChange} {c : ModelChange}
    (member : c ∈ pending) :
    Converses ps unitName (Migrator.applyModel ps unitName c).run fun said r =>
      Once (fun x => x.ask = .apply c ∧ x.Fits ps pending) said (r.map fun _ => true) := by
  intro s
  obtain ⟨who, slot, here, chosen, found⟩ := exists_chosen inhabited c s
  have ran : (Attempt.lift (Migrator.slotFor ps c) : Attempt σ ε _).run.run s =
      (.ok (some slot), s) := by
    rw [Attempt.run_lift, found]
  have talk : Conversation ps unitName s _ _ := .single here (.apply c) s
  rw [show (Ask.apply c).of unitName slot = Ask.affirmed (slot.apply c) from rfl,
    Ask.affirmed_run] at talk
  rw [Migrator.applyModel, Attempt.run_bind_ok ran]
  refine ⟨_, talk, _, rfl, ⟨rfl, fun other ask => ?_⟩, rfl⟩
  cases ask
  exact ⟨member, chosen⟩

def applications (pending : List ModelChange) : List (Exchange σ ε → Prop) :=
  pending.map fun c x => x.ask = .apply c

private theorem converses_applyPlan (inhabited : ps ≠ []) (plan : Plan) :
    Converses ps unitName (Migrator.applyPlan ps unitName plan).run fun said r =>
      Asked (applications plan.pendingModels ++ turns .save 0 ps.length) said r.isOk ∧
        ∀ x ∈ said, x.Fits ps plan.pendingModels := by
  have applies : Converses ps unitName
      (plan.pendingModels.forM (Migrator.applyModel ps unitName)).run
      fun said r => Asked (applications plan.pendingModels) said r.isOk ∧
        ∀ x ∈ said, x.Fits ps plan.pendingModels := by
    refine (Converses.forM ?_).weaken fun said r asked => Asked.both asked
    rw [applications, List.map_map, List.forall₂_map_right_iff]
    exact List.forall₂_same.2 fun c member => converses_applyModel inhabited member
  have saves : Converses ps unitName
      (ps.forM fun slot => slot.save unitName : Attempt σ ε PUnit).run
      fun said r => Asked (turns .save 0 ps.length) said r.isOk := by
    refine Converses.forM ((turns_forall₂ .save List.drop_zero).imp ?_)
    rintro slot want ⟨who, here, rfl⟩
    exact Converses.tells here .save rfl
  refine .tryBind applies ?_ fun said e ⟨asked, fits⟩ => ⟨asked.stops rfl _, fits⟩
  rintro said _ ⟨asked, fits⟩
  refine saves.weaken fun more r others => ⟨asked.append rfl others, ?_⟩
  refine List.forall_mem_append.2 ⟨fits, fun x member => Exchange.fits_of_other ?_⟩
  rw [(whos_of_turns others.matched).1 x member]
  rfl

/-- How a unit is carried out on `n` participants: it is opened on them in turn; once it is open on
all, the changes are applied and the unit is saved by all in turn; in the end it is closed on those
that it was opened on, as complete if everything before has succeeded. -/
structure Carried (n : Nat) (pending : List ModelChange) (opens work closes : List (Exchange σ ε))
    (complete : Bool) (ok : Bool) : Prop where
  worked : ∃ opened, Asked (turns .beforeUp 0 n) opens opened ∧
    if opened then Asked (applications pending ++ turns .save 0 n) work complete
    else work = [] ∧ complete = false
  asks (x : Exchange σ ε) (member : x ∈ closes) : x.ask = .afterUp complete
  whos : closes.map Exchange.who = List.range' 0 (opens.countP Exchange.succeeded)
  result : ok = true ↔ complete = true ∧ ∀ x ∈ closes, x.succeeded = true

/-- What is left to do once the work of a unit is over. -/
theorem converses_close (plan : Plan) {opens : List (Exchange σ ε)} {opened : Bool}
    (work : List (Exchange σ ε)) (result : Except EngineError Unit)
    (asked : Asked (turns .beforeUp 0 ps.length) opens opened)
    (worked : if opened then
        Asked (applications plan.pendingModels ++ turns .save 0 ps.length) work result.isOk
      else work = [] ∧ result.isOk = false) :
    Converses ps unitName (do
      let closing ← Attempt.lift
        (Migrator.closeAll result.isOk (ps.take (opens.countP Exchange.succeeded)))
      Attempt.ofExcept result
      Attempt.ofExcept closing : Attempt σ ε Unit).run fun closes r =>
        Carried ps.length plan.pendingModels opens work closes result.isOk r.isOk := by
  have counted : (ps.take (opens.countP Exchange.succeeded)).length =
      opens.countP Exchange.succeeded := by
    have few := asked.length_le
    have fine := List.countP_le_length (p := Exchange.succeeded) (l := opens)
    rw [turns, List.length_map, List.length_range'] at few
    rw [List.length_take]
    omega
  have prefixed : ps.take (opens.countP Exchange.succeeded) <+: ps.drop 0 :=
    List.take_prefix _ _
  refine .tryBind (converses_closeAll result.isOk prefixed).lift ?_
    (by rintro _ _ ⟨_, same, -⟩; cases same)
  rintro closes closing ⟨_, same, asks, whos, closed⟩
  cases same
  intro s
  have carried (r : Except EngineError Unit)
      (result' : r.isOk = true ↔ result.isOk = true ∧ ∀ x ∈ closes, x.succeeded = true) :
      Carried ps.length plan.pendingModels opens work (closes ++ []) result.isOk r.isOk := by
    rw [List.append_nil]
    exact ⟨⟨_, asked, worked⟩, asks, by rw [whos, counted], result'⟩
  cases result with
  | error e => exact ⟨[], .done s, carried (.error e) (by simp [Except.isOk, Except.toBool])⟩
  | ok _ =>
      have told : closing.isOk = true ↔ (Except.ok () : Except EngineError Unit).isOk = true ∧
          ∀ x ∈ closes, x.succeeded = true :=
        closed.trans ⟨fun all => ⟨rfl, all⟩, And.right⟩
      cases closing with
      | ok _ => exact ⟨[], .done s, carried (.ok ()) told⟩
      | error e => exact ⟨[], .done s, carried (.error e) told⟩

private theorem Carried.fits {n : Nat} {pending : List ModelChange}
    {opens work closes : List (Exchange σ ε)} {complete ok : Bool}
    (carried : Carried n pending opens work closes complete ok)
    (works : ∀ x ∈ work, x.Fits ps pending) :
    ∀ x ∈ opens ++ (work ++ closes), x.Fits ps pending := by
  obtain ⟨opened, asked, -⟩ := carried.worked
  refine List.forall_mem_append.2 ⟨fun x member => Exchange.fits_of_other ?_,
    List.forall_mem_append.2 ⟨works, fun x member => Exchange.fits_of_other ?_⟩⟩
  · rw [(whos_of_turns asked.matched).1 x member]
    rfl
  · rw [carried.asks x member]
    rfl

private theorem converses_runOn (inhabited : ps ≠ []) (plan : Plan) :
    Converses ps unitName (Migrator.runOn ps unitName plan).run fun said r =>
      ∃ opens work closes complete, said = opens ++ (work ++ closes) ∧
        Carried ps.length plan.pendingModels opens work closes complete r.isOk ∧
        ∀ x ∈ work, x.Fits ps plan.pendingModels := by
  refine .tryBind (converses_openAll List.drop_zero).lift ?_
    (by rintro _ _ ⟨_, same, -⟩; cases same)
  rintro opens a ⟨_, same, asked, openedOn⟩
  cases same
  obtain ⟨opened, openResult⟩ := a
  cases openedOn
  cases openResult with
  | error e =>
      refine (converses_close plan [] (.error e) asked ⟨rfl, rfl⟩).weaken ?_
      intro closes r carried
      exact ⟨opens, [], closes, _, rfl, carried, by simp⟩
  | ok _ =>
      refine .tryBind (converses_applyPlan inhabited plan).lift ?_
        (by rintro _ _ ⟨_, same, -⟩; cases same)
      rintro work result ⟨_, same, worked, fits⟩
      cases same
      refine (converses_close plan work result asked worked).weaken ?_
      intro closes r carried
      exact ⟨opens, work, closes, _, rfl, carried, fits⟩

end

/-! ### Units -/

/-- How a unit goes on `n` participants: not all of them agree, or the unit is carried out. It is
skipped only if all of them refuse. -/
inductive Went (n : Nat) (pending : List ModelChange) :
    List (Exchange σ ε) → Except EngineError Bool → Prop
  | apart {cans : List (Exchange σ ε)} {r : Except EngineError Bool}
      (asks : ∀ x ∈ cans, x.ask = .can) (still : r ≠ .ok true)
      (skipped : r = .ok false → cans.map Exchange.who = List.range' 0 n ∧
        ∀ x ∈ cans, x.answer = .ok false) : Went n pending cans r
  | carried {cans opens work closes : List (Exchange σ ε)} {complete : Bool}
      {r : Except EngineError Bool} (inhabited : 0 < n) (asks : ∀ x ∈ cans, x.ask = .can)
      (whos : cans.map Exchange.who = List.range' 0 n)
      (agreed : ∀ x ∈ cans, x.succeeded = true) {ok : Bool} (told : r = .ok true ↔ ok = true)
      (unskipped : r ≠ .ok false) (carried : Carried n pending opens work closes complete ok) :
      Went n pending (cans ++ (opens ++ (work ++ closes))) r

namespace Migrator

def participantsAt (m : Migrator σ ε) (db : DatabaseId) (u : MigrationUnit) (s : State σ ε) :
    List (Slot σ ε) :=
  match m.participants (s.database db).registry u.name u.plan with
  | .ok slots => slots
  | .error _ => []

theorem participantsAt_sublist (m : Migrator σ ε) (db : DatabaseId) (u : MigrationUnit)
    (s : State σ ε) : (m.participantsAt db u s).Sublist m.slots := by
  rw [participantsAt]
  cases found : m.participants (s.database db).registry u.name u.plan with
  | error e => exact List.nil_sublist _
  | ok slots =>
      rw [participants] at found
      cases wanted : u.plan.pendingModels.mapM
          (m.storageFor (s.database db).registry u.name) with
      | error e =>
          rw [wanted] at found
          cases found
      | ok storages =>
          rw [wanted] at found
          cases found
          exact List.filter_sublist

private theorem all_of_firstRefusal {slots : List (Slot σ ε)} {answers : List Bool}
    (length : slots.length = answers.length) (nobody : firstRefusal slots answers = none) :
    ∀ answer ∈ answers, answer = true := by
  rw [firstRefusal, Option.map_eq_none_iff, List.find?_eq_none] at nobody
  intro answer member
  obtain ⟨place, here⟩ := List.mem_iff_getElem?.1 member
  have inside : place < answers.length := (List.getElem?_eq_some_iff.1 here).1
  have paired : (slots[place], answer) ∈ slots.zip answers := by
    refine List.mem_iff_getElem?.2 ⟨place, ?_⟩
    rw [List.getElem?_zip_eq_some]
    exact ⟨List.getElem?_eq_getElem _, here⟩
  simpa using nobody _ paired

theorem fits_of_can {pending : List ModelChange} {ps : List (Slot σ ε)} {cans : List (Exchange σ ε)}
    (asks : ∀ x ∈ cans, x.ask = .can) : ∀ x ∈ cans, x.Fits ps pending :=
  fun x member => Exchange.fits_of_other (by rw [asks x member]; rfl)

/-- Where all participants have agreed, the unit is carried out on them. -/
theorem converses_agreed {ps : List (Slot σ ε)} (inhabited : ps ≠ []) (u : MigrationUnit)
    {cans : List (Exchange σ ε)} (asks : ∀ x ∈ cans, x.ask = .can)
    (whos : cans.map Exchange.who = List.range' 0 ps.length)
    (agreed : ∀ x ∈ cans, x.succeeded = true) :
    Converses ps u.name (do
      runOn ps u.name u.plan
      Attempt.trace .info .migration "applied"
        [("migration", .text u.name), ("providers", .number ps.length)]
      return true : Attempt σ ε Bool).run fun said r =>
        Went ps.length u.plan.pendingModels (cans ++ said) r ∧
          ∀ x ∈ cans ++ said, x.Fits ps u.plan.pendingModels := by
  have some := List.length_pos_iff.2 inhabited
  refine .tryBind (converses_runOn inhabited u.plan) ?_ ?_
  · rintro _ _ ⟨opens, work, closes, complete, rfl, carried, works⟩
    refine .trace (.pure ?_)
    rw [List.append_nil]
    exact ⟨.carried some asks whos agreed (by simp [Except.isOk, Except.toBool])
      (by rintro ⟨⟩) carried, List.forall_mem_append.2 ⟨fits_of_can asks, carried.fits works⟩⟩
  · rintro _ e ⟨opens, work, closes, complete, rfl, carried, works⟩
    exact ⟨.carried some asks whos agreed (by simp [Except.isOk, Except.toBool])
      (by rintro ⟨⟩) carried, List.forall_mem_append.2 ⟨fits_of_can asks, carried.fits works⟩⟩

private theorem answer_of_told {cans : List (Exchange σ ε)} {answers : List Bool}
    (told : cans.map Exchange.answer = answers.map .ok) {x : Exchange σ ε} (member : x ∈ cans) :
    ∃ b ∈ answers, x.answer = .ok b := by
  have answer : x.answer ∈ answers.map .ok := told ▸ List.mem_map_of_mem member
  obtain ⟨b, inside, same⟩ := List.mem_map.1 answer
  exact ⟨b, inside, same.symm⟩

/-- A run of a unit is a conversation with its participants, in which each change is applied by the
participant that is to make it. -/
theorem runUnit_fits (m : Migrator σ ε) (db : DatabaseId) (u : MigrationUnit) (s : State σ ε) :
    ∃ said, Conversation (m.participantsAt db u s) u.name s said ((m.runUnit db u).run.run s).2 ∧
      Went (m.participantsAt db u s).length u.plan.pendingModels said
        ((m.runUnit db u).run.run s).1 ∧
      ∀ x ∈ said, x.Fits (m.participantsAt db u s) u.plan.pendingModels := by
  have current : (Attempt.lift (Database.current db) : Attempt σ ε _).run.run s =
      (.ok (s.database db), s) := rfl
  rw [runUnit, Attempt.run_bind_ok current, participantsAt]
  dsimp only
  cases m.participants (s.database db).registry u.name u.plan with
  | error e =>
      have failed : (Attempt.ofResult (.error e : Except MigrationError (List (Slot σ ε))) :
        Attempt σ ε _).run.run s = (.error e, s) := rfl
      rw [Attempt.run_bind_error failed]
      exact ⟨[], .done s, .apart (by simp) (by rintro ⟨⟩) (by rintro ⟨⟩), by simp⟩
  | ok ps =>
      have found : (Attempt.ofResult (.ok ps : Except MigrationError (List (Slot σ ε))) :
        Attempt σ ε _).run.run s = (.ok ps, s) := rfl
      rw [Attempt.run_bind_ok found]
      dsimp only
      suffices speaks : Converses ps u.name _ fun said r =>
          Went ps.length u.plan.pendingModels said r ∧ ∀ x ∈ said, x.Fits ps u.plan.pendingModels
        from speaks s
      refine .tryBind (converses_can List.drop_zero) ?_
        fun said e fit => ⟨.apart fit.1 (by rintro ⟨⟩) (by rintro ⟨⟩), fits_of_can fit.1⟩
      rintro cans answers ⟨asks, fit⟩
      obtain ⟨whos, told⟩ := fit answers rfl
      split
      · rename_i nowhere
        refine .trace (.pure ?_)
        rw [List.append_nil]
        refine ⟨.apart asks (by rintro ⟨⟩) fun _ => ⟨whos, fun x member => ?_⟩, fits_of_can asks⟩
        obtain ⟨b, inside, same⟩ := answer_of_told told member
        have refused : b = false := by simpa using List.all_eq_true.1 nowhere b inside
        rw [same, refused]
      · rename_i open?
        split
        · refine .pure ?_
          rw [List.append_nil]
          exact ⟨.apart asks (by rintro ⟨⟩) (by rintro ⟨⟩), fits_of_can asks⟩
        · rename_i nobody
          have length : ps.length = answers.length := by
            have both := congrArg List.length told
            have turns := congrArg List.length whos
            simp only [List.length_map, List.length_range'] at both turns
            omega
          have inhabited : ps ≠ [] := by
            rintro rfl
            rw [List.length_nil, eq_comm, List.length_eq_zero_iff] at length
            subst length
            exact open? rfl
          have agreed (x : Exchange σ ε) (member : x ∈ cans) : x.succeeded = true := by
            obtain ⟨b, inside, same⟩ := answer_of_told told member
            rw [Exchange.succeeded, same, all_of_firstRefusal length nobody b inside]
          exact converses_agreed inhabited u asks whos agreed

theorem runUnit_converses (m : Migrator σ ε) (db : DatabaseId) (u : MigrationUnit)
    (s : State σ ε) :
    ∃ said, Conversation (m.participantsAt db u s) u.name s said ((m.runUnit db u).run.run s).2 ∧
      Went (m.participantsAt db u s).length u.plan.pendingModels said
        ((m.runUnit db u).run.run s).1 := by
  obtain ⟨said, talk, went, -⟩ := m.runUnit_fits db u s
  exact ⟨said, talk, went⟩

end Migrator

end EntityStore.Migration
