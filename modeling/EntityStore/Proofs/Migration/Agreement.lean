import EntityStore.Proofs.Migration.Conversation
import Mathlib.Data.List.Nodup

/-!
The order of the calls of a unit. Providers of any kind are asked for work only where all of them
have agreed; each that was opened is closed once, and nobody else is; and the unit counts as applied
just if all that was asked for has succeeded, closing included.
-/

namespace EntityStore.Migration

variable {σ ε : Type}

/-! ### The phases of a unit -/

/-- What is known of the calls of a unit that was carried out, phase by phase. So many as `count`
were opened. -/
structure Phases (n : Nat) (pending : List ModelChange)
    (cans opens applies saves closes : List (Exchange σ ε)) (count : Nat) (complete ok : Bool) :
    Prop where
  asksCan (x : Exchange σ ε) (member : x ∈ cans) : x.ask = .can
  agreed (who : Nat) (inside : who < n) : ∃ x ∈ cans, x.Is who .can ∧ x.succeeded = true
  asksOpen (x : Exchange σ ε) (member : x ∈ opens) : x.ask = .beforeUp
  openers : (opens.map Exchange.who).Nodup
  opener (x : Exchange σ ε) (member : x ∈ opens) (succeeded : x.succeeded = true) : x.who < count
  opened (who : Nat) (inside : who < count) :
    ∃ x ∈ opens, x.Is who .beforeUp ∧ x.succeeded = true
  asksApply (x : Exchange σ ε) (member : x ∈ applies) : x.ask.isApply = true
  asksSave (x : Exchange σ ε) (member : x ∈ saves) : x.ask = .save
  savers : (saves.map Exchange.who).Nodup
  asksClose (x : Exchange σ ε) (member : x ∈ closes) : x.ask = .afterUp complete
  closers : closes.map Exchange.who = List.range' 0 count
  allOpen (some : applies ++ saves ≠ []) : n ≤ count
  applied (some : saves ≠ []) : applies.map Exchange.ask = pending.map Ask.apply ∧
    ∀ x ∈ applies, x.succeeded = true
  whole (all : complete = true) : n ≤ count ∧
    applies.map Exchange.ask = pending.map Ask.apply ∧
    (∀ who < n, ∃ x ∈ saves, x.Is who .save ∧ x.succeeded = true) ∧
    ∀ x ∈ opens ++ (applies ++ saves), x.succeeded = true
  broken (some : complete = false) : ∃ x ∈ opens ++ (applies ++ saves), x.succeeded = false
  result : ok = true ↔ complete = true ∧ ∀ x ∈ closes, x.succeeded = true

private theorem exists_turn {ask : Ask} {n : Nat} {said : List (Exchange σ ε)}
    (whos : said.map Exchange.who = List.range' 0 n) (asks : ∀ x ∈ said, x.ask = ask)
    (all : ∀ x ∈ said, x.succeeded = true) (who : Nat) (inside : who < n) :
    ∃ x ∈ said, x.Is who ask ∧ x.succeeded = true := by
  have member : who ∈ said.map Exchange.who := by
    rw [whos, List.mem_range'_1]
    omega
  obtain ⟨x, here, same⟩ := List.mem_map.1 member
  exact ⟨x, here, ⟨same, asks x here⟩, all x here⟩

private theorem who_lt_of_succeeded {ask : Ask} {n : Nat} {said : List (Exchange σ ε)}
    {complete : Bool}
    (asked : Asked (turns ask 0 n) said complete) (x : Exchange σ ε) (member : x ∈ said)
    (succeeded : x.succeeded = true) : x.who < said.countP Exchange.succeeded := by
  have listed := List.mem_map_of_mem (f := Exchange.who) (List.mem_filter.2 ⟨member, succeeded⟩)
  rw [whos_of_fine asked, List.mem_range'_1] at listed
  omega

private theorem exists_succeeded {ask : Ask} {n : Nat} {said : List (Exchange σ ε)} {complete : Bool}
    (asked : Asked (turns ask 0 n) said complete) (who : Nat)
    (inside : who < said.countP Exchange.succeeded) :
    ∃ x ∈ said, x.Is who ask ∧ x.succeeded = true := by
  have listed : who ∈ (said.filter Exchange.succeeded).map Exchange.who := by
    rw [whos_of_fine asked, List.mem_range'_1]
    omega
  obtain ⟨x, here, same⟩ := List.mem_map.1 listed
  obtain ⟨member, succeeded⟩ := List.mem_filter.1 here
  exact ⟨x, member, ⟨same, (whos_of_turns asked.matched).1 x member⟩, succeeded⟩

theorem asks_of_applications {pending : List ModelChange} {said : List (Exchange σ ε)}
    (matched : List.Forall₂ (fun want x => want x) ((applications pending).take said.length) said) :
    (∀ x ∈ said, x.ask.isApply = true) ∧
      said.map Exchange.ask = (pending.take said.length).map Ask.apply := by
  induction pending generalizing said with
  | nil =>
      cases said with
      | nil => exact ⟨by simp, rfl⟩
      | cons x rest => cases matched
  | cons c pending ih =>
      cases said with
      | nil => exact ⟨by simp, rfl⟩
      | cons x rest =>
          obtain ⟨here, others⟩ := List.forall₂_cons.1 matched
          obtain ⟨asks, same⟩ := ih others
          have ask : x.ask = .apply c := here
          exact ⟨List.forall_mem_cons.2 ⟨by rw [ask]; rfl, asks⟩, by simp [ask, same]⟩

private theorem length_turns (ask : Ask) (k n : Nat) :
    (turns ask k n : List (Exchange σ ε → Prop)).length = n := by
  rw [turns, List.length_map, List.length_range']

private theorem applied_of_all {pending : List ModelChange} {said : List (Exchange σ ε)}
    {complete : Bool}
    (asked : Asked (applications pending) said complete) (whole : complete = true) :
    said.map Exchange.ask = pending.map Ask.apply ∧ ∀ x ∈ said, x.succeeded = true := by
  obtain ⟨length, all⟩ := asked.all whole
  obtain ⟨-, same⟩ := asks_of_applications asked.matched
  rw [length, applications, List.length_map, List.take_length] at same
  exact ⟨same, all⟩

/-- Participant `who` has opened the unit with `o`, with success, and closed it with `c`, as
complete or not. Around these calls it was asked neither again, and all the work of the unit was
asked in between. -/
structure Bracketed (who : Nat) (complete : Bool) (said : List (Exchange σ ε)) (o c : Exchange σ ε)
    (earlier middle later : List (Exchange σ ε)) : Prop where
  split : said = earlier ++ o :: (middle ++ c :: later)
  opens : o.Is who .beforeUp
  opened : o.succeeded = true
  closes : c.Is who (.afterUp complete)
  apart (x : Exchange σ ε) (member : x ∈ earlier ++ (middle ++ later)) (same : x.who = who) :
    x.ask.brackets = false
  around (x : Exchange σ ε) (member : x ∈ earlier ++ later) :
    x.ask.isApply = false ∧ x.ask.isSave = false

theorem Bracketed.within {who : Nat} {complete : Bool} {said : List (Exchange σ ε)}
    {o c x : Exchange σ ε} {earlier middle later : List (Exchange σ ε)}
    (bracketed : Bracketed who complete said o c earlier middle later) (member : x ∈ said)
    (work : x.ask.isApply = true ∨ x.ask.isSave = true) : x ∈ middle := by
  have others (outside : x.ask.isApply = false ∧ x.ask.isSave = false) : x ∈ middle := by
    rw [outside.1, outside.2] at work
    rcases work with work | work <;> cases work
  rw [bracketed.split, List.mem_append, List.mem_cons, List.mem_append, List.mem_cons] at member
  rcases member with member | rfl | member | rfl | member
  · exact others (bracketed.around x (List.mem_append_left _ member))
  · exact others (by rw [bracketed.opens.2]; exact ⟨rfl, rfl⟩)
  · exact member
  · exact others (by rw [bracketed.closes.2]; exact ⟨rfl, rfl⟩)
  · exact others (bracketed.around x (List.mem_append_right _ member))

/-- What was said before the opening, at it, between it and the closing, at the closing, and after
it. -/
theorem Bracketed.parts {ps : List (Slot σ ε)} {unitName : String} {s after : State σ ε} {who : Nat}
    {complete : Bool} {said : List (Exchange σ ε)} {o c : Exchange σ ε}
    {earlier middle later : List (Exchange σ ε)} {slot : Slot σ ε}
    (bracketed : Bracketed who complete said o c earlier middle later) (here : ps[who]? = some slot)
    (talk : Conversation ps unitName s said after) :
    Conversation ps unitName s earlier o.before ∧
      (Ask.beforeUp.of unitName slot).run.run o.before = (.ok true, o.after) ∧
      Conversation ps unitName o.after middle c.before ∧
      ((Ask.afterUp complete).of unitName slot).run.run c.before = (c.answer, c.after) ∧
      Conversation ps unitName c.after later after := by
  rw [bracketed.split] at talk
  obtain ⟨arriving, opens, rest⟩ := talk.around
  obtain ⟨working, closes, leaving⟩ := rest.around
  have opens := bracketed.opens.ran here opens
  rw [Exchange.succeeded_iff.1 bracketed.opened] at opens
  exact ⟨arriving, opens, working, bracketed.closes.ran here closes, leaving⟩

/-- Before it has opened the unit and after it has closed it, the participant is asked only whether
it agrees. -/
theorem Bracketed.only_can {who : Nat} {complete : Bool} {said : List (Exchange σ ε)}
    {o c x : Exchange σ ε} {earlier middle later : List (Exchange σ ε)}
    (bracketed : Bracketed who complete said o c earlier middle later)
    (member : x ∈ earlier ++ later) (same : x.who = who) : x.ask = .can := by
  have inside : x ∈ earlier ++ (middle ++ later) := by
    rw [List.mem_append] at member ⊢
    exact member.imp_right (List.mem_append_right middle)
  have apart := bracketed.apart x inside same
  obtain ⟨notApply, notSave⟩ := bracketed.around x member
  cases ask : x.ask with
  | can => rfl
  | apply change =>
      rw [ask] at notApply
      cases notApply
  | save =>
      rw [ask] at notSave
      cases notSave
  | beforeUp =>
      rw [ask] at apart
      cases apart
  | afterUp success =>
      rw [ask] at apart
      cases apart

def Unopened (who : Nat) (said : List (Exchange σ ε)) : Prop :=
  ∀ x ∈ said, x.who = who → x.ask = .can ∨ x.ask = .beforeUp ∧ x.succeeded = false

private theorem split_of_whos {said : List (Exchange σ ε)} (distinct : (said.map Exchange.who).Nodup)
    {x : Exchange σ ε} (member : x ∈ said) :
    ∃ before after, said = before ++ x :: after ∧ ∀ y ∈ before ++ after, y.who ≠ x.who := by
  obtain ⟨before, after, rfl⟩ := List.append_of_mem member
  refine ⟨before, after, rfl, fun y other same => ?_⟩
  have moved : ((x :: (before ++ after)).map Exchange.who).Nodup :=
    (List.perm_middle.map Exchange.who).nodup_iff.1 distinct
  exact (List.nodup_cons.1 moved).1 (same ▸ List.mem_map_of_mem other)

variable {n : Nat} {pending : List ModelChange} {cans opens work closes : List (Exchange σ ε)}
  {complete ok : Bool}

theorem Carried.phases (asks : ∀ x ∈ cans, x.ask = .can)
    (whos : cans.map Exchange.who = List.range' 0 n) (agreed : ∀ x ∈ cans, x.succeeded = true)
    (carried : Carried n pending opens work closes complete ok) :
    ∃ applies saves, work = applies ++ saves ∧ Phases n pending cans opens applies saves closes
      (opens.countP Exchange.succeeded) complete ok := by
  obtain ⟨opened, asked, worked⟩ := carried.worked
  obtain ⟨asksOpen, whosOpen⟩ := whos_of_turns asked.matched
  have openers : (opens.map Exchange.who).Nodup := whosOpen ▸ List.nodup_range'
  have opener := who_lt_of_succeeded asked
  have openedBy := exists_succeeded asked
  have agreement := exists_turn whos asks agreed
  cases opened with
  | false =>
      obtain ⟨rfl, rfl⟩ := worked
      obtain ⟨before, x, rfl, -, failed⟩ := asked.last rfl
      exact ⟨[], [], rfl, {
        asksCan := asks, agreed := agreement, asksOpen, openers, opener, opened := openedBy
        asksApply := by simp, asksSave := by simp, savers := List.nodup_nil
        asksClose := carried.asks, closers := carried.whos
        allOpen := fun some => (some rfl).elim, applied := fun some => (some rfl).elim
        whole := by rintro ⟨⟩
        broken := fun _ => ⟨x, by simp, failed⟩
        result := carried.result }⟩
  | true =>
      obtain ⟨length, allOpen⟩ := asked.all rfl
      rw [length_turns] at length
      have every : n ≤ opens.countP Exchange.succeeded :=
        Nat.le_of_eq (length.symm.trans (List.countP_eq_length.2 allOpen).symm)
      rcases Asked.split worked with ⟨stopped, rfl⟩ | ⟨applies, saves, rfl, first, second⟩
      · obtain ⟨asksApply, -⟩ := asks_of_applications stopped.matched
        obtain ⟨before, x, rfl, -, failed⟩ := stopped.last rfl
        exact ⟨_, [], (List.append_nil _).symm, {
          asksCan := asks, agreed := agreement, asksOpen, openers, opener, opened := openedBy
          asksApply, asksSave := by simp, savers := List.nodup_nil
          asksClose := carried.asks, closers := carried.whos
          allOpen := fun _ => every, applied := fun some => (some rfl).elim
          whole := by rintro ⟨⟩
          broken := fun _ => ⟨x, by simp, failed⟩
          result := carried.result }⟩
      · obtain ⟨asksApply, -⟩ := asks_of_applications first.matched
        obtain ⟨asksSave, savers⟩ := whos_of_turns second.matched
        have applied := applied_of_all first rfl
        exact ⟨applies, saves, rfl, {
          asksCan := asks, agreed := agreement, asksOpen, openers, opener, opened := openedBy
          asksApply, asksSave, savers := savers ▸ List.nodup_range'
          asksClose := carried.asks, closers := carried.whos
          allOpen := fun _ => every, applied := fun _ => applied
          whole := by
            intro all
            obtain ⟨count, saved⟩ := second.all all
            rw [length_turns] at count
            refine ⟨every, applied.1, exists_turn (count ▸ savers) asksSave saved, ?_⟩
            intro x member
            rcases List.mem_append.1 member with member | member
            · exact allOpen x member
            · rcases List.mem_append.1 member with member | member
              · exact applied.2 x member
              · exact saved x member
          broken := by
            intro some
            obtain ⟨before, x, rfl, -, failed⟩ := second.last some
            exact ⟨x, by simp, failed⟩
          result := carried.result }⟩

/-! ### The order of calls -/

/-- All that a unit asks of `n` participants was asked, and has succeeded. -/
structure Done (n : Nat) (pending : List ModelChange) (said : List (Exchange σ ε)) : Prop where
  opened (who : Nat) (inside : who < n) : ∃ x ∈ said, x.Is who .beforeUp ∧ x.succeeded = true
  applied : (said.filter (·.ask.isApply)).map Exchange.ask = pending.map Ask.apply
  saved (who : Nat) (inside : who < n) : ∃ x ∈ said, x.Is who .save ∧ x.succeeded = true
  succeeded (x : Exchange σ ε) (member : x ∈ said) (work : x.ask.isWork = true) :
    x.succeeded = true

/-- The order that the calls of a unit on `n` participants keep to. All have agreed before any is opened;
changes are applied and saved while all are open, and each that was opened is closed once and told
whether everything has succeeded. -/
structure Orderly (n : Nat) (pending : List ModelChange) (said : List (Exchange σ ε))
    (result : Except EngineError Bool) : Prop where
  agreed {earlier later : List (Exchange σ ε)} {x : Exchange σ ε}
    (split : said = earlier ++ x :: later) (work : x.ask.isWork = true) (who : Nat)
    (inside : who < n) : ∃ c ∈ earlier, c.Is who .can ∧ c.succeeded = true
  closedOnce {earlier later : List (Exchange σ ε)} {x : Exchange σ ε}
    (split : said = earlier ++ x :: later) (opens : x.ask = .beforeUp)
    (succeeded : x.succeeded = true) :
    later.countP (fun y => y.who == x.who && y.ask.isAfterUp) = 1
  closesOpened {earlier later : List (Exchange σ ε)} {x : Exchange σ ε}
    (split : said = earlier ++ x :: later) (closes : x.ask.isAfterUp = true) :
    ∃ o ∈ earlier, o.Is x.who .beforeUp ∧ o.succeeded = true
  within {earlier later : List (Exchange σ ε)} {x : Exchange σ ε}
    (split : said = earlier ++ x :: later) (work : x.ask.isApply = true ∨ x.ask.isSave = true) :
    (∀ who < n, ∃ o ∈ earlier, o.Is who .beforeUp ∧ o.succeeded = true) ∧
      ∀ y ∈ earlier, y.ask.isAfterUp = false
  savedOnce (who : Nat) : said.countP (fun y => y.who == who && y.ask.isSave) ≤ 1
  savedLast {earlier later : List (Exchange σ ε)} {x : Exchange σ ε}
    (split : said = earlier ++ x :: later) (save : x.ask.isSave = true) :
    (earlier.filter (·.ask.isApply)).map Exchange.ask = pending.map Ask.apply ∧
      ∀ y ∈ earlier, y.ask.isApply = true → y.succeeded = true
  told {x : Exchange σ ε} (member : x ∈ said) {success : Bool} (closes : x.ask = .afterUp success) :
    (success = true ↔ Done n pending said) ∧
      (success = true ↔ ∀ y ∈ said, y.ask.isWork = true → y.succeeded = true)
  reported : result = .ok true ↔ (∃ x ∈ said, x.ask = .afterUp true) ∧
    ∀ x ∈ said, x.ask.isAfterUp = true → x.succeeded = true

section

variable {α : Type} {a b earlier later : List α} {x : α}

theorem prefix_of_split (split : a ++ b = earlier ++ x :: later) (apart : x ∉ a) :
    ∃ more, earlier = a ++ more ∧ b = more ++ x :: later := by
  rcases List.append_eq_append_iff.1 split with ⟨more, same, rest⟩ | ⟨more, same, rest⟩
  · exact ⟨more, same, rest⟩
  · cases more with
    | nil => exact ⟨[], by simpa using same.symm, by simpa using rest.symm⟩
    | cons y more =>
        cases rest
        exact (apart (by rw [same]; simp)).elim

private theorem suffix_of_split (split : a ++ b = earlier ++ x :: later) (apart : x ∉ b) :
    ∃ more, later = more ++ b ∧ a = earlier ++ x :: more := by
  rcases List.append_eq_append_iff.1 split with ⟨more, same, rest⟩ | ⟨more, same, rest⟩
  · exact (apart (by rw [rest]; simp)).elim
  · cases more with
    | nil => exact (apart (by rw [← List.nil_append b, ← rest]; simp)).elim
    | cons y more =>
        cases rest
        exact ⟨more, rfl, same⟩

end

namespace Phases

variable {applies saves : List (Exchange σ ε)} {count : Nat}
  (phases : Phases n pending cans opens applies saves closes count complete ok)

include phases

theorem not_can {x : Exchange σ ε} (other : x.ask ≠ .can) : x ∉ cans :=
  fun member => other (phases.asksCan x member)

theorem not_open {x : Exchange σ ε} (other : x.ask ≠ .beforeUp) : x ∉ opens :=
  fun member => other (phases.asksOpen x member)

theorem not_apply {x : Exchange σ ε} (other : x.ask.isApply = false) : x ∉ applies :=
  fun member => by rw [phases.asksApply x member] at other; cases other

private theorem not_save {x : Exchange σ ε} (other : x.ask.isSave = false) : x ∉ saves :=
  fun member => by rw [phases.asksSave x member] at other; cases other

theorem not_close {x : Exchange σ ε} (other : x.ask.isAfterUp = false) : x ∉ closes :=
  fun member => by rw [phases.asksClose x member] at other; cases other

theorem open_before {x : Exchange σ ε} (member : x ∈ cans ++ (opens ++ (applies ++ saves))) :
    x.ask.isAfterUp = false := by
  simp only [List.mem_append] at member
  rcases member with member | member | member | member
  · rw [phases.asksCan x member]
    rfl
  · rw [phases.asksOpen x member]
    rfl
  · obtain ⟨c, ask⟩ := Ask.isApply_iff.1 (phases.asksApply x member)
    rw [ask]
    rfl
  · rw [phases.asksSave x member]
    rfl

private theorem work_of_mem {x : Exchange σ ε} (member : x ∈ opens ++ (applies ++ saves)) :
    x.ask.isWork = true := by
  simp only [List.mem_append] at member
  rcases member with member | member | member
  · rw [phases.asksOpen x member]
    rfl
  · obtain ⟨c, ask⟩ := Ask.isApply_iff.1 (phases.asksApply x member)
    rw [ask]
    rfl
  · rw [phases.asksSave x member]
    rfl

private theorem mem_of_work {x : Exchange σ ε}
    (member : x ∈ cans ++ (opens ++ ((applies ++ saves) ++ closes)))
    (work : x.ask.isWork = true) : x ∈ opens ++ (applies ++ saves) := by
  have notCan : x ∉ cans := phases.not_can (by intro same; rw [same] at work; cases work)
  have notClose : x ∉ closes :=
    phases.not_close (by cases ask : x.ask <;> first | rfl | (rw [ask] at work; cases work))
  simp only [List.mem_append] at member ⊢
  tauto

theorem mem_of_close {x : Exchange σ ε}
    (member : x ∈ cans ++ (opens ++ ((applies ++ saves) ++ closes)))
    (close : x.ask.isAfterUp = true) : x ∈ closes := by
  by_contra other
  have before : x ∈ cans ++ (opens ++ (applies ++ saves)) := by
    simp only [List.mem_append] at member ⊢
    tauto
  rw [phases.open_before before] at close
  cases close

variable {earlier later : List (Exchange σ ε)} {x : Exchange σ ε}
  (split : cans ++ (opens ++ ((applies ++ saves) ++ closes)) = earlier ++ x :: later)

include split

private theorem agreed_before (work : x.ask.isWork = true) (who : Nat) (inside : who < n) :
    ∃ c ∈ earlier, c.Is who .can ∧ c.succeeded = true := by
  have apart : x ∉ cans := phases.not_can (by intro same; rw [same] at work; cases work)
  obtain ⟨more, rfl, -⟩ := prefix_of_split split apart
  obtain ⟨c, member, is⟩ := phases.agreed who inside
  exact ⟨c, List.mem_append_left _ member, is⟩

theorem before_closes (other : x.ask.isAfterUp = false) :
    ∃ more, later = more ++ closes ∧
      cans ++ (opens ++ (applies ++ saves)) = earlier ++ x :: more := by
  have parted : (cans ++ (opens ++ (applies ++ saves))) ++ closes = earlier ++ x :: later := by
    rw [← split]
    simp
  exact suffix_of_split parted (phases.not_close other)

private theorem closed_once (opening : x.ask = .beforeUp) (succeeded : x.succeeded = true) :
    later.countP (fun y => y.who == x.who && y.ask.isAfterUp) = 1 := by
  obtain ⟨more, rfl, before⟩ := phases.before_closes split (by rw [opening]; rfl)
  have none : more.countP (fun y => y.who == x.who && y.ask.isAfterUp) = 0 := by
    rw [List.countP_eq_zero]
    intro y member
    have still := phases.open_before (x := y) (by rw [before]; simp [member])
    simp [still]
  have counted : closes.countP (fun y => y.who == x.who && y.ask.isAfterUp) =
      (closes.map Exchange.who).count x.who := by
    rw [List.count, List.countP_map]
    refine List.countP_congr fun y member => ?_
    simp [phases.asksClose y member, Ask.isAfterUp]
  have opens : x ∈ opens := by
    have member : x ∈ cans ++ (opens ++ (applies ++ saves)) := by
      rw [before]
      simp
    have notCan : x ∉ cans := phases.not_can (by rw [opening]; rintro ⟨⟩)
    have notApply : x ∉ applies := phases.not_apply (by rw [opening]; rfl)
    have notSave : x ∉ saves := phases.not_save (by rw [opening]; rfl)
    simp only [List.mem_append] at member
    tauto
  have closer : x.who ∈ closes.map Exchange.who := by
    rw [phases.closers, List.mem_range'_1]
    have := phases.opener x opens succeeded
    omega
  have distinct : (closes.map Exchange.who).Nodup := phases.closers ▸ List.nodup_range'
  rw [List.countP_append, none, counted, List.count_eq_one_of_mem distinct closer]

private theorem closes_opened (close : x.ask.isAfterUp = true) :
    ∃ o ∈ earlier, o.Is x.who .beforeUp ∧ o.succeeded = true := by
  have closing : x ∈ closes := phases.mem_of_close (by rw [split]; simp) close
  have whoever := List.mem_map_of_mem (f := Exchange.who) closing
  rw [phases.closers, List.mem_range'_1] at whoever
  obtain ⟨o, member, is⟩ := phases.opened x.who (by omega)
  have parted : (cans ++ (opens ++ (applies ++ saves))) ++ closes = earlier ++ x :: later := by
    rw [← split]
    simp
  have apart : x ∉ cans ++ (opens ++ (applies ++ saves)) := by
    intro before
    rw [phases.open_before before] at close
    cases close
  obtain ⟨more, rfl, -⟩ := prefix_of_split parted apart
  exact ⟨o, by simp [member], is⟩

private theorem open_within (work : x.ask.isApply = true ∨ x.ask.isSave = true) :
    (∀ who < n, ∃ o ∈ earlier, o.Is who .beforeUp ∧ o.succeeded = true) ∧
      ∀ y ∈ earlier, y.ask.isAfterUp = false := by
  have ask : x.ask ≠ .can ∧ x.ask ≠ .beforeUp ∧ x.ask.isAfterUp = false := by
    rcases work with apply | save
    · obtain ⟨c, ask⟩ := Ask.isApply_iff.1 apply
      simp [ask, Ask.isAfterUp]
    · simp [Ask.isSave_iff.1 save, Ask.isAfterUp]
  obtain ⟨more, rfl, before⟩ := phases.before_closes split ask.2.2
  constructor
  · intro who inside
    have some : applies ++ saves ≠ [] := by
      intro none
      have member : x ∈ cans ++ (opens ++ (applies ++ saves)) := by
        rw [before]
        simp
      rw [none, List.append_nil, List.mem_append] at member
      exact member.elim (phases.not_can ask.1) (phases.not_open ask.2.1)
    obtain ⟨o, member, is⟩ := phases.opened who (Nat.lt_of_lt_of_le inside (phases.allOpen some))
    have parted : (cans ++ opens) ++ (applies ++ saves) = earlier ++ x :: more := by
      rw [← before]
      simp
    have apart : x ∉ cans ++ opens := by
      rw [List.mem_append]
      exact fun member => member.elim (phases.not_can ask.1) (phases.not_open ask.2.1)
    obtain ⟨rest, rfl, -⟩ := prefix_of_split parted apart
    exact ⟨o, by simp [member], is⟩
  · intro y member
    exact phases.open_before (by rw [before]; simp [member])

private theorem saved_last (save : x.ask.isSave = true) :
    (earlier.filter (·.ask.isApply)).map Exchange.ask = pending.map Ask.apply ∧
      ∀ y ∈ earlier, y.ask.isApply = true → y.succeeded = true := by
  have ask := Ask.isSave_iff.1 save
  have notCan : x ∉ cans := phases.not_can (by rw [ask]; rintro ⟨⟩)
  have notOpen : x ∉ opens := phases.not_open (by rw [ask]; rintro ⟨⟩)
  have notApply : x ∉ applies := phases.not_apply (by rw [ask]; rfl)
  have notClose : x ∉ closes := phases.not_close (by rw [ask]; rfl)
  have some : saves ≠ [] := by
    rintro rfl
    have member : x ∈ cans ++ (opens ++ ((applies ++ []) ++ closes)) := by
      rw [split]
      simp
    simp only [List.mem_append, List.not_mem_nil] at member
    tauto
  obtain ⟨applied, all⟩ := phases.applied some
  have parted : (cans ++ (opens ++ applies)) ++ (saves ++ closes) = earlier ++ x :: later := by
    rw [← split]
    simp
  obtain ⟨more, rfl, rest⟩ := prefix_of_split parted (by simp [notCan, notOpen, notApply])
  -- Among the calls so far, the applications are those of the phase before.
  have others : ∀ y ∈ more, y.ask.isApply = false := by
    intro y member
    have later : y ∈ saves ++ closes := by
      rw [rest]
      simp [member]
    rcases List.mem_append.1 later with later | later
    · rw [phases.asksSave y later]
      rfl
    · rw [phases.asksClose y later]
      rfl
  have kept : (cans ++ (opens ++ applies) ++ more).filter (·.ask.isApply) = applies := by
    have can : cans.filter (·.ask.isApply) = [] :=
      List.filter_eq_nil_iff.2 fun y member => by simp [phases.asksCan y member, Ask.isApply]
    have opening : opens.filter (·.ask.isApply) = [] :=
      List.filter_eq_nil_iff.2 fun y member => by simp [phases.asksOpen y member, Ask.isApply]
    have later : more.filter (·.ask.isApply) = [] :=
      List.filter_eq_nil_iff.2 fun y member => by simp [others y member]
    simp only [List.filter_append, can, opening, later, List.nil_append, List.append_nil]
    exact List.filter_eq_self.2 phases.asksApply
  refine ⟨by rw [kept, applied], fun y member apply => all y ?_⟩
  rw [← kept]
  exact List.mem_filter.2 ⟨member, apply⟩

omit split

private theorem saved_once (who : Nat) :
    (cans ++ (opens ++ ((applies ++ saves) ++ closes))).countP
      (fun y => y.who == who && y.ask.isSave) ≤ 1 := by
  have can : cans.countP (fun y => y.who == who && y.ask.isSave) = 0 :=
    List.countP_eq_zero.2 fun y member => by simp [phases.asksCan y member, Ask.isSave]
  have opening : opens.countP (fun y => y.who == who && y.ask.isSave) = 0 :=
    List.countP_eq_zero.2 fun y member => by simp [phases.asksOpen y member, Ask.isSave]
  have applying : applies.countP (fun y => y.who == who && y.ask.isSave) = 0 := by
    refine List.countP_eq_zero.2 fun y member => ?_
    obtain ⟨c, ask⟩ := Ask.isApply_iff.1 (phases.asksApply y member)
    simp [ask, Ask.isSave]
  have closing : closes.countP (fun y => y.who == who && y.ask.isSave) = 0 :=
    List.countP_eq_zero.2 fun y member => by simp [phases.asksClose y member, Ask.isSave]
  have saving : saves.countP (fun y => y.who == who && y.ask.isSave) =
      (saves.map Exchange.who).count who := by
    rw [List.count, List.countP_map]
    refine List.countP_congr fun y member => ?_
    simp [phases.asksSave y member, Ask.isSave]
  rw [List.countP_append, List.countP_append, List.countP_append, List.countP_append, can, opening,
    applying, closing, saving, Nat.zero_add, Nat.zero_add, Nat.zero_add, Nat.add_zero]
  exact List.nodup_iff_count_le_one.1 phases.savers who

/-- A unit is complete just if all that was asked for work has succeeded, and then all of it is
done. -/
theorem complete_iff :
    (complete = true ↔ Done n pending (cans ++ (opens ++ ((applies ++ saves) ++ closes)))) ∧
      (complete = true ↔ ∀ y ∈ cans ++ (opens ++ ((applies ++ saves) ++ closes)),
        y.ask.isWork = true → y.succeeded = true) := by
  have done (all : complete = true) :
      Done n pending (cans ++ (opens ++ ((applies ++ saves) ++ closes))) := by
    obtain ⟨count, applied, saved, succeeded⟩ := phases.whole all
    constructor
    · intro who inside
      obtain ⟨x, member, is⟩ := phases.opened who (Nat.lt_of_lt_of_le inside count)
      exact ⟨x, by simp [member], is⟩
    · have can : cans.filter (·.ask.isApply) = [] :=
        List.filter_eq_nil_iff.2 fun y member => by simp [phases.asksCan y member, Ask.isApply]
      have opening : opens.filter (·.ask.isApply) = [] :=
        List.filter_eq_nil_iff.2 fun y member => by simp [phases.asksOpen y member, Ask.isApply]
      have saving : saves.filter (·.ask.isApply) = [] :=
        List.filter_eq_nil_iff.2 fun y member => by simp [phases.asksSave y member, Ask.isApply]
      have closing : closes.filter (·.ask.isApply) = [] :=
        List.filter_eq_nil_iff.2 fun y member => by simp [phases.asksClose y member, Ask.isApply]
      simp only [List.filter_append, can, opening, saving, closing, List.nil_append,
        List.append_nil]
      rw [List.filter_eq_self.2 phases.asksApply, applied]
    · intro who inside
      obtain ⟨x, member, is⟩ := saved who inside
      exact ⟨x, by simp [member], is⟩
    · exact fun x member work => succeeded x (phases.mem_of_work member work)
  have every (all : ∀ y ∈ cans ++ (opens ++ ((applies ++ saves) ++ closes)),
      y.ask.isWork = true → y.succeeded = true) : complete = true := by
    cases some : complete with
    | true => rfl
    | false =>
        obtain ⟨x, member, failed⟩ := phases.broken some
        have inside : x ∈ cans ++ (opens ++ ((applies ++ saves) ++ closes)) := by
          simp only [List.mem_append] at member ⊢
          tauto
        rw [all x inside (phases.work_of_mem member)] at failed
        cases failed
  exact ⟨⟨done, fun all => every all.succeeded⟩, ⟨fun all => (done all).succeeded, every⟩⟩

private theorem orderly {result : Except EngineError Bool} (inhabited : 0 < n)
    (told : result = .ok true ↔ ok = true) :
    Orderly n pending (cans ++ (opens ++ ((applies ++ saves) ++ closes))) result where
  agreed := phases.agreed_before
  closedOnce := phases.closed_once
  closesOpened := phases.closes_opened
  within := phases.open_within
  savedOnce := phases.saved_once
  savedLast := phases.saved_last
  told := by
    intro x member success closing
    have same := phases.asksClose x (phases.mem_of_close member (by rw [closing]; rfl))
    rw [closing] at same
    cases same
    exact phases.complete_iff
  reported := by
    rw [told, phases.result]
    constructor
    · rintro ⟨all, succeeded⟩
      refine ⟨?_, fun x member close => succeeded x (phases.mem_of_close member close)⟩
      have count := (phases.whole all).1
      have first : 0 ∈ closes.map Exchange.who := by
        rw [phases.closers, List.mem_range'_1]
        omega
      obtain ⟨x, member, -⟩ := List.mem_map.1 first
      exact ⟨x, by simp [member], all ▸ phases.asksClose x member⟩
    · rintro ⟨⟨x, member, closing⟩, succeeded⟩
      have same := phases.asksClose x (phases.mem_of_close member (by rw [closing]; rfl))
      rw [closing] at same
      cases same
      refine ⟨rfl, fun y member => succeeded y (by simp [member]) ?_⟩
      rw [phases.asksClose y member]
      rfl

/-- Who was opened has opened and closed the unit once, around the rest of its work. -/
theorem bracketed {who : Nat} (inside : who < count) :
    ∃ o c earlier middle later, Bracketed who complete
      (cans ++ (opens ++ ((applies ++ saves) ++ closes))) o c earlier middle later ∧
      c ∈ closes := by
  obtain ⟨o, openMember, is, opened⟩ := phases.opened who inside
  obtain ⟨opens₁, opens₂, rfl, apartOpen⟩ := split_of_whos phases.openers openMember
  have closer : who ∈ closes.map Exchange.who := by
    rw [phases.closers, List.mem_range'_1]
    omega
  obtain ⟨c, closeMember, rfl⟩ := List.mem_map.1 closer
  have distinct : (closes.map Exchange.who).Nodup := phases.closers ▸ List.nodup_range'
  obtain ⟨closes₁, closes₂, rfl, apartClose⟩ := split_of_whos distinct closeMember
  refine ⟨o, c, cans ++ opens₁, opens₂ ++ ((applies ++ saves) ++ closes₁), closes₂, ?_, closeMember⟩
  refine ⟨by simp, is, opened, ⟨rfl, phases.asksClose c closeMember⟩, ?_, ?_⟩
  · intro x member same
    have open? (member : x ∈ opens₁ ++ opens₂) : x.ask.brackets = false :=
      (apartOpen x member (same.trans is.1.symm)).elim
    have close? (member : x ∈ closes₁ ++ closes₂) : x.ask.brackets = false :=
      (apartClose x member same).elim
    simp only [List.mem_append] at member open? close?
    rcases member with (member | member) | (member | (member | member) | member) | member
    · rw [phases.asksCan x member]
      rfl
    · exact open? (.inl member)
    · exact open? (.inr member)
    · obtain ⟨change, ask⟩ := Ask.isApply_iff.1 (phases.asksApply x member)
      rw [ask]
      rfl
    · rw [phases.asksSave x member]
      rfl
    · exact close? (.inl member)
    · exact close? (.inr member)
  · intro x member
    simp only [List.mem_append] at member
    rcases member with (member | member) | member
    · rw [phases.asksCan x member]
      exact ⟨rfl, rfl⟩
    · rw [phases.asksOpen x (List.mem_append_left _ member)]
      exact ⟨rfl, rfl⟩
    · rw [phases.asksClose x (List.mem_append_right _ (List.mem_cons_of_mem _ member))]
      exact ⟨rfl, rfl⟩

/-- Who was not opened was asked for nothing that needs that. -/
theorem unopened {who : Nat} (inside : who < n) (outside : count ≤ who) :
    Unopened who (cans ++ (opens ++ ((applies ++ saves) ++ closes))) := by
  have idle : applies ++ saves = [] := by
    by_contra some
    have := phases.allOpen some
    omega
  intro x member same
  rw [idle, List.nil_append, List.mem_append, List.mem_append] at member
  rcases member with member | member | member
  · exact .inl (phases.asksCan x member)
  · refine .inr ⟨phases.asksOpen x member, ?_⟩
    by_contra succeeded
    have := phases.opener x member (by simpa using succeeded)
    omega
  · have closer := List.mem_map_of_mem (f := Exchange.who) member
    rw [phases.closers, List.mem_range'_1] at closer
    omega

end Phases

theorem Done.pending_of_apply {said : List (Exchange σ ε)} (done : Done n pending said)
    {x : Exchange σ ε} (member : x ∈ said) {c : ModelChange} (ask : x.ask = .apply c) :
    c ∈ pending := by
  have applies : x ∈ said.filter (·.ask.isApply) :=
    List.mem_filter.2 ⟨member, by rw [ask]; rfl⟩
  have asked := List.mem_map_of_mem (f := Exchange.ask) applies
  rw [done.applied, ask] at asked
  obtain ⟨c', inside, same⟩ := List.mem_map.1 asked
  cases same
  exact inside

/-- A unit that is done was saved by each participant once, while it had the unit open. -/
theorem Bracketed.saved_once {who : Nat} {complete : Bool} {said : List (Exchange σ ε)}
    {o c : Exchange σ ε} {earlier middle later : List (Exchange σ ε)}
    (bracketed : Bracketed who complete said o c earlier middle later)
    {result : Except EngineError Bool} (orderly : Orderly n pending said result)
    (done : Done n pending said) (inside : who < n) :
    middle.countP (fun x => x.who == who && x.ask.isSave) = 1 := by
  obtain ⟨x, member, is, -⟩ := done.saved who inside
  have save : x.ask.isSave = true := by rw [is.2]; rfl
  have counted : (x.who == who && x.ask.isSave) = true := by
    rw [is.1, save, beq_self_eq_true]
    rfl
  have some : 0 < middle.countP (fun x => x.who == who && x.ask.isSave) :=
    List.countP_pos_iff.2 ⟨x, bracketed.within member (.inr save), counted⟩
  have all := orderly.savedOnce who
  rw [bracketed.split, List.countP_append, List.countP_cons, List.countP_append] at all
  omega

/-- Each participant has opened and closed the unit, or was not opened. A unit counts as applied
only if all of them have opened it and closed it as complete, with success. -/
theorem Went.opened_or_not {said : List (Exchange σ ε)} {result : Except EngineError Bool}
    (went : Went n pending said result) {who : Nat} (inside : who < n) :
    (∃ complete o c earlier middle later, Bracketed who complete said o c earlier middle later ∧
      (result = .ok true → complete = true ∧ c.succeeded = true)) ∨
    Unopened who said ∧ result ≠ .ok true := by
  cases went with
  | apart asks still skipped => exact .inr ⟨fun x member _ => .inl (asks x member), still⟩
  | carried inhabited asks whos agreed told unskipped carried =>
      obtain ⟨applies, saves, rfl, phases⟩ := carried.phases asks whos agreed
      rcases Nat.lt_or_ge who _ with opened | unopened
      · obtain ⟨o, c, earlier, middle, later, bracketed, close⟩ := phases.bracketed opened
        refine .inl ⟨_, o, c, earlier, middle, later, bracketed, fun applied => ?_⟩
        obtain ⟨whole, closed⟩ := phases.result.1 (told.1 applied)
        exact ⟨whole, closed c close⟩
      · refine .inr ⟨phases.unopened inside unopened, fun applied => ?_⟩
        have := (phases.whole (phases.result.1 (told.1 applied)).1).1
        omega

theorem Went.bracketed {said : List (Exchange σ ε)} (went : Went n pending said (.ok true))
    {who : Nat} (inside : who < n) : ∃ o c earlier middle later,
      Bracketed who true said o c earlier middle later ∧ c.succeeded = true := by
  rcases went.opened_or_not inside with
    ⟨complete, o, c, earlier, middle, later, bracketed, told⟩ | ⟨-, still⟩
  · obtain ⟨rfl, closed⟩ := told rfl
    exact ⟨o, c, earlier, middle, later, bracketed, closed⟩
  · exact (still rfl).elim

/-- Whatever its participants answer, a unit makes its calls in this order. -/
theorem Went.orderly {said : List (Exchange σ ε)} {result : Except EngineError Bool}
    (went : Went n pending said result) : Orderly n pending said result := by
  cases went with
  | carried inhabited asks whos agreed told unskipped carried =>
      obtain ⟨applies, saves, rfl, phases⟩ := carried.phases asks whos agreed
      exact phases.orderly inhabited told
  | apart asks still skipped =>
      have asked {earlier later : List (Exchange σ ε)} {x : Exchange σ ε}
          (split : said = earlier ++ x :: later) : x.ask = .can :=
        asks x (by rw [split]; simp)
      constructor
      · intro _ _ _ split work
        rw [asked split] at work
        cases work
      · intro _ _ _ split opens
        rw [asked split] at opens
        cases opens
      · intro _ _ _ split closes
        rw [asked split] at closes
        cases closes
      · intro _ _ _ split work
        rw [asked split] at work
        rcases work with work | work <;> cases work
      · intro who
        have none : said.countP (fun y => y.who == who && y.ask.isSave) = 0 :=
          List.countP_eq_zero.2 fun y member => by simp [asks y member, Ask.isSave]
        rw [none]
        exact Nat.zero_le 1
      · intro _ _ _ split save
        rw [asked split] at save
        cases save
      · intro x member success closes
        rw [asks x member] at closes
        cases closes
      · refine ⟨fun applied => (still applied).elim, ?_⟩
        rintro ⟨⟨x, member, closes⟩, -⟩
        rw [asks x member] at closes
        cases closes

/-- A unit touches providers only under agreement and always closes them. The run of a unit is a
conversation with the participants it has as things stand, whatever they do and answer, and the
calls of the conversation keep to the order. -/
theorem Migrator.runUnit_orderly (m : Migrator σ ε) (db : DatabaseId) (u : MigrationUnit)
    (s : State σ ε) :
    ∃ said, Conversation (m.participantsAt db u s) u.name s said ((m.runUnit db u).run.run s).2 ∧
      Orderly (m.participantsAt db u s).length u.plan.pendingModels said
        ((m.runUnit db u).run.run s).1 := by
  obtain ⟨said, conversation, went⟩ := m.runUnit_converses db u s
  exact ⟨said, conversation, went.orderly⟩

end EntityStore.Migration
