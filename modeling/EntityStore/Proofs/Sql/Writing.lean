import EntityStore.Proofs.Sql.Inline
import EntityStore.Proofs.Sql.Marks

/-!
What the writers of statements write. A writer asks for slots as it goes along; what it returns has
each of them once, and reads as the inline text as soon as every slot is filled with what its source
stands for. Slots need not be met in the order in which they were asked for: a page by offset and
fetch prints its second slot first.
-/

namespace EntityStore.Sql

variable {α β : Type}

namespace Writer

theorem run_bind (w : Writer α) (next : α → Writer β) (sources : List SlotSource) :
    (w >>= next).run sources = (next (w.run sources).1).run (w.run sources).2 :=
  rfl

theorem run_pure (a : α) (sources : List SlotSource) :
    (pure a : Writer α).run sources = (a, sources) :=
  rfl

theorem run_push (source : SlotSource) (sources : List SlotSource) :
    (push source).run sources = ([.slot sources.length], sources ++ [source]) :=
  rfl

end Writer

/-! ### Requests -/

/-- The writer only adds to the slots that have been asked for, and what it returns is as it should
be with what it adds. -/
def Yields (w : Writer α) (holds : List SlotSource → List SlotSource → α → Prop) : Prop :=
  ∀ before, ∃ a added, w.run before = (a, before ++ added) ∧ holds before added a

section

variable {γ : Type} {w : Writer α} {v : Writer β} {holds : List SlotSource → List SlotSource → α → Prop}
  {holdsNext : List SlotSource → List SlotSource → β → Prop}
  {whole : List SlotSource → List SlotSource → γ → Prop}

theorem Yields.imp {weaker : List SlotSource → List SlotSource → α → Prop} (yields : Yields w holds)
    (each : ∀ {before added a}, holds before added a → weaker before added a) : Yields w weaker := by
  intro before
  obtain ⟨a, added, ran, held⟩ := yields before
  exact ⟨a, added, ran, each held⟩

theorem yields_pure {a : α} (each : ∀ before, holds before [] a) : Yields (pure a) holds := by
  intro before
  refine ⟨a, [], ?_, each before⟩
  rw [Writer.run_pure, List.append_nil]

theorem yields_push (source : SlotSource) {holds : List SlotSource → List SlotSource → Fragment → Prop}
    (each : ∀ before : List SlotSource, holds before [source] [.slot before.length]) :
    Yields (Writer.push source) holds :=
  fun before => ⟨[.slot before.length], [source], Writer.run_push source before, each before⟩

theorem Yields.arranged {next : α → γ} (first : Yields w holds)
    (arranged : ∀ {before added a}, holds before added a → whole before added (next a)) :
    Yields (w >>= fun a => pure (next a)) whole := by
  intro before
  obtain ⟨a, added, ran, held⟩ := first before
  refine ⟨next a, added, ?_, arranged held⟩
  rw [Writer.run_bind, ran, Writer.run_pure]

theorem Yields.both {next : α → β → γ} (first : Yields w holds) (second : Yields v holdsNext)
    (arranged : ∀ {before added more a b}, holds before added a →
      holdsNext (before ++ added) more b → whole before (added ++ more) (next a b)) :
    Yields (w >>= fun a => v >>= fun b => pure (next a b)) whole := by
  intro before
  obtain ⟨a, added, ran, held⟩ := first before
  obtain ⟨b, more, ranNext, heldNext⟩ := second (before ++ added)
  refine ⟨next a b, added ++ more, ?_, arranged held heldNext⟩
  rw [Writer.run_bind, ran, Writer.run_bind, ranNext, Writer.run_pure, List.append_assoc]

end

inductive YieldsEach (holds : α → List SlotSource → List SlotSource → Fragment → Prop) :
    List SlotSource → List SlotSource → List Fragment → List α → Prop
  | nil (before : List SlotSource) : YieldsEach holds before [] [] []
  | cons {before added more : List SlotSource} {f : Fragment} {fs : List Fragment} {a : α}
      {items : List α} (first : holds a before added f)
      (rest : YieldsEach holds (before ++ added) more fs items) :
      YieldsEach holds before (added ++ more) (f :: fs) (a :: items)

theorem yields_mapM {w : α → Writer Fragment}
    {holds : α → List SlotSource → List SlotSource → Fragment → Prop} (items : List α)
    (each : ∀ item ∈ items, Yields (w item) (holds item)) :
    Yields (items.mapM w) fun before added fs => YieldsEach holds before added fs items := by
  induction items with
  | nil => exact yields_pure fun before => YieldsEach.nil before
  | cons item rest ih =>
      obtain ⟨first, others⟩ := List.forall_mem_cons.1 each
      rw [List.mapM_cons]
      exact Yields.both first (ih others) fun first others => YieldsEach.cons first others

/-! ### Fragments without slots -/

def slotsOf (f : Fragment) : List Nat :=
  f.filterMap fun
    | .text _ => none
    | .slot index => some index

theorem slotsOf_append (f g : Fragment) : slotsOf (f ++ g) = slotsOf f ++ slotsOf g := by
  unfold slotsOf
  exact List.filterMap_append

def TextFree (f : Fragment) : Prop :=
  ∀ text, Piece.text text ∈ f → MarkFree text

theorem TextFree.append {f g : Fragment} (first : TextFree f) (second : TextFree g) :
    TextFree (f ++ g) := by
  intro text member
  rcases List.mem_append.1 member with member | member
  · exact first text member
  · exact second text member

/-- The fragment is nothing but the text. -/
structure Plain (f : Fragment) (text : String) : Prop where
  free : TextFree f
  slots : slotsOf f = []
  filled : ∀ texts, Template.fill f texts = text

theorem plain_raw {t : String} (free : MarkFree t) : Plain (raw t) t where
  free other member := by
    rw [raw, List.mem_singleton] at member
    cases member
    exact free
  slots := rfl
  filled texts := by
    rw [raw, fill_cons]
    exact String.append_empty

theorem plain_nil : Plain [] "" where
  free _ member := (List.not_mem_nil member).elim
  slots := rfl
  filled _ := rfl

theorem Plain.append {f g : Fragment} {t u : String} (first : Plain f t) (second : Plain g u) :
    Plain (f ++ g) (t ++ u) where
  free := first.free.append second.free
  slots := by rw [slotsOf_append, first.slots, second.slots, List.append_nil]
  filled texts := by rw [fill_append, first.filled, second.filled]

/-! ### Rendered fragments -/

/-- Written after some slots and asking for others, the fragment reads as the text once every slot
is filled with what its source stands for. -/
structure Rendered (inline : SlotSource → String) (before added : List SlotSource) (f : Fragment)
    (text : String) : Prop where
  free : TextFree f
  slots : (slotsOf f).Perm (List.range' before.length added.length)
  filled : ∀ later, Template.fill f ((before ++ added ++ later).map inline) = text

namespace Rendered

variable {inline : SlotSource → String} {before added more : List SlotSource} {f g : Fragment}
  {t u : String}

theorem ofPlain (plain : Plain f t) : Rendered inline before [] f t where
  free := plain.free
  slots := by
    rw [plain.slots]
    exact List.Perm.refl _
  filled _ := plain.filled _

theorem append (first : Rendered inline before added f t)
    (second : Rendered inline (before ++ added) more g u) :
    Rendered inline before (added ++ more) (f ++ g) (t ++ u) where
  free := first.free.append second.free
  slots := by
    have both := first.slots.append second.slots
    rw [List.length_append, List.range'_append_1] at both
    rw [slotsOf_append, List.length_append]
    exact both
  filled later := by
    have left := first.filled (more ++ later)
    have right := second.filled later
    rw [← List.append_assoc] at left
    rw [List.append_assoc before] at left right
    rw [fill_append, left, right]

/-- What was written first may also be printed last. -/
theorem append_swapped (first : Rendered inline before added f t)
    (second : Rendered inline (before ++ added) more g u) :
    Rendered inline before (added ++ more) (g ++ f) (u ++ t) where
  free := second.free.append first.free
  slots := by
    have straight := (first.append second).slots
    rw [slotsOf_append] at straight
    rw [slotsOf_append]
    exact List.perm_append_comm.trans straight
  filled later := by
    have left := first.filled (more ++ later)
    have right := second.filled later
    rw [← List.append_assoc] at left
    rw [List.append_assoc before] at left right
    rw [fill_append, left, right]

theorem after (plain : Plain g u) (rendered : Rendered inline before added f t) :
    Rendered inline before added (g ++ f) (u ++ t) where
  free := plain.free.append rendered.free
  slots := by
    rw [slotsOf_append, plain.slots]
    exact rendered.slots
  filled later := by rw [fill_append, plain.filled, rendered.filled]

theorem followed (rendered : Rendered inline before added f t) (plain : Plain g u) :
    Rendered inline before added (f ++ g) (t ++ u) where
  free := rendered.free.append plain.free
  slots := by
    rw [slotsOf_append, plain.slots, List.append_nil]
    exact rendered.slots
  filled later := by rw [fill_append, plain.filled, rendered.filled]

end Rendered

inductive RenderedEach (inline : SlotSource → String) :
    List SlotSource → List SlotSource → List Fragment → List String → Prop
  | nil (before : List SlotSource) : RenderedEach inline before [] [] []
  | cons {before added more : List SlotSource} {f : Fragment} {t : String} {fs : List Fragment}
      {ts : List String} (first : Rendered inline before added f t)
      (rest : RenderedEach inline (before ++ added) more fs ts) :
      RenderedEach inline before (added ++ more) (f :: fs) (t :: ts)

namespace RenderedEach

variable {inline : SlotSource → String} {before added : List SlotSource} {fs : List Fragment}
  {ts : List String}

theorem joined {separator : String} (free : MarkFree separator)
    (each : RenderedEach inline before added fs ts) :
    Rendered inline before added (Sql.joined separator fs) (separator.intercalate ts) := by
  induction each with
  | nil before =>
      rw [String.intercalate_nil]
      exact Rendered.ofPlain plain_nil
  | cons first rest ih =>
      cases rest with
      | nil =>
          rw [Sql.joined, List.intercalate_singleton, String.intercalate_singleton,
            List.append_nil]
          exact first
      | cons second rest =>
          rw [Sql.joined, List.intercalate_cons_cons, String.intercalate_cons_cons]
          exact (first.followed (plain_raw free)).append ih

theorem bracketed {word : String} (free : MarkFree word)
    (each : RenderedEach inline before added fs ts) :
    Rendered inline before added (Sql.bracketed word fs) (Inline.bracketed word ts) := by
  have opening : Plain (raw "(") "(" := plain_raw (by decide)
  have closing : Plain (raw ")") ")" := plain_raw (by decide)
  have enclosed := Rendered.followed (Rendered.after opening (each.joined free)) closing
  cases each with
  | nil => exact enclosed
  | cons first rest =>
      cases rest with
      | nil =>
          rw [List.append_nil]
          exact first
      | cons second rest => exact enclosed

end RenderedEach

/-! ### Writers -/

/-- What the writer returns is rendered as the text, whatever has been written before. -/
def Writes (inline : SlotSource → String) (w : Writer Fragment) (text : String) : Prop :=
  ∀ before, ∃ f added, w.run before = (f, before ++ added) ∧ Rendered inline before added f text

def WritesEach (inline : SlotSource → String) (w : Writer (List Fragment)) (texts : List String) :
    Prop :=
  ∀ before, ∃ fs added, w.run before = (fs, before ++ added)
    ∧ RenderedEach inline before added fs texts

section

variable {inline : SlotSource → String} {t u r : String} {ts : List String}

theorem writes_pure {f : Fragment} (plain : Plain f t) : Writes inline (pure f) t :=
  yields_pure fun _ => Rendered.ofPlain plain

theorem writes_push (source : SlotSource) :
    Writes inline (Writer.push source) (inline source) := by
  refine yields_push source fun before => ⟨?_, List.Perm.refl _, fun later => ?_⟩
  · intro text member
    rw [List.mem_singleton] at member
    cases member
  · rw [fill_cons]
    simp [Piece.filled, Template.fill]

theorem Writes.arranged {w : Writer Fragment} {next : Fragment → Fragment} (first : Writes inline w t)
    (arranged : ∀ {before added f}, Rendered inline before added f t →
      Rendered inline before added (next f) r) :
    Writes inline (w >>= fun f => pure (next f)) r :=
  Yields.arranged first arranged

theorem Writes.both {w v : Writer Fragment} {next : Fragment → Fragment → Fragment}
    (first : Writes inline w t) (second : Writes inline v u)
    (arranged : ∀ {before added more f g}, Rendered inline before added f t →
      Rendered inline (before ++ added) more g u →
      Rendered inline before (added ++ more) (next f g) r) :
    Writes inline (w >>= fun f => v >>= fun g => pure (next f g)) r :=
  Yields.both first second arranged

theorem writesEach_nil : WritesEach inline (pure []) [] :=
  yields_pure fun before => RenderedEach.nil before

theorem WritesEach.cons {w : Writer Fragment} {ws : Writer (List Fragment)}
    (first : Writes inline w t) (rest : WritesEach inline ws ts) :
    WritesEach inline (w >>= fun f => ws >>= fun fs => pure (f :: fs)) (t :: ts) :=
  Yields.both first rest RenderedEach.cons

theorem writesEach_mapM {w : α → Writer Fragment} {text : α → String} (items : List α)
    (each : ∀ item ∈ items, Writes inline (w item) (text item)) :
    WritesEach inline (items.mapM w) (items.map text) := by
  induction items with
  | nil => exact writesEach_nil
  | cons item rest ih =>
      rw [List.mapM_cons, List.map_cons]
      have first := each item List.mem_cons_self
      exact WritesEach.cons first (ih fun other member => each other (List.mem_cons_of_mem item member))

theorem WritesEach.arranged {w : Writer (List Fragment)} {next : List Fragment → Fragment}
    (each : WritesEach inline w ts)
    (arranged : ∀ {before added fs}, RenderedEach inline before added fs ts →
      Rendered inline before added (next fs) r) :
    Writes inline (w >>= fun fs => pure (next fs)) r :=
  Yields.arranged each arranged

end

end EntityStore.Sql
