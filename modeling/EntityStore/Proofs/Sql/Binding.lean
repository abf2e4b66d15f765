import EntityStore.Proofs.Sql.Rendering

/-!
What binding does to slots. A bound statement is seen as a list of tokens: text, and parameters where
their placeholders stand. Every slot becomes such a list; its parameters are named after it and are
counted on from those of the slots before it.
-/

namespace EntityStore.Sql

inductive Token
  | text (s : String)
  | param (p : BoundParam)

namespace Token

def print (spell : BoundParam → String) : Token → String
  | text s => s
  | param p => spell p

def param? : Token → Option BoundParam
  | text _ => none
  | param p => some p

end Token

def printed (spell : BoundParam → String) (tokens : List Token) : String :=
  String.join (tokens.map (Token.print spell))

def paramsOf (tokens : List Token) : List BoundParam :=
  tokens.filterMap Token.param?

theorem printed_cons (spell : BoundParam → String) (token : Token) (tokens : List Token) :
    printed spell (token :: tokens) = token.print spell ++ printed spell tokens := by
  rw [printed, List.map_cons, String.join_cons, printed]

theorem printed_append (spell : BoundParam → String) (tokens more : List Token) :
    printed spell (tokens ++ more) = printed spell tokens ++ printed spell more := by
  rw [printed, List.map_append, String.join_append, printed, printed]

theorem paramsOf_append (tokens more : List Token) :
    paramsOf (tokens ++ more) = paramsOf tokens ++ paramsOf more := by
  unfold paramsOf
  exact List.filterMap_append

/-! ### Lists of parameters -/

def listTokens : List BoundParam → List Token
  | [] => []
  | [single] => [.param single]
  | p :: ps => .param p :: .text ", " :: listTokens ps

private theorem printed_listTokens (spell : BoundParam → String) (params : List BoundParam) :
    printed spell (listTokens params) = ", ".intercalate (params.map spell) := by
  induction params with
  | nil => rfl
  | cons p ps ih =>
      cases ps with
      | nil =>
          rw [listTokens, List.map_cons, List.map_nil, String.intercalate_singleton, printed_cons]
          exact String.append_empty
      | cons q qs =>
          rw [listTokens, printed_cons, printed_cons, ih]
          · simp only [List.map_cons]
            rw [String.intercalate_cons_cons, String.append_assoc]
            rfl
          · simp

private theorem paramsOf_listTokens (params : List BoundParam) :
    paramsOf (listTokens params) = params := by
  induction params with
  | nil => rfl
  | cons p ps ih =>
      cases ps with
      | nil => rfl
      | cons q qs =>
          have rest : paramsOf (listTokens (q :: qs)) = q :: qs := ih
          rw [listTokens]
          · exact congrArg (p :: ·) rest
          · simp

theorem itemParams_values (style : Placeholders) (name : String) (position item : Nat)
    (items : List Value) :
    (Template.itemParams style name position item items).map (·.value) = items := by
  induction items generalizing position item with
  | nil => rfl
  | cons value rest ih =>
      rw [Template.itemParams, List.map_cons, ih]
      rfl

/-! ### One slot -/

/-- The tokens stand for a bound slot: they print as its text and carry its parameters. With values
in the place of parameters they read as what the slot's source stands for. -/
structure StandsFor (bindings : Bindings) (source : SlotSource) (slot : BoundSlot)
    (tokens : List Token) : Prop where
  text : printed (·.placeholder) tokens = slot.text
  params : paramsOf tokens = slot.params
  inline : ∀ spell : Value → String,
    printed (fun p => spell p.value) tokens = Inline.source spell bindings source

private theorem lookup_ok {bindings : Bindings} {name : String} {value : Value}
    (found : Template.lookup bindings name = .ok value) : bindings.lookup name = some value := by
  unfold Template.lookup at found
  split at found
  · next other known =>
      cases found
      exact known
  · cases found

private theorem scalarValue_patterned {name : String} {pattern? : Option PatternKind}
    {given value : Value} (scalar : Template.scalarValue name pattern? given = .ok value) :
    value = Inline.patterned pattern? given := by
  unfold Template.scalarValue at scalar
  split at scalar
  · next kind text =>
      cases scalar
      cases kind <;> rfl
  · cases scalar
  · cases scalar
  · cases scalar
    cases given <;> rfl

private theorem listItems_ok {name : String} {given : Value} {items : List Value}
    (list : Template.listItems name given = .ok items) : given = .list items := by
  unfold Template.listItems at list
  split at list
  · split at list
    · cases list
    · cases list
      rfl
  · cases list

theorem of_bind_ok {ε α β : Type} {x : Except ε α} {next : α → Except ε β} {b : β}
    (succeeded : (x >>= next) = .ok b) : ∃ a, x = .ok a ∧ next a = .ok b := by
  cases x with
  | ok a => exact ⟨a, rfl, succeeded⟩
  | error e => cases succeeded

theorem exists_of_mapM {ε α β : Type} {f : α → Except ε β} {items : List α} {results : List β} {a : α}
    (succeeded : items.mapM f = .ok results) (inside : a ∈ items) : ∃ b ∈ results, f a = .ok b := by
  induction items generalizing results with
  | nil => cases inside
  | cons item rest ih =>
      rw [List.mapM_cons] at succeeded
      obtain ⟨first, here, succeeded⟩ := of_bind_ok succeeded
      obtain ⟨others, each, succeeded⟩ := of_bind_ok succeeded
      cases succeeded
      rcases List.mem_cons.1 inside with rfl | later
      · exact ⟨first, List.mem_cons_self, here⟩
      · obtain ⟨b, member, gives⟩ := ih each later
        exact ⟨b, List.mem_cons_of_mem _ member, gives⟩

private theorem standsFor_single {bindings : Bindings} {source : SlotSource} (p : BoundParam)
    (inline : ∀ spell : Value → String, spell p.value = Inline.source spell bindings source) :
    StandsFor bindings source ⟨p.placeholder, [p]⟩ [.param p] where
  text := by
    rw [printed_cons]
    exact String.append_empty
  params := rfl
  inline spell := by
    rw [printed_cons, ← inline]
    exact String.append_empty

private theorem membershipWord_eq (negated : Bool) :
    " " ++ membershipWord negated ++ " (" = if negated then " NOT IN (" else " IN (" := by
  cases negated <;> rfl

private theorem bindSlot_standsFor {style : Placeholders} {bindings : Bindings} {index position : Nat}
    {source : SlotSource} {slot : BoundSlot}
    (bound : Template.bindSlot style bindings index position source = .ok slot) :
    ∃ tokens, StandsFor bindings source slot tokens := by
  cases source with
  | literal value =>
      cases bound
      exact ⟨_, standsFor_single _ fun spell => rfl⟩
  | «variable» name pattern? =>
      obtain ⟨given, found, bound⟩ := of_bind_ok bound
      obtain ⟨value, scalar, bound⟩ := of_bind_ok bound
      cases bound
      refine ⟨_, standsFor_single _ fun spell => ?_⟩
      rw [Inline.source, Inline.scalarVariable, lookup_ok found]
      exact congrArg spell (scalarValue_patterned scalar)
  | list name column negated =>
      obtain ⟨given, found, bound⟩ := of_bind_ok bound
      obtain ⟨items, list, bound⟩ := of_bind_ok bound
      have known := lookup_ok found
      rw [listItems_ok list] at known
      have inline (spell : Value → String) :
          Inline.source spell bindings (.list name column negated) =
            Inline.membership spell column negated items := by
        rw [Inline.source, Inline.listVariable, known]
      cases items with
      | nil =>
          cases bound
          refine ⟨[.text (if negated then "1 = 1" else "1 = 0")], ?_, rfl, fun spell => ?_⟩
          · rw [printed_cons]
            exact String.append_empty
          · rw [inline, printed_cons]
            exact String.append_empty
      | cons item rest =>
          cases bound
          let params := Template.itemParams style (slotName index) position 0 (item :: rest)
          let word := if negated then " NOT IN (" else " IN ("
          have print (spell : BoundParam → String) :
              printed spell (.text (column ++ word) :: listTokens params ++ [.text ")"]) =
                column ++ word ++ ", ".intercalate (params.map spell) ++ ")" := by
            rw [printed_append, printed_cons, printed_listTokens, printed_cons]
            exact congrArg _ String.append_empty
          refine ⟨.text (column ++ word) :: listTokens params ++ [.text ")"], ?_, ?_, fun spell => ?_⟩
          · rw [print]
            simp only [word, ← membershipWord_eq, ← String.append_assoc]
            rfl
          · rw [paramsOf_append]
            exact (List.append_nil _).trans (paramsOf_listTokens params)
          · have values : params.map (fun p => spell p.value) = (item :: rest).map spell := by
              rw [← itemParams_values style (slotName index) position 0 (item :: rest), List.map_map]
              rfl
            rw [inline, print, values]
            rfl

/-! ### Names and positions -/

def NamedAfter (index : Nat) (name : String) : Prop :=
  name = slotName index ∨ ∃ item, name = slotName index ++ "_" ++ decimal item

def leadingDigits (name : String) : List Char :=
  (name.toList.drop 1).takeWhile Char.isDigit

private theorem takeWhile_digits (index : Nat) (rest : List Char) :
    (Nat.toDigits 10 index ++ rest).takeWhile Char.isDigit =
      Nat.toDigits 10 index ++ rest.takeWhile Char.isDigit :=
  List.takeWhile_append_of_pos fun _ member => isDigit_of_mem_digits member

private theorem leadingDigits_namedAfter {index : Nat} {name : String}
    (named : NamedAfter index name) :
    leadingDigits name = Nat.toDigits 10 index := by
  unfold leadingDigits
  rcases named with rfl | ⟨item, rfl⟩
  · simpa [slotName, decimal] using takeWhile_digits index []
  · simpa [slotName, decimal] using takeWhile_digits index ('_' :: Nat.toDigits 10 item)

private theorem namedAfter_unique {i j : Nat} {name : String} (first : NamedAfter i name)
    (second : NamedAfter j name) : i = j := by
  have same : Nat.toDigits 10 i = Nat.toDigits 10 j := by
    rw [← leadingDigits_namedAfter first, leadingDigits_namedAfter second]
  exact decimal_injective (congrArg String.ofList same)

/-- The placeholders are those for the parameters' names and positions, counted from the given
position on. -/
def Placed (style : Placeholders) (position : Nat) (params : List BoundParam) : Prop :=
  ∀ k p, params[k]? = some p → p.placeholder = style.render p.name (position + k)

theorem placed_nil (style : Placeholders) (position : Nat) : Placed style position [] := by
  intro k p found
  cases found

theorem placed_cons {style : Placeholders} {position : Nat} {p : BoundParam}
    {params : List BoundParam} (first : p.placeholder = style.render p.name position)
    (rest : Placed style (position + 1) params) : Placed style position (p :: params) := by
  intro k q found
  cases k with
  | zero =>
      cases found
      exact first
  | succ k =>
      rw [List.getElem?_cons_succ] at found
      rw [rest k q found]
      congr 1
      omega

private theorem placed_append {style : Placeholders} {position : Nat} {params more : List BoundParam}
    (first : Placed style position params)
    (second : Placed style (position + params.length) more) :
    Placed style position (params ++ more) := by
  induction params generalizing position with
  | nil => exact second
  | cons p params ih =>
      refine placed_cons (first 0 p rfl) (ih ?_ ?_)
      · intro k q found
        rw [first (k + 1) q found]
        congr 1
        omega
      · rw [List.length_cons] at second
        rwa [Nat.add_assoc, Nat.add_comm 1]

structure Numbered (style : Placeholders) (index position : Nat) (slot : BoundSlot) : Prop where
  named : ∀ p ∈ slot.params, NamedAfter index p.name
  distinct : (slot.params.map (·.name)).Nodup
  placed : Placed style position slot.params

private theorem numbered_single (style : Placeholders) (index position : Nat) (value : Value)
    (text : String) :
    Numbered style index position
      ⟨text, [Template.boundParam style (slotName index) position value]⟩ where
  named p member := by
    rw [List.mem_singleton] at member
    subst member
    exact Or.inl rfl
  distinct := List.pairwise_singleton _ _
  placed := placed_cons rfl (placed_nil style (position + 1))

theorem itemParams_named {style : Placeholders} {index position item : Nat} {items : List Value} :
    ∀ p ∈ Template.itemParams style (slotName index) position item items,
      ∃ later, item ≤ later ∧ p.name = slotName index ++ "_" ++ decimal later := by
  induction items generalizing position item with
  | nil =>
      intro p member
      cases member
  | cons value rest ih =>
      intro p member
      rw [Template.itemParams, List.mem_cons] at member
      rcases member with rfl | member
      · exact ⟨item, Nat.le_refl item, rfl⟩
      · obtain ⟨later, behind, name⟩ := ih p member
        exact ⟨later, by omega, name⟩

private theorem itemName_injective {index i j : Nat}
    (same : slotName index ++ "_" ++ decimal i = slotName index ++ "_" ++ decimal j) : i = j :=
  decimal_injective (String.append_right_inj _ |>.1 same)

private theorem itemParams_distinct (style : Placeholders) (index position item : Nat)
    (items : List Value) :
    ((Template.itemParams style (slotName index) position item items).map (·.name)).Nodup := by
  induction items generalizing position item with
  | nil => exact List.nodup_nil
  | cons value rest ih =>
      rw [Template.itemParams, List.map_cons]
      refine List.nodup_cons.2 ⟨fun member => ?_, ih _ _⟩
      obtain ⟨p, known, same⟩ := List.mem_map.1 member
      obtain ⟨later, behind, name⟩ := itemParams_named p known
      rw [name] at same
      have equal : later = item := itemName_injective same
      omega

private theorem itemParams_placed (style : Placeholders) (name : String) (position item : Nat)
    (items : List Value) :
    Placed style position (Template.itemParams style name position item items) := by
  induction items generalizing position item with
  | nil => exact placed_nil style position
  | cons value rest ih => exact placed_cons rfl (ih _ _)

private theorem bindSlot_numbered {style : Placeholders} {bindings : Bindings} {index position : Nat}
    {source : SlotSource} {slot : BoundSlot}
    (bound : Template.bindSlot style bindings index position source = .ok slot) :
    Numbered style index position slot := by
  cases source with
  | literal value =>
      cases bound
      exact numbered_single ..
  | «variable» name pattern? =>
      obtain ⟨given, -, bound⟩ := of_bind_ok bound
      obtain ⟨value, -, bound⟩ := of_bind_ok bound
      cases bound
      exact numbered_single ..
  | list name column negated =>
      obtain ⟨given, -, bound⟩ := of_bind_ok bound
      obtain ⟨items, -, bound⟩ := of_bind_ok bound
      cases items with
      | nil =>
          cases bound
          exact ⟨fun p member => (List.not_mem_nil member).elim, List.nodup_nil,
            placed_nil style position⟩
      | cons item rest =>
          cases bound
          refine ⟨fun p member => ?_, itemParams_distinct ..,
            itemParams_placed _ _ _ _ _⟩
          obtain ⟨later, -, name⟩ := itemParams_named p member
          exact Or.inr ⟨later, name⟩

/-! ### All slots -/

/-- All slots bound one after the other: what they stand for, and how their parameters are named and
placed. -/
theorem bindSlots_standFor {style : Placeholders} {bindings : Bindings} {index position : Nat}
    {sources : List SlotSource} {slots : List BoundSlot}
    (bound : Template.bindSlots style bindings index position sources = .ok slots) :
    ∃ tokens : List (List Token),
      tokens.map (printed (·.placeholder)) = slots.map (·.text)
        ∧ tokens.map paramsOf = slots.map (·.params)
        ∧ ∀ spell : Value → String, tokens.map (printed fun p => spell p.value) =
          sources.map (Inline.source spell bindings) := by
  induction sources generalizing index position slots with
  | nil =>
      cases bound
      exact ⟨[], rfl, rfl, fun spell => rfl⟩
  | cons source rest ih =>
      obtain ⟨slot, first, bound⟩ := of_bind_ok bound
      obtain ⟨others, later, bound⟩ := of_bind_ok bound
      cases bound
      obtain ⟨tokens, one⟩ := bindSlot_standsFor first
      obtain ⟨more, text, params, inline⟩ := ih later
      refine ⟨tokens :: more, ?_, ?_, fun spell => ?_⟩
      · rw [List.map_cons, List.map_cons, one.text, text]
      · rw [List.map_cons, List.map_cons, one.params, params]
      · rw [List.map_cons, List.map_cons, one.inline, inline]

theorem bindSlots_numbered {style : Placeholders} {bindings : Bindings} {index position : Nat}
    {sources : List SlotSource} {slots : List BoundSlot}
    (bound : Template.bindSlots style bindings index position sources = .ok slots) :
    (∀ p ∈ slots.flatMap (·.params), ∃ i, index ≤ i ∧ NamedAfter i p.name)
      ∧ ((slots.flatMap (·.params)).map (·.name)).Nodup
      ∧ Placed style position (slots.flatMap (·.params)) := by
  induction sources generalizing index position slots with
  | nil =>
      cases bound
      exact ⟨fun p member => (List.not_mem_nil member).elim, List.nodup_nil,
        placed_nil style position⟩
  | cons source rest ih =>
      obtain ⟨slot, first, bound⟩ := of_bind_ok bound
      obtain ⟨others, later, bound⟩ := of_bind_ok bound
      cases bound
      have one := bindSlot_numbered first
      obtain ⟨named, distinct, placed⟩ := ih later
      rw [List.flatMap_cons]
      refine ⟨fun p member => ?_, ?_, placed_append one.placed placed⟩
      · rcases List.mem_append.1 member with member | member
        · exact ⟨index, Nat.le_refl index, one.named p member⟩
        · obtain ⟨i, behind, name⟩ := named p member
          exact ⟨i, by omega, name⟩
      · rw [List.map_append]
        refine List.nodup_append.2 ⟨one.distinct, distinct, fun name member other otherMember => ?_⟩
        intro same
        obtain ⟨p, known, rfl⟩ := List.mem_map.1 member
        obtain ⟨q, knownLater, rfl⟩ := List.mem_map.1 otherMember
        obtain ⟨i, behind, name⟩ := named q knownLater
        rw [← same] at name
        have equal := namedAfter_unique (one.named p known) name
        omega

/-- No variable of the template stands for a list. -/
def Template.ListFree (t : Template) : Prop :=
  ∀ name column negated, SlotSource.list name column negated ∉ t.sources

/-- Without lists every slot has one parameter, so nothing is numbered anew. -/
theorem bindSlots_texts {style : Placeholders} {bindings : Bindings} {index : Nat}
    {sources : List SlotSource} {slots : List BoundSlot}
    (listFree : ∀ name column negated, SlotSource.list name column negated ∉ sources)
    (bound : Template.bindSlots style bindings index (index + 1) sources = .ok slots) :
    slots.map (·.text) = Template.slotTexts style index sources := by
  induction sources generalizing index slots with
  | nil =>
      cases bound
      rfl
  | cons source rest ih =>
      obtain ⟨slot, first, bound⟩ := of_bind_ok bound
      obtain ⟨others, later, bound⟩ := of_bind_ok bound
      cases bound
      have restFree : ∀ name column negated, SlotSource.list name column negated ∉ rest :=
        fun name column negated member =>
          listFree name column negated (List.mem_cons_of_mem source member)
      have one : slot.params.length = 1 ∧ slot.text = Template.slotText style index source := by
        cases source with
        | literal value =>
            cases first
            exact ⟨rfl, rfl⟩
        | «variable» name pattern? =>
            obtain ⟨given, -, first⟩ := of_bind_ok first
            obtain ⟨value, -, first⟩ := of_bind_ok first
            cases first
            exact ⟨rfl, rfl⟩
        | list name column negated =>
            exact (listFree name column negated List.mem_cons_self).elim
      rw [one.1] at later
      rw [List.map_cons, Template.slotTexts, one.2, ih restFree later]

end EntityStore.Sql
