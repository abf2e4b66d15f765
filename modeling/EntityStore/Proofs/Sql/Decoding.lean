import EntityStore.Proofs.Sql.Alignment

/-!
What the inline text says of a bound statement. Tokens that read alike however values are spelled
have the same values between the same texts. Where parameters are printed in the order in which they
are asked for, as all but a page by offset and fetch are, the inline text alone tells how a statement
with positional placeholders reads and which values it takes.
-/

namespace EntityStore.Sql

variable {α β γ : Type}

/-! ### Tokens that read alike -/

def completed : List String → List Token → String
  | _, [] => ""
  | texts, .text s :: rest => s ++ completed texts rest
  | texts, .param _ :: rest => texts.headD "" ++ completed texts.tail rest

private theorem printed_eq_completed (spell : BoundParam → String) (tokens : List Token) :
    printed spell tokens = completed ((paramsOf tokens).map spell) tokens := by
  induction tokens with
  | nil => rfl
  | cons token rest ih =>
      rw [printed_cons, ih]
      cases token <;> rfl

private theorem not_begun {c d x : Char} {more : List Char} {r r' : Char → List Char} (other : c ≠ d)
    (same : ∀ y, y :: r y = x :: more ++ y :: r' y) : False :=
  other ((List.cons.inj (same c)).1.trans (List.cons.inj (same d)).1.symm)

private theorem ended_together {c d : Char} {u v : List Char} {r r' : Char → List Char} (other : c ≠ d)
    (same : ∀ x, u ++ x :: r x = v ++ x :: r' x) : u = v := by
  rcases List.append_eq_append_iff.1 (same c) with ⟨more, rfl, -⟩ | ⟨more, rfl, -⟩
  · cases more with
    | nil => exact (List.append_nil u).symm
    | cons x more =>
        exact (not_begun other fun y => by simpa using same y).elim
  · cases more with
    | nil => exact List.append_nil v
    | cons x more =>
        exact (not_begun other fun y => by simpa using (same y).symm).elim

/-- Values that read alike in every spelling are the same, and so is what stands before them. -/
theorem value_known {x y : Value} {u v : String} {r r' : (Value → String) → String}
    (same : ∀ spell, u ++ (spell x ++ r spell) = v ++ (spell y ++ r' spell)) :
    u = v ∧ x = y ∧ ∀ spell, r spell = r' spell := by
  classical
  -- Spellings by one character each: wherever the texts go on with it, they have ended.
  have ended : u = v := by
    have each (c : Char) := congrArg String.toList (same fun _ => String.singleton c)
    simp only [String.toList_append, String.toList_singleton] at each
    exact String.toList_injective (ended_together (c := 'a') (d := 'b') (by decide) each)
  subst ended
  -- Then a spelling that tells `x` from all other values tells whether `y` is one of those.
  have after (spell : Value → String) : spell x ++ r spell = spell y ++ r' spell :=
    (String.append_right_inj u).1 (same spell)
  have equal : x = y := by
    have begun := congrArg String.toList (after fun v => String.singleton (if v = x then 'a' else 'b'))
    simp only [String.toList_append, String.toList_singleton, if_true] at begun
    have chosen : 'a' = if y = x then 'a' else 'b' := (List.cons.inj begun).1
    split at chosen
    · next known => exact known.symm
    · cases chosen
  subst equal
  exact ⟨rfl, rfl, fun spell => (String.append_right_inj _).1 (after spell)⟩

private theorem value_not_text {x : Value} {u v : String} {r : (Value → String) → String}
    (same : ∀ spell, u ++ (spell x ++ r spell) = v) : False := by
  have each (c : Char) : c :: (r fun _ => String.singleton c).toList =
      'a' :: (r fun _ => String.singleton 'a').toList := by
    have alike := (same fun _ => String.singleton c).trans (same fun _ => String.singleton 'a').symm
    have after := congrArg String.toList ((String.append_right_inj u).1 alike)
    simpa using after
  exact absurd (List.cons.inj (each 'b')).1 (by decide)

theorem printed_nil (spell : BoundParam → String) : printed spell [] = "" :=
  rfl

theorem printed_text (spell : BoundParam → String) (s : String) (tokens : List Token) :
    printed spell (.text s :: tokens) = s ++ printed spell tokens :=
  printed_cons spell (.text s) tokens

theorem printed_param (spell : BoundParam → String) (p : BoundParam) (tokens : List Token) :
    printed spell (.param p :: tokens) = spell p ++ printed spell tokens :=
  printed_cons spell (.param p) tokens

private theorem paramsOf_param (p : BoundParam) (tokens : List Token) :
    paramsOf (.param p :: tokens) = p :: paramsOf tokens :=
  rfl

/-- Tokens that read alike in every spelling have the same values, and the same texts around
them. -/
theorem tokens_known {tokens others : List Token} {u v : String}
    (same : ∀ spell : Value → String, u ++ printed (fun p => spell p.value) tokens =
      v ++ printed (fun p => spell p.value) others) :
    (paramsOf tokens).map (·.value) = (paramsOf others).map (·.value)
      ∧ ∀ texts, u ++ completed texts tokens = v ++ completed texts others := by
  induction tokens generalizing u v others with
  | nil =>
      induction others generalizing v with
      | nil => exact ⟨rfl, fun texts => same fun _ => ""⟩
      | cons token rest ih =>
          cases token with
          | text s =>
              simp only [printed_text, ← String.append_assoc] at same
              obtain ⟨values, texts⟩ := ih same
              exact ⟨values, fun given => (texts given).trans String.append_assoc⟩
          | param p =>
              simp only [printed_param, printed_nil] at same
              exact (value_not_text fun spell => (same spell).symm).elim
  | cons token rest ih =>
      cases token with
      | text s =>
          simp only [printed_text, ← String.append_assoc] at same
          obtain ⟨values, texts⟩ := ih same
          exact ⟨values, fun given => String.append_assoc.symm.trans (texts given)⟩
      | param p =>
          simp only [printed_param] at same
          -- The texts of the other side are passed over until it comes to a value as well.
          induction others generalizing v with
          | nil =>
              simp only [printed_nil] at same
              exact (value_not_text same).elim
          | cons other more search =>
              cases other with
              | text s =>
                  simp only [printed_text] at same
                  obtain ⟨values, texts⟩ := search fun spell =>
                    (same spell).trans String.append_assoc.symm
                  exact ⟨values, fun given => (texts given).trans String.append_assoc⟩
              | param q =>
                  simp only [printed_param] at same
                  obtain ⟨before, value, after⟩ := value_known same
                  obtain ⟨values, texts⟩ := ih (u := "") (v := "") fun spell =>
                    congrArg ("" ++ ·) (after spell)
                  constructor
                  · rw [paramsOf_param, paramsOf_param, List.map_cons, List.map_cons, value, values]
                  · intro given
                    have rest := (String.append_right_inj "").1 (texts given.tail)
                    rw [completed, completed, before, rest]

/-! ### Slots in order -/

def InOrder (shown : α → Fragment) (w : Writer α) : Prop :=
  ∀ before, ∃ added, (w.run before).2 = before ++ added
    ∧ slotsOf (shown (w.run before).1) = List.range' before.length added.length

section

variable {shown : α → Fragment} {other : β → Fragment} {last : γ → Fragment} {w : Writer α}
  {v : Writer β}

theorem inOrder_pure {a : α} (slotless : slotsOf (shown a) = []) : InOrder shown (pure a) :=
  fun before => ⟨[], (List.append_nil before).symm, slotless⟩

theorem inOrder_push (source : SlotSource) : InOrder id (Writer.push source) :=
  fun _ => ⟨[source], rfl, rfl⟩

theorem InOrder.arranged {next : α → γ} (first : InOrder shown w)
    (same : ∀ a, slotsOf (last (next a)) = slotsOf (shown a)) :
    InOrder last (w >>= fun a => pure (next a)) := by
  intro before
  obtain ⟨added, ran, slots⟩ := first before
  exact ⟨added, ran, (same _).trans slots⟩

theorem InOrder.both {next : α → β → γ} (first : InOrder shown w) (second : InOrder other v)
    (appended : ∀ a b, slotsOf (last (next a b)) = slotsOf (shown a) ++ slotsOf (other b)) :
    InOrder last (w >>= fun a => v >>= fun b => pure (next a b)) := by
  intro before
  obtain ⟨added, ran, slots⟩ := first before
  obtain ⟨more, ranNext, slotsNext⟩ := second (w.run before).2
  refine ⟨added ++ more, ?_, ?_⟩
  · rw [← List.append_assoc, ← ran]
    exact ranNext
  · rw [ran, List.length_append] at slotsNext
    rw [List.length_append, ← List.range'_append_1, ← slots, ← slotsNext, ← ran]
    exact appended _ _

theorem inOrder_mapM {items : List α} {each : α → Writer Fragment}
    (one : ∀ item, InOrder id (each item)) : InOrder List.flatten (items.mapM each) := by
  induction items with
  | nil => exact inOrder_pure rfl
  | cons item rest ih =>
      rw [List.mapM_cons]
      exact (one item).both ih fun f fs => slotsOf_append f fs.flatten

end

theorem slotsOf_nil : slotsOf [] = [] :=
  rfl

theorem slotsOf_raw (s : String) : slotsOf (raw s) = [] :=
  rfl

theorem slotsOf_joined (separator : String) (fs : List Fragment) :
    slotsOf (joined separator fs) = slotsOf fs.flatten := by
  induction fs with
  | nil => rfl
  | cons f rest ih =>
      cases rest with
      | nil => rw [joined, List.intercalate_singleton, List.flatten_singleton]
      | cons g gs =>
          rw [joined, List.intercalate_cons_cons, slotsOf_append, slotsOf_append, slotsOf_raw,
            List.append_nil, List.flatten_cons, slotsOf_append, ← ih]
          rfl

private theorem slotsOf_bracketed (word : String) (fs : List Fragment) :
    slotsOf (bracketed word fs) = slotsOf fs.flatten := by
  have enclosed : slotsOf (raw "(" ++ joined word fs ++ raw ")") = slotsOf fs.flatten := by
    rw [slotsOf_append, slotsOf_append, slotsOf_joined, slotsOf_raw, slotsOf_raw, List.nil_append,
      List.append_nil]
  unfold bracketed
  split
  · rw [List.flatten_singleton]
  · exact enclosed

private theorem slotsOf_lowered (casefold : Bool) (f : Fragment) :
    slotsOf (lowered casefold f) = slotsOf f := by
  unfold lowered
  split
  · rw [slotsOf_append, slotsOf_append, slotsOf_raw, slotsOf_raw, List.nil_append, List.append_nil]
  · rfl

theorem inOrder_literals (values : List Value) : InOrder id (Writer.literals values) :=
  (inOrder_mapM fun value => inOrder_push (.literal value)).arranged (slotsOf_joined ", ")

theorem inOrder_operand (pattern? : Option PatternKind) (operand : Operand) :
    InOrder id (operandFragment pattern? operand) := by
  cases operand with
  | literal value => exact inOrder_push _
  | «variable» name => exact inOrder_push _
  | raw sql => exact inOrder_pure rfl

theorem inOrder_leafColumn (d : Dialect) (leaf : WhereLeaf) : InOrder id (leafColumn d leaf) := by
  unfold leafColumn
  cases leaf.absent? with
  | none => exact inOrder_pure rfl
  | some value =>
      refine (inOrder_push (.literal value)).arranged fun f => ?_
      simp [slotsOf_append, slotsOf_raw]

private theorem inOrder_membership (d : Dialect) {leaf : WhereLeaf} (settled : leaf.Settled)
    (member : leaf.op.isMembership = true) :
    InOrder id (leafColumn d leaf >>= membership d leaf) := by
  have within {list : Writer Fragment} (word : String) (inner : InOrder id list) :
      InOrder id (do
        let column ← leafColumn d leaf
        let items ← list
        return column ++ raw word ++ items ++ raw ")") := by
    refine (inOrder_leafColumn d leaf).both inner fun column items => ?_
    simp [slotsOf_append, slotsOf_raw]
  unfold membership
  cases operandEq : leaf.operand with
  | «variable» name =>
      rw [leafColumn, settled member]
      exact inOrder_push _
  | raw sql => exact within _ (inOrder_operand none (.raw sql))
  | literal value =>
      cases value with
      | list items => exact within _ (inOrder_literals items)
      | _ => exact within _ (inOrder_operand none (.literal _))

private theorem inOrder_leaf (d : Dialect) {leaf : WhereLeaf} (settled : leaf.Settled) :
    InOrder id (leafFragment d leaf) := by
  unfold leafFragment
  cases member : leaf.op.isMembership with
  | true => exact inOrder_membership d settled member
  | false =>
      refine (inOrder_leafColumn d leaf).both (inOrder_operand _ leaf.operand) fun column right => ?_
      cases leaf.op.isPattern <;> simp [slotsOf_append, slotsOf_raw, slotsOf_lowered]

mutual

private theorem inOrder_group (d : Dialect) (g : WhereGroup) (settled : g.Settled) :
    InOrder id (groupFragment d g) := by
  cases g with
  | const value => cases value <;> exact inOrder_pure rfl
  | all parts => exact (inOrder_groups d parts settled).arranged (slotsOf_bracketed " AND ")
  | any parts => exact (inOrder_groups d parts settled).arranged (slotsOf_bracketed " OR ")
  | not part =>
      refine (inOrder_group d part settled).arranged fun f => ?_
      simp [slotsOf_append, slotsOf_raw]
  | leaf l => exact inOrder_leaf d (settled l List.mem_cons_self)
  | null column negated => exact inOrder_pure rfl

theorem inOrder_groups (d : Dialect) (gs : List WhereGroup) (settled : WhereGroup.EachSettled gs) :
    InOrder List.flatten (groupFragments d gs) := by
  cases gs with
  | nil => exact inOrder_pure rfl
  | cons g gs =>
      have first : g.Settled := fun leaf member => settled leaf (List.mem_append_left _ member)
      have rest : WhereGroup.EachSettled gs := fun leaf member =>
        settled leaf (List.mem_append_right _ member)
      exact (inOrder_group d g first).both (inOrder_groups d gs rest) fun f fs =>
        slotsOf_append f fs.flatten

end

theorem inOrder_condition (d : Dialect) {filter? : Option WhereGroup}
    (settled : ConditionSettled filter?) : InOrder id (whereFragment d filter?) := by
  cases filter? with
  | none => exact inOrder_pure rfl
  | some g =>
      have whole : InOrder id (do return raw " WHERE " ++ (← groupFragment d g)) :=
        (inOrder_group d g (settled g rfl)).arranged (slotsOf_append _)
      cases g with
      | const value =>
          cases value with
          | true => exact inOrder_pure rfl
          | false => exact whole
      | _ => exact whole

private theorem inOrder_rowCount (n? : Option UInt64) :
    InOrder (fun f? : Option Fragment => f?.getD []) (rowCountSlot n?) := by
  cases n? with
  | none => exact inOrder_pure rfl
  | some n => exact (inOrder_push _).arranged fun f => rfl

private theorem inOrder_page {d : Dialect} (plain : d ≠ .mssql) (limit? offset? : Option UInt64)
    (ordered : Bool) : InOrder id (pageFragment d limit? offset? ordered) := by
  refine (inOrder_rowCount limit?).both (inOrder_rowCount offset?) fun limit offset => ?_
  cases d with
  | mssql => exact absurd rfl plain
  | _ =>
      cases limit <;> cases offset <;>
        simp [Dialect.paging, slotsOf_append, slotsOf_raw, slotsOf_nil]

private theorem inOrder_selection {d : Dialect} (plain : d ≠ .mssql) (columns : List ColumnRef)
    {s : Selection} (settled : ConditionSettled s.filter?) :
    InOrder id (selectionFragment d columns s) := by
  refine (inOrder_condition d settled).both (inOrder_page plain _ _ _) fun condition page => ?_
  simp [slotsOf_append, slotsOf_raw]

private theorem Emission.inOrder {d : Dialect} (plain : d ≠ .mssql) (e : Emission)
    (settled : e.Settled) :
    InOrder id (e.writer d) := by
  have listed (opening closing : String) (ids : List Int64) :
      InOrder id (do return raw opening ++ (← Writer.ids ids) ++ raw closing) := by
    refine (inOrder_literals _).arranged fun list => ?_
    simp [slotsOf_append, slotsOf_raw]
  cases e with
  | select m s => exact inOrder_selection plain _ settled
  | selectIds m s => exact inOrder_selection plain _ settled
  | count m joins filter? => exact (inOrder_condition d settled).arranged (slotsOf_append _)
  | insert table columns rows =>
      have row (values : List Value) : InOrder id (rowFragment values) := by
        refine (inOrder_literals values).arranged fun list => ?_
        simp [slotsOf_append, slotsOf_raw]
      refine (inOrder_mapM row).arranged fun groups => ?_
      simp [slotsOf_append, slotsOf_raw, slotsOf_joined]
  | update table set key ids =>
      have assigned (pair : String × Value) : InOrder id (assignment d pair) :=
        (inOrder_push _).arranged (slotsOf_append _)
      refine (inOrder_mapM assigned).both (inOrder_literals _) fun sets list => ?_
      simp [slotsOf_append, slotsOf_raw, slotsOf_joined]
  | setNull table column ids => exact listed _ _ ids
  | delete table column ids => exact listed _ _ ids
  | selectWhereIn table columns column ids => exact listed _ _ ids

/-! ### Positional statements -/

def positions (count : Nat) : List String :=
  (List.range count).map fun k => "$" ++ decimal (k + 1)

private theorem placeholders_positions {params : List BoundParam}
    (placed : Placed (.positional '$') 1 params) :
    params.map (·.placeholder) = positions params.length := by
  unfold positions
  refine List.ext_getElem (by simp) fun k inside inRange => ?_
  rw [List.getElem_map, List.getElem_map, List.getElem_range,
    placed k _ (List.getElem?_eq_getElem _), Nat.add_comm 1]
  rfl

/-- Texts before tokens that read alike in every spelling: the values are the same, and so is the
whole text with the positions for the values. -/
theorem positional_known (u v : String) (tokens others : List Token)
    (same : ∀ spell : Value → String, u ++ printed (fun p => spell p.value) tokens =
      v ++ printed (fun p => spell p.value) others) :
    (paramsOf tokens).map (·.value) = (paramsOf others).map (·.value)
      ∧ u ++ completed (positions (paramsOf tokens).length) tokens =
        v ++ completed (positions (paramsOf others).length) others := by
  obtain ⟨values, texts⟩ := tokens_known same
  have count := congrArg List.length values
  rw [List.length_map, List.length_map] at count
  rw [count]
  exact ⟨values, texts _⟩

/-- A bound statement with positional placeholders as tokens that read as the inline text. Its
values are those of the tokens, and its text is theirs with the positions for the values. -/
theorem Emission.positional_tokens {e : Emission} {bindings : Bindings} {s : Statement}
    (free : AllFree e.words) (settled : e.Settled)
    (bound : (e.template .postgres).bind bindings = .ok s) :
    ∃ tokens, (∀ spell : Value → String,
        printed (fun p => spell p.value) tokens = e.inline spell bindings .postgres)
      ∧ s.values = (paramsOf tokens).map (·.value)
      ∧ s.sql = completed (positions (paramsOf tokens).length) tokens := by
  have numbered : Placed (.positional '$') 1 s.params := by
    have style : (e.template .postgres).placeholders = .positional '$' := by
      rw [template_eq]
      rfl
    obtain ⟨slots, boundSlots, done⟩ := of_bind_ok bound
    cases done
    rw [style] at boundSlots
    exact (bindSlots_numbered boundSlots).2.2
  have written (spell : Value → String) := e.writes spell bindings .postgres free settled
  rw [template_eq] at bound
  obtain ⟨tokens, count, sql, params, inline⟩ := bind_expand written bound
  obtain ⟨added, ran, slots⟩ := e.inOrder (d := .postgres) (by decide) settled []
  rw [List.nil_append] at ran
  rw [id, List.length_nil, ← ran, ← count] at slots
  have ordered : paramsOf (expand ((e.writer .postgres).run []).1 tokens) = s.params := by
    rw [← params, paramsOf_expand, slots, flatMap_positions]
  refine ⟨_, inline, ?_, ?_⟩
  · rw [ordered]
    rfl
  · rw [← sql, printed_eq_completed, ordered, placeholders_positions numbered]

end EntityStore.Sql
