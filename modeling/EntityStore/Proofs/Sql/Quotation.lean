import EntityStore.Sql.Dialect

/-!
Reading quoted names. A name between quotes reads back up to its closing quote, whatever characters
it has, because a closing quote in the name is written twice. Conversely, all that a reader accepts
is a quoted name in front of something that does not go on with a closing quote, and where the text
does go on so, the reader still comes to its end behind the name.
-/

namespace EntityStore.Sql

/-- The characters up to the closing quote, which stands for itself where it stands twice, and what
follows it. -/
def readInside (closing : Char) : List Char → Option (List Char × List Char)
  | [] => none
  | [c] => if c = closing then some ([], []) else none
  | c :: next :: rest =>
    if c = closing then
      if next = closing then (readInside closing rest).map fun (name, after) => (c :: name, after)
      else some ([], next :: rest)
    else (readInside closing (next :: rest)).map fun (name, after) => (c :: name, after)

/-- A name between the quotes of a dialect, and what follows it. -/
def readQuoted (d : Dialect) : List Char → Option (String × List Char)
  | [] => none
  | c :: rest =>
    if c = d.quotes.1 then
      (readInside d.quotes.2 rest).map fun (name, after) => (String.ofList name, after)
    else none

private theorem readInside_closing {closing : Char} {rest : List Char}
    (apart : rest.head? ≠ some closing) : readInside closing (closing :: rest) = some ([], rest) := by
  cases rest with
  | nil => rw [readInside, if_pos rfl]
  | cons next rest =>
      have different : next ≠ closing := fun same => apart (congrArg some same)
      rw [readInside, if_pos rfl, if_neg different]

private theorem readInside_doubled {closing : Char} (name : List Char) {rest : List Char}
    (apart : rest.head? ≠ some closing) :
    readInside closing (doubled closing name ++ closing :: rest) = some (name, rest) := by
  induction name with
  | nil => exact readInside_closing apart
  | cons c name ih =>
      by_cases same : c = closing
      · subst same
        rw [doubled, if_pos rfl, List.cons_append, List.cons_append, readInside, if_pos rfl,
          if_pos rfl, ih]
        rfl
      · obtain ⟨next, later, parts⟩ :
            ∃ next later, doubled closing name ++ closing :: rest = next :: later :=
          List.exists_cons_of_ne_nil (by simp)
        rw [doubled, if_neg same, List.cons_append, parts, readInside, if_neg same, ← parts, ih]
        rfl

/-- What is read up to a closing quote stood there with its closing quotes doubled. -/
theorem readInside_eq_some {closing : Char} {text name rest : List Char}
    (read : readInside closing text = some (name, rest)) :
    text = doubled closing name ++ closing :: rest ∧ rest.head? ≠ some closing := by
  -- Along the reader, which takes two characters where it meets a doubled closing quote.
  induction text using readInside.induct closing generalizing name with
  | case1 => simp [readInside] at read
  | case2 =>
      rw [readInside, if_pos rfl] at read
      cases read
      exact ⟨rfl, by simp⟩
  | case3 c different =>
      rw [readInside, if_neg different] at read
      contradiction
  | case4 later ih =>
      rw [readInside, if_pos rfl, if_pos rfl] at read
      obtain ⟨⟨inner, after⟩, readLater, same⟩ := Option.map_eq_some_iff.mp read
      cases same
      obtain ⟨spelled, apart⟩ := ih readLater
      rw [doubled, if_pos rfl, List.cons_append, List.cons_append, ← spelled]
      exact ⟨rfl, apart⟩
  | case5 next later different =>
      rw [readInside, if_pos rfl, if_neg different] at read
      cases read
      exact ⟨rfl, fun same => different (Option.some.inj same)⟩
  | case6 c next later different ih =>
      rw [readInside, if_neg different] at read
      obtain ⟨⟨inner, after⟩, readLater, same⟩ := Option.map_eq_some_iff.mp read
      cases same
      obtain ⟨spelled, apart⟩ := ih readLater
      rw [doubled, if_neg different, List.cons_append, ← spelled]
      exact ⟨rfl, apart⟩

/-- Whatever follows a doubled name and its closing quote, reading ends behind that quote. -/
theorem suffix_of_readInside_doubled {closing : Char} {name rest other after : List Char}
    (read : readInside closing (doubled closing name ++ closing :: rest) = some (other, after)) :
    after <:+ rest := by
  induction name generalizing other with
  | nil =>
      cases rest with
      | nil =>
          rw [doubled, List.nil_append, readInside, if_pos rfl] at read
          cases read
          exact List.suffix_rfl
      | cons next later =>
          rw [doubled, List.nil_append, readInside, if_pos rfl] at read
          by_cases same : next = closing
          · -- The closing quote is doubled by what follows: the reader goes on within that.
            rw [if_pos same] at read
            obtain ⟨⟨inner, left⟩, readLater, equal⟩ := Option.map_eq_some_iff.mp read
            cases equal
            obtain ⟨spelled, -⟩ := readInside_eq_some readLater
            rw [spelled]
            exact ⟨next :: (doubled closing inner ++ [closing]), by simp⟩
          · rw [if_neg same] at read
            cases read
            exact List.suffix_rfl
  | cons c name ih =>
      have inner : ∃ shorter,
          readInside closing (doubled closing name ++ closing :: rest) = some (shorter, after) := by
        by_cases same : c = closing
        · subst same
          rw [doubled, if_pos rfl, List.cons_append, List.cons_append, readInside, if_pos rfl,
            if_pos rfl] at read
          obtain ⟨⟨shorter, left⟩, readLater, equal⟩ := Option.map_eq_some_iff.mp read
          cases equal
          exact ⟨shorter, readLater⟩
        · obtain ⟨next, later, parts⟩ :
              ∃ next later, doubled closing name ++ closing :: rest = next :: later :=
            List.exists_cons_of_ne_nil (by simp)
          rw [doubled, if_neg same, List.cons_append, parts, readInside, if_neg same, ← parts] at read
          obtain ⟨⟨shorter, left⟩, readLater, equal⟩ := Option.map_eq_some_iff.mp read
          cases equal
          exact ⟨shorter, readLater⟩
      obtain ⟨shorter, readLater⟩ := inner
      exact ih readLater

theorem quote_append (d : Dialect) (name : String) (rest : List Char) :
    (d.quote name).toList ++ rest =
      d.quotes.1 :: (doubled d.quotes.2 name.toList ++ d.quotes.2 :: rest) := by
  unfold Dialect.quote
  rw [String.toList_ofList]
  simp

theorem readQuoted_quote (d : Dialect) (name : String) {rest : List Char}
    (apart : rest.head? ≠ some d.quotes.2) :
    readQuoted d ((d.quote name).toList ++ rest) = some (name, rest) := by
  rw [quote_append, readQuoted, if_pos rfl, readInside_doubled name.toList apart]
  show some (String.ofList name.toList, rest) = some (name, rest)
  rw [String.ofList_toList]

theorem readQuoted_opening {d : Dialect} {text : List Char} {name : String} {rest : List Char} :
    readQuoted d (d.quotes.1 :: text) = some (name, rest) ↔
      readInside d.quotes.2 text = some (name.toList, rest) := by
  rw [readQuoted, if_pos rfl, Option.map_eq_some_iff]
  constructor
  · rintro ⟨⟨inner, after⟩, read, same⟩
    cases same
    rwa [String.toList_ofList]
  · intro read
    refine ⟨(name.toList, rest), read, ?_⟩
    show (String.ofList name.toList, rest) = (name, rest)
    rw [String.ofList_toList]

private theorem readQuoted_eq_some {d : Dialect} {text : List Char} {name : String} {rest : List Char}
    (read : readQuoted d text = some (name, rest)) :
    text = (d.quote name).toList ++ rest ∧ rest.head? ≠ some d.quotes.2 := by
  cases text with
  | nil => simp [readQuoted] at read
  | cons c text =>
      by_cases opens : c = d.quotes.1
      · subst opens
        obtain ⟨spelled, apart⟩ := readInside_eq_some (readQuoted_opening.mp read)
        rw [quote_append, ← spelled]
        exact ⟨rfl, apart⟩
      · rw [readQuoted, if_neg opens] at read
        contradiction

theorem quote_injective (d : Dialect) {name other : String} (same : d.quote name = d.quote other) :
    name = other := by
  have ended : ([] : List Char).head? ≠ some d.quotes.2 := by simp
  have first := readQuoted_quote d name ended
  rw [same, readQuoted_quote d other ended] at first
  exact (Prod.mk.inj (Option.some.inj first)).1.symm

/-- Quoted names mark their own end. A reader takes from a text a name and leaves a rest exactly
where the text is that name quoted and then the rest, which must not go on with a closing quote; so
no two names are quoted alike, and whatever follows a quoted name, a reader that comes to an end
does so behind the name and never within it. -/
theorem quoted_names_delimit_themselves (d : Dialect) :
    (∀ (text : List Char) (name : String) (rest : List Char),
      readQuoted d text = some (name, rest) ↔
        text = (d.quote name).toList ++ rest ∧ rest.head? ≠ some d.quotes.2) ∧
    Function.Injective d.quote ∧
    ∀ (name other : String) (rest after : List Char),
      readQuoted d ((d.quote name).toList ++ rest) = some (other, after) → after <:+ rest := by
  refine ⟨fun text name rest => ⟨readQuoted_eq_some, ?_⟩, fun name other => quote_injective d, ?_⟩
  · rintro ⟨rfl, apart⟩
    exact readQuoted_quote d name apart
  · intro name other rest after read
    rw [quote_append] at read
    exact suffix_of_readInside_doubled (readQuoted_opening.mp read)

/-- A name that ends in closing brackets, in front of a dot. -/
theorem quoted_names_delimit_themselves_bracketed :
    readQuoted .mssql ((Dialect.mssql.quote "a]]").toList ++ ['.']) = some ("a]]", ['.']) ∧
      Dialect.mssql.quote "a]]" = "[a]]]]]" ∧
      ['.'] <:+ ['.'] := by
  have read := ((quoted_names_delimit_themselves .mssql).1 _ "a]]" ['.']).mpr ⟨rfl, by decide⟩
  exact ⟨read, by decide, (quoted_names_delimit_themselves .mssql).2.2 "a]]" "a]]" ['.'] ['.'] read⟩

end EntityStore.Sql
