import Mathlib.Tactic.SplitIfs
import EntityStore.Migration.Statements
import EntityStore.Proofs.Calendar.Reading
import EntityStore.Proofs.Sql.Constants

/-!
Defaults of columns, as the database reads them. What stands behind `DEFAULT` is one constant of the
dialect, whatever the default is, and stands for the default unless that is a text or has a leap
second inside a minute. A text is first quoted as messages quote it, so the constant has double quotes
around it, and escapes in it that the dialect does not undo.
-/

namespace EntityStore.Migration

open Decimal (RoundsTo)
open Sql

variable {d : Dialect} {rest : List Char}

/-! ### What constants stand for -/

/-- The constant stands for the value. A double is read from the number that it is nearest to, dates
and times from their texts. -/
def Denotes : Constant → Value → Prop
  | .missing, .null => True
  | .truth a, .bool b => a = b
  | .number negative magnitude, .bool b =>
    negative = false ∧ magnitude.value = if b then 1 else 0
  | .number negative magnitude, .int n =>
    (if negative then -magnitude.value else magnitude.value) = (n.toInt : ℚ)
  | .number negative magnitude, .float x =>
    ∃ b, x.reading = .finite negative b ∧ RoundsTo magnitude.value b
  | .text content, .text s => content = s
  | .text content, .date day => Date.ofText? content = some day
  | .text content, .dateTime t => DateTime.ofText? content = some t
  | _, _ => False

private theorem reading_unique {constant : Constant} {x y : Double}
    (left : Denotes constant (.float x))
    (right : Denotes constant (.float y)) : y.reading = x.reading := by
  cases constant with
  | number negative magnitude =>
      obtain ⟨b, first, nearest⟩ := left
      obtain ⟨c, second, nearby⟩ := right
      have same : b = c := nearest.unique nearby (Decimal.normal_of_finite first)
        (Decimal.normal_of_finite second)
      rw [first, second, same]
  | _ => exact left.elim

private theorem literal_bool (d : Dialect) (b : Bool) :
    ∃ constant, IsLiteral d (d.boolLiteral b) constant ∧ Denotes constant (.bool b) := by
  by_cases words : d = .postgres
  · subst words
    refine ⟨.truth b, ?_, rfl⟩
    cases b with
    | false => exact literal_word rfl rfl
    | true => exact literal_word rfl rfl
  · have spelled : d.boolLiteral b = String.ofList (Nat.toDigits 10 b.toNat) := by
      unfold Dialect.boolLiteral
      split
      · exact absurd rfl words
      · cases b with
        | false => rfl
        | true => rfl
    rw [spelled]
    refine ⟨.number false ⟨b.toNat, 0⟩, literal_nat b.toNat, rfl, ?_⟩
    cases b with
    | false => simp [Decimal.Scaled.value]
    | true => simp [Decimal.Scaled.value]

private theorem denotes_int (n : Int64) :
    Denotes (.number (decide (n.toInt < 0)) ⟨n.toInt.natAbs, 0⟩) (.int n) := by
  have value : Decimal.Scaled.value ⟨n.toInt.natAbs, 0⟩ = ((n.toInt.natAbs : Int) : ℚ) := by
    rw [Decimal.Scaled.value, zpow_zero, mul_one, Int.cast_natCast]
  change (if decide (n.toInt < 0) = true then -_ else _) = (n.toInt : ℚ)
  rw [value]
  split
  · next below =>
      have whole : -(n.toInt.natAbs : Int) = n.toInt := by
        have negative := of_decide_eq_true below
        omega
      rw [← Int.cast_neg, whole]
  · next above =>
      have whole : (n.toInt.natAbs : Int) = n.toInt := by
        have positive := of_decide_eq_false (Bool.eq_false_iff.2 above)
        omega
      rw [whole]

/-! ### Dates and times -/

private theorem literal_plain {text : String} (plain : '\\' ∉ text.toList) :
    IsLiteral d ("'" ++ String.ofList (doubled '\'' text.toList) ++ "'") (.text text) := by
  have literal := literal_text (d := d) fun rest => readText_run text.toList (fun _ => plain) rest
  rw [String.ofList_toList] at literal
  exact literal

theorem plain_padded (width n : Nat) : '\\' ∉ (paddedDigits width n).toList := by
  intro member
  have digit := Text.digits_of_padded member
  cases digit

theorem plain_append {first second : String} (left : '\\' ∉ first.toList)
    (right : '\\' ∉ second.toList) : '\\' ∉ (first ++ second).toList := by
  rw [String.toList_append, List.mem_append, not_or]
  exact ⟨left, right⟩

theorem plain_date (day : Date) : '\\' ∉ day.text.toList := by
  have year : '\\' ∉ (yearText day.year).toList := by
    unfold yearText
    split
    · exact plain_padded 4 _
    · refine plain_append ?_ (plain_padded 4 _)
      split
      · decide
      · decide
  have month := plain_padded 2 day.month
  exact plain_append (plain_append (plain_append (plain_append year (by decide)) month) (by decide))
    (plain_padded 2 day.day)

private theorem plain_fraction (nanosecond : Nat) : '\\' ∉ (fractionText nanosecond).toList := by
  unfold fractionText
  split
  · decide
  · split
    · exact plain_append (by decide) (plain_padded 3 _)
    · split
      · exact plain_append (by decide) (plain_padded 6 _)
      · exact plain_append (by decide) (plain_padded 9 _)

private theorem plain_dateTime (t : DateTime) : '\\' ∉ t.text.toList := by
  have time : '\\' ∉ t.time.text.toList := by
    have hour := plain_append (plain_padded 2 t.time.hour) (by decide : '\\' ∉ ":".toList)
    have minute := plain_append (plain_append hour (plain_padded 2 t.time.minute))
      (by decide : '\\' ∉ ":".toList)
    exact plain_append (plain_append minute (plain_padded 2 _)) (plain_fraction _)
  exact plain_append (plain_append (plain_date t.date) (by decide)) time

/-! ### Texts that are quoted twice -/

/-- What a dialect reads for a character of a quoted text. Where the backslash is an escape, the one in
front of a code point is lost and the digits stay. -/
def unescapedChar (d : Dialect) (c : Char) : List Char :=
  if d ≠ .generic then (Text.quotedChar c).toList
  else if c ≠ '\x00' ∧ c ≠ '\t' ∧ c ≠ '\r' ∧ c ≠ '\n' ∧ Text.isHidden c then
    'u' :: '\x7b' :: Nat.toDigits 16 c.toNat ++ ['\x7d']
  else [c]

def unescaped (d : Dialect) (s : String) : String :=
  String.ofList ('"' :: s.toList.flatMap (unescapedChar d) ++ ['"'])

private theorem not_backslash_of_hex {n : Nat} {c : Char} (member : c ∈ Nat.toDigits 16 n) :
    c ≠ '\\' := by
  induction n using Nat.strong_induction_on with
  | _ n ih =>
      have digit : ∀ m < 16, Nat.digitChar m ≠ '\\' := by decide
      rw [Nat.toDigits_eq_if (by decide)] at member
      split at member
      · next small =>
          rw [List.mem_singleton] at member
          rw [member]
          exact digit n small
      · next more =>
          rcases List.mem_append.1 member with front | last
          · exact ih (n / 16) (by omega) front
          · rw [List.mem_singleton] at last
            rw [last]
            exact digit _ (Nat.mod_lt n (by decide))

/-- The escape takes one character, and the braces and digits behind it are plain ones. -/
theorem readText_codePoint (n : Nat) (rest : List Char) :
    readText .generic .plain
        (doubled '\'' ("\\u\x7b" ++ Text.hexDigits n ++ "\x7d").toList ++ rest) =
      before ('u' :: '\x7b' :: Nat.toDigits 16 n ++ ['\x7d']) (readText .generic .plain rest) := by
  have plain : '\\' ∉ '\x7b' :: Nat.toDigits 16 n ++ ['\x7d'] := by
    intro member
    rw [List.cons_append, List.mem_cons, List.mem_append, List.mem_singleton] at member
    rcases member with brace | digit | brace
    · cases brace
    · exact not_backslash_of_hex digit rfl
    · cases brace
  have spelled : ("\\u\x7b" ++ Text.hexDigits n ++ "\x7d").toList =
      '\\' :: 'u' :: ('\x7b' :: Nat.toDigits 16 n ++ ['\x7d']) := by
    simp [Text.hexDigits]
  have escape (cs : List Char) : readText .generic .plain (doubled '\'' ('\\' :: 'u' :: cs) ++ rest) =
      before ['u'] (readText .generic .plain (doubled '\'' cs ++ rest)) := rfl
  rw [spelled, escape, readText_run _ (fun _ => plain), ← before_append ['u']]
  rfl

private theorem readText_quotedChar (d : Dialect) (c : Char) (rest : List Char) :
    readText d .plain (doubled '\'' (Text.quotedChar c).toList ++ rest) =
      before (unescapedChar d c) (readText d .plain rest) := by
  by_cases other : d ≠ .generic
  · rw [unescapedChar, if_pos other, readText_run _ fun generic => absurd generic other]
  · rw [not_not] at other
    subst other
    unfold Text.quotedChar
    split_ifs with zero tab carriage line quote backslash hidden
    · rw [zero]
      rfl
    · rw [tab]
      rfl
    · rw [carriage]
      rfl
    · rw [line]
      rfl
    · rw [quote]
      rfl
    · rw [backslash]
      rfl
    · rw [readText_codePoint, unescapedChar, if_neg (by decide),
        if_pos ⟨zero, tab, carriage, line, hidden⟩]
    · have plain : '\\' ∉ [c] := fun member => backslash (List.mem_singleton.1 member).symm
      have spelled : c.toString.toList = [c] := by
        simp
      rw [spelled, readText_run [c] (fun _ => plain), unescapedChar, if_neg (by decide),
        if_neg fun code => hidden code.2.2.2.2]

private theorem quoted_toList (s : String) :
    (Text.quoted s).toList =
      '"' :: s.toList.flatMap (fun c => (Text.quotedChar c).toList) ++ ['"'] := by
  simp [Text.quoted, List.flatMap_map]

private theorem readText_flatMap (d : Dialect) (cs rest : List Char) :
    readText d .plain (doubled '\'' (cs.flatMap fun c => (Text.quotedChar c).toList) ++ rest) =
      before (cs.flatMap (unescapedChar d)) (readText d .plain rest) := by
  induction cs with
  | nil => exact readText_run [] (fun _ => List.not_mem_nil) rest
  | cons c cs ih =>
      rw [List.flatMap_cons, List.flatMap_cons, doubled_append, List.append_assoc, readText_quotedChar,
        ih, before_append]

private theorem readText_quoted (d : Dialect) (s : String) (rest : List Char) :
    readText d .plain (doubled '\'' (Text.quoted s).toList ++ rest) =
      before (unescaped d s).toList (readText d .plain rest) := by
  have quote (rest : List Char) : readText d .plain ('"' :: rest) = before ['"'] (readText d .plain rest) :=
    readText_run ['"'] (fun _ => by decide) rest
  have ends : doubled '\'' ['"'] = ['"'] := rfl
  have begins (cs : List Char) : doubled '\'' ('"' :: cs) = '"' :: doubled '\'' cs := rfl
  rw [quoted_toList, unescaped, String.toList_ofList, List.cons_append, begins, doubled_append, ends,
    List.cons_append, quote, List.append_assoc, readText_flatMap, List.singleton_append, quote,
    ← before_append, ← before_append]
  rfl

private theorem length_unescapedChar (d : Dialect) (c : Char) : 0 < (unescapedChar d c).length := by
  unfold unescapedChar Text.quotedChar
  split_ifs
  all_goals simp

private theorem unescaped_ne (d : Dialect) (s : String) : unescaped d s ≠ s := by
  intro same
  have characters := congrArg String.toList same
  have lengths := congrArg List.length characters
  rw [unescaped, String.toList_ofList, List.cons_append, List.length_cons, List.length_append,
    List.length_singleton] at lengths
  have longer : s.toList.length ≤ (s.toList.flatMap (unescapedChar d)).length := by
    induction s.toList with
    | nil => exact Nat.le_refl _
    | cons c cs ih =>
        rw [List.flatMap_cons, List.length_append, List.length_cons]
        have some := length_unescapedChar d c
        omega
  omega

theorem literal_quoted (d : Dialect) (s : String) :
    IsLiteral d (defaultLiteral d (.text s)) (.text (unescaped d s)) := by
  have literal := literal_text (d := d) fun rest => readText_quoted d s rest
  rw [String.ofList_toList] at literal
  exact literal

/-! ### Defaults -/

/-- The default is a value of its own, and a number if it is a double. -/
structure Plain (v : Value) : Prop where
  single : v.isList = false
  finite : ∀ x, v = .float x → ∃ negative b, x.reading = .finite negative b

/-- A date and time in the default has no leap second inside a minute. -/
def Timely : Value → Prop
  | .dateTime t => t.time.Regular
  | _ => True

/-- What stands behind `DEFAULT` for a default other than a text is one constant, which stands for it if
its time can be told. -/
theorem literal_denotes (d : Dialect) {v : Value} (plain : Plain v) (other : v.isText = false) :
    ∃ constant, IsLiteral d (defaultLiteral d v) constant ∧ (Denotes constant v ↔ Timely v) := by
  cases v with
  | null =>
      have word : IsLiteral d "NULL" .missing := literal_word rfl rfl
      exact ⟨.missing, word, fun _ => trivial, fun _ => trivial⟩
  | bool b =>
      obtain ⟨constant, literal, denotes⟩ := literal_bool d b
      exact ⟨constant, literal, fun _ => trivial, fun _ => denotes⟩
  | int n => exact ⟨_, literal_int n, fun _ => trivial, fun _ => denotes_int n⟩
  | float x =>
      obtain ⟨negative, b, reading⟩ := plain.finite x rfl
      obtain ⟨magnitude, rounds, literal⟩ := literal_double (d := d) reading
      exact ⟨_, literal, fun _ => trivial, fun _ => ⟨b, reading, rounds⟩⟩
  | text s => cases other
  | date day =>
      exact ⟨_, literal_plain (plain_date day), fun _ => trivial, fun _ => day.ofText_text⟩
  | dateTime t => exact ⟨_, literal_plain (plain_dateTime t), DateTime.ofText_text_iff⟩
  | list items => cases plain.single

/-- The definition of a column with a default ends in one constant of the dialect, out of which nothing
of the default comes. The constant stands for the default if and only if that is no text and has no leap
second inside a minute, and for no other number than a default that is a double; of a text it has every
character between double quotes, those apart that are quoted in a way that the dialect does not know. -/
theorem defaults_are_constants (d : Dialect) {p : PropertyChange} {v : Value}
    (default : p.options.default? = some v) (plain : Plain v) :
    ∃ literal constant,
      p.definition? d = (p.column?.bind (columnDefinition? d)).map (· ++ " DEFAULT " ++ literal) ∧
      IsLiteral d literal constant ∧ (Denotes constant v ↔ v.isText = false ∧ Timely v) ∧
      (∀ x y, v = .float x → Denotes constant (.float y) → y.reading = x.reading) ∧
      ∀ s, v = .text s → constant = .text (unescaped d s) := by
  have spelled : p.definition? d =
      (p.column?.bind (columnDefinition? d)).map (· ++ " DEFAULT " ++ defaultLiteral d v) := by
    unfold PropertyChange.definition?
    rw [default]
    cases p.column? with
    | none => rfl
    | some column =>
        cases found : columnDefinition? d column with
        | none => simp [found]
        | some definition => simp [found]
  cases text : v.isText with
  | false =>
      obtain ⟨constant, literal, denotes⟩ := literal_denotes d plain text
      refine ⟨_, constant, spelled, literal, ?_, ?_, ?_⟩
      · exact ⟨fun stands => ⟨rfl, denotes.1 stands⟩, fun timely => denotes.2 timely.2⟩
      · rintro x y rfl other
        exact reading_unique (denotes.2 trivial) other
      · rintro s rfl
        cases text
  | true =>
      cases v with
      | text s =>
          refine ⟨_, _, spelled, literal_quoted d s, ⟨?_, ?_⟩, ?_, ?_⟩
          · intro same
            exact absurd same (unescaped_ne d s)
          · rintro ⟨other, -⟩
            cases other
          · intro x y same
            cases same
          · intro t same
            cases same
            rfl
      | _ => cases text

def rate : PropertyChange :=
  { name := "rate", type? := some .float, action? := some .create
    options := { default? := some (.float ⟨0x3FB999999999999A⟩) } }

/-- The decimal 0.1 stands for the double that it is written for. -/
theorem tenth_denoted :
    rate.definition? .sqlite = some "\"rate\" REAL NOT NULL DEFAULT 0.1" ∧
      ∃ constant, IsLiteral .sqlite "0.1" constant ∧
        Denotes constant (.float ⟨0x3FB999999999999A⟩) := by
  have defined : rate.definition? .sqlite = some "\"rate\" REAL NOT NULL DEFAULT 0.1" := by
    decide +kernel
  refine ⟨defined, ?_⟩
  have plain : Plain (.float ⟨0x3FB999999999999A⟩) := by
    refine ⟨rfl, fun x same => ?_⟩
    cases same
    exact ⟨false, ⟨0x1999999999999A, -56⟩, by decide⟩
  obtain ⟨literal, constant, spelled, reads, denotes, -⟩ :=
    defaults_are_constants .sqlite (p := rate) rfl plain
  have column : rate.column?.bind (columnDefinition? .sqlite) = some "\"rate\" REAL NOT NULL" := by
    decide +kernel
  rw [defined, column, Option.map_some, Option.some.injEq] at spelled
  have same : "\"rate\" REAL NOT NULL DEFAULT " ++ "0.1" =
      "\"rate\" REAL NOT NULL DEFAULT " ++ literal := spelled
  rw [String.append_right_inj] at same
  rw [← same] at reads
  exact ⟨constant, reads, denotes.2 ⟨rfl, trivial⟩⟩

/-- The constant for the default `abc` has two characters more. -/
theorem quoted_default :
    (PropertyChange.definition? .sqlite
      { name := "name", type? := some .text, options := { default? := some (.text "abc") } }) =
        some "\"name\" TEXT NOT NULL DEFAULT '\"abc\"'" ∧
      ¬ ∃ constant, IsLiteral .sqlite "'\"abc\"'" constant ∧ Denotes constant (.text "abc") := by
  constructor
  · decide +kernel
  · rintro ⟨constant, literal, denotes⟩
    have quoted : IsLiteral .sqlite "'\"abc\"'" (.text "\"abc\"") := literal_quoted .sqlite "abc"
    have same : constant = .text "\"abc\"" := literal.unique quoted
    rw [same] at denotes
    change "\"abc\"" = "abc" at denotes
    exact absurd denotes (by decide)

end EntityStore.Migration
