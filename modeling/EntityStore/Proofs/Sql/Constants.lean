import EntityStore.Proofs.Decimal.Shortest
import EntityStore.Proofs.Text.Runs
import EntityStore.Sql.Dialect
import EntityStore.Value.Basic

/-!
Constants as a dialect reads them. A text stands between apostrophes, with an apostrophe in it written
twice; where the backslash is an escape, it and what follows stand for one character. A number has a
sign in front of it or none, and a point in it or none. The digits that are written for a number are
read back as it, so an integer is read as itself and a double as a number that rounds to it.
-/

namespace EntityStore.Sql

open Decimal (Scaled RoundsTo)
open Text (Stops stops_cons takeWhile_run dropWhile_run)

/-! ### Texts -/

/-- How far the reader is in a text whose first apostrophe it has passed. -/
inductive TextMode
  | plain
  | escaped
  | ended

/-- What a character behind a backslash stands for, in a dialect where that is an escape. The wildcards
of patterns keep their backslash. -/
def escapedChar (c : Char) : List Char :=
  match c with
  | '0' => ['\x00']
  | 'b' => ['\x08']
  | 'n' => ['\n']
  | 'r' => ['\r']
  | 't' => ['\t']
  | 'Z' => ['\x1a']
  | '%' => ['\\', '%']
  | '_' => ['\\', '_']
  | c => [c]

def before (cs : List Char) (read : Option (List Char × List Char)) :
    Option (List Char × List Char) :=
  read.map fun (text, rest) => (cs ++ text, rest)

/-- The characters up to the apostrophe that ends the text, and what follows it. -/
def readText (d : Dialect) : TextMode → List Char → Option (List Char × List Char)
  | .ended, [] => some ([], [])
  | _, [] => none
  | .plain, c :: rest =>
    if c = '\'' then readText d .ended rest
    else if c = '\\' ∧ d = .generic then readText d .escaped rest
    else before [c] (readText d .plain rest)
  | .escaped, c :: rest => before (escapedChar c) (readText d .plain rest)
  | .ended, c :: rest =>
    if c = '\'' then before ['\''] (readText d .plain rest) else some ([], c :: rest)

namespace Dialect

/-- What a constant stands for that has these characters between its apostrophes, each apostrophe among
them written twice. -/
def textBetween? (d : Dialect) (content : String) : Option String :=
  match readText d .plain (doubled '\'' content.toList ++ ['\'']) with
  | some (text, []) => some (String.ofList text)
  | _ => none

end Dialect

/-! ### Constants of every kind -/

inductive Constant
  | missing
  | truth (b : Bool)
  | number (negative : Bool) (magnitude : Scaled)
  | text (content : String)
  deriving DecidableEq, Repr

/-- A number without a sign, and what follows it. A point has digits on both sides, and however many
there are, all of them count. -/
def readMagnitude (cs : List Char) : Option (Scaled × List Char) :=
  let whole := cs.takeWhile Char.isDigit
  if whole.isEmpty then none
  else
    match cs.dropWhile Char.isDigit with
    | '.' :: rest =>
      let places := rest.takeWhile Char.isDigit
      if places.isEmpty then none
      else
        some (⟨Nat.ofDigitChars 10 (whole ++ places) 0, -places.length⟩,
          rest.dropWhile Char.isDigit)
    | rest => some (⟨Nat.ofDigitChars 10 whole 0, 0⟩, rest)

def readWord (d : Dialect) (cs : List Char) : Option (Constant × List Char) :=
  let word := cs.takeWhile Char.isAlpha
  let rest := cs.dropWhile Char.isAlpha
  if word = "NULL".toList then some (.missing, rest)
  else if word = "TRUE".toList ∧ d = .postgres then some (.truth true, rest)
  else if word = "FALSE".toList ∧ d = .postgres then some (.truth false, rest)
  else none

/-- The constant that stands first in a text, and what follows it. -/
def readConstant (d : Dialect) (cs : List Char) : Option (Constant × List Char) :=
  match cs with
  | '\'' :: rest =>
    (readText d .plain rest).map fun (content, rest) => (.text (String.ofList content), rest)
  | '-' :: rest =>
    (readMagnitude rest).map fun (magnitude, rest) => (.number true magnitude, rest)
  | cs =>
    ((readMagnitude cs).map fun (magnitude, rest) => (.number false magnitude, rest))
      <|> readWord d cs

/-- The definition of a column ends the statement, or the next one follows or the end of them all. -/
def EndsDefinition (rest : List Char) : Prop :=
  ∀ c, rest.head? = some c → c = ',' ∨ c = ')'

/-- At the end of the definition of a column the text is one whole constant. -/
def IsLiteral (d : Dialect) (literal : String) (constant : Constant) : Prop :=
  ∀ rest, EndsDefinition rest → readConstant d (literal.toList ++ rest) = some (constant, rest)

variable {d : Dialect} {rest : List Char}

theorem EndsDefinition.stops {kind : Char → Bool} (ends : EndsDefinition rest)
    (comma : kind ',' = false) (bracket : kind ')' = false) : Stops kind rest := by
  intro c first
  rcases ends c first with same | same
  · rw [same]
    exact comma
  · rw [same]
    exact bracket

theorem EndsDefinition.apart (ends : EndsDefinition rest) {c : Char} (comma : c ≠ ',')
    (bracket : c ≠ ')') : rest.head? ≠ some c := by
  intro first
  rcases ends c first with same | same
  · exact comma same
  · exact bracket same

theorem IsLiteral.unique {literal : String} {first second : Constant} (left : IsLiteral d literal first)
    (right : IsLiteral d literal second) : first = second := by
  have one := left [] nofun
  rw [right [] nofun, Option.some.injEq, Prod.mk.injEq] at one
  exact one.1.symm

/-! ### Texts between apostrophes -/

theorem before_append (first second : List Char) (read : Option (List Char × List Char)) :
    before (first ++ second) read = before first (before second read) := by
  cases read with
  | none => rfl
  | some parts => exact congrArg (fun text => some (text, parts.2)) (List.append_assoc first second _)

theorem doubled_append (quote : Char) (first second : List Char) :
    doubled quote (first ++ second) = doubled quote first ++ doubled quote second := by
  induction first with
  | nil => rfl
  | cons c rest ih =>
      rw [List.cons_append, doubled, doubled, ih]
      split
      · rfl
      · rfl

/-- Characters that are no escape are read as they are. -/
theorem readText_run (cs : List Char) (plain : d = .generic → '\\' ∉ cs) (rest : List Char) :
    readText d .plain (doubled '\'' cs ++ rest) = before cs (readText d .plain rest) := by
  induction cs with
  | nil =>
      rw [doubled, List.nil_append]
      cases readText d .plain rest with
      | none => rfl
      | some parts => rfl
  | cons c cs ih =>
      have later : d = .generic → '\\' ∉ cs := fun same member =>
        plain same (List.mem_cons_of_mem c member)
      have first : before (c :: cs) (readText d .plain rest) =
          before [c] (before cs (readText d .plain rest)) := before_append [c] cs _
      rw [doubled, first, ← ih later]
      split
      · next same =>
          rw [List.cons_append, List.cons_append, readText, if_pos same, readText, if_pos same, same]
      · next other =>
          have kept : ¬ (c = '\\' ∧ d = .generic) := by
            rintro ⟨backslash, generic⟩
            exact plain generic (backslash ▸ List.mem_cons_self)
          rw [List.cons_append, readText, if_neg other, if_neg kept]

private theorem readText_end (apart : rest.head? ≠ some '\'') :
    readText d .plain ('\'' :: rest) = some ([], rest) := by
  rw [readText, if_pos rfl]
  cases rest with
  | nil => rfl
  | cons c rest =>
      have other : c ≠ '\'' := fun same => apart (congrArg some same)
      rw [readText, if_neg other]

theorem literal_text {content read : List Char}
    (reads : ∀ rest, readText d .plain (doubled '\'' content ++ rest) =
      before read (readText d .plain rest)) :
    IsLiteral d ("'" ++ String.ofList (doubled '\'' content) ++ "'") (.text (String.ofList read)) := by
  intro rest ends
  have spelled : ("'" ++ String.ofList (doubled '\'' content) ++ "'").toList ++ rest =
      '\'' :: (doubled '\'' content ++ '\'' :: rest) := by
    simp
  have apart : rest.head? ≠ some '\'' := ends.apart (by decide) (by decide)
  have whole : before read (some ([], rest)) = some (read, rest) :=
    congrArg (fun text => some (text, rest)) (List.append_nil read)
  rw [spelled, readConstant, reads, readText_end apart, whole]
  rfl

/-! ### Words -/

private theorem readWord_append {word : List Char} (letters : ∀ c ∈ word, c.isAlpha = true)
    (stops : Stops Char.isAlpha rest) :
    readWord d (word ++ rest) = (readWord d word).map fun (constant, _) => (constant, rest) := by
  have alone := takeWhile_run letters Text.stops_nil
  rw [List.append_nil] at alone
  unfold readWord
  rw [takeWhile_run letters stops, dropWhile_run letters stops, alone]
  simp only
  split
  · rfl
  · split
    · rfl
    · split
      · rfl
      · rfl

/-- A word that is read is no text and no number. -/
theorem readConstant_word {c : Char} (letter : c.isAlpha = true) (cs : List Char) :
    readConstant d (c :: cs) = readWord d (c :: cs) := by
  have figure : c.isDigit = false := by
    rw [Bool.eq_false_iff]
    intro digit
    rw [Char.isDigit_iff_toNat] at digit
    have greatest : c.toNat ≤ 57 := digit.2
    have either : (c.isUpper || c.isLower) = true := letter
    rcases Bool.or_eq_true_iff.1 either with upper | lower
    · have least : 65 ≤ c.toNat := UInt32.le_iff_toNat_le.1 (of_decide_eq_true upper).1
      omega
    · have first : decide ('a'.val ≤ c.val) = true := (Bool.and_eq_true_iff.1 lower).1
      have least : 97 ≤ c.toNat := UInt32.le_iff_toNat_le.1 (of_decide_eq_true first)
      omega
  have none : readMagnitude (c :: cs) = none := by
    unfold readMagnitude
    rw [List.takeWhile_cons_of_neg (by rw [figure]; decide)]
    rfl
  unfold readConstant
  split
  · next same =>
      cases same
      cases letter
  · next same =>
      cases same
      cases letter
  · rw [none]
    rfl

theorem literal_word {word : String} {constant : Constant} {rest : List Char}
    (letters : word.toList.all Char.isAlpha = true)
    (reads : readWord d word.toList = some (constant, rest)) : IsLiteral d word constant := by
  intro after ends
  rw [List.all_eq_true] at letters
  have whole := readWord_append (d := d) letters (ends.stops rfl rfl)
  rw [reads, Option.map_some] at whole
  cases spelled : word.toList with
  | nil =>
      rw [spelled] at reads
      cases reads
  | cons c cs =>
      rw [spelled] at letters whole
      rw [← whole, List.cons_append, readConstant_word (letters c List.mem_cons_self)]

/-! ### Magnitudes -/

variable {run places : List Char}

private theorem readMagnitude_whole (digits : ∀ c ∈ run, c.isDigit = true) (nonempty : run ≠ [])
    (stops : Stops Char.isDigit rest) (apart : rest.head? ≠ some '.') :
    readMagnitude (run ++ rest) = some (⟨Nat.ofDigitChars 10 run 0, 0⟩, rest) := by
  unfold readMagnitude
  rw [takeWhile_run digits stops, dropWhile_run digits stops]
  simp only
  rw [if_neg (mt List.isEmpty_iff.1 nonempty)]
  split
  · exact absurd rfl apart
  · rfl

private theorem readMagnitude_pointed (digits : ∀ c ∈ run, c.isDigit = true) (nonempty : run ≠ [])
    (behind : ∀ c ∈ places, c.isDigit = true) (some : places ≠ []) (stops : Stops Char.isDigit rest) :
    readMagnitude (run ++ '.' :: (places ++ rest)) =
      .some (⟨Nat.ofDigitChars 10 (run ++ places) 0, -places.length⟩, rest) := by
  have point : Stops Char.isDigit ('.' :: (places ++ rest)) := stops_cons rfl
  unfold readMagnitude
  rw [takeWhile_run digits point, dropWhile_run digits point]
  simp only
  rw [if_neg (mt List.isEmpty_iff.1 nonempty), takeWhile_run behind stops, dropWhile_run behind stops,
    if_neg (mt List.isEmpty_iff.1 some)]

theorem readMagnitude_zeros (digits zeros : Nat) (ends : EndsDefinition rest) :
    readMagnitude (Nat.toDigits 10 digits ++ List.replicate zeros '0' ++ rest) =
      some (⟨digits * 10 ^ zeros, 0⟩, rest) := by
  have all : ∀ c ∈ Nat.toDigits 10 digits ++ List.replicate zeros '0', c.isDigit = true := by
    intro c member
    rcases List.mem_append.1 member with digit | zero
    · exact Nat.isDigit_of_mem_toDigits (by decide) (by decide) digit
    · rw [List.eq_of_mem_replicate zero]
      rfl
  have nonempty : Nat.toDigits 10 digits ++ List.replicate zeros '0' ≠ [] := fun none =>
    Nat.toDigits_ne_nil (List.append_eq_nil_iff.1 none).1
  rw [readMagnitude_whole all nonempty (ends.stops rfl rfl) (ends.apart (by decide) (by decide)),
    Nat.ofDigitChars_append, Nat.ofDigitChars_ten_toDigits, Nat.ofDigitChars_replicate_zero, Nat.mul_comm]

/-- A decimal with a point has that many digits behind it, and one in front of it at least. -/
theorem readMagnitude_split (digits : Nat) {behind : Nat} (some : 0 < behind)
    (ends : EndsDefinition rest) :
    readMagnitude ((paddedDigits (behind + 1) digits).toList.take
        ((paddedDigits (behind + 1) digits).toList.length - behind) ++ '.' ::
      ((paddedDigits (behind + 1) digits).toList.drop
        ((paddedDigits (behind + 1) digits).toList.length - behind) ++ rest)) =
      .some (⟨digits, -behind⟩, rest) := by
  have value := Text.value_of_padded (behind + 1) digits
  have all (c : Char) (member : c ∈ (paddedDigits (behind + 1) digits).toList) : c.isDigit = true :=
    Text.digits_of_padded member
  have long : behind + 1 ≤ (paddedDigits (behind + 1) digits).toList.length := by
    unfold paddedDigits
    rw [String.toList_ofList, List.length_append, List.length_replicate]
    omega
  generalize (paddedDigits (behind + 1) digits).toList = padded at value all long
  have front : padded.take (padded.length - behind) ≠ [] := by
    rw [← List.length_pos_iff_ne_nil, List.length_take]
    omega
  have length : (padded.drop (padded.length - behind)).length = behind := by
    rw [List.length_drop]
    omega
  have back : padded.drop (padded.length - behind) ≠ [] := by
    rw [← List.length_pos_iff_ne_nil, length]
    exact some
  rw [readMagnitude_pointed (fun c member => all c (List.mem_of_mem_take member)) front
      (fun c member => all c (List.mem_of_mem_drop member)) back (ends.stops rfl rfl),
    List.take_append_drop, value, length]

/-- What is written for a decimal without an exponent is read as one of the same value. -/
theorem readMagnitude_positional (s : Scaled) :
    ∃ magnitude : Scaled, magnitude.value = s.value ∧ ∀ rest, EndsDefinition rest →
      readMagnitude ((s.positional false).toList ++ rest) = some (magnitude, rest) := by
  rcases lt_or_ge s.exponent 0 with pointed | whole
  · have exponent : -((-s.exponent).toNat : Int) = s.exponent := by omega
    refine ⟨s, rfl, fun rest ends => ?_⟩
    have read := readMagnitude_split s.digits (by omega : 0 < (-s.exponent).toNat) ends
    have spelled : (s.positional false).toList =
        (paddedDigits ((-s.exponent).toNat + 1) s.digits).toList.take
            ((paddedDigits ((-s.exponent).toNat + 1) s.digits).toList.length - (-s.exponent).toNat) ++
          '.' :: (paddedDigits ((-s.exponent).toNat + 1) s.digits).toList.drop
            ((paddedDigits ((-s.exponent).toNat + 1) s.digits).toList.length - (-s.exponent).toNat) := by
      unfold Scaled.positional
      simp only
      rw [if_neg (not_le.2 pointed), paddedDigits, String.toList_ofList, String.toList_ofList]
      rfl
    rw [spelled, List.append_assoc, List.cons_append, read, exponent]
  · have unsigned : ((s.exponent.toNat : Nat) : Int) = s.exponent := Int.toNat_of_nonneg whole
    have value : Scaled.value ⟨s.digits * 10 ^ s.exponent.toNat, 0⟩ = s.value := by
      rw [Scaled.value, Scaled.value, ← unsigned, zpow_natCast, zpow_zero, mul_one, unsigned]
      push_cast
      rfl
    by_cases zero : s.digits = 0
    · refine ⟨⟨0, 0⟩, ?_, fun rest ends => ?_⟩
      · rw [Scaled.value, Scaled.value, zero, Nat.cast_zero, zero_mul, zero_mul]
      · have read := readMagnitude_zeros 0 0 ends
        rw [List.replicate_zero, List.append_nil, Nat.zero_mul] at read
        have spelled : (s.positional false).toList = Nat.toDigits 10 0 := by
          unfold Scaled.positional
          simp only
          rw [if_pos whole, if_pos zero, zero]
          rfl
        rw [spelled, read]
    · refine ⟨⟨s.digits * 10 ^ s.exponent.toNat, 0⟩, value, fun rest ends => ?_⟩
      have spelled : (s.positional false).toList =
          Nat.toDigits 10 s.digits ++ List.replicate s.exponent.toNat '0' := by
        unfold Scaled.positional
        simp only
        rw [if_pos whole, if_neg zero, String.toList_append, String.toList_ofList]
        exact List.append_nil _
      rw [spelled, readMagnitude_zeros s.digits s.exponent.toNat ends]

/-! ### Numbers with a sign -/

def signed (negative : Bool) (text : String) : String :=
  (if negative then "-" else "") ++ text

theorem literal_number {negative : Bool} {text : String} {magnitude : Scaled}
    (reads : ∀ rest, EndsDefinition rest →
      readMagnitude (text.toList ++ rest) = some (magnitude, rest)) :
    IsLiteral d (signed negative text) (.number negative magnitude) := by
  intro rest ends
  have read := reads rest ends
  cases negative with
  | true =>
      have spelled : (signed true text).toList ++ rest = '-' :: (text.toList ++ rest) := by
        simp [signed]
      rw [spelled, readConstant, read]
      rfl
  | false =>
      have spelled : (signed false text).toList = text.toList := by
        simp [signed]
      rw [spelled]
      unfold readConstant
      split
      · next same =>
          rw [same] at read
          cases read
      · next same =>
          rw [same] at read
          cases read
      · rw [read]
        rfl

theorem readMagnitude_digits (n : Nat) (ends : EndsDefinition rest) :
    readMagnitude ((String.ofList (Nat.toDigits 10 n)).toList ++ rest) = some (⟨n, 0⟩, rest) := by
  have read := readMagnitude_zeros n 0 ends
  rw [List.replicate_zero, List.append_nil, Nat.pow_zero, Nat.mul_one] at read
  rw [String.toList_ofList, read]

theorem literal_nat (n : Nat) :
    IsLiteral d (String.ofList (Nat.toDigits 10 n)) (.number false ⟨n, 0⟩) := by
  have unsigned : signed false (String.ofList (Nat.toDigits 10 n)) = String.ofList (Nat.toDigits 10 n) := by
    simp [signed]
  rw [← unsigned]
  exact literal_number fun _ ends => readMagnitude_digits n ends

theorem literal_int (n : Int64) :
    IsLiteral d (Value.intText n) (.number (decide (n.toInt < 0)) ⟨n.toInt.natAbs, 0⟩) := by
  have spelled : Value.intText n =
      signed (decide (n.toInt < 0)) (String.ofList (Nat.toDigits 10 n.toInt.natAbs)) := by
    simp [Value.intText, signed]
  rw [spelled]
  exact literal_number fun _ ends => readMagnitude_digits _ ends

theorem literal_double {x : Double} {negative : Bool} {b : Decimal.Binary}
    (finite : x.reading = .finite negative b) :
    ∃ magnitude : Scaled, RoundsTo magnitude.value b ∧
      IsLiteral d (Decimal.plain x) (.number negative magnitude) := by
  obtain ⟨magnitude, same, reads⟩ := readMagnitude_positional (b.shortest .up)
  have spelled : Decimal.plain x = signed negative ((b.shortest .up).positional false) := by
    unfold Decimal.plain
    rw [finite]
    rfl
  rw [spelled]
  refine ⟨magnitude, ?_, literal_number reads⟩
  rw [same]
  exact Decimal.shortest_rounds .up (Decimal.normal_of_finite finite)

end EntityStore.Sql
