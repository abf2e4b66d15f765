import EntityStore.Proofs.Text.Runs

/-!
Dates and times are read back from the text that is written for them, with any year that can be kept,
a leap second at the end of a minute and every fraction of a second. A leap second anywhere else is
written as the second that follows it, and is not what is read.
-/

namespace EntityStore

open Text (Stops stops_nil stops_cons takeWhile_run digits_of_padded value_of_padded
  length_padded padded_ne_nil not_blank_of_digit)

namespace Calendar

/-! ### Numbers -/

variable {run rest : List Char}

theorem readDigits_run {width : Nat} (digits : ∀ c ∈ run, c.isDigit = true) (nonempty : run ≠ [])
    (fits : run.length ≤ width) (ends : run.length = width ∨ Stops Char.isDigit rest) :
    readDigits width (run ++ rest) = some (run, rest) := by
  have taken : ((run ++ rest).take width).takeWhile Char.isDigit = run := by
    rw [List.take_append, List.take_of_length_le fits]
    apply takeWhile_run digits
    rcases ends with full | stops
    · rw [full, Nat.sub_self]
      exact stops_nil
    · exact stops.take _
  have left : (run ++ rest).drop run.length = rest := List.drop_left
  unfold readDigits
  simp only [taken, left]
  rw [if_neg (mt List.isEmpty_iff.1 nonempty)]

theorem skipBlanks_digits {cs : List Char} (digits : ∀ c ∈ cs, c.isDigit = true) (nonempty : cs ≠ []) :
    Text.skipBlanks (cs ++ rest) = cs ++ rest := by
  cases cs with
  | nil => exact absurd rfl nonempty
  | cons c cs =>
      have visible := not_blank_of_digit (digits c List.mem_cons_self)
      unfold Text.skipBlanks
      rw [List.cons_append, List.dropWhile_cons_of_neg (by rw [visible]; decide)]

theorem skipBlanks_padded (width n : Nat) (rest : List Char) :
    Text.skipBlanks ((paddedDigits width n).toList ++ rest) = (paddedDigits width n).toList ++ rest :=
  skipBlanks_digits (fun _ member => digits_of_padded member) (padded_ne_nil width n)

theorem readNumber_padded {width n : Nat} (positive : 0 < width) (fits : n < Nat.pow 10 width)
    (rest : List Char) :
    readNumber width ((paddedDigits width n).toList ++ rest) = some (n, rest) := by
  have length := length_padded positive fits
  unfold readNumber
  rw [skipBlanks_padded, readDigits_run (fun _ member => digits_of_padded member)
    (padded_ne_nil width n) (Nat.le_of_eq length) (Or.inl length)]
  exact congrArg (fun value => some (value, rest)) (value_of_padded width n)

private theorem readDigits_signed {n : Nat} (stops : Stops Char.isDigit rest) :
    readDigits ((paddedDigits 4 n).toList ++ rest).length ((paddedDigits 4 n).toList ++ rest) =
      some ((paddedDigits 4 n).toList, rest) := by
  apply readDigits_run (fun _ member => digits_of_padded member) (padded_ne_nil 4 n) _ (Or.inr stops)
  rw [List.length_append]
  omega

private theorem readYear_unsigned {cs : List Char} (digits : ∀ c ∈ cs, c.isDigit = true)
    (nonempty : cs ≠ []) :
    readYear (cs ++ rest) =
      (readDigits 4 (cs ++ rest)).map fun (digits, rest) => ((valueOf digits : Int), rest) := by
  have minus : '-'.isDigit = false := rfl
  have plus : '+'.isDigit = false := rfl
  unfold readYear
  rw [skipBlanks_digits digits nonempty]
  cases cs with
  | nil => exact absurd rfl nonempty
  | cons c cs =>
      have digit := digits c List.mem_cons_self
      split
      · next same =>
          cases same
          rw [minus] at digit
          cases digit
      · next same =>
          cases same
          rw [plus] at digit
          cases digit
      · rfl

private theorem readYear_negative (cs : List Char) :
    readYear ('-' :: cs) =
      (readDigits cs.length cs).map fun (digits, rest) => (-(valueOf digits : Int), rest) :=
  rfl

private theorem readYear_positive (cs : List Char) :
    readYear ('+' :: cs) =
      (readDigits cs.length cs).map fun (digits, rest) => ((valueOf digits : Int), rest) :=
  rfl

private theorem readYear_text (year : Int) (stops : Stops Char.isDigit rest) :
    readYear ((yearText year).toList ++ rest) = some (year, rest) := by
  have value (n : Nat) : valueOf (paddedDigits 4 n).toList = n := value_of_padded 4 n
  unfold yearText
  split
  · next short =>
      have fits : year.toNat < 10 ^ 4 := by omega
      have length := length_padded (by decide) fits
      have same : (year.toNat : Int) = year := Int.toNat_of_nonneg short.1
      rw [readYear_unsigned (fun _ member => digits_of_padded member) (padded_ne_nil 4 _),
        readDigits_run (fun _ member => digits_of_padded member) (padded_ne_nil 4 _)
          (Nat.le_of_eq length) (Or.inl length), Option.map_some]
      simp only [value, same]
  · have signed := readDigits_signed (n := year.natAbs) stops
    rw [String.toList_append, List.append_assoc]
    split
    · next below =>
        have same : -(year.natAbs : Int) = year := by omega
        have sign : "-".toList = ['-'] := rfl
        rw [sign, List.singleton_append, readYear_negative, signed, Option.map_some]
        simp only [value, same]
    · next above =>
        have same : (year.natAbs : Int) = year := by omega
        have sign : "+".toList = ['+'] := rfl
        rw [sign, List.singleton_append, readYear_positive, signed, Option.map_some]
        simp only [value, same]

/-! ### Dates and times -/

theorem readDate_text (d : Date) (rest : List Char) :
    readDate (d.text.toList ++ rest) = some (d, rest) := by
  have month : d.month < 10 ^ 2 := by
    have range := d.monthInRange
    omega
  have day : d.day < 10 ^ 2 := by
    have range := d.dayInRange
    have most : daysInMonth d.year d.month ≤ 31 := by
      unfold daysInMonth
      split
      · split <;> decide
      · split <;> decide
    omega
  have parts : Date.ofParts? d.year d.month d.day = some d :=
    dif_pos ⟨d.yearInRange, d.monthInRange, d.dayInRange⟩
  have spelled : d.text.toList ++ rest = (yearText d.year).toList ++ '-' ::
      ((paddedDigits 2 d.month).toList ++ '-' :: ((paddedDigits 2 d.day).toList ++ rest)) := by
    simp [Date.text]
  have minus : Stops Char.isDigit
      ('-' :: ((paddedDigits 2 d.month).toList ++ '-' :: ((paddedDigits 2 d.day).toList ++ rest))) :=
    stops_cons rfl
  rw [spelled]
  unfold readDate
  rw [readYear_text d.year minus]
  simp only [Option.bind_eq_bind, Option.bind_some, expect, if_pos, readNumber_padded Nat.two_pos month,
    readNumber_padded Nat.two_pos day, parts]
  rfl

private theorem readFraction_padded {width n : Nat} (positive : 0 < width) (most : width ≤ 9)
    (fits : n < Nat.pow 10 width) :
    readFraction ("." ++ paddedDigits width n).toList = some (n * Nat.pow 10 (9 - width), []) := by
  have length := length_padded positive fits
  have value : valueOf (paddedDigits width n).toList = n := value_of_padded width n
  have whole : (paddedDigits width n).toList ++ [] = (paddedDigits width n).toList := List.append_nil _
  have read : readDigits 9 ((paddedDigits width n).toList ++ []) = _ :=
    readDigits_run (fun _ member => digits_of_padded member) (padded_ne_nil width n)
      (Nat.le_trans (Nat.le_of_eq length) most) (Or.inr stops_nil)
  rw [whole] at read
  have point : ".".toList = ['.'] := rfl
  rw [String.toList_append, point, List.singleton_append]
  unfold readFraction
  simp only [read, Option.bind_eq_bind, Option.bind_some, value, length]
  rfl

private theorem readFraction_text {nanosecond : Nat} (fits : nanosecond < 1000000000) :
    readFraction (fractionText nanosecond).toList = some (nanosecond, []) := by
  unfold fractionText
  split
  · next zero =>
      rw [zero]
      rfl
  · split
    · next milli =>
        have least : nanosecond / 1000000 < 10 ^ 3 := by omega
        have whole : nanosecond / 1000000 * 10 ^ (9 - 3) = nanosecond := by omega
        rw [readFraction_padded (by decide) (by decide) least]
        exact congrArg (fun n => some (n, [])) whole
    · split
      · next micro =>
          have least : nanosecond / 1000 < 10 ^ 6 := by omega
          have whole : nanosecond / 1000 * 10 ^ (9 - 6) = nanosecond := by omega
          rw [readFraction_padded (by decide) (by decide) least]
          exact congrArg (fun n => some (n, [])) whole
      · have whole : nanosecond * 10 ^ (9 - 9) = nanosecond := by omega
        rw [readFraction_padded (by decide) (by decide) fits]
        exact congrArg (fun n => some (n, [])) whole

theorem time_spelled (t : TimeOfDay) :
    t.text.toList = (paddedDigits 2 t.hour).toList ++ ':' ::
      ((paddedDigits 2 t.minute).toList ++ ':' ::
        ((paddedDigits 2 (t.second + t.nanosecond / 1000000000)).toList ++
          (fractionText (t.nanosecond % 1000000000)).toList)) := by
  simp [TimeOfDay.text]

private theorem readTime_text {t : TimeOfDay} (regular : t.Regular) :
    readTime t.text.toList = some (t, []) := by
  have hour : t.hour < 10 ^ 2 := Nat.lt_trans t.hourInRange (by decide)
  have minute : t.minute < 10 ^ 2 := Nat.lt_trans t.minuteInRange (by decide)
  have range := t.secondInRange
  have kept := t.nanosecondInRange
  have second : t.second + t.nanosecond / 1000000000 < 10 ^ 2 := by omega
  have fraction := readFraction_text (Nat.mod_lt t.nanosecond (by decide : 0 < 1000000000))
  have whole : TimeOfDay.ofParts? t.hour t.minute t.second t.nanosecond = some t :=
    dif_pos ⟨t.hourInRange, t.minuteInRange, range, regular, kept⟩
  rw [time_spelled]
  unfold readTime
  simp only [Option.bind_eq_bind, Option.bind_some, expect, if_pos, readNumber_padded Nat.two_pos hour,
    readNumber_padded Nat.two_pos minute, readNumber_padded Nat.two_pos second, fraction]
  split
  · -- A second of 60 is the leap second that it was written for.
    next leap =>
      have last : 59 = t.second := by omega
      have beyond : 1000000000 + t.nanosecond % 1000000000 = t.nanosecond := by omega
      rw [beyond, last, whole]
      rfl
  · next plain =>
      have none : t.nanosecond / 1000000000 = 0 := by
        rcases regular with below | last
        · omega
        · omega
      have below : t.nanosecond % 1000000000 = t.nanosecond := by omega
      rw [none, below, Nat.add_zero, whole]
      rfl

/-! ### What is read -/

private theorem regular_of_parts {hour minute second nanosecond : Nat} {t : TimeOfDay}
    (made : TimeOfDay.ofParts? hour minute second nanosecond = some t) : t.Regular := by
  unfold TimeOfDay.ofParts? at made
  split at made
  · next parts =>
      cases made
      exact parts.2.2.2.1
  · cases made

private theorem regular_of_readTime {cs : List Char} {t : TimeOfDay}
    (read : readTime cs = some (t, rest)) : t.Regular := by
  unfold readTime at read
  simp only [Option.bind_eq_bind, Option.bind_eq_some_iff] at read
  obtain ⟨_, -, _, -, _, -, _, -, _, -, _, -, read⟩ := read
  split at read
  · obtain ⟨time, made, same⟩ := Option.bind_eq_some_iff.1 read
    cases same
    exact regular_of_parts made
  · obtain ⟨time, made, same⟩ := Option.bind_eq_some_iff.1 read
    cases same
    exact regular_of_parts made

private theorem regular_of_readDateTime {separate : List Char → Option (List Char)} {cs : List Char}
    {t : DateTime} (read : (readDateTime separate cs).bind ended = some t) : t.time.Regular := by
  obtain ⟨⟨found, rest⟩, whole, last⟩ := Option.bind_eq_some_iff.1 read
  unfold readDateTime at whole
  simp only [Option.bind_eq_bind, Option.bind_eq_some_iff] at whole
  obtain ⟨_, -, _, -, ⟨time, after⟩, timed, same⟩ := whole
  cases same
  cases after with
  | nil =>
      cases last
      exact regular_of_readTime timed
  | cons c after => cases last

end Calendar

open Calendar

theorem Date.ofText_text (d : Date) : Date.ofText? d.text = some d := by
  have read := readDate_text d []
  rw [List.append_nil] at read
  rw [Date.ofText?, read]
  rfl

theorem DateTime.ofText_text {t : DateTime} (regular : t.time.Regular) :
    DateTime.ofText? t.text = some t := by
  have spelled : t.text.toList = t.date.text.toList ++ ' ' :: t.time.text.toList := by
    simp [DateTime.text, DateTime.textWith]
  have first (cs : List Char) : Text.skipBlanks (' ' :: cs) = Text.skipBlanks cs :=
    List.dropWhile_cons_of_pos rfl
  have blank : Text.skipBlanks (' ' :: t.time.text.toList) = t.time.text.toList := by
    rw [first, time_spelled, skipBlanks_padded]
  unfold DateTime.ofText?
  rw [spelled]
  unfold readDateTime
  simp only [readDate_text, Option.bind_eq_bind, Option.bind_some, blank, readTime_text regular]
  rfl

theorem DateTime.regular_of_text {s : String} {t : DateTime}
    (read : DateTime.ofText? s = some t) : t.time.Regular := by
  unfold ofText? at read
  cases spaced : (readDateTime (fun cs => some (Text.skipBlanks cs)) s.toList).bind ended with
  | some found =>
      rw [spaced] at read
      cases read
      exact regular_of_readDateTime spaced
  | none =>
      rw [spaced] at read
      exact regular_of_readDateTime read

/-- The text of a date and time is read as what it was written for just if this has no leap second, or
one at the end of a minute. -/
theorem DateTime.ofText_text_iff {t : DateTime} :
    DateTime.ofText? t.text = some t ↔ t.time.Regular :=
  ⟨regular_of_text, ofText_text⟩

end EntityStore
