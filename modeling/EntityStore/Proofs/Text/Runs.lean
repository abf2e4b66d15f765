import EntityStore.Calendar.Reader
import EntityStore.Calendar.Text

/-!
Runs of characters. A reader that takes characters as long as they are of one kind takes a whole run of
that kind, if something else stands behind it. The digits of a number are such a run, and their value
is the number.
-/

namespace EntityStore.Text

def Stops (kind : Char → Bool) (rest : List Char) : Prop :=
  ∀ c, rest.head? = some c → kind c = false

variable {kind : Char → Bool} {run rest : List Char}

theorem stops_nil : Stops kind [] :=
  nofun

theorem stops_cons {c : Char} (other : kind c = false) : Stops kind (c :: rest) := by
  intro first same
  cases same
  exact other

theorem Stops.take (stops : Stops kind rest) (n : Nat) : Stops kind (rest.take n) := by
  cases n with
  | zero => exact stops_nil
  | succ n =>
      cases rest with
      | nil => exact stops_nil
      | cons c rest => exact stops_cons (stops c rfl)

theorem takeWhile_run (same : ∀ c ∈ run, kind c = true) (stops : Stops kind rest) :
    (run ++ rest).takeWhile kind = run := by
  rw [List.takeWhile_append_of_pos same]
  cases rest with
  | nil => rw [List.takeWhile_nil, List.append_nil]
  | cons c rest =>
      rw [List.takeWhile_cons_of_neg (by rw [stops c rfl]; decide), List.append_nil]

theorem dropWhile_run (same : ∀ c ∈ run, kind c = true) (stops : Stops kind rest) :
    (run ++ rest).dropWhile kind = rest := by
  rw [List.dropWhile_append_of_pos same]
  cases rest with
  | nil => rfl
  | cons c rest => rw [List.dropWhile_cons_of_neg (by rw [stops c rfl]; decide)]

/-! ### Digits -/

theorem digits_of_padded {width n : Nat} {c : Char} (member : c ∈ (paddedDigits width n).toList) :
    c.isDigit = true := by
  unfold paddedDigits at member
  rw [String.toList_ofList, List.mem_append] at member
  rcases member with zero | digit
  · rw [List.eq_of_mem_replicate zero]
    decide
  · exact Nat.isDigit_of_mem_toDigits (by decide) (by decide) digit

theorem value_of_padded (width n : Nat) :
    Nat.ofDigitChars 10 (paddedDigits width n).toList 0 = n := by
  unfold paddedDigits
  rw [String.toList_ofList, Nat.ofDigitChars_append, Nat.ofDigitChars_replicate_zero, Nat.mul_zero,
    Nat.ofDigitChars_ten_toDigits]

theorem length_padded {width n : Nat} (positive : 0 < width) (fits : n < Nat.pow 10 width) :
    (paddedDigits width n).toList.length = width := by
  have short : (Nat.toDigits 10 n).length ≤ width :=
    (Nat.length_toDigits_le_iff (by decide) positive).2 fits
  unfold paddedDigits
  rw [String.toList_ofList, List.length_append, List.length_replicate]
  omega

theorem padded_ne_nil (width n : Nat) : (paddedDigits width n).toList ≠ [] := by
  have digits := Nat.length_toDigits_pos (b := 10) (n := n)
  intro none
  have empty := congrArg List.length none
  unfold paddedDigits at empty
  rw [String.toList_ofList, List.length_append, List.length_nil] at empty
  omega

theorem not_blank_of_digit {c : Char} (digit : c.isDigit = true) : isBlank c = false := by
  rw [Char.isDigit_iff_toNat] at digit
  have least : 48 ≤ c.toNat := digit.1
  have greatest : c.toNat ≤ 57 := digit.2
  have other (n : Nat) (apart : n < 48 ∨ 57 < n) : (c.toNat == n) = false :=
    beq_false_of_ne (by omega)
  have beyond (n m : Nat) (apart : m < 48 ∨ 57 < n) :
      (decide (n ≤ c.toNat) && decide (c.toNat ≤ m)) = false := by
    rw [Bool.and_eq_false_iff, decide_eq_false_iff_not, decide_eq_false_iff_not]
    omega
  simp [isBlank, other, beyond]

end EntityStore.Text
