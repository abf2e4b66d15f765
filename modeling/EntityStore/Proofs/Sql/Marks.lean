import EntityStore.Sql.Template

/-!
A statement is put together as one text in which slots are marked, and read back into pieces. As
long as no text in it brings marks of its own, nothing is lost on the way: every slot is found
where it was put, and the text around it is the same.
-/

namespace EntityStore.Sql

/-! ### Numbers between marks -/

theorem isDigit_of_mem_digits {n : Nat} {c : Char} (member : c ∈ Nat.toDigits 10 n) :
    c.isDigit = true :=
  Nat.isDigit_of_mem_toDigits (by decide) (by decide) member

theorem mark_not_mem_digits (n : Nat) : slotMark ∉ Nat.toDigits 10 n := by
  intro member
  have digit := isDigit_of_mem_digits member
  revert digit
  decide

private theorem plus_not_mem_digits (n : Nat) : '+' ∉ Nat.toDigits 10 n := by
  intro member
  have digit := isDigit_of_mem_digits member
  revert digit
  decide

private theorem readIndex_unsigned {cs : List Char} (unsigned : '+' ∉ cs) :
    readIndex? cs = if cs.isEmpty || !cs.all Char.isDigit then none
      else some (cs.foldl (fun n c => 10 * n + (c.toNat - '0'.toNat)) 0) := by
  unfold readIndex?
  split
  · exact (unsigned List.mem_cons_self).elim
  · rfl

private theorem readIndex_digits (n : Nat) : readIndex? (Nat.toDigits 10 n) = some n := by
  have digits : (Nat.toDigits 10 n).all Char.isDigit = true :=
    List.all_eq_true.2 fun _ member => isDigit_of_mem_digits member
  have filled : (Nat.toDigits 10 n).isEmpty = false :=
    List.isEmpty_eq_false_iff.2 Nat.toDigits_ne_nil
  have value := Nat.ofDigitChars_ten_toDigits (n := n)
  rw [Nat.ofDigitChars_eq_foldl] at value
  rw [readIndex_unsigned (plus_not_mem_digits n), digits, filled]
  exact congrArg some value

theorem decimal_injective {m n : Nat} (same : decimal m = decimal n) : m = n := by
  have digits : Nat.toDigits 10 m = Nat.toDigits 10 n := String.ofList_injective same
  rw [← Nat.ofDigitChars_ten_toDigits (n := m), digits, Nat.ofDigitChars_ten_toDigits]

/-! ### Splitting at marks -/

private theorem splitMarks_free {cs : List Char} (free : slotMark ∉ cs) : splitMarks cs = [cs] := by
  induction cs with
  | nil => rfl
  | cons c rest ih =>
      have other : c ≠ slotMark := fun same => free (same ▸ List.mem_cons_self)
      have restFree : slotMark ∉ rest := fun member => free (List.mem_cons_of_mem c member)
      rw [splitMarks, if_neg other, ih restFree]

private theorem splitMarks_mark {cs : List Char} (free : slotMark ∉ cs) (rest : List Char) :
    splitMarks (cs ++ slotMark :: rest) = cs :: splitMarks rest := by
  induction cs with
  | nil => simp [splitMarks]
  | cons c cs ih =>
      have other : c ≠ slotMark := fun same => free (same ▸ List.mem_cons_self)
      have restFree : slotMark ∉ cs := fun member => free (List.mem_cons_of_mem c member)
      rw [List.cons_append, splitMarks, if_neg other, ih restFree]

/-! ### Legible fragments -/

/-- The text brings no mark of its own. -/
def MarkFree (s : String) : Prop :=
  slotMark ∉ s.toList

instance (s : String) : Decidable (MarkFree s) :=
  inferInstanceAs (Decidable (slotMark ∉ s.toList))

def Piece.Legible (slots : Nat) : Piece → Prop
  | .text s => MarkFree s
  | .slot index => index < slots

def Legible (slots : Nat) (f : Fragment) : Prop :=
  ∀ piece ∈ f, piece.Legible slots

def Piece.filled (texts : List String) : Piece → String
  | .text s => s
  | .slot index => texts[index]?.getD ""

theorem fill_eq (pieces : List Piece) (texts : List String) :
    Template.fill pieces texts = String.join (pieces.map (Piece.filled texts)) := by
  unfold Template.fill
  congr 2

theorem fill_cons (piece : Piece) (rest : Fragment) (texts : List String) :
    Template.fill (piece :: rest) texts = piece.filled texts ++ Template.fill rest texts := by
  rw [fill_eq, fill_eq, List.map_cons, String.join_cons]

theorem fill_append (f g : Fragment) (texts : List String) :
    Template.fill (f ++ g) texts = Template.fill f texts ++ Template.fill g texts := by
  rw [fill_eq, fill_eq, fill_eq, List.map_append, String.join_append]

private theorem fill_outside (slots : Nat) (cs : List Char) (parts : List (List Char))
    (texts : List String) :
    Template.fill (piecesOf slots false (cs :: parts)) texts =
      String.ofList cs ++ Template.fill (piecesOf slots true parts) texts := by
  have outside : pieceOf? slots false cs =
      if cs.isEmpty then none else some (.text (String.ofList cs)) := by
    unfold pieceOf?
    cases readIndex? cs <;> rfl
  rw [piecesOf, outside]
  cases cs with
  | nil => simp
  | cons c rest => exact fill_cons _ _ texts

private theorem piecesOf_inside {slots index : Nat} (known : index < slots)
    (parts : List (List Char)) :
    piecesOf slots true (Nat.toDigits 10 index :: parts) =
      .slot index :: piecesOf slots false parts := by
  have inside : pieceOf? slots true (Nat.toDigits 10 index) = some (.slot index) := by
    unfold pieceOf?
    rw [readIndex_digits]
    simp [known]
  rw [piecesOf, inside]
  rfl

/-- Text before a fragment that has been marked is read back with it. -/
theorem fill_pieces_before {slots : Nat} {f : Fragment} (legible : Legible slots f)
    (before : List Char) (free : slotMark ∉ before) (texts : List String) :
    Template.fill (pieces slots (before ++ marked f)) texts =
      String.ofList before ++ Template.fill f texts := by
  induction f generalizing before with
  | nil =>
      rw [marked, List.flatMap_nil, List.append_nil, pieces, splitMarks_free free, fill_outside]
      rfl
  | cons piece rest ih =>
      have restLegible : Legible slots rest := fun p member =>
        legible p (List.mem_cons_of_mem piece member)
      have first := legible piece List.mem_cons_self
      rw [marked, List.flatMap_cons, fill_cons]
      cases piece with
      | text s =>
          have longer : slotMark ∉ before ++ s.toList := by
            rw [List.mem_append]
            rintro (member | member)
            · exact free member
            · exact first member
          have step := ih restLegible (before ++ s.toList) longer
          rw [List.append_assoc] at step
          rw [Piece.marked, ← String.append_assoc]
          rw [String.ofList_append, String.ofList_toList] at step
          exact step
      | slot index =>
          have known : index < slots := first
          have step := ih restLegible [] List.not_mem_nil
          rw [Piece.marked, List.cons_append, List.cons_append, List.append_assoc, pieces,
            splitMarks_mark free, List.singleton_append,
            splitMarks_mark (mark_not_mem_digits index), fill_outside, piecesOf_inside known,
            fill_cons]
          rw [List.nil_append, pieces] at step
          unfold marked at step
          rw [step]
          rfl

theorem fill_pieces_marked {slots : Nat} {f : Fragment} (legible : Legible slots f)
    (texts : List String) :
    Template.fill (pieces slots (marked f)) texts = Template.fill f texts := by
  have whole := fill_pieces_before legible [] List.not_mem_nil texts
  rw [List.nil_append] at whole
  rw [whole]
  exact String.empty_append

/-! ### Statements without slots -/

theorem flatten_splitMarks (cs : List Char) :
    (splitMarks cs).flatten = cs.filter (· ≠ slotMark) := by
  induction cs with
  | nil => rfl
  | cons c rest ih =>
      by_cases mark : c = slotMark
      · rw [splitMarks, if_pos mark, List.flatten_cons, ih, List.filter_cons_of_neg (by simpa)]
        rfl
      · rw [splitMarks, if_neg mark, List.filter_cons_of_pos (by simpa), ← ih]
        cases splitMarks rest <;> rfl

theorem fill_unslotted (inside : Bool) (parts : List (List Char)) (texts : List String) :
    Template.fill (piecesOf 0 inside parts) texts = String.ofList parts.flatten := by
  induction parts generalizing inside with
  | nil => rfl
  | cons part rest ih =>
      have outside : pieceOf? 0 inside part =
          if part.isEmpty then none else some (.text (String.ofList part)) := by
        unfold pieceOf?
        cases readIndex? part <;> simp
      rw [piecesOf, outside, fill_append, ih, List.flatten_cons, String.ofList_append]
      cases part with
      | nil => rfl
      | cons c rest =>
          refine congrArg (· ++ _) ?_
          exact (fill_cons _ [] texts).trans String.append_empty

theorem bind_plainTemplate (d : Dialect) (sql : String) :
    (plainTemplate d sql).bind [] = .ok ⟨String.ofList (sql.toList.filter (· ≠ slotMark)), []⟩ := by
  have text : Template.fill (pieces 0 (sql.toList ++ [])) [] =
      String.ofList (sql.toList.filter (· ≠ slotMark)) := by
    rw [pieces, fill_unslotted, flatten_splitMarks, List.append_nil]
  exact congrArg (fun text => Except.ok (Statement.mk text [])) text

end EntityStore.Sql
