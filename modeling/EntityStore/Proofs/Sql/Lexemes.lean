import EntityStore.Proofs.Sql.Quotation
import EntityStore.Proofs.Sql.Words

/-!
Conditions as lexemes: words, signs, quoted names, placeholders. The scanner goes over a text once and
keeps what it has begun to read. A raw fragment is one lexeme, whatever it says, so the text that is
scanned tells fragments from the characters around them. What is scanned piece by piece is scanned
together, as long as a blank, a comma or a parenthesis stands between two pieces that could run into
each other.
-/

namespace EntityStore.Sql

inductive Symbol
  | char (c : Char)
  | fragment (sql : String)
  deriving DecidableEq

namespace Symbol

def spelled : Symbol → List Char
  | char c => [c]
  | fragment sql => sql.toList

def fragment? : Symbol → Option String
  | char _ => none
  | fragment sql => some sql

end Symbol

def spelledOut (text : List Symbol) : List Char :=
  text.flatMap Symbol.spelled

def fragmentsOf (text : List Symbol) : List String :=
  text.filterMap Symbol.fragment?

def symbols (cs : List Char) : List Symbol :=
  cs.map .char

def letters (s : String) : List Symbol :=
  symbols s.toList

inductive Lexeme
  | word (s : String)
  | sign (s : String)
  | name (s : String)
  | quoted (s : String)
  | slot (index : Nat)
  | fragment (sql : String)
  | opening
  | closing
  | comma
  | dot
  | stray (c : Char)
  deriving DecidableEq

namespace Lexeme

/-- What the scanner has begun to read, the last character first. -/
inductive Mode
  | between
  | word (read : List Char)
  | sign (read : List Char)
  | inside (q : Char) (read : List Char)
  | ended (q : Char) (read : List Char)
  | slot (digits : List Char)
  deriving DecidableEq

def isWordChar (c : Char) : Bool :=
  c.isAlphanum || c == '_'

def isSignChar (c : Char) : Bool :=
  c == '<' || c == '>' || c == '='

def enclosed (q : Char) (read : List Char) : Lexeme :=
  if q = '\'' then .quoted (String.ofList read.reverse)
  else .name (String.ofList read.reverse)

def finish : Mode → List Lexeme
  | .between => []
  | .word read => [.word (String.ofList read.reverse)]
  | .sign read => [.sign (String.ofList read.reverse)]
  | .inside q _ => [.stray q]
  | .ended q read => [enclosed q read]
  | .slot _ => [.stray slotMark]

def start (d : Dialect) (c : Char) : List Lexeme × Mode :=
  if c = ' ' then ([], .between)
  else if c = '(' then ([.opening], .between)
  else if c = ')' then ([.closing], .between)
  else if c = ',' then ([.comma], .between)
  else if c = '.' then ([.dot], .between)
  else if c = '\'' then ([], .inside '\'' [])
  else if c = slotMark then ([], .slot [])
  else if c = d.quotes.1 then ([], .inside d.quotes.2 [])
  else if isWordChar c then ([], .word [c])
  else if isSignChar c then ([], .sign [c])
  else ([.stray c], .between)

def next (d : Dialect) : Mode → Symbol → List Lexeme × Mode
  | .inside q read, .char c =>
    if c = q then ([], .ended q read) else ([], .inside q (c :: read))
  | .ended q read, .char c =>
    if c = q then ([], .inside q (c :: read))
    else (enclosed q read :: (start d c).1, (start d c).2)
  | .word read, .char c =>
    if isWordChar c then ([], .word (c :: read))
    else (finish (.word read) ++ (start d c).1, (start d c).2)
  | .sign read, .char c =>
    if isSignChar c then ([], .sign (c :: read))
    else (finish (.sign read) ++ (start d c).1, (start d c).2)
  | .slot digits, .char c =>
    if c = slotMark then ([.slot (Nat.ofDigitChars 10 digits.reverse 0)], .between)
    else ([], .slot (c :: digits))
  | .between, .char c => start d c
  | mode, .fragment sql => (finish mode ++ [.fragment sql], .between)

def scanFrom (d : Dialect) : Mode → List Symbol → List Lexeme
  | mode, [] => finish mode
  | mode, s :: rest => (next d mode s).1 ++ scanFrom d (next d mode s).2 rest

def scan (d : Dialect) (text : List Symbol) : List Lexeme :=
  scanFrom d .between text

end Lexeme

open Lexeme

variable {d : Dialect}

/-! ### Texts that are scanned on their own -/

def Parted (rest : List Symbol) : Prop :=
  ∀ s ∈ rest.head?, s = .char ' ' ∨ s = .char ')' ∨ s = .char ','

def Closes (d : Dialect) (text : List Symbol) (ls : List Lexeme) : Prop :=
  ∀ rest, scan d (text ++ rest) = ls ++ scan d rest

def Scans (d : Dialect) (text : List Symbol) (ls : List Lexeme) : Prop :=
  ∀ rest, Parted rest → scan d (text ++ rest) = ls ++ scan d rest

private theorem parted_nil : Parted [] := by
  intro s member
  cases member

theorem Closes.scans {text : List Symbol} {ls : List Lexeme} (closes : Closes d text ls) :
    Scans d text ls :=
  fun rest _ => closes rest

theorem closes_nil : Closes d [] [] :=
  fun _ => rfl

section

variable {text more : List Symbol} {ls ms : List Lexeme}

theorem Closes.followed (first : Closes d text ls) (second : Scans d more ms) :
    Scans d (text ++ more) (ls ++ ms) := by
  intro rest parted
  rw [List.append_assoc, first, second rest parted, List.append_assoc]

def Parts (text : List Symbol) : Prop :=
  text ≠ [] ∧ Parted text

theorem Parts.append (parts : Parts text) (more : List Symbol) : Parted (text ++ more) := by
  obtain ⟨filled, parted⟩ := parts
  obtain ⟨s, rest, rfl⟩ := List.exists_cons_of_ne_nil filled
  exact parted

theorem Scans.closed (first : Scans d text ls) (parts : Parts more) (second : Closes d more ms) :
    Closes d (text ++ more) (ls ++ ms) := by
  intro rest
  rw [List.append_assoc, first _ (parts.append rest), second, List.append_assoc]

theorem Scans.followed (first : Scans d text ls) (parts : Parts more) (second : Scans d more ms) :
    Scans d (text ++ more) (ls ++ ms) := by
  intro rest parted
  rw [List.append_assoc, first _ (parts.append rest), second rest parted, List.append_assoc]

theorem Scans.scan_eq (scans : Scans d text ls) : scan d text = ls := by
  have whole := scans [] parted_nil
  rwa [List.append_nil, show scan d [] = [] from rfl, List.append_nil] at whole

end

/-! ### Words, names and placeholders -/

private theorem scanFrom_word {cs : List Char} (word : ∀ c ∈ cs, isWordChar c = true)
    (read : List Char)
    (rest : List Symbol) :
    scanFrom d (.word read) (symbols cs ++ rest) = scanFrom d (.word (cs.reverse ++ read)) rest := by
  induction cs generalizing read with
  | nil => rfl
  | cons c cs ih =>
      have first := word c List.mem_cons_self
      have others := ih (fun other member => word other (List.mem_cons_of_mem c member)) (c :: read)
      rw [symbols, List.map_cons, List.cons_append, scanFrom, next, if_pos first]
      rw [List.reverse_cons, List.append_assoc]
      exact others

theorem scanFrom_inside {closing : Char} (cs read : List Char) (rest : List Symbol) :
    scanFrom d (.inside closing read) (symbols (doubled closing cs ++ [closing]) ++ rest) =
      scanFrom d (.ended closing (cs.reverse ++ read)) rest := by
  have ends (read : List Char) (rest : List Symbol) :
      scanFrom d (.inside closing read) (.char closing :: rest) =
        scanFrom d (.ended closing read) rest := by
    rw [scanFrom, next, if_pos rfl]
    rfl
  induction cs generalizing read with
  | nil => exact ends read rest
  | cons c cs ih =>
      rw [List.reverse_cons, List.append_assoc, doubled]
      split
      · next same =>
          subst same
          have again : scanFrom d (.ended c read)
              (.char c :: (symbols (doubled c cs ++ [c]) ++ rest)) =
                scanFrom d (.inside c (c :: read)) (symbols (doubled c cs ++ [c]) ++ rest) := by
            rw [scanFrom, next, if_pos rfl]
            rfl
          exact (ends read _).trans (again.trans (ih (c :: read)))
      · next other =>
          rw [symbols, List.cons_append, List.map_cons, List.cons_append, scanFrom, next,
            if_neg other]
          exact ih (c :: read)

private theorem scanFrom_slot {cs : List Char} (free : slotMark ∉ cs) (digits : List Char)
    (rest : List Symbol) :
    scanFrom d (.slot digits) (symbols (cs ++ [slotMark]) ++ rest) =
      .slot (Nat.ofDigitChars 10 (cs.reverse ++ digits).reverse 0) :: scan d rest := by
  induction cs generalizing digits with
  | nil =>
      show scanFrom d (.slot digits) (.char slotMark :: rest) = _
      rw [scanFrom, next, if_pos rfl]
      rfl
  | cons c cs ih =>
      have other : c ≠ slotMark := fun same => free (same ▸ List.mem_cons_self)
      have others := ih (fun member => free (List.mem_cons_of_mem c member)) (c :: digits)
      rw [symbols, List.cons_append, List.map_cons, List.cons_append, scanFrom, next,
        if_neg other, List.reverse_cons, List.append_assoc]
      exact others

/-- What was read up to a word, a sign or a closing quote ends where something else begins. -/
theorem scanFrom_parted {mode : Mode} {rest : List Symbol} (parted : Parted rest)
    (ends : ∀ c, c = ' ' ∨ c = ')' ∨ c = ',' →
      next d mode (.char c) = (finish mode ++ (start d c).1, (start d c).2)) :
    scanFrom d mode rest = finish mode ++ scan d rest := by
  cases rest with
  | nil => exact (List.append_nil _).symm
  | cons s rest =>
      have apart : ∃ c, s = .char c ∧ (c = ' ' ∨ c = ')' ∨ c = ',') := by
        rcases parted s rfl with rfl | rfl | rfl
        · exact ⟨' ', rfl, Or.inl rfl⟩
        · exact ⟨')', rfl, Or.inr (Or.inl rfl)⟩
        · exact ⟨',', rfl, Or.inr (Or.inr rfl)⟩
      obtain ⟨c, rfl, separates⟩ := apart
      rw [scanFrom, ends c separates, scan, scanFrom, List.append_assoc]
      rfl

theorem scanFrom_word_parted {rest : List Symbol} (parted : Parted rest) (read : List Char) :
    scanFrom d (.word read) rest = .word (String.ofList read.reverse) :: scan d rest := by
  refine scanFrom_parted parted ?_
  rintro c (rfl | rfl | rfl) <;> cases d <;> rfl

theorem scanFrom_quoted_parted {rest : List Symbol} (parted : Parted rest) (read : List Char) :
    scanFrom d (.ended '\'' read) rest = .quoted (String.ofList read.reverse) :: scan d rest := by
  refine scanFrom_parted parted ?_
  rintro c (rfl | rfl | rfl) <;> cases d <;> rfl

private theorem isWordChar_digit {n : Nat} {c : Char} (member : c ∈ Nat.toDigits 10 n) :
    isWordChar c = true := by
  have digit := isDigit_of_mem_digits member
  simp [isWordChar, Char.isAlphanum, digit]

/-- The alias of a table and the dot after it. -/
theorem closes_alias (a : TableAlias) : Closes d (letters (a.text ++ ".")) [.word a.text, .dot] := by
  intro rest
  have opens : start d 't' = ([], .word ['t']) := by
    cases d <;> decide
  have ends (read : List Char) : next d (.word read) (.char '.') =
      ([.word (String.ofList read.reverse), .dot], .between) := by
    cases d <;> rfl
  have spelled : letters (a.text ++ ".") ++ rest =
      .char 't' :: (symbols (Nat.toDigits 10 a.number) ++ (.char '.' :: rest)) := by
    simp [letters, symbols, TableAlias.text]
  have text : String.ofList ((Nat.toDigits 10 a.number).reverse ++ ['t']).reverse = a.text := by
    rw [List.reverse_append, List.reverse_reverse, TableAlias.text, String.ofList_append]
    rfl
  have begun : scan d (.char 't' :: (symbols (Nat.toDigits 10 a.number) ++ (.char '.' :: rest))) =
      scanFrom d (.word ['t']) (symbols (Nat.toDigits 10 a.number) ++ (.char '.' :: rest)) := by
    rw [scan, scanFrom, next, opens]
    rfl
  rw [spelled, begun, scanFrom_word fun c member => isWordChar_digit member, scanFrom, ends, text]
  rfl

/-- A quoted name is one lexeme, whatever its characters. -/
theorem scans_quote (name : String) : Scans d (letters (d.quote name)) [.name name] := by
  intro rest parted
  have opens : start d d.quotes.1 = ([], .inside d.quotes.2 []) := by
    cases d <;> decide
  have ends : ∀ c, c = ' ' ∨ c = ')' ∨ c = ',' →
      next d (.ended d.quotes.2 (name.toList.reverse ++ [])) (.char c) =
        (finish (.ended d.quotes.2 (name.toList.reverse ++ [])) ++ (start d c).1,
          (start d c).2) := by
    rintro c (rfl | rfl | rfl) <;> cases d <;> rfl
  have read : finish (.ended d.quotes.2 (name.toList.reverse ++ [])) = [.name name] := by
    rw [List.append_nil, finish, enclosed, List.reverse_reverse, String.ofList_toList,
      if_neg (by cases d <;> decide)]
  have spelled : letters (d.quote name) ++ rest = .char d.quotes.1
      :: (symbols (doubled d.quotes.2 name.toList ++ [d.quotes.2]) ++ rest) := by
    simp [letters, symbols, Dialect.quote]
  have begun : scan d (.char d.quotes.1
        :: (symbols (doubled d.quotes.2 name.toList ++ [d.quotes.2]) ++ rest)) =
      scanFrom d (.inside d.quotes.2 [])
        (symbols (doubled d.quotes.2 name.toList ++ [d.quotes.2]) ++ rest) := by
    rw [scan, scanFrom, next, opens]
    rfl
  rw [spelled, begun, scanFrom_inside, scanFrom_parted parted ends, read]

theorem letters_append (s t : String) : letters (s ++ t) = letters s ++ letters t := by
  simp [letters, symbols]

theorem scans_column (c : ColumnRef) :
    Scans d (letters (columnText d c)) [.word c.tableAlias.text, .dot, .name c.column] := by
  rw [columnText, letters_append]
  exact (closes_alias c.tableAlias).followed (scans_quote c.column)

/-- A slot between its marks is one lexeme. -/
theorem closes_slot (index : Nat) :
    Closes d (symbols (Piece.slot index).marked) [.slot index] := by
  intro rest
  have opens : start d slotMark = ([], .slot []) := by
    cases d <;> decide
  have value : Nat.ofDigitChars 10
      ((Nat.toDigits 10 index).reverse ++ []).reverse 0 = index := by
    rw [List.append_nil, List.reverse_reverse, Nat.ofDigitChars_ten_toDigits]
  have begun : scan d (symbols (Piece.slot index).marked ++ rest) =
      scanFrom d (.slot []) (symbols (Nat.toDigits 10 index ++ [slotMark]) ++ rest) := by
    rw [Piece.marked, symbols, List.cons_append, List.map_cons, List.cons_append, scan, scanFrom,
      next, opens]
    rfl
  rw [begun, scanFrom_slot (mark_not_mem_digits index), value]
  rfl

theorem closes_fragment (sql : String) : Closes d [.fragment sql] [.fragment sql] :=
  fun _ => rfl

end EntityStore.Sql
