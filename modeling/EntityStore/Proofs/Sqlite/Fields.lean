import EntityStore.Proofs.Calendar.Reading
import EntityStore.Sqlite.Cell
import EntityStore.Value.Row

/-!
Fields that are stored and read back. A cell keeps less than a value says: truth values are integers in
it, and dates are texts. The type of the field makes up for this, so that a field is read as it was
stored, be it optional or not. Nothing but a list has no cell. What a text cannot tell is lost: a leap
second that does not end a minute comes back as the second that follows it.
-/

namespace EntityStore.Sqlite

/-- The field has a cell, and what is read from the cell is read as the field again, in whatever row
and under whatever name it comes back. -/
def ComesBack {α : Type} [FieldValue α] (x : α) : Prop :=
  ∃ cell, Cell.ofValue (toValue x) = .ok cell ∧
    ∀ (row : Row) (column : String), row.value? column = some cell.value →
      row.get α column = .ok x

def Stored {α : Type} [FieldValue α] (x : α) : Prop :=
  ∃ cell, Cell.ofValue (toValue x) = .ok cell ∧ cell.value.isNull = false ∧
    FieldValue.ofValue? cell.value = some x

/-- All fields of the type that are fit to be stored come back, and so do all optional ones. -/
def TypeComesBack (α : Type) [FieldValue α] (fit : α → Prop) : Prop :=
  (∀ x, fit x → ComesBack x) ∧ ∀ x? : Option α, (∀ x ∈ x?, fit x) → ComesBack x?

section

variable {α : Type} [FieldValue α] {x : α} {fit : α → Prop}

theorem get_of_value {row : Row} {column : String} {v : Value} (found : row.value? column = some v)
    (read : FieldValue.ofValue? v = some x) : row.get α column = .ok x := by
  rw [Row.get, found]
  dsimp only
  rw [read]

private theorem value_of_get {row : Row} {column : String} {v : Value}
    (found : row.value? column = some v)
    (got : row.get α column = .ok x) : FieldValue.ofValue? v = some x := by
  rw [Row.get, found] at got
  dsimp only at got
  split at got
  · next read =>
      cases got
      exact read
  · cases got

private theorem Stored.comesBack (stored : Stored x) : ComesBack x := by
  obtain ⟨cell, bound, -, read⟩ := stored
  exact ⟨cell, bound, fun _ _ found => get_of_value found read⟩

private theorem Stored.some_comesBack (stored : Stored x) : ComesBack (some x) := by
  obtain ⟨cell, bound, present, read⟩ := stored
  refine ⟨cell, bound, fun _ _ found => get_of_value found ?_⟩
  show (if cell.value.isNull then some none else (FieldValue.ofValue? cell.value).map some) = _
  rw [present, read]
  rfl

private theorem none_comesBack : ComesBack (none : Option α) :=
  ⟨.null, rfl, fun _ _ found => get_of_value found rfl⟩

private theorem comesBack_of_stored (each : ∀ x : α, fit x → Stored x) : TypeComesBack α fit := by
  refine ⟨fun x good => (each x good).comesBack, fun x? good => ?_⟩
  cases x? with
  | none => exact none_comesBack
  | some x => exact (each x (good x rfl)).some_comesBack

end

/-! ### Integers -/

theorem stored_whole {α : Type} [FieldValue α] {x : α} {n : Int64} {i low high : Int}
    {ofInt : Int → α} (written : toValue x = .int n)
    (reads : FieldValue.ofValue? (.int n) = FieldValue.wholeOf? low high ofInt (.int n))
    (wide : n.toInt = i) (least : low ≤ i) (most : i ≤ high) (same : ofInt i = x) : Stored x := by
  have within : FieldValue.wholeOf? low high ofInt (.int n) = some (ofInt n.toInt) :=
    if_pos ⟨wide ▸ least, wide ▸ most⟩
  refine ⟨.integer n, by rw [written]; rfl, rfl, ?_⟩
  rw [Cell.value, reads, within, wide, same]

private theorem stored_int16 (n : Int16) : Stored n :=
  stored_whole rfl rfl (Int16.toInt_toInt64 n) n.minValue_le_toInt n.toInt_le (Int16.ofInt_toInt n)

private theorem stored_int32 (n : Int32) : Stored n :=
  stored_whole rfl rfl (Int32.toInt_toInt64 n) n.minValue_le_toInt n.toInt_le (Int32.ofInt_toInt n)

private theorem stored_int64 (n : Int64) : Stored n :=
  stored_whole rfl rfl rfl n.minValue_le_toInt n.toInt_le (Int64.ofInt_toInt n)

theorem stored_unsigned {α : Type} [FieldValue α] {x : α} {n size : Nat} {ofNat : Nat → α}
    (written : toValue x = .int (Int64.ofNat n))
    (reads : FieldValue.ofValue? (.int (Int64.ofNat n)) =
      FieldValue.wholeOf? 0 (size - 1 : Nat) (fun i => ofNat i.toNat) (.int (Int64.ofNat n)))
    (fits : n < size) (small : size ≤ UInt32.size) (same : ofNat n = x) : Stored x := by
  have bound : n < 2 ^ 63 := Nat.lt_trans (Nat.lt_of_lt_of_le fits small) (by decide)
  exact stored_whole written reads (Int64.toInt_ofNat_of_lt bound) (by omega) (by omega) same

private theorem stored_uint8 (n : UInt8) : Stored n :=
  stored_unsigned rfl rfl n.toNat_lt (by decide) UInt8.ofNat_toNat

private theorem stored_uint16 (n : UInt16) : Stored n :=
  stored_unsigned rfl rfl n.toNat_lt (by decide) UInt16.ofNat_toNat

private theorem stored_uint32 (n : UInt32) : Stored n :=
  stored_unsigned rfl rfl n.toNat_lt (by decide) UInt32.ofNat_toNat

/-! ### Other types -/

private theorem stored_bool (b : Bool) : Stored b := by
  cases b
  · exact ⟨.integer 0, rfl, rfl, rfl⟩
  · exact ⟨.integer 1, rfl, rfl, rfl⟩

private theorem stored_double {x : Double} (number : x.isNaN = false) : Stored x := by
  have cell : Cell.ofDouble x = .real x := by
    rw [Cell.ofDouble, number]
    rfl
  exact ⟨.real x, congrArg Except.ok cell, rfl, rfl⟩

private theorem stored_text (s : String) : Stored s :=
  ⟨.text s, rfl, rfl, rfl⟩

private theorem stored_date (d : Date) : Stored d :=
  ⟨.text d.text, rfl, rfl, Date.ofText_text d⟩

private theorem stored_dateTime {t : DateTime} (regular : t.time.Regular) : Stored t :=
  ⟨.text t.text, rfl, rfl, DateTime.ofText_text regular⟩

theorem regular_of_comesBack {t : DateTime} (back : ComesBack t) : t.time.Regular := by
  obtain ⟨cell, bound, reads⟩ := back
  cases bound
  have got := reads ⟨[("at", .text t.text)]⟩ "at" rfl
  exact DateTime.regular_of_text (value_of_get rfl got)

private theorem ofValue_eq_error {v : Value} : (∃ e, Cell.ofValue v = .error e) ↔ v.isList = true := by
  cases v with
  | list items => exact ⟨fun _ => rfl, fun _ => ⟨_, rfl⟩⟩
  | _ =>
      constructor
      · rintro ⟨e, bound⟩
        cases bound
      · intro list
        cases list

/-- A stored field is read as it was, for every type of field but lists, and every value but a double
that is not a number and a leap second that does not end its minute, which never is. Storing fails for
lists and for nothing else. -/
theorem fields_come_back :
    TypeComesBack Bool (fun _ => True) ∧
    TypeComesBack Int16 (fun _ => True) ∧
    TypeComesBack Int32 (fun _ => True) ∧
    TypeComesBack Int64 (fun _ => True) ∧
    TypeComesBack UInt8 (fun _ => True) ∧
    TypeComesBack UInt16 (fun _ => True) ∧
    TypeComesBack UInt32 (fun _ => True) ∧
    TypeComesBack Double (fun x => x.isNaN = false) ∧
    TypeComesBack String (fun _ => True) ∧
    TypeComesBack Date (fun _ => True) ∧
    TypeComesBack DateTime (fun t => t.time.Regular) ∧
    (∀ t : DateTime, ComesBack t → t.time.Regular) ∧
    ∀ v : Value, (∃ e, Cell.ofValue v = .error e) ↔ v.isList = true :=
  ⟨comesBack_of_stored fun b _ => stored_bool b,
    comesBack_of_stored fun n _ => stored_int16 n,
    comesBack_of_stored fun n _ => stored_int32 n,
    comesBack_of_stored fun n _ => stored_int64 n,
    comesBack_of_stored fun n _ => stored_uint8 n,
    comesBack_of_stored fun n _ => stored_uint16 n,
    comesBack_of_stored fun n _ => stored_uint32 n,
    comesBack_of_stored fun _ number => stored_double number,
    comesBack_of_stored fun s _ => stored_text s,
    comesBack_of_stored fun d _ => stored_date d,
    comesBack_of_stored fun _ regular => stored_dateTime regular,
    fun _ => regular_of_comesBack,
    fun _ => ofValue_eq_error⟩

def earlyLeap : DateTime where
  date := ⟨2024, 5, 6, by decide, by decide, by decide⟩
  time := ⟨23, 56, 4, 1333333333, by decide, by decide, by decide, by decide⟩

/-- It is stored as the second that follows it, and so does not come back. -/
theorem early_leap_lost :
    Cell.ofValue (toValue earlyLeap) = .ok (.text "2024-05-06 23:56:05.333333333") ∧
      ¬ TypeComesBack DateTime fun _ => True := by
  have text : earlyLeap.text = "2024-05-06 23:56:05.333333333" := by decide +kernel
  refine ⟨congrArg (fun s => Except.ok (Cell.text s)) text, fun back => ?_⟩
  have regular : earlyLeap.time.Regular := regular_of_comesBack (back.1 earlyLeap trivial)
  exact absurd regular (by decide)

end EntityStore.Sqlite
