import EntityStore.Calendar.Reader
import EntityStore.Value.Basic

/-!
Types that an entity's field may have, each with the value it is stored as and the values it can be
read from. Reading takes what a database without such a type gives back: integers for truth values
and texts for dates.
-/

namespace EntityStore

class FieldValue (α : Type) where
  toValue : α → Value
  ofValue? : Value → Option α

export FieldValue (toValue)

namespace FieldValue

instance : FieldValue Value where
  toValue v := v
  ofValue? v := some v

instance : FieldValue String where
  toValue s := .text s
  ofValue?
    | .text s => some s
    | _ => none

instance : FieldValue String.Slice where
  toValue s := .text s.copy
  ofValue? _ := none

instance : FieldValue Bool where
  toValue b := .bool b
  ofValue?
    | .bool b => some b
    | .int n => some (n != 0)
    | _ => none

instance : FieldValue Double where
  toValue x := .float x
  ofValue?
    | .float x => some x
    | .int n => some (.ofInt64 n)
    | _ => none

instance : FieldValue Date where
  toValue d := .date d
  ofValue?
    | .date d => some d
    | .dateTime t => some t.date
    | .text s => Date.ofText? s
    | _ => none

instance : FieldValue DateTime where
  toValue t := .dateTime t
  ofValue?
    | .dateTime t => some t
    | .date d => some d.atMidnight
    | .text s => DateTime.ofText? s
    | _ => none

/-- Reads an integer within bounds; a truth value counts as zero or one. -/
def wholeOf? {α : Type} (low high : Int) (ofInt : Int → α) (v : Value) : Option α :=
  match v with
  | .int n => if low ≤ n.toInt ∧ n.toInt ≤ high then some (ofInt n.toInt) else none
  | .bool b => some (ofInt (if b then 1 else 0))
  | _ => none

instance : FieldValue Int16 where
  toValue n := .int n.toInt64
  ofValue? := wholeOf? Int16.minValue.toInt Int16.maxValue.toInt Int16.ofInt

instance : FieldValue Int32 where
  toValue n := .int n.toInt64
  ofValue? := wholeOf? Int32.minValue.toInt Int32.maxValue.toInt Int32.ofInt

instance : FieldValue Int64 where
  toValue n := .int n
  ofValue? := wholeOf? Int64.minValue.toInt Int64.maxValue.toInt Int64.ofInt

instance : FieldValue UInt8 where
  toValue n := .int (Int64.ofNat n.toNat)
  ofValue? := wholeOf? 0 (UInt8.size - 1 : Nat) fun i => UInt8.ofNat i.toNat

instance : FieldValue UInt16 where
  toValue n := .int (Int64.ofNat n.toNat)
  ofValue? := wholeOf? 0 (UInt16.size - 1 : Nat) fun i => UInt16.ofNat i.toNat

instance : FieldValue UInt32 where
  toValue n := .int (Int64.ofNat n.toNat)
  ofValue? := wholeOf? 0 (UInt32.size - 1 : Nat) fun i => UInt32.ofNat i.toNat

instance {α : Type} [FieldValue α] : FieldValue (Option α) where
  toValue
    | some a => toValue a
    | none => .null
  ofValue? v := if v.isNull then some none else (ofValue? v).map some

instance {α : Type} [FieldValue α] : FieldValue (List α) where
  toValue items := .list (items.map toValue)
  ofValue?
    | .list items => items.mapM ofValue?
    | _ => none

end FieldValue

end EntityStore
