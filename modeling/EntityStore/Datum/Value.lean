import EntityStore.Datum.Basic
import EntityStore.Sql.Template
import EntityStore.Value.Row

/-!
Values as plain data. What plain data has no form for is a record with one member: a float is given
by its bits, a date and a time by their parts, so that each value can be read back.
-/

namespace EntityStore

namespace Datum

def hexDigit (c : Char) : Nat :=
  if c.isDigit then c.toNat - '0'.toNat else c.toNat - 'a'.toNat + 10

def ofHex (s : String) : Nat :=
  s.toList.foldl (fun n c => 16 * n + hexDigit c) 0

def bitsText (bits : UInt64) : String :=
  let digits := Nat.toDigits 16 bits.toNat
  String.ofList (List.replicate (16 - digits.length) '0' ++ digits)

def date? (d : Datum) : Option Date :=
  Date.ofParts? (d.nth 0) (d.nth 1) (d.nth 2)

def dateTime? (d : Datum) : Option DateTime := do
  return ⟨← d.date?, ← TimeOfDay.ofParts? (d.nth 3) (d.nth 4) (d.nth 5) (d.nth 6)⟩

def taggedValue : String → Datum → Value
  | "f", d => .float ⟨UInt64.ofNat (ofHex (ofDatum d))⟩
  | "d", d => (d.date?.map Value.date).getD .null
  | _, d => (d.dateTime?.map Value.dateTime).getD .null

mutual

def value : Datum → Value
  | null => .null
  | bool b => .bool b
  | number n => .int (Int64.ofInt n)
  | text s => .text s
  | list items => .list (values items)
  | record [(key, d)] => taggedValue key d
  | record _ => .null

def values : List Datum → List Value
  | [] => []
  | d :: rest => value d :: values rest

end

instance : OfDatum Value := ⟨value⟩

def ofDate (d : Date) : List Datum :=
  [d.year, d.month, d.day]

def ofTime (t : TimeOfDay) : List Datum :=
  [t.hour, t.minute, t.second, t.nanosecond]

mutual

def ofValue : Value → Datum
  | .null => null
  | .bool b => b
  | .int n => n
  | .float x => record [("f", bitsText x.bits)]
  | .text s => s
  | .date d => record [("d", ofDate d)]
  | .dateTime ⟨d, t⟩ => record [("dt", ofDate d ++ ofTime t)]
  | .list items => list (ofValues items)

def ofValues : List Value → List Datum
  | [] => []
  | v :: rest => ofValue v :: ofValues rest

end

instance : ToDatum Value := ⟨ofValue⟩

end Datum

instance : OfDatum (String × Value) := ⟨fun d => (d.nth 0, d.nth 1)⟩

instance : ToDatum (String × Value) := ⟨fun (name, v) => [(name : Datum), datum v]⟩

instance : OfDatum Row := ⟨fun d => ⟨ofDatum d⟩⟩
instance : ToDatum Row := ⟨fun r => r.columns⟩

namespace Datum

def bindings (d : Datum) : Sql.Bindings :=
  d.members.map fun (name, v) => (name, v.value)

def ofBindings (bindings : Sql.Bindings) : Datum :=
  record (bindings.map fun (name, v) => (name, ofValue v))

end Datum

end EntityStore
