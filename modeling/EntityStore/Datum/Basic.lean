/-!
Plain data: missing values, truth values, numbers, texts, lists and records with named members. What
a caller hands to the store can be read from plain data, and what the store answers can be written
as plain data, so that a caller needs no types of the store.

A reader takes what it finds and the default of a type for what is missing or of another form.
-/

namespace EntityStore

inductive Datum
  | null
  | bool (b : Bool)
  | number (n : Int)
  | text (s : String)
  | list (items : List Datum)
  | record (members : List (String × Datum))

class ToDatum (α : Type) where
  datum : α → Datum

class OfDatum (α : Type) where
  ofDatum : Datum → α

export ToDatum (datum)
export OfDatum (ofDatum)

instance {α : Type} [ToDatum α] : CoeOut α Datum := ⟨datum⟩

namespace Datum

instance : Inhabited Datum := ⟨null⟩

def items : Datum → List Datum
  | list items => items
  | _ => []

def members : Datum → List (String × Datum)
  | record members => members
  | _ => []

def member? (d : Datum) (key : String) : Option Datum :=
  d.members.lookup key

end Datum

variable {α : Type}

section Writers

instance : ToDatum Datum := ⟨id⟩
instance : ToDatum Unit := ⟨fun _ => .null⟩
instance : ToDatum Bool := ⟨.bool⟩
instance : ToDatum Int := ⟨.number⟩
instance : ToDatum Nat := ⟨fun n => .number n⟩
instance : ToDatum Int64 := ⟨fun n => .number n.toInt⟩
instance : ToDatum String := ⟨.text⟩

instance [ToDatum α] : ToDatum (Option α) := ⟨fun a => (a.map datum).getD .null⟩

instance [ToDatum α] : ToDatum (List α) := ⟨fun l => .list (l.map datum)⟩

end Writers

section Readers

instance : OfDatum Datum := ⟨id⟩
instance : OfDatum Unit := ⟨fun _ => ()⟩

instance : OfDatum Bool := ⟨fun
  | .bool b => b
  | _ => false⟩

instance : OfDatum Int := ⟨fun
  | .number n => n
  | _ => 0⟩

instance : OfDatum Nat := ⟨fun d => (ofDatum d : Int).toNat⟩
instance : OfDatum Int64 := ⟨fun d => Int64.ofInt (ofDatum d)⟩
instance : OfDatum UInt64 := ⟨fun d => UInt64.ofNat (ofDatum d)⟩

instance : OfDatum String := ⟨fun
  | .text s => s
  | _ => ""⟩

instance [OfDatum α] : OfDatum (Option α) := ⟨fun
  | .null => none
  | d => some (ofDatum d)⟩

instance [OfDatum α] : OfDatum (List α) := ⟨fun d => d.items.map ofDatum⟩

end Readers

namespace Datum

variable {α : Type} [OfDatum α]

def get (d : Datum) (key : String) : α :=
  ofDatum ((d.member? key).getD null)

def getD (d : Datum) (key : String) (default : α) : α :=
  (d.get key : Option α).getD default

def nth (d : Datum) (index : Nat) : α :=
  ofDatum (d.items[index]?.getD null)

def pick? (choices : List α) (name : α → String) (d : Datum) : Option α :=
  choices.find? fun choice => name choice == ofDatum d

end Datum

end EntityStore
