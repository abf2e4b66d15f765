import EntityStore.Calendar.Text
import EntityStore.Decimal.Notation
import EntityStore.Text.Quoted

/-!
Values: what predicates compare with, what statements carry as parameters and what rows hold. A list
stands only where membership is asked for. `shown` is a value in a message and `json` its tagged
JSON form.
-/

namespace EntityStore

inductive Value
  | null
  | bool (b : Bool)
  | int (n : Int64)
  | float (x : Double)
  | text (s : String)
  | date (d : Date)
  | dateTime (t : DateTime)
  | list (items : List Value)
  deriving Inhabited

namespace Value

def isNull : Value → Bool
  | null => true
  | _ => false

def isList : Value → Bool
  | list _ => true
  | _ => false

def isText : Value → Bool
  | text _ => true
  | _ => false

def asInt? : Value → Option Int64
  | int n => some n
  | bool b => some (if b then 1 else 0)
  | _ => none

def asText? : Value → Option String
  | text s => some s
  | _ => none

/-- The name of a value's kind in messages. -/
def kindName : Value → String
  | null => "null"
  | bool _ => "bool"
  | int _ => "int"
  | float _ => "float"
  | text _ => "text"
  | date _ => "date"
  | dateTime _ => "datetime"
  | list _ => "list"

private def boolText (b : Bool) : String :=
  if b then "true" else "false"

def intText (n : Int64) : String :=
  (if n.toInt < 0 then "-" else "") ++ String.ofList (Nat.toDigits 10 n.toInt.natAbs)

mutual

/-- A value in a message. -/
def shown : Value → String
  | null => "NULL"
  | bool b => boolText b
  | int n => intText n
  | float x => Decimal.plain x
  | text s => Text.quoted s
  | date d => d.text
  | dateTime t => t.text
  | list items => "[" ++ ", ".intercalate (shownEach items) ++ "]"

def shownEach : List Value → List String
  | [] => []
  | v :: vs => shown v :: shownEach vs

end

private def tagged (tag body : String) : String :=
  "\x7b\"" ++ tag ++ "\":" ++ body ++ "\x7d"

mutual

/-- A value in JSON: an object whose one member is named for the kind. -/
def json : Value → String
  | null => "\"Null\""
  | bool b => tagged "Bool" (boolText b)
  | int n => tagged "Int" (intText n)
  | float x => tagged "Float" (Decimal.json x)
  | text s => tagged "Text" (Text.jsonQuoted s)
  | date d => tagged "Date" (Text.jsonQuoted d.text)
  | dateTime t => tagged "DateTime" (Text.jsonQuoted t.isoText)
  | list items => tagged "List" ("[" ++ ",".intercalate (jsonEach items) ++ "]")

def jsonEach : List Value → List String
  | [] => []
  | v :: vs => json v :: jsonEach vs

end

mutual

/-- Equal kind and equal content; as numbers go, no value that is not a number equals itself. -/
def same : Value → Value → Bool
  | null, null => true
  | bool a, bool b => a == b
  | int a, int b => a == b
  | float a, float b => a.same b
  | text a, text b => a == b
  | date a, date b => a == b
  | dateTime a, dateTime b => a == b
  | list as, list bs => sameEach as bs
  | _, _ => false

def sameEach : List Value → List Value → Bool
  | [], [] => true
  | a :: as, b :: bs => same a b && sameEach as bs
  | _, _ => false

end

instance : BEq Value := ⟨same⟩

end Value

end EntityStore
