import DesignTokens.OrdMap
import DesignTokens.Decimal.Shortest
import DesignTokens.Text.Quoted
import DesignTokens.Text.Search

/-!
Document values: what a theme document is made of before it is read as a theme.

Whole numbers and binary fractions are kept apart, since they are written differently, yet they
compare as numbers; a truth value compares as the number 0 or 1. Objects keep the order of their
fields, which does not count in a comparison. What is no number (NaN) equals nothing, except that
containers may hold it in the same place.
-/

namespace DesignTokens

/-- A value of a document. -/
inductive Value where
  | null
  | bool (b : Bool)
  | int (n : Int)
  | float (x : Float)
  | text (s : String)
  | list (items : List Value)
  | object (fields : List (String × Value))
  deriving Inhabited

instance : Coe String Value := ⟨.text⟩

namespace Value

/-- Null, zero, the empty text and empty containers count as false. -/
def truthy : Value → Bool
  | null => false
  | bool b => b
  | int n => n != 0
  | float x => x != 0
  | text s => s != ""
  | list items => !items.isEmpty
  | object fields => !fields.isEmpty

def isNull : Value → Bool
  | null => true
  | _ => false

/-- The characters of a text value. -/
def text? : Value → Option String
  | text s => some s
  | _ => none

theorem eq_text_of_text? {v : Value} {s : String} (h : v.text? = some s) : v = text s := by
  cases v <;> simp [text?] at h
  rw [h]

/-! ### Comparison -/

/-- A whole number and a double denote the same number. -/
def sameNumber (n : Int) (x : Float) : Bool :=
  match Decimal.Binary.ofFloat? x with
  | none => false
  | some b =>
    let (num, den) := b.ratio
    n * den == (if b.negative then -(num : Int) else num)

/-- The whole number that a truth value or whole number compares as. -/
def wholeNumber? : Value → Option Int
  | bool b => some (if b then 1 else 0)
  | int n => some n
  | _ => none

/-- Comparison of two values that hold no others. -/
def sameLeaf (a b : Value) : Bool :=
  match a, b with
  | null, null => true
  | text s, text t => s == t
  | float x, float y => x == y
  | a, float y => a.wholeNumber?.any (sameNumber · y)
  | float x, b => b.wholeNumber?.any (sameNumber · x)
  | a, b => a.wholeNumber?.any fun m => b.wholeNumber?.any (m == ·)

/-- The value is no number, though of the kind of numbers. -/
def isNaN : Value → Bool
  | float x => x.isNaN
  | _ => false

mutual

/-- Equal parts of containers: numbers by what they denote, objects whatever the order of their
fields. -/
def alike : Value → Value → Bool
  | list items, list others => alikeItems items others
  | object fields, object others =>
    fields.length == others.length && alikeFields fields others
  | a, b => sameLeaf a b || (a.isNaN && b.isNaN)

def alikeItems : List Value → List Value → Bool
  | [], [] => true
  | a :: items, b :: others => a.alike b && alikeItems items others
  | _, _ => false

/-- Every field has an equal one of the same name among the others. -/
def alikeFields : List (String × Value) → List (String × Value) → Bool
  | [], _ => true
  | (name, a) :: fields, others =>
    (match others.lookup name with
      | some b => a.alike b
      | none => false) && alikeFields fields others

end

/-- Equal values: numbers by what they denote, containers by their parts. -/
def same (a b : Value) : Bool := !a.isNaN && a.alike b

@[simp] theorem same_text (s t : String) : (text s).same (text t) = (s == t) := by
  simp [same, alike, isNaN, sameLeaf]

/-! ### Text of a value -/

mutual

/-- A value as messages show it, texts in quotes. -/
def literal : Value → String
  | null => "None"
  | bool true => "True"
  | bool false => "False"
  | int n => toString n
  | float x => Decimal.shortest x
  | text s => Text.quoted s
  | list items => "[" ++ literalItems items ++ "]"
  | object fields => "\x7b" ++ literalFields fields ++ "\x7d"

def literalItems : List Value → String
  | [] => ""
  | [v] => v.literal
  | v :: w :: items => v.literal ++ ", " ++ literalItems (w :: items)

def literalFields : List (String × Value) → String
  | [] => ""
  | [(name, v)] => Text.quoted name ++ ": " ++ v.literal
  | (name, v) :: e :: fields =>
    Text.quoted name ++ ": " ++ v.literal ++ ", " ++ literalFields (e :: fields)

end

/-- A value as it stands inside other text: a text as it is, anything else as its literal. -/
def display : Value → String
  | text s => s
  | v => v.literal

@[simp] theorem display_text (s : String) : (text s).display = s := rfl

/-! ### Objects -/

/-- The fields of an object as a map. -/
def fields? : Value → Option (OrdMap Value)
  | object fields => some (OrdMap.ofList fields)
  | _ => none

/-- The object with the entries of a map. -/
def ofMap (m : OrdMap Value) : Value := object m.entries

end Value

end DesignTokens
