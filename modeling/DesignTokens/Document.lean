import DesignTokens.Decimal.Binary
import DesignTokens.Fault

/-!
Taking document values apart. Each access names the fault of a value that does not allow it: a field
of something that has no fields is an operation the value lacks, a conversion of something that
cannot be converted a value of the wrong kind.
-/

namespace DesignTokens

/-- The entry of a map under a name that it must have. -/
def OrdMap.require {α : Type} (m : OrdMap α) (name : String) : Except Fault α :=
  match m.get? name with
  | some a => .ok a
  | none => .error (.missingKey (.text name))

namespace Value

/-- The entries of an object. -/
def items (v : Value) : Except Fault (OrdMap Value) :=
  match v.fields? with
  | some m => .ok m
  | none => .error .noOperation

/-- A field of an object, if present. -/
def field? (v : Value) (name : String) : Except Fault (Option Value) := do
  return (← v.items).get? name

/-- A field of an object, or a default for an absent one. -/
def fieldOr (v : Value) (name : String) (absent : Value) : Except Fault Value := do
  return (← v.field? name).getD absent

/-- A required field. Only objects have named entries. -/
def entry (v : Value) (name : String) : Except Fault Value :=
  match v.fields? with
  | none => .error .wrongKind
  | some m => m.require name

/-- A name occurs in a value: as a field, as an item, or as part of a text. -/
def mentions (v : Value) (name : String) : Except Fault Bool :=
  match v with
  | .object fields => .ok (fields.any fun e => e.1 == name)
  | .list items => .ok (items.any fun item => item.same (.text name))
  | .text s => .ok (Text.occursIn name.toList s.toList)
  | _ => .error .wrongKind

/-- The members of a value: the items of a list, the names of an object, the characters of a
text. -/
def members (v : Value) : Except Fault (List Value) :=
  match v with
  | .list items => .ok items
  | .object fields => .ok (fields.map fun e => .text e.1)
  | .text s => .ok ((Text.symbols s).map .text)
  | _ => .error .wrongKind

/-- The names among the members of a value. A set of members holds no containers. -/
def names (v : Value) : Except Fault (List String) := do
  let members ← v.members
  if members.any fun m => (m matches .list _ | .object _) then .error .wrongKind
  else return members.filterMap text?

/-- One member of a list of pairs: two members, the first of them a name. -/
def pairAt (index : Nat) (v : Value) : Except Fault (String × Value) := do
  match ← v.members with
  | [.list _, _] | [.object _, _] => .error .wrongKind
  | [name, w] => return (name.display, w)
  | ms => .error (.pairSize index ms.length)

/-- The name that a value looks up in a table. Only texts are names of entries, and containers
cannot be looked up at all. -/
def lookupName? (v : Value) : Except Fault (Option String) :=
  match v with
  | .list _ | .object _ => .error .wrongKind
  | v => .ok v.text?

@[simp] theorem lookupName?_text (s : String) : (text s).lookupName? = .ok (some s) := rfl

/-- The characters of a text, for an operation that only texts have. -/
def asText (v : Value) : Except Fault String :=
  match v with
  | .text s => .ok s
  | _ => .error .noOperation

/-- A count or an index, which only whole numbers and truth values are. -/
def asIndex (v : Value) : Except Fault Int :=
  match v.wholeNumber? with
  | some n => .ok n
  | none => .error .wrongKind

/-- The whole number that a number is. -/
def toWhole? : Value → Option Int
  | .float x => if x.floor == x && !x.isInf then some (Decimal.floorInt x) else none
  | v => v.wholeNumber?

/-- A number as a double; truth values count as numbers. A whole number may be beyond all
doubles. -/
def double (v : Value) : Except Fault Float :=
  match v with
  | .float x => .ok x
  | .int n => if (Float.ofInt n).isInf then .error .overflow else .ok (Float.ofInt n)
  | .bool b => .ok (if b then 1.0 else 0.0)
  | _ => .error .wrongKind

/-- The whole number next to a number, a half rounded up. -/
def nearestWhole (v : Value) : Except Fault Int := do
  let x ← v.double
  if x.isNaN then .error .notNumber
  else if x.isInf then .error .overflow
  else return Decimal.roundHalfUp x

/-- A value as a map: an object, or the pairs of a list. -/
def toMap (v : Value) : Except Fault (OrdMap Value) :=
  match v.fields? with
  | some m => .ok m
  | none => do
    let members ← v.members
    return .ofList (← members.zipIdx.mapM fun (member, index) => pairAt index member)

/-- The field that holds a map; an absent one is empty. -/
def mapField (v : Value) (name : String) : Except Fault (OrdMap Value) := do
  (← v.fieldOr name (.object [])).toMap

end Value

end DesignTokens
