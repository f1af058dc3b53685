/-!
# Documents

Programs, packages and settings come from outside as documents: trees of
objects, lists, texts, numbers and truth values.  Reading is lenient: a field
that is missing, or is of another kind than asked for, reads as the empty value
of that kind.
-/

namespace Custody

/-- A tree of plain data. -/
inductive Document where
  | null
  | bool (value : Bool)
  /-- The number `mantissa / 10 ^ places`. -/
  | number (mantissa : Int) (places : Nat)
  | string (value : String)
  | array (items : List Document)
  | object (entries : List (String × Document))
  deriving Inhabited, Repr

namespace Document

mutual

/-- How deep a document is nested. -/
def depth : Document → Nat
  | null => 1
  | bool _ => 1
  | number _ _ => 1
  | string _ => 1
  | array items => depthAll items + 1
  | object entries => depthNamed entries + 1
  termination_by structural document => document

/-- The depth of the deepest of several documents. -/
def depthAll : List Document → Nat
  | [] => 0
  | first :: rest => max (depth first) (depthAll rest)
  termination_by structural documents => documents

/-- The depth of the deepest of several named documents. -/
def depthNamed : List (String × Document) → Nat
  | [] => 0
  | (_, first) :: rest => max (depth first) (depthNamed rest)
  termination_by structural entries => entries

end

/-- Is there nothing? -/
def isNull : Document → Bool
  | null => true
  | _ => false

/-- The text of a document. -/
def asText : Document → String
  | string value => value
  | _ => ""

/-- The integer of a document; fractions are cut off. -/
def asInt : Document → Int
  | number mantissa places => mantissa / (Nat.pow 10 places : Nat)
  | _ => 0

/-- The natural number of a document. -/
def asNat (document : Document) : Nat := document.asInt.toNat

/-- The byte of a document; greater numbers wrap around. -/
def asByte (document : Document) : UInt8 := (document.asInt % 256).toNat.toUInt8

/-- The truth value of a document. -/
def asBool : Document → Bool
  | bool value => value
  | _ => false

/-- The items of a list. -/
def asList : Document → List Document
  | array items => items
  | _ => []

/-- The fields of an object. -/
def asFields : Document → List (String × Document)
  | object entries => entries
  | _ => []

/-- The field of an object. -/
def get (document : Document) (key : String) : Document :=
  (document.asFields.lookup key).getD null

/-- Has an object a field that is not null? -/
def has (document : Document) (key : String) : Bool := !(document.get key).isNull

/-- A field as text. -/
def text (document : Document) (key : String) : String := (document.get key).asText

/-- A field as an integer. -/
def int (document : Document) (key : String) : Int := (document.get key).asInt

/-- A field as a natural number. -/
def nat (document : Document) (key : String) : Nat := (document.get key).asNat

/-- A field as a byte. -/
def byte (document : Document) (key : String) : UInt8 := (document.get key).asByte

/-- A field as a truth value. -/
def flag (document : Document) (key : String) : Bool := (document.get key).asBool

/-- The items of a field. -/
def list (document : Document) (key : String) : List Document := (document.get key).asList

/-- The items of a field as texts. -/
def texts (document : Document) (key : String) : List String := (document.list key).map asText

/-- The items of a field as natural numbers. -/
def nats (document : Document) (key : String) : List Nat := (document.list key).map asNat

/-- The items of a field as integers. -/
def ints (document : Document) (key : String) : List Int := (document.list key).map asInt

/-- A field as a natural number, if it is there. -/
def nat? (document : Document) (key : String) : Option Nat :=
  if document.has key then some (document.nat key) else none

/-- A field as an integer, if it is there. -/
def int? (document : Document) (key : String) : Option Int :=
  if document.has key then some (document.int key) else none

/-- A field as text, if it is there. -/
def text? (document : Document) (key : String) : Option String :=
  if document.has key then some (document.text key) else none

/-- The document of an integer. -/
def ofInt (value : Int) : Document := number value 0

/-- The document of a natural number. -/
def ofNat (value : Nat) : Document := number value 0

/-- The document of texts. -/
def ofTexts (values : List String) : Document := array (values.map string)

end Document

end Custody
