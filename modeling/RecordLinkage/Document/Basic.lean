import RecordLinkage.Binary64.Basic
import RecordLinkage.Uuid.Text

namespace RecordLinkage

/-- A wire format: how plain values, lists and records with named fields are written down, and how
they are read. A reader refuses what is not of its kind. -/
structure Format (W : Type) where
  text : String → W
  text? : W → Option String
  nat : Nat → W
  /-- Reads a natural number up to a bound. -/
  nat? : Nat → W → Option Nat
  real : Binary64 → W
  real? : W → Option Binary64
  list : List W → W
  list? : W → Option (List W)
  record : List (String × W) → W
  /-- Reads a record for the fields of some names: what stands under each of them, if anything. -/
  fields? : List String → W → Option (String → Option W)
  /-- Reads a record for all its fields in the order in which they stand. -/
  entries? : W → Option (List (String × W))
  /-- Reads one of some names. -/
  name? : List String → W → Option String
  /-- Reads a record that names its case in one field: the case, and the other fields. -/
  tagged? : String → W → Option (String × W)
  uuid : Uuid → String
  uuid? : String → Option Uuid

/-- Types whose values can be written down in every format and read again. -/
class Documented (α : Type) where
  encode {W : Type} : Format W → α → W
  decode? {W : Type} : Format W → W → Option α

export Documented (encode decode?)

section

variable {α β γ : Type}

instance : Documented Binary64 where
  encode F := F.real
  decode? F := F.real?

@[reducible] def Documented.natUpTo (largest : Nat) : Documented Nat where
  encode F := F.nat
  decode? F := F.nat? largest

instance : Documented Nat := .natUpTo 0xffffffffffffffff

instance : Documented String where
  encode F := F.text
  decode? F := F.text?

instance [Documented α] : Documented (List α) where
  encode F l := F.list (l.map (encode F))
  decode? F w := do (← F.list? w).mapM (decode? F)

/-- Fields of records that together stand for `α`. -/
structure Fields (α : Type) where
  names : List String
  encode {W : Type} : Format W → α → List (String × W)
  /-- Reads them by what stands under each name. -/
  decode? {W : Type} : Format W → (String → Option W) → Option α

namespace Fields

/-- One field, and what counts where it is left out. -/
def fieldOr [Documented α] (name : String) (missing : Option α) : Fields α where
  names := [name]
  encode F x := [(name, Documented.encode F x)]
  decode? F get := (get name).elim missing (Documented.decode? F)

def field [Documented α] (name : String) : Fields α := fieldOr name none

def and (c : Fields α) (d : Fields β) : Fields (α × β) where
  names := c.names ++ d.names
  encode F p := c.encode F p.1 ++ d.encode F p.2
  decode? F get := do return (← c.decode? F get, ← d.decode? F get)

def ofRecord? {W : Type} (c : Fields α) (F : Format W) (w : W) : Option α := do
  c.decode? F (← F.fields? c.names w)

end Fields

@[reducible] def Documented.ofFields (c : Fields α) (make : α → γ) (parts : γ → α) :
    Documented γ where
  encode F x := F.record (c.encode F (parts x))
  decode? F w := (c.ofRecord? F w).map make

end

/-- A value as it is written down: records with named fields, lists, and plain values. -/
inductive Document where
  | null
  | bool (b : Bool)
  | int (n : Int)
  | real (x : Binary64)
  | text (s : String)
  | list (items : List Document)
  | record (fields : List (String × Document))

namespace Document

def text? : Document → Option String
  | .text s => some s
  | _ => none

def nat? (largest : Nat) : Document → Option Nat
  | .int n => if 0 ≤ n ∧ n ≤ largest then some n.toNat else none
  | _ => none

/-- Whole numbers are read as real ones too. What is too large is not read. -/
def real? : Document → Option Binary64
  | .real x => Option.guard Binary64.isFinite x
  | .int n => Option.guard Binary64.isFinite (.ofInt n)
  | _ => none

def list? : Document → Option (List Document)
  | .list items => some items
  | _ => none

/-- Fields are found by name, or by place when they are written as a list. Other names are passed
over. None of the names may be written twice; a list must not be longer than the names. -/
def fields? (names : List String) : Document → Option (String → Option Document)
  | .record fields =>
    if ∀ n ∈ names, fields.countP (·.1 == n) ≤ 1 then
      some fun n => if n ∈ names then fields.lookup n else none
    else none
  | .list items =>
    if items.length ≤ names.length then some fun n => (names.zip items).lookup n
    else none
  | _ => none

def entries? : Document → Option (List (String × Document))
  | .record fields => some fields
  | _ => none

/-- A name stands as a text, or as the only field of a record. -/
def name? (names : List String) : Document → Option String
  | .text s => Option.guard names.contains s
  | .record [(s, .null)] => Option.guard names.contains s
  | _ => none

/-- In a list the case comes first. -/
def tagged? (tag : String) : Document → Option (String × Document)
  | .record fields =>
    if fields.countP (·.1 == tag) = 1 then do
      return (← (← fields.lookup tag).text?, .record (fields.filter (·.1 != tag)))
    else none
  | .list (.text s :: rest) => some (s, .list rest)
  | _ => none

/-- The format of documents, in which numbers stand as they are. There is no way to write infinities
and NaN. -/
def format : Format Document where
  text := .text
  text? := text?
  nat n := .int n
  nat? := nat?
  real x := if x.isFinite then .real x else .null
  real? := real?
  list := .list
  list? := list?
  record := .record
  fields? := fields?
  entries? := entries?
  name? := name?
  tagged? := tagged?
  uuid := Uuid.text
  uuid? := Uuid.ofText?

end Document

variable {α : Type} [Documented α]

def toDocument (x : α) : Document := encode Document.format x

def ofDocument? (d : Document) : Option α := decode? Document.format d

end RecordLinkage
