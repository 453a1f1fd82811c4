import RecordLinkage.Binary64.Decimal
import RecordLinkage.Error
import RecordLinkage.Text.Quoted

namespace RecordLinkage

inductive Setting where
  | text (s : String)
  | bool (b : Bool)
  | real (x : Binary64)
  | signed (n : Int)
  | unsigned (n : Nat)
  | list (items : List Setting)
  | table (entries : List (String × Setting))

namespace Setting

def found : Setting → String
  | .text s => "string " ++ Quoted.encode s
  | .bool b => "bool " ++ toString b
  | .real x => "float `" ++ x.text ++ "`"
  | .signed n => "signed int `" ++ toString n ++ "`"
  | .unsigned n => "unsigned int `" ++ toString n ++ "`"
  | .list _ => "sequence"
  | .table _ => "map"

def toReal (field : String) : Setting → Except SettingsError Binary64
  | .real x => .ok x
  | .signed n => .ok (.ofInt n)
  | .unsigned n => .ok (.ofNat n)
  | v => .error (.wrongType field v.found "f64")

structure CountKind where
  name : String
  largest : Nat
  deriving DecidableEq, Repr

def CountKind.short : CountKind := ⟨"u32", 0xffffffff⟩

def CountKind.long : CountKind := ⟨"u64", 0xffffffffffffffff⟩

def CountKind.size : CountKind := ⟨"usize", 0xffffffffffffffff⟩

/-- A real number is not taken for a whole one. -/
def toCount (kind : CountKind) (field : String) (v : Setting) : Except SettingsError Nat :=
  let check (n : Int) : Except SettingsError Nat :=
    if 0 ≤ n ∧ n ≤ kind.largest then .ok n.toNat
    else .error (.outOfRange field v.found kind.name)
  match v with
  | .signed n => check n
  | .unsigned n => check n
  | v => .error (.wrongType field v.found kind.name)

end Setting

end RecordLinkage
