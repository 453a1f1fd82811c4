import RecordLinkage.Sorted.Key
import RecordLinkage.Sha1

namespace RecordLinkage

/-- A 128-bit identifier, ordered as a number, which is the order of its sixteen bytes. -/
structure Uuid where
  bits : BitVec 128
  deriving DecidableEq, Repr

namespace Uuid

instance : SortKey Uuid := .byKey bits fun a b h => by cases a; cases b; simp_all

instance : Inhabited Uuid := ⟨⟨0⟩⟩

def bytes (u : Uuid) : List UInt8 := Sha1.bigEndian 16 u.bits.toNat

def version (u : Uuid) : Nat := u.bits.toNat / 0x10000000000000000000 % 16

/-- Writes the version field, and the bits `10` that mark the standard layout. -/
def stamp (version : BitVec 4) (raw : BitVec 128) : Uuid :=
  ⟨raw.extractLsb' 80 48 ++ version ++ raw.extractLsb' 64 12 ++ (0b10#2 : BitVec 2) ++
    raw.extractLsb' 0 62⟩

def named (space : Uuid) (name : List UInt8) : Uuid :=
  stamp 5 ((Sha1.digest (space.bytes ++ name)).extractLsb' 32 128)

def random (raw : BitVec 128) : Uuid := stamp 4 raw

end Uuid

end RecordLinkage
