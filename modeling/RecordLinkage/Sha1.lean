namespace RecordLinkage.Sha1

structure State where
  a : UInt32
  b : UInt32
  c : UInt32
  d : UInt32
  e : UInt32
  deriving DecidableEq, Repr

def State.initial : State := ⟨0x67452301, 0xefcdab89, 0x98badcfe, 0x10325476, 0xc3d2e1f0⟩

def rotateLeft (x : UInt32) (n : UInt32) : UInt32 := (x <<< n) ||| (x >>> (32 - n))

def bigEndian (count n : Nat) : List UInt8 :=
  (List.range count).map fun i => UInt8.ofNat (n / Nat.pow 256 (count - 1 - i))

def ofBigEndian (bytes : List UInt8) : Nat := bytes.foldl (fun n b => 256 * n + b.toNat) 0

/-- The message, a one bit, zeros up to eight bytes short of a block, and its length in bits. -/
def padded (message : List UInt8) : List UInt8 :=
  message ++ 0x80 :: List.replicate ((119 - message.length % 64) % 64) 0 ++
    bigEndian 8 (8 * message.length)

def pieces {α : Type} (n : Nat) : List α → List (List α)
  | [] => []
  | a :: l => (a :: l.take n) :: pieces n (l.drop n)
  termination_by l => l.length

/-- One more schedule word, made of earlier ones; the latest word comes first. -/
def extend (words : List UInt32) : List UInt32 :=
  let pick (i : Nat) := words.getD i 0
  rotateLeft (pick 2 ^^^ pick 7 ^^^ pick 13 ^^^ pick 15) 1 :: words

def schedule (block : List UInt8) : List UInt32 :=
  let first := (pieces 3 block).map fun w => UInt32.ofNat (ofBigEndian w)
  (Nat.repeat extend 64 first.reverse).reverse

def round (s : State) (t : Nat) (word : UInt32) : State :=
  let (mix, constant) :=
    if t < 20 then ((s.b &&& s.c) ||| (~~~s.b &&& s.d), 0x5a827999)
    else if t < 40 then (s.b ^^^ s.c ^^^ s.d, 0x6ed9eba1)
    else if t < 60 then ((s.b &&& s.c) ||| (s.b &&& s.d) ||| (s.c &&& s.d), 0x8f1bbcdc)
    else (s.b ^^^ s.c ^^^ s.d, 0xca62c1d6)
  ⟨rotateLeft s.a 5 + mix + s.e + constant + word, s.a, rotateLeft s.b 30, s.c, s.d⟩

def compress (s : State) (block : List UInt8) : State :=
  let r := (schedule block).zipIdx.foldl (fun s w => round s w.2 w.1) s
  ⟨s.a + r.a, s.b + r.b, s.c + r.c, s.d + r.d, s.e + r.e⟩

def digest (message : List UInt8) : BitVec 160 :=
  let s := (pieces 63 (padded message)).foldl compress State.initial
  s.a.toBitVec ++ s.b.toBitVec ++ s.c.toBitVec ++ s.d.toBitVec ++ s.e.toBitVec

end RecordLinkage.Sha1
