namespace RecordLinkage.Hex

def digit (n : Nat) : Char := Char.ofNat (if n < 10 then 48 + n else 87 + n)

def value? (c : Char) : Option Nat :=
  let n := c.toNat
  if 48 ≤ n ∧ n ≤ 57 then some (n - 48)
  else if 97 ≤ n ∧ n ≤ 102 then some (n - 87)
  else if 65 ≤ n ∧ n ≤ 70 then some (n - 55)
  else none

def digits (count n : Nat) : List Char :=
  (List.range count).map fun i => digit (n / Nat.pow 16 (count - 1 - i) % 16)

def number? (base : Nat) (cs : List Char) : Option Nat :=
  cs.foldlM (fun n c => (value? c).map fun d => base * n + d) 0

end RecordLinkage.Hex
