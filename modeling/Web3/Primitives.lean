import Web3.Foundations.Hex

/-! # Addresses and hashes

The fixed-size byte arrays of `structs.go`. -/

namespace Web3

def Address : Type := { bs : Bytes // bs.length = 20 }

def Hash : Type := { bs : Bytes // bs.length = 32 }

instance : DecidableEq Address := inferInstanceAs (DecidableEq { bs : Bytes // bs.length = 20 })

instance : DecidableEq Hash := inferInstanceAs (DecidableEq { bs : Bytes // bs.length = 32 })

/-- The array of `n` bytes that `SetBytes` gives a zero array: the last `n` bytes, or zero bytes in
front of fewer. -/
def fitBytes (n : ℕ) (b : Bytes) : Bytes :=
  let b := if b.length > n then b.drop (b.length - n) else b
  List.replicate (n - b.length) 0 ++ b

theorem length_fitBytes (n : ℕ) (b : Bytes) : (fitBytes n b).length = n := by
  simp only [fitBytes, List.length_append, List.length_replicate]
  split
  · rw [List.length_drop]
    omega
  · omega

theorem fitBytes_of_length {n : ℕ} {b : Bytes} (h : b.length = n) : fitBytes n b = b := by
  simp [fitBytes, h]

def bytesToHash (b : Bytes) : Hash := ⟨fitBytes 32 b, length_fitBytes 32 b⟩

def bytesToAddress (b : Bytes) : Address := ⟨fitBytes 20 b, length_fitBytes 20 b⟩

theorem bytesToHash_val (h : Hash) : bytesToHash h.1 = h := Subtype.ext (fitBytes_of_length h.2)

def Address.zero : Address := bytesToAddress []

def Hash.zero : Hash := bytesToHash []

/-! ## Printing -/

def Address.string (a : Address) : String := "0x" ++ hexString a.1

def Hash.string (h : Hash) : String := "0x" ++ hexString h.1

end Web3
