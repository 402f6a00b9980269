import FazClient.Wire.Input

/-!
# FazClient.Wire.Varint

Numbers of variable length: seven bits to a byte, least significant first, with
the top bit set on every byte but the last.  The writer gives the shortest form;
the reader takes any form of at most ten bytes whose value is below `2 ^ 64`.

* `length_encode` — `size` is the length of the written form.
-/

namespace FazClient.Wire.Varint

/-- The shortest form of a number. -/
def encode (n : Nat) : List UInt8 :=
  if n < 128 then [UInt8.ofNat n] else UInt8.ofNat (n % 128 + 128) :: encode (n / 128)
termination_by n
decreasing_by omega

/-- How many bytes the shortest form takes: one for every seven bits. -/
def size (n : Nat) : Nat := n.log2 / 7 + 1

/-- The most bytes a number may take. -/
def maxSize : Nat := 10

/-- Reads a number of at most `room` bytes, the last of which may only be 0 or 1
when it stands in the final place. -/
def readWithin : (room : Nat) → Input → Option (Nat × Input)
  | 0, _ => none
  | room + 1, input =>
    match input.next? with
    | none => none
    | some (b, rest) =>
      if b < 128 then
        if room = 0 ∧ 2 ≤ b then none else some (b.toNat, rest)
      else
        match readWithin room rest with
        | none => none
        | some (n, rest) => some (b.toNat - 128 + 128 * n, rest)

/-- Reads a number; nothing if it breaks off, is too long or is too large. -/
def read (input : Input) : Option (Nat × Input) := readWithin maxSize input

/-! ## The written form -/

theorem encode_of_lt {n : Nat} (h : n < 128) : encode n = [UInt8.ofNat n] := by
  rw [encode, if_pos h]

theorem encode_of_le {n : Nat} (h : 128 ≤ n) :
    encode n = UInt8.ofNat (n % 128 + 128) :: encode (n / 128) := by
  rw [encode, if_neg (by omega)]

theorem log2_div_128 {n : Nat} (h : 128 ≤ n) : (n / 128).log2 + 7 = n.log2 := by
  have h0 : n / 128 ≠ 0 := by omega
  have hlo := Nat.log2_self_le h0
  have hhi := Nat.lt_log2_self (n := n / 128)
  refine ((Nat.log2_eq_iff (by omega)).2 ⟨?_, ?_⟩).symm
  · rw [Nat.pow_add]
    omega
  · rw [show (n / 128).log2 + 7 + 1 = (n / 128).log2 + 1 + 7 from rfl, Nat.pow_add]
    omega

theorem length_encode (n : Nat) : (encode n).length = size n := by
  induction n using Nat.strongRecOn with
  | _ n ih =>
    unfold size
    by_cases h : n < 128
    · have : n.log2 < 7 := by
        by_cases h0 : n = 0
        · simp [h0]
        · exact (Nat.log2_lt h0).2 h
      rw [encode_of_lt h, List.length_singleton]
      omega
    · have := log2_div_128 (n := n) (by omega)
      rw [encode_of_le (by omega), List.length_cons, ih _ (by omega), size]
      omega

end FazClient.Wire.Varint
