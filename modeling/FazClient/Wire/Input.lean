/-!
# FazClient.Wire.Input

Bytes that are still to be read, together with their number.  A reader often
has to compare a length with all that is left, and inside a long message that
must not cost a walk over the rest each time; the invariant `size_eq` makes the
cached number a mere view of the bytes (`ext`).
-/

namespace FazClient.Wire

/-- The unread bytes and how many they are. -/
structure Input where
  bytes : List UInt8
  size : Nat
  size_eq : size = bytes.length

namespace Input

/-- All of these bytes, unread. -/
def ofBytes (bytes : List UInt8) : Input := ⟨bytes, bytes.length, rfl⟩

@[simp] theorem bytes_ofBytes (bs : List UInt8) : (ofBytes bs).bytes = bs := rfl

@[simp] theorem size_ofBytes (bs : List UInt8) : (ofBytes bs).size = bs.length := rfl

@[ext] theorem ext {i j : Input} (h : i.bytes = j.bytes) : i = j := by
  obtain ⟨bs, n, rfl⟩ := i
  obtain ⟨cs, m, rfl⟩ := j
  cases h
  rfl

@[simp] theorem ofBytes_bytes (i : Input) : ofBytes i.bytes = i := ext rfl

/-- The first byte and what follows it. -/
def next? : Input → Option (UInt8 × Input)
  | ⟨[], _, _⟩ => none
  | ⟨b :: rest, n, h⟩ => some (b, ⟨rest, n - 1, by simp [h]⟩)

@[simp] theorem next?_nil : next? (ofBytes []) = none := rfl

@[simp] theorem next?_cons (b : UInt8) (rest : List UInt8) :
    next? (ofBytes (b :: rest)) = some (b, ofBytes rest) := rfl

theorem next?_eq_some_iff {i j : Input} {b : UInt8} :
    i.next? = some (b, j) ↔ i.bytes = b :: j.bytes := by
  obtain ⟨bs, n, h⟩ := i
  cases bs with
  | nil => simp [next?]
  | cons c rest => simp [next?, Input.ext_iff]

/-- The first `n` bytes and what follows them, unless there are fewer. -/
def splitAt? (n : Nat) (i : Input) : Option (List UInt8 × Input) :=
  if n ≤ i.size then
    some (i.bytes.take n, ⟨i.bytes.drop n, i.size - n, by simp [i.size_eq]⟩)
  else
    none

@[simp] theorem splitAt?_append (front rest : List UInt8) :
    splitAt? front.length (ofBytes (front ++ rest)) = some (front, ofBytes rest) := by
  simp [splitAt?, ofBytes]

theorem splitAt?_eq_some_iff {n : Nat} {i j : Input} {front : List UInt8} :
    splitAt? n i = some (front, j) ↔ i.bytes = front ++ j.bytes ∧ front.length = n := by
  constructor
  · intro h
    unfold splitAt? at h
    split at h
    · rename_i hn
      cases h
      have := i.size_eq
      simp only [List.take_append_drop, List.length_take, true_and]
      omega
    · cases h
  · rintro ⟨h, rfl⟩
    rw [← ofBytes_bytes i, h, splitAt?_append, ofBytes_bytes]

end Input

end FazClient.Wire
