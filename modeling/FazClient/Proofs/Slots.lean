import FazClient.Wire.Fields

/-!
# FazClient.Proofs.Slots

The records of one field.  Fields are read by number, so all that a reader sees
of a list of records is the *slot* of its number:

* `words_slot`, `getText_slot`, … — a reader looks at its own slot only;
* `slot_putWord`, … — a writer fills its own slot and no other;
* `forall_mem_putWord`, … — what holds of all records that a writer puts;
* `getWord_of_slot`, … — a field is read back from among others.
-/

namespace FazClient.Wire

/-! ## Slots -/

/-- The number of the field that a record belongs to. -/
def Record.number : Record → Nat
  | word n _ => n
  | text n _ => n
  | bytes n _ => n
  | message n _ => n

/-- The records of the field with this number, in order. -/
def slot (n : Nat) (rs : List Record) : List Record := rs.filter (·.number = n)

@[simp] theorem slot_nil (n : Nat) : slot n [] = [] := rfl

/-- The slot of a list is filled from its parts, in their order. -/
@[simp] theorem slot_append (n : Nat) (rs ts : List Record) :
    slot n (rs ++ ts) = slot n rs ++ slot n ts :=
  List.filter_append ..

/-- Records of one number fill the slot of that number and leave all others empty. -/
theorem slot_of_number {rs : List Record} {m : Nat} (h : ∀ r ∈ rs, r.number = m) (n : Nat) :
    slot n rs = if m = n then rs else [] := by
  by_cases hmn : m = n
  · rw [if_pos hmn, slot, List.filter_eq_self]
    intro r hr
    simp [h r hr, hmn]
  · rw [if_neg hmn, slot, List.filter_eq_nil_iff]
    intro r hr
    simp [h r hr, hmn]

/-! ## Readers and slots -/

/-- A reader that picks nothing from records of other numbers looks at its own slot only. -/
theorem filterMap_slot {f : Record → Option α} {n : Nat} (h : ∀ r, r.number ≠ n → f r = none)
    (rs : List Record) : (slot n rs).filterMap f = rs.filterMap f := by
  induction rs with
  | nil => rfl
  | cons r rs ih =>
    by_cases hr : r.number = n
    · rw [slot, List.filter_cons_of_pos (by simpa using hr), List.filterMap_cons,
        List.filterMap_cons, ← slot, ih]
    · rw [slot, List.filter_cons_of_neg (by simpa using hr), ← slot, ih,
        List.filterMap_cons_none (h r hr)]

/-- The numbers of a field stand in its slot. -/
theorem words_slot (n : Nat) (rs : List Record) : words n (slot n rs) = words n rs :=
  filterMap_slot (fun r hr => by cases r <;> simp_all [Record.number]) rs

/-- The texts of a field stand in its slot. -/
theorem texts_slot (n : Nat) (rs : List Record) : texts n (slot n rs) = texts n rs :=
  filterMap_slot (fun r hr => by cases r <;> simp_all [Record.number]) rs

/-- The byte strings of a field stand in its slot. -/
theorem byteStrings_slot (n : Nat) (rs : List Record) :
    byteStrings n (slot n rs) = byteStrings n rs :=
  filterMap_slot (fun r hr => by cases r <;> simp_all [Record.number]) rs

/-- The messages of a field stand in its slot. -/
theorem messages_slot (n : Nat) (rs : List Record) : messages n (slot n rs) = messages n rs :=
  filterMap_slot (fun r hr => by cases r <;> simp_all [Record.number]) rs

/-- The number that counts, the last of its field, is found in the slot. -/
theorem getWord_slot (n : Nat) (rs : List Record) : getWord n (slot n rs) = getWord n rs := by
  rw [getWord, words_slot, getWord]

theorem getText_slot (n : Nat) (rs : List Record) : getText n (slot n rs) = getText n rs := by
  rw [getText, texts_slot, getText]

theorem getBytes_slot (n : Nat) (rs : List Record) : getBytes n (slot n rs) = getBytes n rs := by
  rw [getBytes, byteStrings_slot, getBytes]

theorem getBytes?_slot (n : Nat) (rs : List Record) :
    getBytes? n (slot n rs) = getBytes? n rs := by
  rw [getBytes?, byteStrings_slot, getBytes?]

/-- A message that is put together from several records is put together from the slot. -/
theorem getMessage?_slot (n : Nat) (rs : List Record) :
    getMessage? n (slot n rs) = getMessage? n rs := by
  rw [getMessage?, messages_slot, getMessage?]

/-! ## What writers put -/

variable {P : Record → Prop}

/-- A number is put as one record, or as none if it is 0. -/
theorem forall_mem_putWord {n : Nat} {v : UInt64} :
    (∀ r ∈ putWord n v, P r) ↔ v = 0 ∨ P (.word n v) := by
  unfold putWord
  split <;> simp_all

/-- A text is put as one record, or as none if it is empty. -/
theorem forall_mem_putText {n : Nat} {v : String} :
    (∀ r ∈ putText n v, P r) ↔ v = "" ∨ P (.text n v) := by
  unfold putText
  split <;> simp_all

/-- Bytes are put as one record, or as none if there are none. -/
theorem forall_mem_putBytes {n : Nat} {v : List UInt8} :
    (∀ r ∈ putBytes n v, P r) ↔ v = [] ∨ P (.bytes n v) := by
  unfold putBytes
  split <;> simp_all

/-- Bytes that may be absent are put as one record where they are present, even if empty. -/
theorem forall_mem_putBytes? {n : Nat} {v : Option (List UInt8)} :
    (∀ r ∈ putBytes? n v, P r) ↔ ∀ bs ∈ v, P (.bytes n bs) := by
  cases v <;> simp [putBytes?]

/-- A message that may be absent is put as one record where it is present. -/
theorem forall_mem_putMessage? {n : Nat} {v : Option (List Record)} :
    (∀ r ∈ putMessage? n v, P r) ↔ ∀ rs ∈ v, P (.message n rs) := by
  cases v <;> simp [putMessage?]

/-- Each text of a list is put as a record of its own. -/
theorem forall_mem_putTexts {n : Nat} {vs : List String} :
    (∀ r ∈ putTexts n vs, P r) ↔ ∀ v ∈ vs, P (.text n v) := by
  simp [putTexts]

/-- Each message of a list is put as a record of its own. -/
theorem forall_mem_putMessages {n : Nat} {vs : List (List Record)} :
    (∀ r ∈ putMessages n vs, P r) ↔ ∀ rs ∈ vs, P (.message n rs) := by
  simp [putMessages]

/-! ## Writers and slots -/

/-- A number fills the slot of its own field. -/
@[simp] theorem slot_putWord (n m : Nat) (v : UInt64) :
    slot n (putWord m v) = if m = n then putWord m v else [] :=
  slot_of_number (forall_mem_putWord.2 (.inr rfl)) n

@[simp] theorem slot_putText (n m : Nat) (v : String) :
    slot n (putText m v) = if m = n then putText m v else [] :=
  slot_of_number (forall_mem_putText.2 (.inr rfl)) n

@[simp] theorem slot_putBytes (n m : Nat) (v : List UInt8) :
    slot n (putBytes m v) = if m = n then putBytes m v else [] :=
  slot_of_number (forall_mem_putBytes.2 (.inr rfl)) n

/-- Bytes that may be absent leave the slots of other fields empty. -/
@[simp] theorem slot_putBytes? (n m : Nat) (v : Option (List UInt8)) :
    slot n (putBytes? m v) = if m = n then putBytes? m v else [] :=
  slot_of_number (forall_mem_putBytes?.2 fun _ _ => rfl) n

@[simp] theorem slot_putMessage? (n m : Nat) (v : Option (List Record)) :
    slot n (putMessage? m v) = if m = n then putMessage? m v else [] :=
  slot_of_number (forall_mem_putMessage?.2 fun _ _ => rfl) n

@[simp] theorem slot_putTexts (n m : Nat) (vs : List String) :
    slot n (putTexts m vs) = if m = n then putTexts m vs else [] :=
  slot_of_number (forall_mem_putTexts.2 fun _ _ => rfl) n

/-- The messages of a list all go to one slot. -/
@[simp] theorem slot_putMessages (n m : Nat) (vs : List (List Record)) :
    slot n (putMessages m vs) = if m = n then putMessages m vs else [] :=
  slot_of_number (forall_mem_putMessages.2 fun _ _ => rfl) n

/-! ## Fields read back from among others -/

/-- What one number has put into its slot is read back, whatever else is in the list. -/
theorem getWord_of_slot {n : Nat} {rs : List Record} {v : UInt64}
    (h : slot n rs = putWord n v) : getWord n rs = v := by
  rw [← getWord_slot, h, getWord_putWord]

theorem getText_of_slot {n : Nat} {rs : List Record} {v : String}
    (h : slot n rs = putText n v) : getText n rs = v := by
  rw [← getText_slot, h, getText_putText]

theorem getBytes_of_slot {n : Nat} {rs : List Record} {v : List UInt8}
    (h : slot n rs = putBytes n v) : getBytes n rs = v := by
  rw [← getBytes_slot, h, getBytes_putBytes]

theorem getBytes?_of_slot {n : Nat} {rs : List Record} {v : Option (List UInt8)}
    (h : slot n rs = putBytes? n v) : getBytes? n rs = v := by
  rw [← getBytes?_slot, h, getBytes?_putBytes?]

/-- The same of a message, which is not merged with anything then. -/
theorem getMessage?_of_slot {n : Nat} {rs : List Record} {v : Option (List Record)}
    (h : slot n rs = putMessage? n v) : getMessage? n rs = v := by
  rw [← getMessage?_slot, h, getMessage?_putMessage?]

/-- A list of texts is read back in order. -/
theorem texts_of_slot {n : Nat} {rs : List Record} {vs : List String}
    (h : slot n rs = putTexts n vs) : texts n rs = vs := by
  rw [← texts_slot, h, texts_putTexts]

end FazClient.Wire
