import FazClient.Wire.Record

/-!
# FazClient.Wire.Fields

Typed fields as lists of records, in both directions.

*Reading.*  Fields of one number are looked at together and apart from all
others: the last word, text or byte string counts, the parts of one nested
message are joined, and repeated fields are listed.

*Writing.*  A plain field is written if it is not its default, an optional one
if it is present, a repeated one element by element.

* `words_append`, … — joined records give the values of both, in order;
* `getWord_putWord`, … — a field reads back as it was put.
-/

namespace FazClient.Wire

/-! ## The values of one field -/

/-- The words with this number. -/
def words (n : Nat) (rs : List Record) : List UInt64 :=
  rs.filterMap fun
    | .word m v => if m = n then some v else none
    | _ => none

/-- The texts with this number. -/
def texts (n : Nat) (rs : List Record) : List String :=
  rs.filterMap fun
    | .text m v => if m = n then some v else none
    | _ => none

/-- The byte strings with this number. -/
def byteStrings (n : Nat) (rs : List Record) : List (List UInt8) :=
  rs.filterMap fun
    | .bytes m v => if m = n then some v else none
    | _ => none

/-- The nested messages with this number. -/
def messages (n : Nat) (rs : List Record) : List (List Record) :=
  rs.filterMap fun
    | .message m v => if m = n then some v else none
    | _ => none

/-! ## Reading a field -/

/-- A plain word: the last one, or 0. -/
def getWord (n : Nat) (rs : List Record) : UInt64 := (words n rs).getLastD 0

/-- A plain text: the last one, or the empty text. -/
def getText (n : Nat) (rs : List Record) : String := (texts n rs).getLastD ""

/-- An optional byte string: the last one. -/
def getBytes? (n : Nat) (rs : List Record) : Option (List UInt8) := (byteStrings n rs).getLast?

/-- A plain byte string: the last one, or the empty one. -/
def getBytes (n : Nat) (rs : List Record) : List UInt8 := (byteStrings n rs).getLastD []

/-- An optional message: the records of all its parts. -/
def getMessage? (n : Nat) (rs : List Record) : Option (List Record) :=
  match messages n rs with
  | [] => none
  | parts => some parts.flatten

/-! ## Writing a field -/

/-- A plain word. -/
def putWord (n : Nat) (v : UInt64) : List Record := if v = 0 then [] else [.word n v]

/-- A plain text. -/
def putText (n : Nat) (v : String) : List Record := if v = "" then [] else [.text n v]

/-- A plain byte string. -/
def putBytes (n : Nat) (v : List UInt8) : List Record := if v = [] then [] else [.bytes n v]

/-- An optional byte string. -/
def putBytes? (n : Nat) (v : Option (List UInt8)) : List Record := v.toList.map (.bytes n)

/-- An optional message. -/
def putMessage? (n : Nat) (v : Option (List Record)) : List Record := v.toList.map (.message n)

/-- A repeated text. -/
def putTexts (n : Nat) (vs : List String) : List Record := vs.map (.text n)

/-- A repeated message. -/
def putMessages (n : Nat) (vs : List (List Record)) : List Record := vs.map (.message n)

/-! ## Joined records -/

@[simp] theorem words_append (n : Nat) (rs ts : List Record) :
    words n (rs ++ ts) = words n rs ++ words n ts :=
  List.filterMap_append

@[simp] theorem texts_append (n : Nat) (rs ts : List Record) :
    texts n (rs ++ ts) = texts n rs ++ texts n ts :=
  List.filterMap_append

@[simp] theorem byteStrings_append (n : Nat) (rs ts : List Record) :
    byteStrings n (rs ++ ts) = byteStrings n rs ++ byteStrings n ts :=
  List.filterMap_append

@[simp] theorem messages_append (n : Nat) (rs ts : List Record) :
    messages n (rs ++ ts) = messages n rs ++ messages n ts :=
  List.filterMap_append

/-! ## Fields read back -/

theorem getWord_putWord (n : Nat) (v : UInt64) : getWord n (putWord n v) = v := by
  unfold putWord
  split
  · next h => simp [getWord, words, h]
  · simp [getWord, words]

theorem getText_putText (n : Nat) (v : String) : getText n (putText n v) = v := by
  unfold putText
  split
  · next h => simp [getText, texts, h]
  · simp [getText, texts]

theorem getBytes_putBytes (n : Nat) (v : List UInt8) : getBytes n (putBytes n v) = v := by
  unfold putBytes
  split
  · next h => simp [getBytes, byteStrings, h]
  · simp [getBytes, byteStrings]

theorem getBytes?_putBytes? (n : Nat) (v : Option (List UInt8)) :
    getBytes? n (putBytes? n v) = v := by
  cases v <;> simp [getBytes?, putBytes?, byteStrings]

theorem getMessage?_putMessage? (n : Nat) (v : Option (List Record)) :
    getMessage? n (putMessage? n v) = v := by
  cases v <;> simp [getMessage?, putMessage?, messages]

theorem texts_putTexts (n : Nat) (vs : List String) : texts n (putTexts n vs) = vs := by
  induction vs with
  | nil => rfl
  | cons v vs ih => simp_all [texts, putTexts]

theorem messages_putMessages (n : Nat) (vs : List (List Record)) :
    messages n (putMessages n vs) = vs := by
  induction vs with
  | nil => rfl
  | cons v vs ih => simp_all [messages, putMessages]

end FazClient.Wire
