import FazClient.Proofs.Locality
import FazClient.Proofs.RoundTrip

/-!
# FazClient.Proofs.Merging

Bytes behind a message change that message, field by field.

* **decoding goes on** — `absorb`, what one more record does to a message, and `resume`, the
  decoder that starts from a message and takes field after field into it: it is the
  decoder (`decode_eq_resume`), and it takes over where a message ends (`decode_append`);
* **merging** — `merge`, a message for two, said field by field: the records of both add up to
  it (`ofRecords_toRecords_append`).
* `concatenation_merges` — both together.
-/

namespace FazClient

open Wire

/-! ## What a record says of a field -/

namespace Wire

/-- The word, if the record has this number. -/
def Record.word? (n : Nat) : Record → Option UInt64
  | .word m v => if m = n then some v else none
  | _ => none

/-- The text, if the record has this number. -/
def Record.text? (n : Nat) : Record → Option String
  | .text m v => if m = n then some v else none
  | _ => none

/-- The byte string, if the record has this number. -/
def Record.bytes? (n : Nat) : Record → Option (List UInt8)
  | .bytes m v => if m = n then some v else none
  | _ => none

/-- The nested message, if the record has this number. -/
def Record.message? (n : Nat) : Record → Option (List Record)
  | .message m v => if m = n then some v else none
  | _ => none

/-- An optional message goes on with one more part, from the start if there was none. -/
def absorbPart (absorb : α → Record → α) (start : α) (old : Option α)
    (part : Option (List Record)) : Option α :=
  part.elim old fun rs => some (rs.foldl absorb (old.getD start))

section

variable (n : Nat) (rs : List Record) (r : Record)

theorem filterMap_concat (f : Record → Option α) :
    (rs ++ [r]).filterMap f = rs.filterMap f ++ (f r).toList := by
  rw [List.filterMap_append]
  cases hr : f r <;> simp [hr]

theorem words_concat : words n (rs ++ [r]) = words n rs ++ (r.word? n).toList :=
  filterMap_concat rs r (Record.word? n)

theorem texts_concat : texts n (rs ++ [r]) = texts n rs ++ (r.text? n).toList :=
  filterMap_concat rs r (Record.text? n)

theorem byteStrings_concat :
    byteStrings n (rs ++ [r]) = byteStrings n rs ++ (r.bytes? n).toList :=
  filterMap_concat rs r (Record.bytes? n)

theorem messages_concat : messages n (rs ++ [r]) = messages n rs ++ (r.message? n).toList :=
  filterMap_concat rs r (Record.message? n)

theorem getWord_concat : getWord n (rs ++ [r]) = (r.word? n).getD (getWord n rs) := by
  rw [getWord, words_concat]
  cases r.word? n <;> simp [getWord]

theorem getText_concat : getText n (rs ++ [r]) = (r.text? n).getD (getText n rs) := by
  rw [getText, texts_concat]
  cases r.text? n <;> simp [getText]

theorem getBytes_concat : getBytes n (rs ++ [r]) = (r.bytes? n).getD (getBytes n rs) := by
  rw [getBytes, byteStrings_concat]
  cases r.bytes? n <;> simp [getBytes]

theorem getBytes?_concat : getBytes? n (rs ++ [r]) = (r.bytes? n).or (getBytes? n rs) := by
  rw [getBytes?, byteStrings_concat]
  cases r.bytes? n <;> simp [getBytes?]

end

/-- If a message takes in a record by `absorb`, it takes in records by a fold. -/
theorem append_eq_foldl {f : List Record → α} {absorb : α → Record → α}
    (h : ∀ rs r, f (rs ++ [r]) = absorb (f rs) r) (rs ts : List Record) :
    f (rs ++ ts) = ts.foldl absorb (f rs) := by
  induction ts generalizing rs with
  | nil => rw [List.append_nil, List.foldl_nil]
  | cons t ts ih => rw [List.append_cons, ih, h, List.foldl_cons]

/-- An optional message goes on with the part that a record holds. -/
theorem map_getMessage?_concat {f : List Record → α} {absorb : α → Record → α}
    (h : ∀ rs r, f (rs ++ [r]) = absorb (f rs) r) (n : Nat) (rs : List Record) (r : Record) :
    (getMessage? n (rs ++ [r])).map f =
      absorbPart absorb (f []) ((getMessage? n rs).map f) (r.message? n) := by
  rw [getMessage?, messages_concat]
  cases hpart : r.message? n with
  | none => simp [absorbPart, getMessage?]
  | some part =>
    cases hold : messages n rs with
    | nil =>
      have hfirst : f part = part.foldl absorb (f []) := append_eq_foldl h [] part
      simp [absorbPart, getMessage?, hold, hfirst]
    | cons first others =>
      have hnext := append_eq_foldl h (first :: others).flatten part
      simpa [absorbPart, getMessage?, hold] using hnext

end Wire

/-! ## Messages that take in records -/

/-- What a record does to a time. -/
def Timestamp.absorb (m : Timestamp) (r : Record) : Timestamp where
  seconds := (r.word? 1).elim m.seconds UInt64.toInt64
  useconds := (r.word? 2).elim m.useconds UInt64.toInt64

/-- What a record does to a caw. -/
def Caw.absorb (m : Caw) (r : Record) : Caw where
  username := (r.text? 1).getD m.username
  text := (r.text? 2).getD m.text
  id := (r.bytes? 3).getD m.id
  parentId := (r.bytes? 4).or m.parentId
  timestamp := absorbPart Timestamp.absorb {} m.timestamp (r.message? 5)

/-- What a record does to a profile reply. -/
def ProfileReply.absorb (m : ProfileReply) (r : Record) : ProfileReply where
  following := m.following ++ (r.text? 1).toList
  followers := m.followers ++ (r.text? 2).toList

/-- What a record does to a request to post. -/
def CawRequest.absorb (m : CawRequest) (r : Record) : CawRequest where
  username := (r.text? 1).getD m.username
  text := (r.text? 2).getD m.text
  parentId := (r.bytes? 3).or m.parentId

/-- What a record does to a payload. -/
def Any.absorb (m : Any) (r : Record) : Any where
  typeUrl := (r.text? 1).getD m.typeUrl
  value := (r.bytes? 2).getD m.value

/-- What a record does to a frame. -/
def Frame.absorb (m : Frame) (r : Record) : Frame where
  method := (r.word? 1).elim m.method UInt64.toUInt32
  callId := (r.word? 2).getD m.callId
  body := (r.bytes? 3).getD m.body
  status := (r.word? 4).elim m.status int32OfWord
  message := (r.text? 5).getD m.message
  version := (r.word? 6).elim m.version UInt64.toUInt32

/-- What a record does to a message that a payload may hold. -/
def Wire.PayloadSchema.absorb : (s : PayloadSchema) → s.Message → Record → s.Message
  | .timestamp, m, r => Timestamp.absorb m r
  | .caw, m, r => Caw.absorb m r
  | .registerUserRequest, m, r =>
    RegisterUserRequest.mk ((r.text? 1).getD (RegisterUserRequest.username m))
  | .registerUserReply, m, _ => m
  | .followRequest, m, r =>
    FollowRequest.mk ((r.text? 1).getD (FollowRequest.username m))
      ((r.text? 2).getD (FollowRequest.toFollow m))
  | .followReply, m, _ => m
  | .profileRequest, m, r => ProfileRequest.mk ((r.text? 1).getD (ProfileRequest.username m))
  | .profileReply, m, r => ProfileReply.absorb m r
  | .cawRequest, m, r => CawRequest.absorb m r
  | .cawReply, m, r => CawReply.mk (absorbPart Caw.absorb {} (CawReply.caw m) (r.message? 1))
  | .readRequest, m, r => ReadRequest.mk ((r.bytes? 1).getD (ReadRequest.cawId m))
  | .readReply, m, r =>
    ReadReply.mk (ReadReply.caws m ++ (r.message? 1).toList.map fun rs => rs.foldl Caw.absorb {})

/-- What a record does to a message: a plain or optional field takes the new value, an
optional message goes on with one more part, and a repeated field has one more element. -/
def Wire.Schema.absorb : (s : Schema) → s.Message → Record → s.Message
  | .payload s, m, r => s.absorb m r
  | .any, m, r => Any.absorb m r
  | .hookRequest, m, r =>
    HookRequest.mk ((r.word? 1).elim (HookRequest.eventType m) int32OfWord)
      ((r.text? 2).getD (HookRequest.eventFunction m))
  | .hookReply, m, _ => m
  | .unhookRequest, m, r =>
    UnhookRequest.mk ((r.word? 1).elim (UnhookRequest.eventType m) int32OfWord)
  | .unhookReply, m, _ => m
  | .eventRequest, m, r =>
    EventRequest.mk ((r.word? 1).elim (EventRequest.eventType m) int32OfWord)
      (absorbPart Any.absorb {} (EventRequest.payload m) (r.message? 2))
  | .eventReply, m, r =>
    EventReply.mk (absorbPart Any.absorb {} (EventReply.payload m) (r.message? 1))
  | .frame, m, r => Frame.absorb m r

/-! ## One record more -/

section

variable (rs : List Record) (r : Record)

theorem elim_eq_apply_getD (f : α → β) (o : Option α) (a : α) :
    f (o.getD a) = o.elim (f a) f := by
  cases o <;> rfl

theorem Timestamp.ofRecords_concat : ofRecords (rs ++ [r]) = (ofRecords rs).absorb r := by
  simp only [ofRecords, absorb, getWord_concat, elim_eq_apply_getD]

theorem Caw.ofRecords_concat : ofRecords (rs ++ [r]) = (ofRecords rs).absorb r := by
  have htime := map_getMessage?_concat Timestamp.ofRecords_concat 5 rs r
  simp only [ofRecords, absorb, getText_concat, getBytes_concat, getBytes?_concat, htime]
  rfl

theorem Any.ofRecords_concat : ofRecords (rs ++ [r]) = (ofRecords rs).absorb r := by
  simp only [ofRecords, absorb, getText_concat, getBytes_concat]

theorem Wire.PayloadSchema.ofRecords_concat (s : PayloadSchema) :
    s.ofRecords (rs ++ [r]) = s.absorb (s.ofRecords rs) r := by
  cases s with
  | timestamp => exact Timestamp.ofRecords_concat rs r
  | caw => exact Caw.ofRecords_concat rs r
  | registerUserRequest | followRequest | profileRequest =>
    simp only [ofRecords, absorb, getText_concat]
  | registerUserReply | followReply => rfl
  | profileReply =>
    simp only [ofRecords, absorb, ProfileReply.ofRecords, ProfileReply.absorb, texts_concat]
  | cawRequest =>
    simp only [ofRecords, absorb, CawRequest.ofRecords, CawRequest.absorb, getText_concat,
      getBytes?_concat]
  | cawReply =>
    have hcaw := map_getMessage?_concat Caw.ofRecords_concat 1 rs r
    simp only [ofRecords, absorb, hcaw]
    rfl
  | readRequest => simp only [ofRecords, absorb, getBytes_concat]
  | readReply =>
    have hcaw : Caw.ofRecords = fun part => part.foldl Caw.absorb {} :=
      funext fun part => append_eq_foldl Caw.ofRecords_concat [] part
    simp only [ofRecords, absorb, messages_concat, List.map_append]
    rw [← hcaw]

/-- One record more changes the message just as it changes what was there before. -/
theorem Wire.Schema.ofRecords_concat (s : Schema) :
    s.ofRecords (rs ++ [r]) = s.absorb (s.ofRecords rs) r := by
  cases s with
  | payload s => exact s.ofRecords_concat rs r
  | any => exact Any.ofRecords_concat rs r
  | hookRequest => simp only [ofRecords, absorb, getWord_concat, getText_concat, elim_eq_apply_getD]
  | unhookRequest => simp only [ofRecords, absorb, getWord_concat, elim_eq_apply_getD]
  | hookReply | unhookReply => rfl
  | eventRequest =>
    have hpayload := map_getMessage?_concat Any.ofRecords_concat 2 rs r
    simp only [ofRecords, absorb, getWord_concat, elim_eq_apply_getD, hpayload]
    rfl
  | eventReply =>
    have hpayload := map_getMessage?_concat Any.ofRecords_concat 1 rs r
    simp only [ofRecords, absorb, hpayload]
    rfl
  | frame =>
    simp only [ofRecords, absorb, Frame.ofRecords, Frame.absorb, getWord_concat, getText_concat,
      getBytes_concat, elim_eq_apply_getD]

end

/-- Records change the message one after the other. -/
theorem Wire.Schema.ofRecords_append (s : Schema) (rs ts : List Record) :
    s.ofRecords (rs ++ ts) = ts.foldl s.absorb (s.ofRecords rs) :=
  append_eq_foldl (fun rs r => s.ofRecords_concat rs r) rs ts

/-! ## Decoding goes on -/

/-- Reads fields to the end of the input, and takes each of them into the message that is
there.  `fuel` is at least the size of the input. -/
def resumeFields (readOne : Input → Except DecodeError (Option Record × Input))
    (absorb : α → Record → α) : (fuel : Nat) → Input → α → Except DecodeError α
  | 0, _, m => .ok m
  | fuel + 1, i, m =>
    if i.size = 0 then .ok m
    else
      match readOne i with
      | .error e => .error e
      | .ok (r, rest) => resumeFields readOne absorb fuel rest (r.elim m (absorb m))

/-- Decoding goes on from a message, with the fields in these bytes. -/
def resume (s : Schema) (m : s.Message) (bytes : List UInt8) : Except DecodeError s.Message :=
  resumeFields (fieldReader maxLevels s) s.absorb bytes.length (.ofBytes bytes) m

/-- Taking in fields one by one is reading them all and then taking in their records. -/
theorem resumeFields_eq {readOne : Input → Except DecodeError (Option Record × Input)}
    (hadvances : Advances readOne) (absorb : α → Record → α) {fuel : Nat} {i : Input}
    (hfuel : i.size ≤ fuel) (m : α) :
    resumeFields readOne absorb fuel i m =
      (readFields readOne 0 i.size i []).map fun p => p.1.foldl absorb m := by
  induction fuel generalizing i m with
  | zero =>
    have hend : i.size = 0 := by omega
    rw [readFields_of_size_eq hend]
    rfl
  | succ fuel ih =>
    by_cases hend : i.size = 0
    · rw [resumeFields, if_pos hend, readFields_of_size_eq hend]
      rfl
    · have hnow : 0 < i.size := by omega
      obtain ⟨k, hk⟩ : ∃ k, i.size = k + 1 := ⟨i.size - 1, by omega⟩
      rw [resumeFields, if_neg hend, hk]
      cases hone : readOne i with
      | error e =>
        rw [readFields_error hnow hone]
        rfl
      | ok p =>
        obtain ⟨r, j⟩ := p
        have hj : j.size < i.size := hadvances i r j hone
        have hrest := ih (show j.size ≤ fuel by omega) (r.elim m (absorb m))
        rw [readFields_step hnow hone, readFields_eq hadvances (by omega)]
        simp only [hrest]
        cases readFields readOne 0 j.size j [] <;> cases r <;> rfl

/-- Going on from a message is taking in all the records in the bytes. -/
theorem resume_eq (s : Schema) (m : s.Message) (bytes : List UInt8) :
    resume s m bytes = (scan s bytes).map fun rs => rs.foldl s.absorb m := by
  have hfields := resumeFields_eq (advances_fieldReader maxLevels s) s.absorb
    (Nat.le_refl (Input.ofBytes bytes).size) m
  rw [resume, scan, readMessage_eq]
  refine hfields.trans ?_
  cases readFields (fieldReader maxLevels s) 0 (Input.ofBytes bytes).size (.ofBytes bytes) [] <;>
    rfl

/-- Decoding is going on from the message of no records. -/
theorem decode_eq_resume (s : Schema) (bytes : List UInt8) :
    decode s bytes = resume s (s.ofRecords []) bytes := by
  have hfold : s.ofRecords = fun rs => rs.foldl s.absorb (s.ofRecords []) :=
    funext fun rs => s.ofRecords_append [] rs
  rw [decode, resume_eq, ← hfold]

/-- Behind a message decoding goes on from that message, and fails for the same reason. -/
theorem decode_append {s : Schema} {a : List UInt8} {x : s.Message} (h : decode s a = .ok x)
    (b : List UInt8) : decode s (a ++ b) = resume s x b := by
  obtain ⟨rs, hscan, rfl⟩ := map_eq_ok_iff.1 h
  rw [decode, resume_eq, scan_append hscan]
  cases scan s b with
  | error e => rfl
  | ok ts => exact congrArg Except.ok (s.ofRecords_append rs ts)

/-! ## Merging -/

/-- A plain field of two messages: the later value, unless it is the default. -/
def later [DecidableEq α] (default x y : α) : α := if y = default then x else y

/-- A value is later in one form just if it is in another. -/
theorem apply_later [DecidableEq α] [DecidableEq β] {f : α → β} {g : β → α}
    (hgf : ∀ v, g (f v) = v) {d : α} {d' : β} (hd : f d = d') (x y : α) :
    g (later d' (f x) (f y)) = later d x y := by
  by_cases hy : y = d
  · simp [later, hy, hd, hgf]
  · have hfy : f y ≠ d' := by
      intro heq
      apply hy
      rw [← hgf y, heq, ← hd, hgf]
    simp [later, hy, hfy, hgf]

/-- Two times as one. -/
def Timestamp.merge (x y : Timestamp) : Timestamp where
  seconds := later 0 x.seconds y.seconds
  useconds := later 0 x.useconds y.useconds

/-- Two caws as one. -/
def Caw.merge (x y : Caw) : Caw where
  username := later "" x.username y.username
  text := later "" x.text y.text
  id := later [] x.id y.id
  parentId := y.parentId.or x.parentId
  timestamp := Option.merge Timestamp.merge x.timestamp y.timestamp

/-- Two profile replies as one. -/
def ProfileReply.merge (x y : ProfileReply) : ProfileReply where
  following := x.following ++ y.following
  followers := x.followers ++ y.followers

/-- Two requests to post as one. -/
def CawRequest.merge (x y : CawRequest) : CawRequest where
  username := later "" x.username y.username
  text := later "" x.text y.text
  parentId := y.parentId.or x.parentId

/-- Two payloads as one. -/
def Any.merge (x y : Any) : Any where
  typeUrl := later "" x.typeUrl y.typeUrl
  value := later [] x.value y.value

/-- Two frames as one. -/
def Frame.merge (x y : Frame) : Frame where
  method := later 0 x.method y.method
  callId := later 0 x.callId y.callId
  body := later [] x.body y.body
  status := later 0 x.status y.status
  message := later "" x.message y.message
  version := later 0 x.version y.version

/-- Two messages that a payload may hold, as one. -/
def Wire.PayloadSchema.merge : (s : PayloadSchema) → s.Message → s.Message → s.Message
  | .timestamp, x, y => Timestamp.merge x y
  | .caw, x, y => Caw.merge x y
  | .registerUserRequest, x, y =>
    RegisterUserRequest.mk
      (later "" (RegisterUserRequest.username x) (RegisterUserRequest.username y))
  | .registerUserReply, x, _ => x
  | .followRequest, x, y =>
    FollowRequest.mk (later "" (FollowRequest.username x) (FollowRequest.username y))
      (later "" (FollowRequest.toFollow x) (FollowRequest.toFollow y))
  | .followReply, x, _ => x
  | .profileRequest, x, y =>
    ProfileRequest.mk (later "" (ProfileRequest.username x) (ProfileRequest.username y))
  | .profileReply, x, y => ProfileReply.merge x y
  | .cawRequest, x, y => CawRequest.merge x y
  | .cawReply, x, y => CawReply.mk (Option.merge Caw.merge (CawReply.caw x) (CawReply.caw y))
  | .readRequest, x, y => ReadRequest.mk (later [] (ReadRequest.cawId x) (ReadRequest.cawId y))
  | .readReply, x, y => ReadReply.mk (ReadReply.caws x ++ ReadReply.caws y)

/-- Two messages as one: of a plain field the later value that is not the default, of an
optional one the later value that is present, an optional message merged if both have it,
and a repeated field of both, one after the other. -/
def Wire.Schema.merge : (s : Schema) → s.Message → s.Message → s.Message
  | .payload s, x, y => s.merge x y
  | .any, x, y => Any.merge x y
  | .hookRequest, x, y =>
    HookRequest.mk (later 0 (HookRequest.eventType x) (HookRequest.eventType y))
      (later "" (HookRequest.eventFunction x) (HookRequest.eventFunction y))
  | .hookReply, x, _ => x
  | .unhookRequest, x, y =>
    UnhookRequest.mk (later 0 (UnhookRequest.eventType x) (UnhookRequest.eventType y))
  | .unhookReply, x, _ => x
  | .eventRequest, x, y =>
    EventRequest.mk (later 0 (EventRequest.eventType x) (EventRequest.eventType y))
      (Option.merge Any.merge (EventRequest.payload x) (EventRequest.payload y))
  | .eventReply, x, y =>
    EventReply.mk (Option.merge Any.merge (EventReply.payload x) (EventReply.payload y))
  | .frame, x, y => Frame.merge x y

/-! ## The fields of two messages -/

section

variable {n : Nat} {rs ts : List Record}

theorem words_of_slot {v : UInt64} (h : slot n rs = putWord n v) :
    words n rs = if v = 0 then [] else [v] := by
  rw [← words_slot, h, putWord]
  split <;> simp [words]

theorem texts_of_slot_putText {v : String} (h : slot n rs = putText n v) :
    texts n rs = if v = "" then [] else [v] := by
  rw [← texts_slot, h, putText]
  split <;> simp [texts]

theorem byteStrings_of_slot {v : List UInt8} (h : slot n rs = putBytes n v) :
    byteStrings n rs = if v = [] then [] else [v] := by
  rw [← byteStrings_slot, h, putBytes]
  split <;> simp [byteStrings]

theorem byteStrings_of_slot_putBytes? {v : Option (List UInt8)} (h : slot n rs = putBytes? n v) :
    byteStrings n rs = v.toList := by
  rw [← byteStrings_slot, h]
  cases v <;> simp [putBytes?, byteStrings]

theorem messages_of_slot {v : Option (List Record)} (h : slot n rs = putMessage? n v) :
    messages n rs = v.toList := by
  rw [← messages_slot, h]
  cases v <;> simp [putMessage?, messages]

theorem getWord_append {u v : UInt64} (hr : slot n rs = putWord n u)
    (ht : slot n ts = putWord n v) : getWord n (rs ++ ts) = later 0 u v := by
  rw [getWord, words_append, words_of_slot hr, words_of_slot ht]
  by_cases hu : u = 0 <;> by_cases hv : v = 0 <;> simp [later, hu, hv]

theorem getText_append {u v : String} (hr : slot n rs = putText n u)
    (ht : slot n ts = putText n v) : getText n (rs ++ ts) = later "" u v := by
  rw [getText, texts_append, texts_of_slot_putText hr, texts_of_slot_putText ht]
  by_cases hu : u = "" <;> by_cases hv : v = "" <;> simp [later, hu, hv]

theorem getBytes_append {u v : List UInt8} (hr : slot n rs = putBytes n u)
    (ht : slot n ts = putBytes n v) : getBytes n (rs ++ ts) = later [] u v := by
  rw [getBytes, byteStrings_append, byteStrings_of_slot hr, byteStrings_of_slot ht]
  by_cases hu : u = [] <;> by_cases hv : v = [] <;> simp [later, hu, hv]

theorem getBytes?_append {u v : Option (List UInt8)} (hr : slot n rs = putBytes? n u)
    (ht : slot n ts = putBytes? n v) : getBytes? n (rs ++ ts) = v.or u := by
  rw [getBytes?, byteStrings_append, byteStrings_of_slot_putBytes? hr,
    byteStrings_of_slot_putBytes? ht]
  cases u <;> cases v <;> simp

theorem texts_append_of_slot {us vs : List String} (hr : slot n rs = putTexts n us)
    (ht : slot n ts = putTexts n vs) : texts n (rs ++ ts) = us ++ vs := by
  rw [texts_append, texts_of_slot hr, texts_of_slot ht]

/-- An optional message of two is merged, if its records are. -/
theorem map_getMessage?_append {toRecords : α → List Record} {ofRecords : List Record → α}
    {merge : α → α → α} (hself : ∀ x, ofRecords (toRecords x) = x)
    (hmerge : ∀ x y, ofRecords (toRecords x ++ toRecords y) = merge x y) {u v : Option α}
    (hr : slot n rs = putMessage? n (u.map toRecords))
    (ht : slot n ts = putMessage? n (v.map toRecords)) :
    (getMessage? n (rs ++ ts)).map ofRecords = Option.merge merge u v := by
  rw [getMessage?, messages_append, messages_of_slot hr, messages_of_slot ht]
  cases u <;> cases v <;> simp [hself, hmerge]

end

theorem wordOfInt32_zero : wordOfInt32 0 = 0 := by decide

theorem later_wordOfInt32 (x y : Int32) :
    int32OfWord (later 0 (wordOfInt32 x) (wordOfInt32 y)) = later 0 x y :=
  apply_later int32OfWord_wordOfInt32 wordOfInt32_zero x y

theorem later_toUInt64_int64 (x y : Int64) :
    (later 0 x.toUInt64 y.toUInt64).toInt64 = later 0 x y :=
  apply_later (d := 0) Int64.toInt64_toUInt64 rfl x y

theorem later_toUInt64_uint32 (x y : UInt32) :
    (later 0 x.toUInt64 y.toUInt64).toUInt32 = later 0 x y :=
  apply_later (d := 0) UInt32.toUInt32_toUInt64 rfl x y

/-! ## The records of two messages -/

theorem Timestamp.ofRecords_toRecords_append (x y : Timestamp) :
    ofRecords (x.toRecords ++ y.toRecords) = x.merge y := by
  have h1 : getWord 1 (x.toRecords ++ y.toRecords) =
      later 0 x.seconds.toUInt64 y.seconds.toUInt64 :=
    getWord_append (by simp [toRecords]) (by simp [toRecords])
  have h2 : getWord 2 (x.toRecords ++ y.toRecords) =
      later 0 x.useconds.toUInt64 y.useconds.toUInt64 :=
    getWord_append (by simp [toRecords]) (by simp [toRecords])
  simp only [ofRecords, merge, h1, h2, later_toUInt64_int64]

theorem Caw.ofRecords_toRecords_append (x y : Caw) :
    ofRecords (x.toRecords ++ y.toRecords) = x.merge y := by
  have h1 : getText 1 (x.toRecords ++ y.toRecords) = later "" x.username y.username :=
    getText_append (by simp [toRecords]) (by simp [toRecords])
  have h2 : getText 2 (x.toRecords ++ y.toRecords) = later "" x.text y.text :=
    getText_append (by simp [toRecords]) (by simp [toRecords])
  have h3 : getBytes 3 (x.toRecords ++ y.toRecords) = later [] x.id y.id :=
    getBytes_append (by simp [toRecords]) (by simp [toRecords])
  have h4 : getBytes? 4 (x.toRecords ++ y.toRecords) = y.parentId.or x.parentId :=
    getBytes?_append (by simp [toRecords]) (by simp [toRecords])
  have h5 : (getMessage? 5 (x.toRecords ++ y.toRecords)).map Timestamp.ofRecords =
      Option.merge Timestamp.merge x.timestamp y.timestamp :=
    map_getMessage?_append Timestamp.ofRecords_toRecords Timestamp.ofRecords_toRecords_append
      (by simp [toRecords]) (by simp [toRecords])
  simp only [ofRecords, merge, h1, h2, h3, h4, h5]

theorem ProfileReply.ofRecords_toRecords_append (x y : ProfileReply) :
    ofRecords (x.toRecords ++ y.toRecords) = x.merge y := by
  have h1 : texts 1 (x.toRecords ++ y.toRecords) = x.following ++ y.following :=
    texts_append_of_slot (by simp [toRecords]) (by simp [toRecords])
  have h2 : texts 2 (x.toRecords ++ y.toRecords) = x.followers ++ y.followers :=
    texts_append_of_slot (by simp [toRecords]) (by simp [toRecords])
  simp only [ofRecords, merge, h1, h2]

theorem CawRequest.ofRecords_toRecords_append (x y : CawRequest) :
    ofRecords (x.toRecords ++ y.toRecords) = x.merge y := by
  have h1 : getText 1 (x.toRecords ++ y.toRecords) = later "" x.username y.username :=
    getText_append (by simp [toRecords]) (by simp [toRecords])
  have h2 : getText 2 (x.toRecords ++ y.toRecords) = later "" x.text y.text :=
    getText_append (by simp [toRecords]) (by simp [toRecords])
  have h3 : getBytes? 3 (x.toRecords ++ y.toRecords) = y.parentId.or x.parentId :=
    getBytes?_append (by simp [toRecords]) (by simp [toRecords])
  simp only [ofRecords, merge, h1, h2, h3]

theorem Any.ofRecords_toRecords_append (x y : Any) :
    ofRecords (x.toRecords ++ y.toRecords) = x.merge y := by
  have h1 : getText 1 (x.toRecords ++ y.toRecords) = later "" x.typeUrl y.typeUrl :=
    getText_append (by simp [toRecords]) (by simp [toRecords])
  have h2 : getBytes 2 (x.toRecords ++ y.toRecords) = later [] x.value y.value :=
    getBytes_append (by simp [toRecords]) (by simp [toRecords])
  simp only [ofRecords, merge, h1, h2]

theorem Frame.ofRecords_toRecords_append (x y : Frame) :
    ofRecords (x.toRecords ++ y.toRecords) = x.merge y := by
  have h1 : getWord 1 (x.toRecords ++ y.toRecords) =
      later 0 x.method.toUInt64 y.method.toUInt64 :=
    getWord_append (by simp [toRecords]) (by simp [toRecords])
  have h2 : getWord 2 (x.toRecords ++ y.toRecords) = later 0 x.callId y.callId :=
    getWord_append (by simp [toRecords]) (by simp [toRecords])
  have h3 : getBytes 3 (x.toRecords ++ y.toRecords) = later [] x.body y.body :=
    getBytes_append (by simp [toRecords]) (by simp [toRecords])
  have h4 : getWord 4 (x.toRecords ++ y.toRecords) =
      later 0 (wordOfInt32 x.status) (wordOfInt32 y.status) :=
    getWord_append (by simp [toRecords]) (by simp [toRecords])
  have h5 : getText 5 (x.toRecords ++ y.toRecords) = later "" x.message y.message :=
    getText_append (by simp [toRecords]) (by simp [toRecords])
  have h6 : getWord 6 (x.toRecords ++ y.toRecords) =
      later 0 x.version.toUInt64 y.version.toUInt64 :=
    getWord_append (by simp [toRecords]) (by simp [toRecords])
  simp only [ofRecords, merge, h1, h2, h3, h4, h5, h6, later_wordOfInt32, later_toUInt64_uint32]

theorem Wire.PayloadSchema.ofRecords_toRecords_append (s : PayloadSchema) (x y : s.Message) :
    s.ofRecords (s.toRecords x ++ s.toRecords y) = s.merge x y := by
  cases s with
  | timestamp => exact Timestamp.ofRecords_toRecords_append x y
  | caw => exact Caw.ofRecords_toRecords_append x y
  | registerUserRequest =>
    have h1 : getText 1 (toRecords .registerUserRequest x ++ toRecords .registerUserRequest y) =
        later "" (RegisterUserRequest.username x) (RegisterUserRequest.username y) :=
      getText_append (by simp [toRecords]) (by simp [toRecords])
    simp only [ofRecords, merge, h1]
  | registerUserReply | followReply => rfl
  | followRequest =>
    have h1 : getText 1 (toRecords .followRequest x ++ toRecords .followRequest y) =
        later "" (FollowRequest.username x) (FollowRequest.username y) :=
      getText_append (by simp [toRecords]) (by simp [toRecords])
    have h2 : getText 2 (toRecords .followRequest x ++ toRecords .followRequest y) =
        later "" (FollowRequest.toFollow x) (FollowRequest.toFollow y) :=
      getText_append (by simp [toRecords]) (by simp [toRecords])
    simp only [ofRecords, merge, h1, h2]
  | profileRequest =>
    have h1 : getText 1 (toRecords .profileRequest x ++ toRecords .profileRequest y) =
        later "" (ProfileRequest.username x) (ProfileRequest.username y) :=
      getText_append (by simp [toRecords]) (by simp [toRecords])
    simp only [ofRecords, merge, h1]
  | profileReply => exact ProfileReply.ofRecords_toRecords_append x y
  | cawRequest => exact CawRequest.ofRecords_toRecords_append x y
  | cawReply =>
    have h1 : (getMessage? 1 (toRecords .cawReply x ++ toRecords .cawReply y)).map Caw.ofRecords =
        Option.merge Caw.merge (CawReply.caw x) (CawReply.caw y) :=
      map_getMessage?_append Caw.ofRecords_toRecords Caw.ofRecords_toRecords_append
        (by simp [toRecords]) (by simp [toRecords])
    simp only [ofRecords, merge, h1]
  | readRequest =>
    have h1 : getBytes 1 (toRecords .readRequest x ++ toRecords .readRequest y) =
        later [] (ReadRequest.cawId x) (ReadRequest.cawId y) :=
      getBytes_append (by simp [toRecords]) (by simp [toRecords])
    simp only [ofRecords, merge, h1]
  | readReply =>
    have hcaw : Caw.ofRecords ∘ Caw.toRecords = id := funext Caw.ofRecords_toRecords
    simp [ofRecords, toRecords, merge, messages_putMessages, hcaw]

/-- The records of two messages add up to their merge. -/
theorem Wire.Schema.ofRecords_toRecords_append (s : Schema) (x y : s.Message) :
    s.ofRecords (s.toRecords x ++ s.toRecords y) = s.merge x y := by
  cases s with
  | payload s => exact s.ofRecords_toRecords_append x y
  | any => exact Any.ofRecords_toRecords_append x y
  | hookRequest =>
    have h1 : getWord 1 (toRecords .hookRequest x ++ toRecords .hookRequest y) =
        later 0 (wordOfInt32 (HookRequest.eventType x)) (wordOfInt32 (HookRequest.eventType y)) :=
      getWord_append (by simp [toRecords]) (by simp [toRecords])
    have h2 : getText 2 (toRecords .hookRequest x ++ toRecords .hookRequest y) =
        later "" (HookRequest.eventFunction x) (HookRequest.eventFunction y) :=
      getText_append (by simp [toRecords]) (by simp [toRecords])
    simp only [ofRecords, merge, h1, h2, later_wordOfInt32]
  | unhookRequest =>
    have h1 : getWord 1 (toRecords .unhookRequest x ++ toRecords .unhookRequest y) =
        later 0 (wordOfInt32 (UnhookRequest.eventType x))
          (wordOfInt32 (UnhookRequest.eventType y)) :=
      getWord_append (by simp [toRecords]) (by simp [toRecords])
    simp only [ofRecords, merge, h1, later_wordOfInt32]
  | hookReply | unhookReply => rfl
  | eventRequest =>
    have h1 : getWord 1 (toRecords .eventRequest x ++ toRecords .eventRequest y) =
        later 0 (wordOfInt32 (EventRequest.eventType x))
          (wordOfInt32 (EventRequest.eventType y)) :=
      getWord_append (by simp [toRecords]) (by simp [toRecords])
    have h2 : (getMessage? 2 (toRecords .eventRequest x ++ toRecords .eventRequest y)).map
        Any.ofRecords = Option.merge Any.merge (EventRequest.payload x) (EventRequest.payload y) :=
      map_getMessage?_append Any.ofRecords_toRecords Any.ofRecords_toRecords_append
        (by simp [toRecords]) (by simp [toRecords])
    simp only [ofRecords, merge, h1, h2, later_wordOfInt32]
  | eventReply =>
    have h1 : (getMessage? 1 (toRecords .eventReply x ++ toRecords .eventReply y)).map
        Any.ofRecords = Option.merge Any.merge (EventReply.payload x) (EventReply.payload y) :=
      map_getMessage?_append Any.ofRecords_toRecords Any.ofRecords_toRecords_append
        (by simp [toRecords]) (by simp [toRecords])
    simp only [ofRecords, merge, h1]
  | frame => exact Frame.ofRecords_toRecords_append x y

/-- The bytes of two messages, one behind the other, are decoded to their merge. -/
theorem decode_encode_append (s : Schema) (x y : s.Message)
    (h : (encode s x).length + (encode s y).length < 2 ^ 64) :
    decode s (encode s x ++ encode s y) = .ok (s.merge x y) := by
  have hfits : ∀ r ∈ s.toRecords x ++ s.toRecords y, r.Fits maxLevels s := by
    rw [List.forall_mem_append]
    exact ⟨s.fits_toRecords x 98, s.fits_toRecords y 98⟩
  have hbytes : encode s x ++ encode s y = encodeAll (s.toRecords x ++ s.toRecords y) := by
    rw [encodeAll_append]
    rfl
  have hshort : (encodeAll (s.toRecords x ++ s.toRecords y)).length < 2 ^ 64 := by
    rw [← hbytes, List.length_append]
    exact h
  rw [decode, hbytes, scan_encodeAll hfits hshort, ← s.ofRecords_toRecords_append x y]
  rfl

/-- **Concatenation merges**: two messages shorter than `2 ^ 63` bytes each, one behind the
other, are decoded to the one that they make together.  More generally, the decoder takes
field after field into the message that it has so far: behind a message it goes on from
that message, whatever follows, and fails as it would there. -/
theorem concatenation_merges (s : Schema) :
    (∀ x y : s.Message, (encode s x).length < 2 ^ 63 → (encode s y).length < 2 ^ 63 →
      decode s (encode s x ++ encode s y) = .ok (s.merge x y)) ∧
    (∀ a x, decode s a = .ok x → ∀ b, decode s (a ++ b) = resume s x b) ∧
    ∀ a, decode s a = resume s (s.ofRecords []) a :=
  ⟨fun x y hx hy => decode_encode_append s x y (by omega), fun _ _ => decode_append,
    decode_eq_resume s⟩

/-- A caw in two parts, of which the second has an empty parent id and a time without seconds,
and then a field that breaks off. -/
theorem concatenation_merges_parts :
    let first : CawReply := ⟨some ⟨"ann", "hi", [1], some [2], some ⟨3, 4⟩⟩⟩
    let second : CawReply := ⟨some ⟨"", "ho", [], some [], some ⟨0, 5⟩⟩⟩
    let both : CawReply := ⟨some ⟨"ann", "ho", [1], some [], some ⟨3, 5⟩⟩⟩
    let reply := Schema.payload .cawReply
    decode reply (encode reply first ++ encode reply second) = .ok both ∧
      decode reply (encode reply first ++ [10, 2, 10]) = .error
        ⟨[⟨"CawReply", "caw"⟩], .underflow⟩ := by
  intro first second both reply
  have hfirst : (encode reply first).length < 2 ^ 63 := by
    rw [length_encode]
    decide +kernel
  have hsecond : (encode reply second).length < 2 ^ 63 := by
    rw [length_encode]
    decide +kernel
  obtain ⟨hmerge, hresume, -⟩ := concatenation_merges reply
  have hdecode : decode reply (encode reply first) = .ok first :=
    decode_encode reply first (by omega)
  exact ⟨hmerge first second hfirst hsecond, hresume _ first hdecode [10, 2, 10]⟩

end FazClient
