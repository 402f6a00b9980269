import FazClient.Frame
import FazClient.Proofs.ReadBack
import FazClient.Proofs.Slots

/-!
# FazClient.Proofs.RoundTrip

Decoding undoes encoding, for every schema and every message.

* `ofRecords_toRecords` — the records of a message add up to that message;
* `fits_toRecords` — they fit the schema, with two levels inside them at most;
* `decode_encode` — so the message is read back from its bytes;
* `Frame.decode_encode` — and so is a frame, if its version is understood.
-/

namespace FazClient

open Wire

/-! ## Records add up to their message -/

theorem Timestamp.ofRecords_toRecords (m : Timestamp) : ofRecords m.toRecords = m := by
  have h1 : getWord 1 m.toRecords = m.seconds.toUInt64 :=
    getWord_of_slot (by simp [toRecords])
  have h2 : getWord 2 m.toRecords = m.useconds.toUInt64 :=
    getWord_of_slot (by simp [toRecords])
  simp [ofRecords, h1, h2]

theorem Caw.ofRecords_toRecords (m : Caw) : ofRecords m.toRecords = m := by
  have h1 : getText 1 m.toRecords = m.username :=
    getText_of_slot (by simp [toRecords])
  have h2 : getText 2 m.toRecords = m.text :=
    getText_of_slot (by simp [toRecords])
  have h3 : getBytes 3 m.toRecords = m.id :=
    getBytes_of_slot (by simp [toRecords])
  have h4 : getBytes? 4 m.toRecords = m.parentId :=
    getBytes?_of_slot (by simp [toRecords])
  have h5 : getMessage? 5 m.toRecords = m.timestamp.map Timestamp.toRecords :=
    getMessage?_of_slot (by simp [toRecords])
  have ht : Timestamp.ofRecords ∘ Timestamp.toRecords = fun t => t :=
    funext Timestamp.ofRecords_toRecords
  simp [ofRecords, h1, h2, h3, h4, h5, ht]

theorem ProfileReply.ofRecords_toRecords (m : ProfileReply) : ofRecords m.toRecords = m := by
  have h1 : texts 1 m.toRecords = m.following :=
    texts_of_slot (by simp [toRecords])
  have h2 : texts 2 m.toRecords = m.followers :=
    texts_of_slot (by simp [toRecords])
  simp [ofRecords, h1, h2]

theorem CawRequest.ofRecords_toRecords (m : CawRequest) : ofRecords m.toRecords = m := by
  have h1 : getText 1 m.toRecords = m.username :=
    getText_of_slot (by simp [toRecords])
  have h2 : getText 2 m.toRecords = m.text :=
    getText_of_slot (by simp [toRecords])
  have h3 : getBytes? 3 m.toRecords = m.parentId :=
    getBytes?_of_slot (by simp [toRecords])
  simp [ofRecords, h1, h2, h3]

theorem Any.ofRecords_toRecords (m : Any) : ofRecords m.toRecords = m := by
  have h1 : getText 1 m.toRecords = m.typeUrl :=
    getText_of_slot (by simp [toRecords])
  have h2 : getBytes 2 m.toRecords = m.value :=
    getBytes_of_slot (by simp [toRecords])
  simp [ofRecords, h1, h2]

theorem Frame.ofRecords_toRecords (m : Frame) : ofRecords m.toRecords = m := by
  have h1 : getWord 1 m.toRecords = m.method.toUInt64 :=
    getWord_of_slot (by simp [toRecords])
  have h2 : getWord 2 m.toRecords = m.callId :=
    getWord_of_slot (by simp [toRecords])
  have h3 : getBytes 3 m.toRecords = m.body :=
    getBytes_of_slot (by simp [toRecords])
  have h4 : getWord 4 m.toRecords = wordOfInt32 m.status :=
    getWord_of_slot (by simp [toRecords])
  have h5 : getText 5 m.toRecords = m.message :=
    getText_of_slot (by simp [toRecords])
  have h6 : getWord 6 m.toRecords = m.version.toUInt64 :=
    getWord_of_slot (by simp [toRecords])
  simp [ofRecords, h1, h2, h3, h4, h5, h6]

/-- The records of a payload message add up to it. -/
theorem Wire.PayloadSchema.ofRecords_toRecords (s : PayloadSchema) (m : s.Message) :
    s.ofRecords (s.toRecords m) = m := by
  have hcaw : Caw.ofRecords ∘ Caw.toRecords = id := funext Caw.ofRecords_toRecords
  cases s with
  | timestamp => exact Timestamp.ofRecords_toRecords m
  | caw => exact Caw.ofRecords_toRecords m
  | registerUserRequest =>
    simp [toRecords, ofRecords, getText_putText]
  | registerUserReply => rfl
  | followRequest =>
    have h1 : getText 1 (toRecords .followRequest m) = FollowRequest.username m :=
      getText_of_slot (by simp [toRecords])
    have h2 : getText 2 (toRecords .followRequest m) = FollowRequest.toFollow m :=
      getText_of_slot (by simp [toRecords])
    simp [ofRecords, h1, h2]
  | followReply => rfl
  | profileRequest =>
    simp [toRecords, ofRecords, getText_putText]
  | profileReply => exact ProfileReply.ofRecords_toRecords m
  | cawRequest => exact CawRequest.ofRecords_toRecords m
  | cawReply =>
    simp [toRecords, ofRecords, getMessage?_putMessage?, hcaw]
  | readRequest =>
    simp [toRecords, ofRecords, getBytes_putBytes]
  | readReply =>
    simp [toRecords, ofRecords, messages_putMessages, hcaw]

/-- The records of a message add up to it. -/
theorem Wire.Schema.ofRecords_toRecords (s : Schema) (m : s.Message) :
    s.ofRecords (s.toRecords m) = m := by
  have hany : Any.ofRecords ∘ Any.toRecords = id := funext Any.ofRecords_toRecords
  cases s with
  | payload s => exact s.ofRecords_toRecords m
  | any => exact Any.ofRecords_toRecords m
  | hookRequest =>
    have h1 : getWord 1 (toRecords .hookRequest m) = wordOfInt32 (HookRequest.eventType m) :=
      getWord_of_slot (by simp [toRecords])
    have h2 : getText 2 (toRecords .hookRequest m) = HookRequest.eventFunction m :=
      getText_of_slot (by simp [toRecords])
    simp [ofRecords, h1, h2]
  | hookReply => rfl
  | unhookRequest =>
    simp [toRecords, ofRecords, getWord_putWord]
  | unhookReply => rfl
  | eventRequest =>
    have h1 : getWord 1 (toRecords .eventRequest m) = wordOfInt32 (EventRequest.eventType m) :=
      getWord_of_slot (by simp [toRecords])
    have h2 : getMessage? 2 (toRecords .eventRequest m) =
        (EventRequest.payload m).map Any.toRecords :=
      getMessage?_of_slot (by simp [toRecords])
    simp [ofRecords, h1, h2, hany]
  | eventReply =>
    simp [toRecords, ofRecords, getMessage?_putMessage?, hany]
  | frame => exact Frame.ofRecords_toRecords m

/-! ## Records fit their schema -/

theorem Timestamp.fits_toRecords (m : Timestamp) (k : Nat) :
    ∀ r ∈ m.toRecords, r.Fits k (.payload .timestamp) := by
  simp only [toRecords, List.forall_mem_append, forall_mem_putWord]
  exact ⟨.inr (.word rfl rfl), .inr (.word rfl rfl)⟩

theorem Caw.fits_toRecords (m : Caw) (k : Nat) :
    ∀ r ∈ m.toRecords, r.Fits (k + 1) (.payload .caw) := by
  simp only [toRecords, List.forall_mem_append, forall_mem_putText, forall_mem_putBytes,
    forall_mem_putBytes?, forall_mem_putMessage?]
  refine ⟨⟨⟨⟨.inr (.text rfl rfl), .inr (.text rfl rfl)⟩, .inr (.bytes rfl rfl)⟩,
    fun _ _ => .bytes rfl rfl⟩, fun rs hrs => ?_⟩
  obtain ⟨t, -, rfl⟩ := Option.map_eq_some_iff.1 hrs
  exact .message rfl rfl (t.fits_toRecords k)

theorem Any.fits_toRecords (m : Any) (k : Nat) : ∀ r ∈ m.toRecords, r.Fits k .any := by
  simp only [toRecords, List.forall_mem_append, forall_mem_putText, forall_mem_putBytes]
  exact ⟨.inr (.text rfl rfl), .inr (.bytes rfl rfl)⟩

theorem Frame.fits_toRecords (m : Frame) (k : Nat) : ∀ r ∈ m.toRecords, r.Fits k .frame := by
  simp only [toRecords, List.forall_mem_append, forall_mem_putWord, forall_mem_putText,
    forall_mem_putBytes]
  exact ⟨⟨⟨⟨⟨.inr (.word rfl rfl), .inr (.word rfl rfl)⟩, .inr (.bytes rfl rfl)⟩,
    .inr (.word rfl rfl)⟩, .inr (.text rfl rfl)⟩, .inr (.word rfl rfl)⟩

/-- A payload message takes two levels at most: a caw in a reply, and its time. -/
theorem Wire.PayloadSchema.fits_toRecords (s : PayloadSchema) (m : s.Message) (k : Nat) :
    ∀ r ∈ s.toRecords m, r.Fits (k + 2) (.payload s) := by
  cases s with
  | timestamp => exact Timestamp.fits_toRecords m (k + 2)
  | caw => exact Caw.fits_toRecords m (k + 1)
  | registerUserRequest => exact forall_mem_putText.2 (.inr (.text rfl rfl))
  | registerUserReply => simp [toRecords]
  | followRequest =>
    simp only [toRecords, List.forall_mem_append, forall_mem_putText]
    exact ⟨.inr (.text rfl rfl), .inr (.text rfl rfl)⟩
  | followReply => simp [toRecords]
  | profileRequest => exact forall_mem_putText.2 (.inr (.text rfl rfl))
  | profileReply =>
    simp only [toRecords, ProfileReply.toRecords, List.forall_mem_append, forall_mem_putTexts]
    exact ⟨fun _ _ => .text rfl rfl, fun _ _ => .text rfl rfl⟩
  | cawRequest =>
    simp only [toRecords, CawRequest.toRecords, List.forall_mem_append, forall_mem_putText,
      forall_mem_putBytes?]
    exact ⟨⟨.inr (.text rfl rfl), .inr (.text rfl rfl)⟩, fun _ _ => .bytes rfl rfl⟩
  | cawReply =>
    refine forall_mem_putMessage?.2 fun rs hrs => ?_
    obtain ⟨c, -, rfl⟩ := Option.map_eq_some_iff.1 hrs
    exact .message rfl rfl (c.fits_toRecords k)
  | readRequest => exact forall_mem_putBytes.2 (.inr (.bytes rfl rfl))
  | readReply =>
    refine forall_mem_putMessages.2 fun rs hrs => ?_
    obtain ⟨c, -, rfl⟩ := List.mem_map.1 hrs
    exact .message rfl rfl (c.fits_toRecords k)

/-- No message takes more than two levels. -/
theorem Wire.Schema.fits_toRecords (s : Schema) (m : s.Message) (k : Nat) :
    ∀ r ∈ s.toRecords m, r.Fits (k + 2) s := by
  cases s with
  | payload s => exact s.fits_toRecords m k
  | any => exact Any.fits_toRecords m (k + 2)
  | hookRequest =>
    simp only [toRecords, List.forall_mem_append, forall_mem_putWord, forall_mem_putText]
    exact ⟨.inr (.word rfl rfl), .inr (.text rfl rfl)⟩
  | hookReply => simp [toRecords]
  | unhookRequest => exact forall_mem_putWord.2 (.inr (.word rfl rfl))
  | unhookReply => simp [toRecords]
  | eventRequest =>
    simp only [toRecords, List.forall_mem_append, forall_mem_putWord, forall_mem_putMessage?]
    refine ⟨.inr (.word rfl rfl), fun rs hrs => ?_⟩
    obtain ⟨a, -, rfl⟩ := Option.map_eq_some_iff.1 hrs
    exact .message rfl rfl (a.fits_toRecords (k + 1))
  | eventReply =>
    refine forall_mem_putMessage?.2 fun rs hrs => ?_
    obtain ⟨a, -, rfl⟩ := Option.map_eq_some_iff.1 hrs
    exact .message rfl rfl (a.fits_toRecords (k + 1))
  | frame => exact Frame.fits_toRecords m (k + 2)

/-! ## Messages are read back -/

/-- A message is read back from its bytes, as long as their lengths are numbers of
64 bits. -/
theorem decode_encode (s : Schema) (m : s.Message) (h : (encode s m).length < 2 ^ 64) :
    decode s (encode s m) = .ok m := by
  have hscan : scan s (encodeAll (s.toRecords m)) = .ok (s.toRecords m) :=
    scan_encodeAll (s.fits_toRecords m 98) h
  rw [decode, encode, hscan]
  exact congrArg Except.ok (s.ofRecords_toRecords m)

/-- A frame is read back from its bytes, unless its version is not understood. -/
theorem Frame.decode_encode (f : Frame) (h : f.encode.length < 2 ^ 64) :
    Frame.decode f.encode =
      if currentVersion < f.version then .error (.unsupportedVersion f.version currentVersion)
      else .ok f := by
  have hdec : FazClient.decode .frame f.encode = .ok f := FazClient.decode_encode .frame f h
  rw [Frame.decode, hdec]

/-- A frame of the version that is written is read back. -/
theorem Frame.decode_encode_of_current {f : Frame} (hversion : f.version = currentVersion)
    (h : f.encode.length < 2 ^ 64) : Frame.decode f.encode = .ok f := by
  rw [Frame.decode_encode f h, hversion]
  rfl

/-- The body of a frame is read back as the message that it was written from. -/
theorem Frame.bodyAs_encode {f : Frame} (s : Schema) (m : s.Message)
    (hf : f.body = FazClient.encode s m) (h : f.body.length < 2 ^ 64) : f.bodyAs s = .ok m := by
  rw [hf] at h
  rw [Frame.bodyAs, hf, FazClient.decode_encode s m h]
  rfl

/-! ## The whole format -/

/-- **Round trip**: decoding undoes encoding for every schema and every message
shorter than `2 ^ 63` bytes, and for frames of the versions that are understood; a
frame of a later version is refused with its version. -/
theorem decoding_undoes_encoding :
    (∀ (s : Schema) (m : s.Message), (encode s m).length < 2 ^ 63 →
      decode s (encode s m) = .ok m) ∧
    (∀ f : Frame, f.encode.length < 2 ^ 63 →
      Frame.decode f.encode =
        if f.version ≤ 1 then .ok f else .error (.unsupportedVersion f.version 1)) := by
  constructor
  · intro s m h
    exact decode_encode s m (by omega)
  · intro f h
    rw [Frame.decode_encode f (by omega), Frame.currentVersion]
    by_cases hv : f.version ≤ 1
    · rw [if_pos hv, if_neg (by simpa using hv)]
    · rw [if_neg hv, if_pos (by simpa using hv)]

/-- A thread with a caw that has nothing but an empty parent id and an all-default
time, and one from before the epoch, next to a frame of a later version with the
least status. -/
theorem decoding_undoes_encoding_extremes :
    let thread : ReadReply := ⟨[⟨"", "", [], some [], some ⟨0, 0⟩⟩,
      ⟨"é", "", [255], none, some ⟨-9223372036854775808, -1⟩⟩, {}]⟩
    let frame : Frame := ⟨3, 18446744073709551615, [0], -2147483648, "no", 2⟩
    decode (.payload .readReply) (encode (.payload .readReply) thread) = .ok thread ∧
      Frame.decode frame.encode = .error (.unsupportedVersion 2 1) := by
  intro thread frame
  have hthread : (encode (.payload .readReply) thread).length < 2 ^ 63 := by
    rw [length_encode]
    decide +kernel
  have hframe : frame.encode.length < 2 ^ 63 := by
    rw [Frame.encode, length_encode]
    decide +kernel
  exact ⟨decoding_undoes_encoding.1 (.payload .readReply) thread hthread,
    decoding_undoes_encoding.2 frame hframe⟩

end FazClient
