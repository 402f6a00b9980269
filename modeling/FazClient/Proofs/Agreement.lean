import Mathlib.Data.List.Forall2
import FazClient.Frame
import FazClient.Payload
import FazClient.Proofs.Locality
import FazClient.Proofs.Slots

/-!
# FazClient.Proofs.Agreement

A message depends only on what each of its known fields says, in the order of that field.

* **bytes** — `Piece`, a field taken apart, and `Grammar.Agree`: two strings of fields that
  say the same, number by number, however the fields of different numbers are mixed, what
  is skipped between them, and how the numbers and lengths in them are spelled;
* **records** — `Alike`: what such strings are read as (`exists_alike`), and it adds up to
  one message (`Schema.ofRecords_congr`);
* `known_fields_decide` — so they are decoded alike; in particular fields of different numbers
  may change places, and fields that the schema does not have may come and go.
-/

namespace FazClient.Wire

/-! ## Fields taken apart -/

namespace Grammar

/-- A field taken apart: what its key says, and the bytes of the key and of the value. -/
structure Piece where
  number : Nat
  layout : WireType
  key : List UInt8
  value : List UInt8

/-- The bytes of a field. -/
def Piece.bytes (p : Piece) : List UInt8 := p.key ++ p.value

/-- The key is one, and a value of these follows it. -/
def Piece.IsField (V : Values) (p : Piece) : Prop :=
  Key p.key p.number p.layout ∧ V p.number p.layout p.value

/-- The bytes of fields, one after the other. -/
def joined (ps : List Piece) : List UInt8 := ps.flatMap Piece.bytes

/-- The fields with this number, in order. -/
def ofNumber (n : Nat) (ps : List Piece) : List Piece := ps.filter (·.number = n)

/-- The bytes are these fields. -/
structure Splits (V : Values) (bytes : List UInt8) (ps : List Piece) : Prop where
  isField : ∀ p ∈ ps, p.IsField V
  joined_eq : joined ps = bytes

theorem joined_cons (p : Piece) (ps : List Piece) : joined (p :: ps) = p.bytes ++ joined ps :=
  rfl

theorem mem_ofNumber {n : Nat} {ps : List Piece} {p : Piece} :
    p ∈ ofNumber n ps ↔ p ∈ ps ∧ p.number = n := by
  simp [ofNumber]

theorem ofNumber_append (n : Nat) (ps qs : List Piece) :
    ofNumber n (ps ++ qs) = ofNumber n ps ++ ofNumber n qs :=
  List.filter_append ..

theorem ofNumber_cons_of_ne {n : Nat} {p : Piece} (h : p.number ≠ n) (ps : List Piece) :
    ofNumber n (p :: ps) = ofNumber n ps :=
  List.filter_cons_of_neg (by simpa using h)

/-- Fields can be taken apart. -/
theorem Fields.exists_splits {V : Values} {bytes : List UInt8} (h : Fields V bytes) :
    ∃ ps, Splits V bytes ps := by
  induction h with
  | nil => exact ⟨[], nofun, rfl⟩
  | cons hfield _ ih =>
    obtain @⟨key, value, number, w, hkey, hv⟩ := hfield
    obtain ⟨ps, hps, rfl⟩ := ih
    refine ⟨⟨number, w, key, value⟩ :: ps, ?_, rfl⟩
    rw [List.forall_mem_cons]
    exact ⟨⟨hkey, hv⟩, hps⟩

/-! ## Strings that agree -/

/-- The values say the same: however their numbers and lengths are spelled, it is the same
number, text or byte string, or they are messages that agree. -/
def SaysSame (Inner : Schema → List UInt8 → List UInt8 → Prop) :
    Shape → List UInt8 → List UInt8 → Prop
  | .word, v, w => ∃ n, Number v n ∧ Number w n
  | .text, v, w => ∃ text, Delimited v (Utf8.encode text) ∧ Delimited w (Utf8.encode text)
  | .bytes, v, w => ∃ content, Delimited v content ∧ Delimited w content
  | .message t, v, w => ∃ c d, Delimited v c ∧ Delimited w d ∧ Inner t c d

/-- The strings are fields of these values, and for each number of the schema the fields
with that number say the same, one by one. -/
def Agreeing (Inner : Schema → List UInt8 → List UInt8 → Prop) (V : Values) (s : Schema)
    (a b : List UInt8) : Prop :=
  ∃ ps qs, Splits V a ps ∧ Splits V b qs ∧ ∀ n f, s.field? n = some f →
    List.Forall₂ (fun p q => SaysSame Inner f.shape p.value q.value) (ofNumber n ps)
      (ofNumber n qs)

/-- The strings are messages whose fields say the same, and those of the messages inside. -/
def Agree : (levels : Nat) → Schema → List UInt8 → List UInt8 → Prop
  | 0, s => Agreeing (fun _ _ _ => False) (Value 0 s) s
  | levels + 1, s => Agreeing (fun t => Agree levels t) (Value (levels + 1) s) s

/-- A value says the same as itself, if the messages inside agree with themselves. -/
theorem saysSame_self {M : Schema → List UInt8 → Prop}
    {Inner : Schema → List UInt8 → List UInt8 → Prop}
    (h : ∀ t content, M t content → Inner t content content)
    {shape : Shape} {w : WireType} {value : List UInt8} (hv : Shaped M shape w value) :
    SaysSame Inner shape value value := by
  cases shape with
  | word =>
    obtain ⟨-, n, hn⟩ := hv
    exact ⟨n, hn, hn⟩
  | text =>
    obtain ⟨-, text, htext⟩ := hv
    exact ⟨text, htext, htext⟩
  | bytes =>
    obtain ⟨-, content, hcontent⟩ := hv
    exact ⟨content, hcontent, hcontent⟩
  | message t =>
    obtain ⟨-, content, hcontent, hinner⟩ := hv
    exact ⟨content, content, hcontent, hcontent, h t content hinner⟩

/-- Strings with the same fields of each number agree, if messages inside agree with
themselves. -/
theorem agreeing_of_ofNumber_eq {M : Schema → List UInt8 → Prop}
    {Inner : Schema → List UInt8 → List UInt8 → Prop}
    (h : ∀ t content, M t content → Inner t content content) {levels : Nat} {s : Schema}
    {a b : List UInt8} {ps qs : List Piece} (hps : Splits (Admitted M levels s) a ps)
    (hqs : Splits (Admitted M levels s) b qs)
    (heq : ∀ n f, s.field? n = some f → ofNumber n ps = ofNumber n qs) :
    Agreeing Inner (Admitted M levels s) s a b := by
  refine ⟨ps, qs, hps, hqs, fun n f hf => ?_⟩
  rw [← heq n f hf, List.forall₂_same]
  intro p hp
  obtain ⟨hmem, rfl⟩ := mem_ofNumber.1 hp
  obtain ⟨-, hv⟩ := hps.isField p hmem
  simp only [Admitted, hf] at hv
  exact saysSame_self h hv

mutual

/-- Strings with the same fields of each number agree. -/
theorem agree_of_ofNumber_eq {levels : Nat} {s : Schema} {a b : List UInt8} {ps qs : List Piece}
    (hps : Splits (Value levels s) a ps) (hqs : Splits (Value levels s) b qs)
    (heq : ∀ n f, s.field? n = some f → ofNumber n ps = ofNumber n qs) : Agree levels s a b := by
  cases levels with
  | zero => exact agreeing_of_ofNumber_eq (fun _ _ => id) hps hqs heq
  | succ levels => exact agreeing_of_ofNumber_eq (fun _ _ => agree_self) hps hqs heq

/-- A message agrees with itself. -/
theorem agree_self {levels : Nat} {s : Schema} {bytes : List UInt8}
    (h : Message levels s bytes) : Agree levels s bytes bytes := by
  obtain ⟨ps, hps⟩ := h.exists_splits
  exact agree_of_ofNumber_eq hps hps fun _ _ _ => rfl

end

end Grammar

open Grammar

/-! ## Records that are alike -/

/-- Records of one field are alike if they are equal, or messages whose records are alike,
number by number. -/
inductive Record.Alike : Record → Record → Prop where
  | refl (r : Record) : Alike r r
  | message {n : Nat} {rs ts : List Record} :
      (∀ k, List.Forall₂ Alike (slot k rs) (slot k ts)) → Alike (.message n rs) (.message n ts)

/-- Records are alike, number by number. -/
def Alike (rs ts : List Record) : Prop := ∀ n, List.Forall₂ Record.Alike (slot n rs) (slot n ts)

namespace Alike

theorem append {rs ts us vs : List Record} (h : Alike rs ts) (h' : Alike us vs) :
    Alike (rs ++ us) (ts ++ vs) := by
  intro n
  rw [slot_append, slot_append]
  exact List.rel_append (h n) (h' n)

theorem flatten {parts others : List (List Record)} (h : List.Forall₂ Alike parts others) :
    Alike parts.flatten others.flatten := by
  induction h with
  | nil => exact fun _ => .nil
  | cons hpart _ ih => exact hpart.append ih

/-- Values that do not differ between records that are alike are the same, in order. -/
theorem filterMap_eq {f : Record → Option α} {rs ts : List Record}
    (hf : ∀ r t, Record.Alike r t → f r = f t) (h : List.Forall₂ Record.Alike rs ts) :
    rs.filterMap f = ts.filterMap f := by
  induction h with
  | nil => rfl
  | cons hr _ ih => rw [List.filterMap_cons, List.filterMap_cons, hf _ _ hr, ih]

variable {rs ts : List Record}

theorem words_eq (h : Alike rs ts) (n : Nat) : words n rs = words n ts := by
  rw [← words_slot n rs, ← words_slot n ts]
  exact filterMap_eq (fun r t hr => by cases hr <;> rfl) (h n)

theorem texts_eq (h : Alike rs ts) (n : Nat) : texts n rs = texts n ts := by
  rw [← texts_slot n rs, ← texts_slot n ts]
  exact filterMap_eq (fun r t hr => by cases hr <;> rfl) (h n)

theorem byteStrings_eq (h : Alike rs ts) (n : Nat) : byteStrings n rs = byteStrings n ts := by
  rw [← byteStrings_slot n rs, ← byteStrings_slot n ts]
  exact filterMap_eq (fun r t hr => by cases hr <;> rfl) (h n)

theorem refl (rs : List Record) : Alike rs rs :=
  fun _ => List.forall₂_same.2 fun r _ => .refl r

/-- Nested messages of one field are alike, one by one. -/
theorem messages_alike (h : Alike rs ts) (n : Nat) :
    List.Forall₂ Alike (messages n rs) (messages n ts) := by
  rw [← messages_slot n rs, ← messages_slot n ts]
  have hslot := h n
  generalize slot n rs = us at hslot ⊢
  generalize slot n ts = vs at hslot ⊢
  induction hslot with
  | nil => exact .nil
  | @cons r t _ _ hr _ ih =>
    cases hr with
    | refl r =>
      cases r with
      | message m us =>
        by_cases hm : m = n
        · simpa [messages, hm] using And.intro (refl us) ih
        · simpa [messages, hm] using ih
      | _ => simpa [messages] using ih
    | @message m us vs hfields =>
      have halike : Alike us vs := hfields
      by_cases hm : m = n
      · simpa [messages, hm] using And.intro halike ih
      · simpa [messages, hm] using ih

theorem getWord_eq (h : Alike rs ts) (n : Nat) : getWord n rs = getWord n ts := by
  rw [getWord, getWord, h.words_eq]

theorem getText_eq (h : Alike rs ts) (n : Nat) : getText n rs = getText n ts := by
  rw [getText, getText, h.texts_eq]

theorem getBytes_eq (h : Alike rs ts) (n : Nat) : getBytes n rs = getBytes n ts := by
  rw [getBytes, getBytes, h.byteStrings_eq]

theorem getBytes?_eq (h : Alike rs ts) (n : Nat) : getBytes? n rs = getBytes? n ts := by
  rw [getBytes?, getBytes?, h.byteStrings_eq]

/-- An optional message is the same, if it is the same for records that are alike. -/
theorem map_getMessage?_eq {f : List Record → α} (hf : ∀ us vs, Alike us vs → f us = f vs)
    (h : Alike rs ts) (n : Nat) : (getMessage? n rs).map f = (getMessage? n ts).map f := by
  have hparts := h.messages_alike n
  have hflat := flatten hparts
  unfold getMessage?
  generalize messages n rs = us at hparts hflat ⊢
  generalize messages n ts = vs at hparts hflat ⊢
  cases hparts with
  | nil => rfl
  | cons _ _ => exact congrArg some (hf _ _ hflat)

/-- Repeated messages are the same, if they are the same for records that are alike. -/
theorem map_messages_eq {f : List Record → α} (hf : ∀ us vs, Alike us vs → f us = f vs)
    (h : Alike rs ts) (n : Nat) : (messages n rs).map f = (messages n ts).map f := by
  have hparts := h.messages_alike n
  generalize messages n rs = us at hparts ⊢
  generalize messages n ts = vs at hparts ⊢
  induction hparts with
  | nil => rfl
  | cons hpart _ ih => rw [List.map_cons, List.map_cons, hf _ _ hpart, ih]

end Alike

/-! ## What strings that agree are read as -/

/-- How the values of a shape are laid out. -/
def Shape.layout : Shape → WireType
  | .word => .varint
  | .text => .delimited
  | .bytes => .delimited
  | .message _ => .delimited

theorem Grammar.Shaped.layout_eq {M : Schema → List UInt8 → Prop} {shape : Shape} {w : WireType}
    {value : List UInt8} (h : Shaped M shape w value) : w = shape.layout := by
  cases shape <;> exact h.1

/-- Messages inside that agree are read as records that are alike. -/
def ReadsAlike (nested : Option MessageReader) (Inner : Schema → List UInt8 → List UInt8 → Prop) :
    Prop :=
  ∀ t c d, Inner t c d → ∃ read rs ts, nested = some read ∧ read.Says t c rs ∧ read.Says t d ts ∧
    Alike rs ts

/-- Values that say the same are read as records that are alike. -/
theorem exists_alike_of_saysSame {nested : Option MessageReader}
    {Inner : Schema → List UInt8 → List UInt8 → Prop} (h : ReadsAlike nested Inner) (number : Nat)
    {shape : Shape} {v w : List UInt8} (hsame : SaysSame Inner shape v w) :
    ∃ r t, SaysValue nested number shape shape.layout v r ∧
      SaysValue nested number shape shape.layout w t ∧ Record.Alike r t := by
  cases shape with
  | word =>
    obtain ⟨n, hv, hw⟩ := hsame
    exact ⟨_, _, saysValue_word hv, saysValue_word hw, .refl _⟩
  | text =>
    obtain ⟨text, hv, hw⟩ := hsame
    exact ⟨_, _, saysValue_text hv, saysValue_text hw, .refl _⟩
  | bytes =>
    obtain ⟨content, hv, hw⟩ := hsame
    exact ⟨_, _, saysValue_bytes hv, saysValue_bytes hw, .refl _⟩
  | message t =>
    obtain ⟨c, d, hv, hw, hinner⟩ := hsame
    obtain ⟨read, rs, ts, rfl, hc, hd, halike⟩ := h t c d hinner
    exact ⟨_, _, saysValue_message hv hc, saysValue_message hw hd, .message halike⟩

/-- What a field says. -/
def said (readOne : Input → Except DecodeError (Option Record × Input)) (p : Piece) :
    Option Record :=
  match readOne (.ofBytes p.bytes) with
  | .ok (r, _) => r
  | .error _ => none

theorem SaysField.said_eq {readOne : Input → Except DecodeError (Option Record × Input)}
    {p : Piece} {r : Option Record} (h : SaysField readOne p.bytes r) : said readOne p = r := by
  have hread := h []
  rw [List.append_nil] at hread
  rw [said, hread]

/-- Fields are read as what they say, one after the other. -/
theorem reads_joined {readOne : Input → Except DecodeError (Option Record × Input)}
    {ps : List Piece} (h : ∀ p ∈ ps, SaysField readOne p.bytes (said readOne p)) :
    Reads readOne (joined ps) (ps.filterMap (said readOne)) := by
  induction ps with
  | nil => exact .nil
  | cons p ps ih =>
    rw [List.forall_mem_cons] at h
    have hrest := ih h.2
    rw [joined_cons]
    cases hsaid : said readOne p with
    | none =>
      rw [List.filterMap_cons_none hsaid]
      exact .cons (hsaid ▸ h.1) hrest
    | some r =>
      rw [List.filterMap_cons_some hsaid]
      exact .cons (hsaid ▸ h.1) hrest

/-- The records of one number come from the fields of that number. -/
theorem slot_filterMap {f : Piece → Option Record} {ps : List Piece}
    (h : ∀ p ∈ ps, ∀ r, f p = some r → r.number = p.number) (n : Nat) :
    slot n (ps.filterMap f) = (ofNumber n ps).filterMap f := by
  rw [slot, ofNumber, List.filter_filterMap, List.filterMap_filter]
  refine List.filterMap_congr fun p hp => ?_
  cases hsaid : f p with
  | none => simp
  | some r => simp [Option.filter, h p hp r hsaid]

theorem forall₂_filterMap {R : α → β → Prop} {S : γ → δ → Prop} {f : α → Option γ}
    {g : β → Option δ} {l : List α} {l' : List β} (h : List.Forall₂ R l l')
    (hR : ∀ a ∈ l, ∀ b ∈ l', R a b → ∃ r t, f a = some r ∧ g b = some t ∧ S r t) :
    List.Forall₂ S (l.filterMap f) (l'.filterMap g) := by
  induction h with
  | nil => exact .nil
  | cons hab _ ih =>
    obtain ⟨r, t, hr, ht, hrt⟩ := hR _ List.mem_cons_self _ List.mem_cons_self hab
    rw [List.filterMap_cons_some hr, List.filterMap_cons_some ht]
    refine .cons hrt (ih fun a ha b hb => ?_)
    exact hR a (List.mem_cons_of_mem _ ha) b (List.mem_cons_of_mem _ hb)

section

variable {nested : Option MessageReader} {M : Schema → List UInt8 → Prop}
  {Inner : Schema → List UInt8 → List UInt8 → Prop} {levels : Nat} {s : Schema}

/-- What a field of the grammar says bears its number, and a field that the schema does not
have says nothing. -/
theorem said_of_isField (hnested : SaysInner nested M) {p : Piece}
    (hp : p.IsField (Admitted M levels s)) :
    SaysField (readField nested levels s) p.bytes (said (readField nested levels s) p) ∧
      (∀ r, said (readField nested levels s) p = some r → r.number = p.number) ∧
      (s.field? p.number = none → said (readField nested levels s) p = none) := by
  obtain ⟨hkey, hv⟩ := hp
  cases hf : s.field? p.number with
  | some f =>
    simp only [Admitted, hf] at hv
    obtain ⟨r, hnumber, hr⟩ := exists_saysValue hnested p.number hv
    have hsaid : SaysField (readField nested levels s) p.bytes (some r) :=
      saysField_known hkey hf hr
    rw [hsaid.said_eq]
    exact ⟨hsaid, by simp [hnumber], by simp⟩
  | none =>
    simp only [Admitted, hf] at hv
    have hsaid : SaysField (readField nested levels s) p.bytes none := saysField_unknown hkey hf hv
    rw [hsaid.said_eq]
    exact ⟨hsaid, by simp, fun _ => rfl⟩

/-- A field of the schema says what its value says. -/
theorem said_of_saysValue {p : Piece} {f : Field} {r : Record}
    (hp : p.IsField (Admitted M levels s)) (hf : s.field? p.number = some f)
    (hr : SaysValue nested p.number f.shape f.shape.layout p.value r) :
    said (readField nested levels s) p = some r := by
  obtain ⟨hkey, hv⟩ := hp
  simp only [Admitted, hf] at hv
  rw [← hv.layout_eq] at hr
  exact SaysField.said_eq (saysField_known hkey hf hr)

/-- Strings that agree are read as records that are alike, if the messages inside are. -/
theorem exists_alike_of_agreeing (hnested : SaysInner nested M) (hinner : ReadsAlike nested Inner)
    {a b : List UInt8} (h : Agreeing Inner (Admitted M levels s) s a b) :
    ∃ rs ts, Reads (readField nested levels s) a rs ∧ Reads (readField nested levels s) b ts ∧
      Alike rs ts := by
  obtain ⟨ps, qs, ⟨hps, rfl⟩, ⟨hqs, rfl⟩, hsame⟩ := h
  have hreads : ∀ {us : List Piece}, (∀ u ∈ us, u.IsField (Admitted M levels s)) →
      Reads (readField nested levels s) (joined us)
        (us.filterMap (said (readField nested levels s))) :=
    fun hus => reads_joined fun u hu => (said_of_isField hnested (hus u hu)).1
  have hslot : ∀ {us : List Piece}, (∀ u ∈ us, u.IsField (Admitted M levels s)) → ∀ n,
      slot n (us.filterMap (said (readField nested levels s))) =
        (ofNumber n us).filterMap (said (readField nested levels s)) :=
    fun hus n => slot_filterMap (fun u hu => (said_of_isField hnested (hus u hu)).2.1) n
  refine ⟨_, _, hreads hps, hreads hqs, fun n => ?_⟩
  rw [hslot hps, hslot hqs]
  cases hf : s.field? n with
  | none =>
    -- Fields that are skipped leave no records.
    have hskipped : ∀ {us : List Piece}, (∀ u ∈ us, u.IsField (Admitted M levels s)) →
        (ofNumber n us).filterMap (said (readField nested levels s)) = [] := by
      intro us hus
      rw [List.filterMap_eq_nil_iff]
      intro u hu
      obtain ⟨hmem, rfl⟩ := mem_ofNumber.1 hu
      exact (said_of_isField hnested (hus u hmem)).2.2 hf
    rw [hskipped hps, hskipped hqs]
    exact .nil
  | some f =>
    refine forall₂_filterMap (hsame n f hf) fun p hp q hq hpq => ?_
    obtain ⟨hp, hpn⟩ := mem_ofNumber.1 hp
    obtain ⟨hq, hqn⟩ := mem_ofNumber.1 hq
    obtain ⟨r, t, hr, ht, halike⟩ := exists_alike_of_saysSame hinner n hpq
    have hfp : s.field? p.number = some f := by rw [hpn, hf]
    have hfq : s.field? q.number = some f := by rw [hqn, hf]
    exact ⟨r, t, said_of_saysValue (hps p hp) hfp (by rwa [hpn]),
      said_of_saysValue (hqs q hq) hfq (by rwa [hqn]), halike⟩

end

/-- Messages that agree are read as records that are alike. -/
theorem exists_alike {levels : Nat} {s : Schema} {a b : List UInt8} (h : Agree levels s a b) :
    ∃ rs ts, Reads (fieldReader levels s) a rs ∧ Reads (fieldReader levels s) b ts ∧
      Alike rs ts := by
  induction levels generalizing s a b with
  | zero =>
    have hnested : SaysInner none fun _ _ => False := fun _ _ => id
    have hinner : ReadsAlike none fun _ _ _ => False := nofun
    exact exists_alike_of_agreeing hnested hinner h
  | succ levels ih =>
    have hnested : SaysInner (some (readMessage levels)) (Message levels) :=
      saysInner_readMessage (exists_saysField_fieldReader levels)
    have hinner : ReadsAlike (some (readMessage levels)) fun t => Agree levels t := by
      intro t c d hcd
      obtain ⟨rs, ts, hrs, hts, halike⟩ := ih hcd
      exact ⟨_, rs, ts, rfl, says_of_reads hrs, says_of_reads hts, halike⟩
    exact exists_alike_of_agreeing hnested hinner h

end FazClient.Wire

namespace FazClient

open Wire
open Wire.Grammar hiding Field Message

/-! ## Messages -/

variable {rs ts : List Record}

theorem Timestamp.ofRecords_congr (h : Alike rs ts) : ofRecords rs = ofRecords ts := by
  simp only [ofRecords, h.getWord_eq]

theorem Caw.ofRecords_congr (h : Alike rs ts) : ofRecords rs = ofRecords ts := by
  simp only [ofRecords, h.getText_eq, h.getBytes_eq, h.getBytes?_eq,
    h.map_getMessage?_eq fun _ _ => Timestamp.ofRecords_congr]

theorem Any.ofRecords_congr (h : Alike rs ts) : ofRecords rs = ofRecords ts := by
  simp only [ofRecords, h.getText_eq, h.getBytes_eq]

theorem Wire.PayloadSchema.ofRecords_congr (s : PayloadSchema) (h : Alike rs ts) :
    s.ofRecords rs = s.ofRecords ts := by
  cases s with
  | timestamp => exact Timestamp.ofRecords_congr h
  | caw => exact Caw.ofRecords_congr h
  | registerUserRequest | followRequest | profileRequest =>
    simp only [ofRecords, h.getText_eq]
  | registerUserReply | followReply => rfl
  | profileReply => simp only [ofRecords, ProfileReply.ofRecords, h.texts_eq]
  | cawRequest => simp only [ofRecords, CawRequest.ofRecords, h.getText_eq, h.getBytes?_eq]
  | cawReply => simp only [ofRecords, h.map_getMessage?_eq fun _ _ => Caw.ofRecords_congr]
  | readRequest => simp only [ofRecords, h.getBytes_eq]
  | readReply => simp only [ofRecords, h.map_messages_eq fun _ _ => Caw.ofRecords_congr]

/-- Records that are alike add up to the same message. -/
theorem Wire.Schema.ofRecords_congr (s : Schema) (h : Alike rs ts) :
    s.ofRecords rs = s.ofRecords ts := by
  cases s with
  | payload s => exact s.ofRecords_congr h
  | any => exact Any.ofRecords_congr h
  | hookRequest => simp only [ofRecords, h.getWord_eq, h.getText_eq]
  | unhookRequest => simp only [ofRecords, h.getWord_eq]
  | hookReply | unhookReply => rfl
  | eventRequest =>
    simp only [ofRecords, h.getWord_eq, h.map_getMessage?_eq fun _ _ => Any.ofRecords_congr]
  | eventReply => simp only [ofRecords, h.map_getMessage?_eq fun _ _ => Any.ofRecords_congr]
  | frame =>
    simp only [ofRecords, Frame.ofRecords, h.getWord_eq, h.getText_eq, h.getBytes_eq]

/-! ## The decoder -/

/-- Messages that agree are decoded, and to the same. -/
theorem exists_decode_of_agree {s : Schema} {a b : List UInt8} (h : Agree maxLevels s a b) :
    ∃ m, decode s a = .ok m ∧ decode s b = .ok m := by
  obtain ⟨rs, ts, hrs, hts, halike⟩ := exists_alike h
  refine ⟨s.ofRecords rs, ?_, ?_⟩
  · rw [decode, scan_of_reads hrs]
    rfl
  · rw [decode, scan_of_reads hts, s.ofRecords_congr halike]
    rfl

/-- Messages with the same fields of each number of the schema are decoded, and to the same. -/
theorem exists_decode_of_ofNumber_eq {s : Schema} {a b : List UInt8} {ps qs : List Piece}
    (hps : Splits (Value maxLevels s) a ps) (hqs : Splits (Value maxLevels s) b qs)
    (heq : ∀ n f, s.field? n = some f → ofNumber n ps = ofNumber n qs) :
    ∃ m, decode s a = .ok m ∧ decode s b = .ok m :=
  exists_decode_of_agree (agree_of_ofNumber_eq hps hqs heq)

theorem decode_eq_of_agree {s : Schema} {a b : List UInt8} (h : Agree maxLevels s a b) :
    decode s a = decode s b := by
  obtain ⟨m, ha, hb⟩ := exists_decode_of_agree h
  rw [ha, hb]

/-- Fields of different numbers may change places. -/
theorem decode_swap {s : Schema} {before after : List Piece} {p q : Piece}
    (h : ∀ x ∈ before ++ p :: q :: after, x.IsField (Value maxLevels s))
    (hne : p.number ≠ q.number) :
    decode s (joined (before ++ p :: q :: after)) =
      decode s (joined (before ++ q :: p :: after)) := by
  have hswapped : ∀ x ∈ before ++ q :: p :: after, x.IsField (Value maxLevels s) :=
    fun x hx => h x (by simp only [List.mem_append, List.mem_cons] at hx ⊢; tauto)
  refine decode_eq_of_agree (agree_of_ofNumber_eq ⟨h, rfl⟩ ⟨hswapped, rfl⟩ fun n f _ => ?_)
  rw [ofNumber_append, ofNumber_append]
  congr 1
  by_cases hp : p.number = n
  · have hq : q.number ≠ n := fun hq => hne (hp.trans hq.symm)
    simp [ofNumber, hp, hq]
  · simp [ofNumber, List.filter_cons, hp]

/-- A field that the schema does not have may come and go. -/
theorem decode_skipped {s : Schema} {before after : List Piece} {p : Piece}
    (h : ∀ x ∈ before ++ p :: after, x.IsField (Value maxLevels s))
    (hunknown : s.field? p.number = none) :
    decode s (joined (before ++ p :: after)) = decode s (joined (before ++ after)) := by
  have hrest : ∀ x ∈ before ++ after, x.IsField (Value maxLevels s) :=
    fun x hx => h x (by simp only [List.mem_append, List.mem_cons] at hx ⊢; tauto)
  refine decode_eq_of_agree (agree_of_ofNumber_eq ⟨h, rfl⟩ ⟨hrest, rfl⟩ fun n f hf => ?_)
  have hne : p.number ≠ n := by
    rintro rfl
    rw [hunknown] at hf
    contradiction
  rw [ofNumber_append, ofNumber_append, ofNumber_cons_of_ne hne]

/-- **Known fields decide**: two strings of fields, within 100 levels, that have the same
fields of each number of the schema are decoded to one message; it is enough that these say
the same, also inside nested messages.  So fields of different numbers may change places, and
fields that the schema does not have may come and go, in a message, in a frame and its body,
and in a payload. -/
theorem known_fields_decide (s : Schema) :
    (∀ a b ps qs, Splits (Value 100 s) a ps → Splits (Value 100 s) b qs →
      (∀ n f, s.field? n = some f → ofNumber n ps = ofNumber n qs) →
      ∃ m, decode s a = .ok m ∧ decode s b = .ok m) ∧
    (∀ a b, Agree 100 s a b → ∃ m, decode s a = .ok m ∧ decode s b = .ok m) ∧
    (∀ before after p q, (∀ x ∈ before ++ p :: q :: after, x.IsField (Value 100 s)) →
      p.number ≠ q.number →
      decode s (joined (before ++ p :: q :: after)) =
        decode s (joined (before ++ q :: p :: after))) ∧
    (∀ before after p, (∀ x ∈ before ++ p :: after, x.IsField (Value 100 s)) →
      s.field? p.number = none →
      decode s (joined (before ++ p :: after)) = decode s (joined (before ++ after))) ∧
    ∀ a b, Agree 100 s a b →
      (s = .frame → Frame.decode a = Frame.decode b) ∧
      (∀ f : Frame, Frame.bodyAs { f with body := a } s = Frame.bodyAs { f with body := b } s) ∧
      ∀ t, s = .payload t → ∀ url, Payload.unpack t ⟨url, a⟩ = Payload.unpack t ⟨url, b⟩ := by
  refine ⟨fun a b ps qs => exists_decode_of_ofNumber_eq, fun a b => exists_decode_of_agree,
    fun before after p q => decode_swap, fun before after p => decode_skipped, fun a b h => ?_⟩
  have heq := decode_eq_of_agree h
  refine ⟨?_, fun f => ?_, ?_⟩
  · rintro rfl
    rw [Frame.decode, Frame.decode, heq]
  · simp only [Frame.bodyAs, heq]
  · rintro t rfl url
    simp only [Payload.unpack, heq]

/-- A time whose microseconds come first, with a group between them and the seconds that
the schema does not have, next to its canonical form. -/
theorem known_fields_decide_group :
    let seconds : Piece := ⟨1, .varint, [8], [2]⟩
    let useconds : Piece := ⟨2, .varint, [16], [1]⟩
    let group : Piece := ⟨7, .startGroup, [59], [8, 5, 60]⟩
    let time := Schema.payload .timestamp
    Splits (Value 100 time) [16, 1, 59, 8, 5, 60, 8, 2] [useconds, group, seconds] ∧
      Splits (Value 100 time) [8, 2, 16, 1] [seconds, useconds] ∧
      ∃ m, decode time [16, 1, 59, 8, 5, 60, 8, 2] = .ok m ∧ decode time [8, 2, 16, 1] = .ok m := by
  intro seconds useconds group time
  have hnumber : ∀ b : UInt8, b < 128 → Number [b] b.toNat := fun b hb =>
    ⟨.last hb, by simp, Nat.lt_trans b.toNat_lt (by decide)⟩
  have hseconds : seconds.IsField (Value 100 time) :=
    ⟨⟨hnumber 8 (by decide), by decide, by decide⟩, rfl, 2, hnumber 2 (by decide)⟩
  have huseconds : useconds.IsField (Value 100 time) :=
    ⟨⟨hnumber 16 (by decide), by decide, by decide⟩, rfl, 1, hnumber 1 (by decide)⟩
  have hinside : Grammar.Field (Skipped 99) ([8] ++ [5]) := by
    have hkey : Key [8] 1 .varint := ⟨hnumber 8 (by decide), by decide, by decide⟩
    exact .mk hkey ⟨5, hnumber 5 (by decide)⟩
  have hgroup : group.IsField (Value 100 time) :=
    ⟨⟨hnumber 59 (by decide), by decide, by decide⟩, [8, 5], [60], .cons hinside .nil,
      ⟨hnumber 60 (by decide), by decide, by decide⟩, rfl⟩
  have hmixed : Splits (Value 100 time) [16, 1, 59, 8, 5, 60, 8, 2]
      [useconds, group, seconds] := ⟨by simp [hseconds, huseconds, hgroup], rfl⟩
  have hcanonical : Splits (Value 100 time) [8, 2, 16, 1] [seconds, useconds] :=
    ⟨by simp [hseconds, huseconds], rfl⟩
  refine ⟨hmixed, hcanonical, (known_fields_decide time).1 _ _ _ _ hmixed hcanonical ?_⟩
  intro n f hf
  have hn : n ≠ 7 := by
    rintro rfl
    contradiction
  by_cases h1 : n = 1
  · simp [ofNumber, seconds, useconds, group, h1]
  · simp [ofNumber, List.filter_cons, seconds, useconds, group, hn.symm, Ne.symm h1]

end FazClient
