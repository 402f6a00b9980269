import FazClient.Proofs.Replies

/-!
# FazClient.Proofs.Tags

The tag of a payload and who may read it.  A tag names what follows its last slash, and
a payload is read only as the schema of exactly that name.

* `Payload.typeName?_eq_some_iff` — the name in a tag is its part behind the last slash;
* `Payload.unpack_of_ne`, `Payload.unpack_of_named` — with any other name the bytes are not
  looked at, and with the right one nothing else of the tag counts;
* `tag_alone_admits` — both, and that no payload is open to two schemas.
-/

namespace FazClient

open Wire

namespace Payload

/-! ## Names in tags -/

/-- A text with a slash has a last one. -/
theorem exists_last_slash {url : String} (h : '/' ∈ url.toList) :
    ∃ front name : String, '/' ∉ name.toList ∧ url = front ++ "/" ++ name := by
  obtain ⟨tail, front, hreverse, htail⟩ := List.eq_append_cons_of_mem (List.mem_reverse.2 h)
  have hurl : url.toList = front.reverse ++ '/' :: tail.reverse := by
    rw [← List.reverse_reverse url.toList, hreverse]
    simp
  refine ⟨.ofList front.reverse, .ofList tail.reverse, by simpa using htail, ?_⟩
  apply String.toList_injective
  simp [hurl]

theorem typeName?_eq_none_iff {url : String} : typeName? url = none ↔ '/' ∉ url.toList := by
  rw [typeName?]
  split <;> simp_all

/-- A tag names what stands behind its last slash. -/
theorem typeName?_append (front : String) {name : String} (h : '/' ∉ name.toList) :
    typeName? (front ++ "/" ++ name) = some name := by
  have hname : ∀ c ∈ name.toList.reverse, decide (c ≠ '/') = true := by
    intro c hc
    have hne : c ≠ '/' := fun heq => h (heq ▸ List.mem_reverse.1 hc)
    exact decide_eq_true hne
  have hchars : (front ++ "/" ++ name).toList.reverse =
      name.toList.reverse ++ '/' :: front.toList.reverse := by
    simp
  have hslash : '/' ∈ (front ++ "/" ++ name).toList := by simp
  rw [typeName?, if_pos hslash, hchars, List.takeWhile_append_of_pos hname]
  simp

theorem typeName?_eq_some_iff {url name : String} :
    typeName? url = some name ↔ '/' ∉ name.toList ∧ ∃ front, url = front ++ "/" ++ name := by
  constructor
  · intro h
    have hslash : '/' ∈ url.toList := by
      refine Decidable.by_contra fun hnone => ?_
      rw [typeName?_eq_none_iff.2 hnone] at h
      contradiction
    obtain ⟨front, last, hlast, rfl⟩ := exists_last_slash hslash
    rw [typeName?_append front hlast, Option.some.injEq] at h
    exact ⟨h ▸ hlast, front, by rw [h]⟩
  · rintro ⟨hname, front, rfl⟩
    exact typeName?_append front hname

/-! ## Reading by name -/

/-- A payload that is named otherwise is refused with its whole tag. -/
theorem unpack_of_ne {s : PayloadSchema} {url : String} (h : typeName? url ≠ some s.fullName)
    (value : List UInt8) :
    unpack s ⟨url, value⟩ = .error (.typeMismatch s.fullName url) := by
  rw [unpack, if_neg h]

/-- Under its own name a schema reads the bytes. -/
theorem unpack_of_named {s : PayloadSchema} {url : String} (h : typeName? url = some s.fullName)
    (value : List UInt8) :
    unpack s ⟨url, value⟩ =
      (decode (.payload s) value).mapError fun e => .decoding e.message := by
  rw [unpack, if_pos h]

/-- A payload that is not refused for its tag has the name of the schema. -/
theorem named_of_admitted {s : PayloadSchema} {a : Any}
    (h : ∀ expected actual, unpack s a ≠ .error (.typeMismatch expected actual)) :
    typeName? a.typeUrl = some s.fullName :=
  Decidable.by_contra fun hne => h _ _ (unpack_of_ne hne a.value)

theorem slash_not_mem_fullName (s : PayloadSchema) : '/' ∉ s.fullName.toList := by
  cases s <;> decide +kernel

end Payload

/-- **The tag alone admits**: the name in a tag is what follows its last slash, if it has
one.  A schema of another name refuses the payload, whatever its bytes are; one of this
name reads the bytes, whatever stands before the last slash, and fails only if they cannot
be decoded.  So at most one schema is admitted to a payload. -/
theorem tag_alone_admits (a : Any) :
    (∀ name, Payload.typeName? a.typeUrl = some name ↔
      '/' ∉ name.toList ∧ ∃ front, a.typeUrl = front ++ "/" ++ name) ∧
    (Payload.typeName? a.typeUrl = none ↔ '/' ∉ a.typeUrl.toList) ∧
    (∀ s, Payload.typeName? a.typeUrl ≠ some s.fullName → ∀ value,
      Payload.unpack s ⟨a.typeUrl, value⟩ = .error (.typeMismatch s.fullName a.typeUrl)) ∧
    (∀ s, Payload.typeName? a.typeUrl = some s.fullName →
      (∀ front, Payload.unpack s ⟨front ++ "/" ++ s.fullName, a.value⟩ = Payload.unpack s a) ∧
      ((∃ m, decode (.payload s) a.value = .ok m ∧ Payload.unpack s a = .ok m) ∨
        ∃ e, decode (.payload s) a.value = .error e ∧
          Payload.unpack s a = .error (.decoding e.message))) ∧
    ∀ s t, (∀ expected actual, Payload.unpack s a ≠ .error (.typeMismatch expected actual)) →
      (∀ expected actual, Payload.unpack t a ≠ .error (.typeMismatch expected actual)) →
      s = t := by
  refine ⟨fun _ => Payload.typeName?_eq_some_iff, Payload.typeName?_eq_none_iff,
    fun s h value => Payload.unpack_of_ne h value, fun s h => ⟨fun front => ?_, ?_⟩,
    fun s t hs ht => ?_⟩
  · have hfront := Payload.typeName?_append front (Payload.slash_not_mem_fullName s)
    rw [Payload.unpack_of_named hfront, ← Payload.unpack_of_named h]
  · have hunpack := Payload.unpack_of_named h a.value
    cases hdecode : decode (.payload s) a.value with
    | ok m =>
      rw [hdecode] at hunpack
      exact .inl ⟨m, rfl, hunpack⟩
    | error e =>
      rw [hdecode] at hunpack
      exact .inr ⟨e, rfl, hunpack⟩
  · have hname := (Payload.named_of_admitted hs).symm.trans (Payload.named_of_admitted ht)
    exact Wire.PayloadSchema.fullName_injective (Option.some.inj hname)

/-- A tag with the name of another schema on the way: only the last name counts. -/
theorem tag_alone_admits_last :
    let a : Any := ⟨"caw.org/caw.CawReply/caw.Caw", [10, 1, 97]⟩
    Payload.typeName? a.typeUrl = some "caw.Caw" ∧
      Payload.unpack .cawReply a = .error (.typeMismatch "caw.CawReply" a.typeUrl) ∧
      Payload.unpack .caw ⟨"/caw.Caw", a.value⟩ = Payload.unpack .caw a ∧
      Payload.unpack .caw a = .ok { username := "a" } ∧
      ∀ s, (∀ expected actual, Payload.unpack s a ≠ .error (.typeMismatch expected actual)) →
        s = .caw := by
  intro a
  obtain ⟨hname, -, hother, hown, hunique⟩ := tag_alone_admits a
  have hcaw : Payload.typeName? a.typeUrl = some "caw.Caw" := by decide +kernel
  have hne : some "caw.Caw" ≠ some (PayloadSchema.cawReply).fullName := by decide +kernel
  have hread : Payload.unpack .caw a = .ok { username := "a" } := by
    subst a
    rfl
  refine ⟨hcaw, hother .cawReply (hcaw ▸ hne) a.value, (hown .caw hcaw).1 "", hread,
    fun s hs => hunique s .caw hs fun _ _ h => ?_⟩
  rw [hread] at h
  contradiction

end FazClient
