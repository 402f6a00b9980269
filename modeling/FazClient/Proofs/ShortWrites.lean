import FazClient.Output

/-!
# FazClient.Proofs.ShortWrites

Writers that run full.  Output is cut into many pieces, and a writer may cut the pieces again;
where it fails after so many bytes, it has accepted just the bytes in front, and the failure
tells whether all but the end of the last line was accepted.

* `Writer.RunsFull` — a writer with room for so many bytes; `Sink.runsFull` is one;
* `Writer.RunsFull.of_takes` — what such a writer takes;
* `full_writer_has_the_front_part` — what this means for a view, in each of the two formats.
-/

namespace FazClient

/-! ## Room -/

/-- A writer that accepts so many bytes, in parts of any size, and fails then.  What is to be
said for that is when it has room for `room` more bytes after it took `taken`. -/
structure Writer.RunsFull [Writer ω] (Holds : (room : Nat) → (taken : List UInt8) → ω → Prop) :
    Prop where
  /-- Without room it fails, and stays as full as it is. -/
  full : ∀ {taken s}, Holds 0 taken s → ∀ bytes ≠ [], ∃ reason after,
    offer bytes s = (.error reason, after) ∧ Holds 0 taken after
  /-- With room it takes a part of what it is offered, from the front. -/
  takes : ∀ {room taken s}, Holds room taken s → 0 < room → ∀ bytes ≠ [], ∃ count after,
    offer bytes s = (.ok count, after) ∧ 0 < count ∧ count ≤ bytes.length ∧ count ≤ room ∧
      Holds (room - count) (taken ++ bytes.take count) after

/-- A limited sink runs full. -/
theorem Sink.runsFull :
    Writer.RunsFull fun room taken (s : Sink) => s.room = some room ∧ s.written.toList = taken where
  full := by
    rintro taken ⟨_, written⟩ ⟨rfl, rfl⟩ bytes -
    exact ⟨fullText, _, rfl, rfl, rfl⟩
  takes := by
    rintro room taken ⟨_, written⟩ ⟨rfl, rfl⟩ hroom bytes hbytes
    obtain ⟨room, rfl⟩ : ∃ n, room = n + 1 := ⟨room - 1, by omega⟩
    have hlength : 0 < bytes.length := List.length_pos_iff.2 hbytes
    refine ⟨min (room + 1) bytes.length, _, rfl, by omega, by omega, by omega, ?_, ?_⟩
    · exact congrArg some (by omega)
    · simp [List.take_eq_take_min]

/-! ## Taking -/

section

variable [Writer ω] {Holds : Nat → List UInt8 → ω → Prop} (h : Writer.RunsFull Holds)

include h

/-- An offer to a writer that runs full is accepted in part if there is room, and fails if not. -/
theorem Writer.RunsFull.offer_cases {room : Nat} {taken offered : List UInt8} {s : ω}
    (hs : Holds room taken s) (hne : offered ≠ []) :
    (room = 0 ∧ ∃ reason after, offer offered s = (.error reason, after) ∧ Holds 0 taken after) ∨
      ∃ count after, offer offered s = (.ok (count + 1), after) ∧ count < offered.length ∧
        count < room ∧ Holds (room - (count + 1)) (taken ++ offered.take (count + 1)) after := by
  obtain rfl | hroom := Nat.eq_zero_or_pos room
  · exact .inl ⟨rfl, h.full hs offered hne⟩
  · obtain ⟨count, after, hoffer, hpos, hlength, hcount, hafter⟩ := h.takes hs hroom offered hne
    obtain ⟨count, rfl⟩ : ∃ n, count = n + 1 := ⟨count - 1, by omega⟩
    exact .inr ⟨count, after, hoffer, hlength, hcount, hafter⟩

/-- A writer that runs full takes what there is room for, and stops just if that is not all. -/
theorem Writer.RunsFull.of_takes {bytes accepted : List UInt8} {reason? : Option String}
    {s after : ω} (htakes : Takes s bytes accepted reason? after) {room : Nat}
    {taken : List UInt8} (hs : Holds room taken s) :
    accepted = bytes.take room ∧ Holds (room - bytes.length) (taken ++ accepted) after ∧
      (reason? = none ↔ bytes.length ≤ room) := by
  induction htakes generalizing room taken with
  | all => simpa using hs
  | @part s mid after offered more accepted _ count hne hoffer _ ih =>
    obtain ⟨-, reason, _, herror, -⟩ | ⟨_, _, haccepts, hlength, hroom, hmid⟩ :=
      h.offer_cases hs hne
    · exact nomatch hoffer.symm.trans herror
    · obtain ⟨rfl, rfl⟩ : count = _ ∧ mid = _ := by simpa [hoffer] using haccepts
      obtain ⟨hrest, hafter, hnone⟩ := ih hmid
      -- The room that is left after the offer is for what is left of the bytes.
      have hsplit : offered ++ more =
          offered.take (count + 1) ++ (offered.drop (count + 1) ++ more) := by
        rw [← List.append_assoc, List.take_append_drop]
      have htaken : (offered.take (count + 1)).length = count + 1 := by
        rw [List.length_take]
        omega
      have hwhole : (offered ++ more).length =
          count + 1 + (offered.drop (count + 1) ++ more).length := by
        rw [hsplit, List.length_append, htaken]
      have hfits : (offered.take (count + 1)).length ≤ room := by omega
      refine ⟨?_, ?_, ?_⟩
      · rw [hsplit, List.take_append, List.take_of_length_le hfits, htaken, hrest]
      · rw [hwhole, ← List.append_assoc, Nat.sub_add_eq]
        exact hafter
      · rw [hnone, hwhole]
        omega
  | @nothing s after offered more hne hoffer =>
    obtain ⟨-, _, _, herror, -⟩ | ⟨_, _, haccepts, -, -, -⟩ := h.offer_cases hs hne
    · exact nomatch hoffer.symm.trans herror
    · exact nomatch hoffer.symm.trans haccepts
  | @fails s after offered more reason hne hoffer =>
    obtain ⟨rfl, _, _, herror, hafter⟩ | ⟨_, _, haccepts, -, -, -⟩ := h.offer_cases hs hne
    · obtain ⟨-, rfl⟩ : reason = _ ∧ after = _ := by simpa [hoffer] using herror
      exact ⟨List.take_zero.symm, by simpa using hafter, by simp [hne]⟩
    · exact nomatch hoffer.symm.trans haccepts

end

/-- **Writers that run full**: a writer without a limit gets the full text of a view.  One that
accepts so many bytes and fails then, however it cuts the pieces that it is offered, has the
front part of that text which there was room for, no more and no less, and success is reported
just if that is all.  If not, the failure is one of output for a table; for JSON it is one of
formatting, unless only the newline at the end is missing. -/
theorem full_writer_has_the_front_part [Writer ω] {Holds : Nat → List UInt8 → ω → Prop}
    (h : Writer.RunsFull Holds) (f : Format) (v : View) {room : Nat} {taken : List UInt8} {s : ω}
    (hs : Holds room taken s) :
    let full := Utf8.encode (f.render v)
    let front := full.take (min room full.length)
    let written := f.print v s
    f.write v Sink.unlimited = (.ok (), ⟨none, full.toArray⟩) ∧
      written.accepted = front ∧
      Holds (room - full.length) (taken ++ front) written.state ∧
      (written.result = .ok () ↔ full.length ≤ room) ∧
      (room < full.length → match f with
        | .table => ∃ reason, written.result = .error (.io reason)
        | .json =>
          (room < full.length - 1 → ∃ reason : String,
            written.result = .error (.format s!"JSON serialization failed: {reason}")) ∧
          (room = full.length - 1 → ∃ reason, written.result = .error (.io reason))) := by
  intro full front written
  have hfront : front = full.take room := List.take_eq_take_min.symm
  have hreports : written.Reports s full (f.failure full.length) := f.reports_print v s
  rw [hfront]
  refine ⟨f.write_unlimited v, ?_⟩
  obtain ⟨hok, htakes⟩ | ⟨reason, herror, htakes⟩ := hreports
  · obtain ⟨haccepted, hstate, hfits⟩ := h.of_takes htakes hs
    have hlength : full.length ≤ room := hfits.1 rfl
    exact ⟨haccepted, haccepted ▸ hstate, iff_of_true hok hlength, fun hshort => by omega⟩
  · obtain ⟨haccepted, hstate, hfits⟩ := h.of_takes htakes hs
    have hshort : room < full.length := Nat.lt_of_not_le fun hle => nomatch hfits.2 hle
    have hlength : written.accepted.length = room := by
      rw [haccepted, List.length_take]
      omega
    have hnot : written.result ≠ .ok () := fun hok => nomatch herror.symm.trans hok
    rw [hlength] at herror
    refine ⟨haccepted, haccepted ▸ hstate, iff_of_false hnot (by omega), fun _ => ?_⟩
    cases f with
    | table => exact ⟨reason, herror⟩
    | json =>
      rw [Format.failure] at herror
      refine ⟨fun hvalue => ⟨reason, ?_⟩, fun hnewline => ⟨reason, ?_⟩⟩
      · rwa [if_pos (by omega)] at herror
      · rwa [if_neg (by omega)] at herror

/-- A JSON text of 22 bytes on a sink with room for three bytes, and on one with room for all
but the newline. -/
theorem full_writer_has_the_front_part_newline :
    let v := View.notice ⟨"hi", false⟩
    let full := Utf8.encode (Format.json.render v)
    let short := Format.json.print v (Sink.limited 3)
    let long := Format.json.print v (Sink.limited 21)
    full.length = 22 ∧
      short.accepted = full.take 3 ∧ short.state.written.toList = full.take 3 ∧
      (∃ reason : String,
        short.result = .error (.format s!"JSON serialization failed: {reason}")) ∧
      long.accepted = full.take 21 ∧ long.state.written.toList = full.take 21 ∧
      ∃ reason, long.result = .error (.io reason) := by
  intro v full short long
  have hlength : full.length = 22 := by decide +kernel
  have hthree : (Sink.limited 3).room = some 3 ∧ (Sink.limited 3).written.toList = [] := ⟨rfl, rfl⟩
  have hmore : (Sink.limited 21).room = some 21 ∧ (Sink.limited 21).written.toList = [] :=
    ⟨rfl, rfl⟩
  have hshort := full_writer_has_the_front_part Sink.runsFull .json v hthree
  have hlong := full_writer_has_the_front_part Sink.runsFull .json v hmore
  simp only [show (Utf8.encode (Format.json.render v)).length = 22 from hlength] at hshort hlong
  obtain ⟨-, haccepted, ⟨-, hkept⟩, -, hfailed⟩ := hshort
  obtain ⟨-, haccepted', ⟨-, hkept'⟩, -, hfailed'⟩ := hlong
  exact ⟨hlength, haccepted, hkept, (hfailed (by decide)).1 (by decide), haccepted', hkept',
    (hfailed' (by decide)).2 trivial⟩

end FazClient
