import FazClient.Proofs.Planning

/-!
# FazClient.Proofs.DisplayedIds

Ids on their way to the user and back.  The view of a caw shows its id and its parent as text,
and the user may put that text into a command.

* `Command.sends_of_fits` — the request of a planned command;
* `Addresses` — which bytes the commands send for a text; it is the bytes that the text is shown
  for just if these are well-formed UTF-8 (`addresses_decodeLossy`);
* `displayed_ids_address_their_caws` — what this means for the view of a caw.
-/

namespace FazClient

/-! ## Bytes for text -/

section

variable [Writer ω] (c : Client σ) (f : Format) (out : ω) (s : σ)

/-- The command is planned for this user, and makes one call then: an event that carries this
request, which is all that the service gets. -/
def Command.Sends (user : Option String) (command : Command) (e : EventType)
    (request : e.Request) : Prop :=
  ∃ a payload, Action.plan user command = .ok a ∧
    Act.calls ((a.execute c f out).run s).acts = [⟨.event, ⟨e.value, some payload⟩⟩] ∧
    ((a.execute c f out).run s).state = c.service.after s [⟨.event, ⟨e.value, some payload⟩⟩] ∧
    Payload.unpack e.request payload = .ok request

theorem Command.sends_of_fits {user : Option String} {command : Command} {a : Action}
    {o : Operation} (hplan : Action.plan user command = .ok a) (ho : a.operation? = some o)
    (hfits : o.Fits) : command.Sends c f out s user o.event o.request := by
  have hcalls : Act.calls ((a.execute c f out).run s).acts = [⟨.event, o.envelope⟩] := by
    rw [Action.calls_execute c f out s ho, if_pos hfits]
  refine ⟨a, _, hplan, hcalls, ?_, Payload.unpack_pack (o.fits_iff.1 hfits)⟩
  rw [Action.state_execute c f out s ho, hcalls]
  rfl

/-- The commands that take an id send these bytes for this text just if the bytes are well
formed. -/
structure Addresses (bytes : List UInt8) (shown : String) : Prop where
  read : ∀ user, (Operation.read shown).Fits →
    ∃ request, (Command.read shown).Sends c f out s user .read request ∧
      (ReadRequest.cawId request = bytes ↔ Utf8.WellFormed bytes)
  reply : ∀ user text, user ≠ "" → text ≠ "" → (Operation.post user text shown).Fits →
    ∃ request, (Command.caw text (some shown)).Sends c f out s (some user) .post request ∧
      (CawRequest.parentId request = some bytes ↔ Utf8.WellFormed bytes)

theorem addresses_decodeLossy {bytes : List UInt8} (hne : bytes ≠ []) :
    Addresses c f out s bytes (Utf8.decodeLossy bytes) := by
  have hshown : Utf8.decodeLossy bytes ≠ "" := Utf8.decodeLossy_ne_empty hne
  constructor
  · intro user hfits
    have hplan : Action.plan user (.read (Utf8.decodeLossy bytes)) =
        .ok (.read (Utf8.decodeLossy bytes)) := if_neg hshown
    exact ⟨_, Command.sends_of_fits c f out s hplan rfl hfits, Utf8.encode_decodeLossy_eq_iff⟩
  · intro user text huser htext hfits
    have hplan : Action.plan (some user) (.caw text (some (Utf8.decodeLossy bytes))) =
        .ok (.post user text (some (Utf8.decodeLossy bytes))) :=
      Action.plan_of_checked (fun _ => ⟨user, rfl, huser⟩)
        (fun h => htext (List.mem_singleton.1 h).symm)
    have hparent : CawRequest.parentId (.of user text (Utf8.decodeLossy bytes)) =
        some (Utf8.encode (Utf8.decodeLossy bytes)) := if_neg hshown
    refine ⟨_, Command.sends_of_fits c f out s hplan rfl hfits, ?_⟩
    exact (hparent.congr_left.trans Option.some_inj).trans Utf8.encode_decodeLossy_eq_iff

end

/-- **Displayed ids**: put into a command, the text that is shown for the id of a caw, if there
is one, is sent as just that id if and only if the id is well-formed UTF-8, whether the command
asks for the thread of the caw or for a reply to it; and for any id, the text shows one U+FFFD
in the place of each maximal ill-formed part, and all characters around them, in order.  The
same holds of the id of a parent. -/
theorem displayed_ids_address_their_caws [Writer ω] (c : Client σ) (f : Format) (out : ω) (s : σ)
    (caw : Caw) :
    let view := CawView.of caw
    (caw.id ≠ [] → Addresses c f out s caw.id view.id ∧ Utf8.Displays caw.id view.id) ∧
      ∀ parent, caw.parentId = some parent → parent ≠ [] →
        ∃ shown, view.parentId = some shown ∧
          Addresses c f out s parent shown ∧ Utf8.Displays parent shown := by
  intro view
  constructor
  · intro hne
    exact ⟨addresses_decodeLossy c f out s hne, Utf8.displays_decodeLossy caw.id⟩
  · intro parent hparent hne
    exact ⟨Utf8.decodeLossy parent, congrArg (Option.map Utf8.decodeLossy) hparent,
      addresses_decodeLossy c f out s hne, Utf8.displays_decodeLossy parent⟩

/-- An id with half a surrogate and a stray byte, and a parent that is well formed.  The first
is shown with two U+FFFD and asks for another caw. -/
theorem displayed_ids_address_their_caws_surrogate :
    let client : Client (List ScriptedReply) := ⟨.scripted, 100⟩
    let caw : Caw := { id := [0x70, 0xED, 0xA0, 0x31], parentId := some [0xC3, 0xA9] }
    let view := CawView.of caw
    view.id = "p\uFFFD\uFFFD1" ∧ view.parentId = some "é" ∧
      (∃ request, (Command.read view.id).Sends client .table Sink.unlimited [] none .read request ∧
        ReadRequest.cawId request ≠ caw.id) ∧
      ∃ request, (Command.caw "hi" view.parentId).Sends client .table Sink.unlimited []
        (some "alice") .post request ∧ CawRequest.parentId request = caw.parentId := by
  intro client caw view
  obtain ⟨hown, hparent⟩ :=
    displayed_ids_address_their_caws client .table Sink.unlimited [] caw
  have hid : view.id = "p\uFFFD\uFFFD1" := by decide +kernel
  have hread : (Operation.read view.id).Fits := by
    rw [hid, Operation.Fits, length_encode]
    decide +kernel
  have hpost : (Operation.post "alice" "hi" "é").Fits := by
    rw [Operation.Fits, length_encode]
    decide +kernel
  have hill : ¬ Utf8.WellFormed caw.id := by
    rw [← Utf8.encode_decodeLossy_eq_iff]
    decide +kernel
  obtain ⟨request, hsends, hsame⟩ := (hown (by decide)).1.read none hread
  obtain ⟨shown, hshown, haddresses, -⟩ := hparent [0xC3, 0xA9] rfl (by decide)
  obtain rfl : "é" = shown := Option.some.inj (hshown.symm.trans (by decide +kernel)).symm
  obtain ⟨reply, hreplies, hreply⟩ := haddresses.reply "alice" "hi" (by decide) (by decide) hpost
  refine ⟨hid, hshown, ⟨request, hsends, mt hsame.1 hill⟩, reply, ?_, hreply.2 ⟨"é", by decide⟩⟩
  rwa [hshown]

end FazClient
