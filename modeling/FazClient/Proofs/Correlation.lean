import FazClient.Proofs.Conversation
import FazClient.Proofs.RoundTrip

/-!
# FazClient.Proofs.Correlation

Every reply goes to the call that it answers, over the whole life of a connection.

* `Ended.Sound` — what an ended call owes to the messages that arrived;
* `Conversation.Inv` — the invariant: ids are the numbers of the calls, frames that
  arrive have the id of a call that went out, and the call that waits was not answered
  by anything that was read;
* `Conversation.inv_of_reachable` — steps keep it, as long as there are ids left;
* `every_call_ends_by_its_own_reply` — the theorem about whole conversations.
-/

namespace FazClient

/-! ## What calls owe to the messages -/

/-- The `n`-th call, counted from 1, has gone out, and nothing that was read answers it:
what was read since it began is stale for it, and no frame before that has its id. -/
structure Begun.Unanswered (n : Nat) (read : List Incoming) (b : Begun) : Prop where
  sent : b.sent.isSome
  position_le : b.position ≤ read.length
  passed : ∀ msg ∈ read.drop b.position, msg.Stale (.ofNat n)
  callId_ne : ∀ msg ∈ read, ∀ f, msg.content = .frame f → f.callId ≠ .ofNat n

/-- A stale message leaves a call unanswered. -/
theorem Begun.Unanswered.concat {n : Nat} {read : List Incoming} {b : Begun}
    (h : b.Unanswered n read) {msg : Incoming} (hstale : msg.Stale (.ofNat n)) :
    b.Unanswered n (read ++ [msg]) where
  sent := h.sent
  position_le := by
    rw [List.length_append]
    exact Nat.le_add_right_of_le h.position_le
  passed msg' hmsg' := by
    rw [List.drop_append_of_le_length h.position_le, List.mem_append, List.mem_singleton] at hmsg'
    obtain hmsg' | rfl := hmsg'
    · exact h.passed msg' hmsg'
    · exact hstale
  callId_ne msg' hmsg' f hf := by
    rw [List.mem_append, List.mem_singleton] at hmsg'
    obtain hmsg' | rfl := hmsg'
    · exact h.callId_ne msg' hmsg' f hf
    · exact hstale.callId_ne hf

/-- What is true of the `n`-th call, counted from 1, once it has ended.  A call is given up
or decided while nothing that was read answers it.  So the message that decides it is the
first that is not stale for it, and if that is a frame, then it is the first one ever with
the id of the call.  A call is refused only if the connection was lost before, and no frame
that was read has the id of a call whose sending failed. -/
def Ended.Sound (arrived : List Incoming) (n : Nat) (e : Ended) : Prop :=
  match e.ending with
  | .abandoned p => p ≤ arrived.length ∧ e.Unanswered n (arrived.take p)
  | .refused _ => e.sent = none ∧ ∃ msg ∈ arrived.take e.position, ∃ text, msg.content = .lost text
  | .unsent _ => e.position ≤ arrived.length ∧
    ∀ msg ∈ arrived.take e.position, ∀ f, msg.content = .frame f → f.callId ≠ .ofNat n
  | .decided p answer =>
    e.Unanswered n (arrived.take p) ∧
      ∃ msg, arrived[p]? = some msg ∧ msg.Decides (.ofNat n) e.call.method answer

namespace Ended

variable {arrived : List Incoming} {n : Nat} {e : Ended}

/-- Later messages change nothing for a call that has ended. -/
theorem Sound.append (h : e.Sound arrived n) (more : List Incoming) :
    e.Sound (arrived ++ more) n := by
  cases hending : e.ending with
  | abandoned p =>
    simp only [Sound, hending] at h ⊢
    obtain ⟨hp, hunanswered⟩ := h
    rw [List.take_append_of_le_length hp, List.length_append]
    exact ⟨Nat.le_add_right_of_le hp, hunanswered⟩
  | refused text =>
    simp only [Sound, hending] at h ⊢
    obtain ⟨hsent, msg, hmsg, hlost⟩ := h
    refine ⟨hsent, msg, ?_, hlost⟩
    rw [List.take_append]
    exact List.mem_append_left _ hmsg
  | unsent text =>
    simp only [Sound, hending] at h ⊢
    obtain ⟨hp, hids⟩ := h
    rw [List.take_append_of_le_length hp, List.length_append]
    exact ⟨Nat.le_add_right_of_le hp, hids⟩
  | decided p answer =>
    simp only [Sound, hending] at h ⊢
    obtain ⟨hunanswered, msg, hmsg, hdecides⟩ := h
    have hp : p < arrived.length := (List.getElem?_eq_some_iff.1 hmsg).1
    rw [List.take_append_of_le_length (Nat.le_of_lt hp), List.getElem?_append_left hp]
    exact ⟨hunanswered, msg, hmsg, hdecides⟩

/-- The message that decided a call has arrived. -/
theorem Sound.position_lt (h : e.Sound arrived n) :
    ∀ p ∈ e.ending.position?, p < arrived.length := by
  intro p hp
  cases hending : e.ending with
  | abandoned q =>
    rw [hending] at hp
    contradiction
  | refused text | unsent text =>
    rw [hending] at hp
    contradiction
  | decided q answer =>
    rw [hending] at hp
    cases hp
    simp only [Sound, hending] at h
    obtain ⟨-, msg, hmsg, -⟩ := h
    exact (List.getElem?_eq_some_iff.1 hmsg).1

end Ended

/-- What holds of the elements of a list and of one more holds of all of them. -/
theorem forall_getElem?_concat {P : Nat → α → Prop} {l : List α} {a : α}
    (hl : ∀ k x, l[k]? = some x → P k x) (ha : P l.length a) :
    ∀ k x, (l ++ [a])[k]? = some x → P k x := by
  intro k x hx
  obtain hk | hk := Nat.lt_or_ge k l.length
  · rw [List.getElem?_append_left hk] at hx
    exact hl k x hx
  · rw [List.getElem?_append_right hk, List.getElem?_singleton] at hx
    split at hx
    · next h0 =>
      obtain rfl : k = l.length := by omega
      cases hx
      exact ha
    · contradiction

theorem pairwise_concat {R : α → α → Prop} {l : List α} {a : α} (hl : l.Pairwise R)
    (ha : ∀ x ∈ l, R x a) : (l ++ [a]).Pairwise R := by
  rw [List.pairwise_append]
  refine ⟨hl, List.pairwise_singleton R a, fun x hx y hy => ?_⟩
  rw [List.mem_singleton.1 hy]
  exact ha x hx

namespace Conversation

/-! ## The invariant -/

/-- What is true of the call that waits: nothing that was read answers it, and it began
after the messages that decided other calls. -/
structure Waits (s : Conversation) (b : Begun) : Prop where
  unanswered : b.Unanswered s.calls.length s.read
  after : ∀ e ∈ s.ended, ∀ p ∈ e.ending.position?, p < b.position

/-- What is true of every conversation. -/
structure Inv (s : Conversation) : Prop where
  lastCallId : s.connection.lastCallId = .ofNat s.calls.length
  sent : ∀ k (b : Begun), s.calls[k]? = some b → ∀ f, b.sent = some f →
    f = Connection.frame b.call.method (.ofNat (k + 1)) b.call.request
  expected : ∀ msg ∈ s.arrived, ∀ f, msg.content = .frame f →
    ∃ k < s.calls.length, f.callId = .ofNat (k + 1)
  lost : s.connection.link ≠ .live → ∃ msg ∈ s.read, ∃ text, msg.content = .lost text
  ended : ∀ k (e : Ended), s.ended[k]? = some e → e.Sound s.read (k + 1)
  ordered : s.ended.Pairwise fun e later => ∀ p ∈ e.ending.position?, p < later.position
  waiting : ∀ b, s.waiting = some b → s.Waits b

theorem inv_new : Inv ({} : Conversation) where
  lastCallId := rfl
  sent k b h := by simp [calls] at h
  expected msg h := by simp [arrived] at h
  lost h := absurd rfl h
  ended k e h := by simp at h
  ordered := .nil
  waiting b h := by simp at h

section

variable {s : Conversation} {b : Begun} {msg : Incoming} {rest : List Incoming}

/-- Every message that decided a call was read. -/
theorem Inv.position_lt (h : Inv s) {e : Ended} (he : e ∈ s.ended) :
    ∀ p ∈ e.ending.position?, p < s.read.length := by
  obtain ⟨k, hk⟩ := List.mem_iff_getElem?.1 he
  exact (h.ended k e hk).position_lt

/-- Nothing that was read has the id of a call that is yet to come. -/
theorem Inv.callId_ne (h : Inv s) (hlt : s.calls.length + 1 < 2 ^ 64) (hmsg : msg ∈ s.arrived)
    {f : Frame} (hf : msg.content = .frame f) : f.callId ≠ .ofNat (s.calls.length + 1) := by
  obtain ⟨k, hk, hid⟩ := h.expected msg hmsg f hf
  intro heq
  have hnat := congrArg UInt64.toNat (hid.symm.trans heq)
  rw [UInt64.toNat_ofNat', UInt64.toNat_ofNat'] at hnat
  omega

/-- A message that was read and did not lose the connection leaves the link open. -/
theorem Inv.lost_after (h : Inv s) (msg : Incoming) (hlink : s.connection.link.after msg ≠ .live) :
    ∃ msg' ∈ s.read ++ [msg], ∃ text, msg'.content = .lost text := by
  by_cases hafter : s.connection.link.after msg = s.connection.link
  · rw [hafter] at hlink
    obtain ⟨msg', hmsg', hlost⟩ := h.lost hlink
    exact ⟨msg', List.mem_append_left _ hmsg', hlost⟩
  · exact ⟨msg, List.mem_append_right _ List.mem_cons_self, Connection.lost_of_after_ne hafter⟩

/-! ## Steps keep the invariant -/

/-- Beginning a call keeps what is true of ids, whether it is sent or not. -/
theorem Inv.lastCallId_start (h : Inv s) (b : Begun) :
    s.connection.lastCallId + 1 = .ofNat (s.calls ++ [b]).length := by
  rw [h.lastCallId, List.length_append, UInt64.ofNat_add]
  rfl

theorem Inv.expected_start (h : Inv s) (b : Begun) :
    ∀ msg ∈ s.arrived, ∀ f, msg.content = .frame f →
      ∃ k < (s.calls ++ [b]).length, f.callId = .ofNat (k + 1) := by
  intro msg hmsg f hf
  obtain ⟨k, hk, hid⟩ := h.expected msg hmsg f hf
  exact ⟨k, by rw [List.length_append]; omega, hid⟩

theorem inv_start_of_refusal {text : String} (h : Inv s)
    (hlink : s.connection.link.refusal? = some text) (hidle : s.waiting = none) (call : Call) :
    Inv (s.start call) := by
  have hlost : s.connection.link ≠ .live := by
    intro hlive
    rw [hlive] at hlink
    contradiction
  have hcalls := calls_start_of_refusal hlink hidle call
  have hstart := start_of_refusal hlink call
  constructor
  case lastCallId =>
    rw [hcalls, hstart]
    exact h.lastCallId_start _
  case sent =>
    rw [hcalls]
    exact forall_getElem?_concat h.sent nofun
  case expected =>
    rw [hcalls, arrived, hstart]
    exact h.expected_start _
  case lost =>
    rw [hstart]
    exact h.lost
  case ended =>
    rw [hstart]
    refine forall_getElem?_concat h.ended ⟨rfl, ?_⟩
    rw [List.take_length]
    exact h.lost hlost
  case ordered =>
    rw [hstart]
    exact pairwise_concat h.ordered fun e he => h.position_lt he
  case waiting =>
    rw [hstart]
    intro b hb
    simp only [hidle] at hb
    contradiction

theorem inv_start_of_live (h : Inv s) (hlink : s.connection.link.refusal? = none)
    (hidle : s.waiting = none) (call : Call) (hlt : (s.start call).calls.length < 2 ^ 64) :
    Inv (s.start call) := by
  have hcalls := calls_start_of_live hlink hidle call
  have hstart := start_of_live hlink call
  rw [hcalls, List.length_append, List.length_singleton] at hlt
  constructor
  case lastCallId =>
    rw [hcalls, hstart]
    exact h.lastCallId_start _
  case sent =>
    rw [hcalls]
    refine forall_getElem?_concat h.sent fun f hf => ?_
    cases hf
    rw [h.lastCallId, UInt64.ofNat_add]
    rfl
  case expected =>
    rw [hcalls, arrived, hstart]
    exact h.expected_start _
  case lost =>
    rw [hstart]
    exact h.lost
  case ended =>
    rw [hstart]
    exact h.ended
  case ordered =>
    rw [hstart]
    exact h.ordered
  case waiting =>
    intro b hb
    rw [hstart] at hb
    cases hb
    have hlength : (s.start call).calls.length = s.calls.length + 1 := by
      rw [hcalls, List.length_append, List.length_singleton]
    constructor
    case after =>
      rw [hstart]
      exact fun e he => h.position_lt he
    case unanswered =>
      rw [hlength, hstart]
      constructor
      case sent => rfl
      case position_le => exact Nat.le_refl _
      case passed =>
        rw [List.drop_length]
        exact fun _ hmsg => absurd hmsg List.not_mem_nil
      case callId_ne =>
        exact fun msg hmsg f hf => h.callId_ne hlt (List.mem_append_left _ hmsg) hf

theorem inv_startUnsent (h : Inv s) (hidle : s.waiting = none) (call : Call) (text : String)
    (reached : Bool) (hlt : (s.startUnsent call text reached).calls.length < 2 ^ 64) :
    Inv (s.startUnsent call text reached) := by
  have hcalls := calls_startUnsent hidle call text reached
  rw [hcalls, List.length_append, List.length_singleton] at hlt
  constructor
  case lastCallId =>
    rw [hcalls]
    exact h.lastCallId_start _
  case sent =>
    rw [hcalls]
    refine forall_getElem?_concat h.sent fun f hf => ?_
    obtain ⟨-, hframe⟩ := Option.ite_none_right_eq_some.1 hf
    obtain rfl := Option.some.inj hframe
    rw [h.lastCallId, UInt64.ofNat_add]
    rfl
  case expected =>
    rw [hcalls]
    exact h.expected_start _
  case lost => exact h.lost
  case ended =>
    refine forall_getElem?_concat h.ended ⟨Nat.le_refl _, fun msg hmsg f hf => ?_⟩
    have harrived : msg ∈ s.arrived := List.mem_append_left _ (List.mem_of_mem_take hmsg)
    have hlength : s.ended.length = s.calls.length := by
      rw [calls_of_idle hidle, List.length_map]
    rw [hlength]
    exact h.callId_ne hlt harrived hf
  case ordered => exact pairwise_concat h.ordered fun e he => h.position_lt he
  case waiting =>
    intro b hb
    exact nomatch hidle.symm.trans hb

theorem inv_arrive (h : Inv s) (hexpected : s.Expects msg) : Inv (s.arrive msg) where
  lastCallId := h.lastCallId
  sent := h.sent
  expected msg' hmsg' f hf := by
    rw [arrived_arrive, List.mem_append, List.mem_singleton] at hmsg'
    obtain hmsg' | rfl := hmsg'
    · exact h.expected msg' hmsg' f hf
    · obtain ⟨b, hb, g, hg, hid⟩ := hexpected f hf
      obtain ⟨k, hk⟩ := List.mem_iff_getElem?.1 hb
      have hframe := h.sent k b hk g hg
      refine ⟨k, (List.getElem?_eq_some_iff.1 hk).1, ?_⟩
      rw [← hid, hframe]
      rfl
  lost := h.lost
  ended := h.ended
  ordered := h.ordered
  waiting b hb := ⟨(h.waiting b hb).unanswered, (h.waiting b hb).after⟩

theorem length_calls_of_waiting (hw : s.waiting = some b) :
    s.calls.length = s.ended.length + 1 := by
  rw [calls, hw, List.length_append, List.length_map, Option.toList_some, List.length_singleton]

/-- The call that waits ends, whether at a message or without one. -/
theorem Inv.finish {t : Conversation} {ending : Ending b.call.method} {more : List Incoming}
    (h : Inv s) (hw : s.waiting = some b) (hid : t.connection.lastCallId = s.connection.lastCallId)
    (hread : t.read = s.read ++ more) (harrived : t.arrived = s.arrived)
    (hlost : t.connection.link ≠ .live → ∃ msg ∈ t.read, ∃ text, msg.content = .lost text)
    (hended : t.ended = s.ended ++ [⟨b, ending⟩]) (hidle : t.waiting = none)
    (hsound : (Ended.mk b ending).Sound t.read (s.ended.length + 1)) : Inv t := by
  have hcalls : t.calls = s.calls := by
    rw [calls_of_idle hidle, hended, ← calls_of_waiting hw]
  constructor
  case lastCallId =>
    rw [hid, hcalls]
    exact h.lastCallId
  case sent =>
    rw [hcalls]
    exact h.sent
  case expected =>
    rw [harrived, hcalls]
    exact h.expected
  case lost => exact hlost
  case ended =>
    rw [hended]
    refine forall_getElem?_concat (fun k e he => ?_) hsound
    rw [hread]
    exact (h.ended k e he).append more
  case ordered =>
    rw [hended]
    exact pairwise_concat h.ordered (h.waiting b hw).after
  case waiting =>
    intro b' hb'
    rw [hidle] at hb'
    contradiction

theorem inv_abandon (h : Inv s) : Inv s.abandon := by
  cases hw : s.waiting with
  | none =>
    rw [abandon, hw]
    exact h
  | some b =>
    rw [abandon_of_waiting hw]
    refine h.finish hw rfl (List.append_nil _).symm rfl h.lost rfl rfl ⟨Nat.le_refl _, ?_⟩
    rw [List.take_length, ← length_calls_of_waiting hw]
    exact (h.waiting b hw).unanswered

/-- Reading leaves the messages that have arrived as they are. -/
theorem arrived_read (hu : s.connection.unread = msg :: rest) :
    s.read ++ [msg] ++ rest = s.arrived := by
  rw [arrived, hu, List.append_assoc, List.singleton_append]

theorem inv_readNext_of_skip (h : Inv s) (hw : s.waiting = some b)
    (hu : s.connection.unread = msg :: rest) {log : List LogEntry}
    (hjudge : Connection.judge b.call.method s.connection.lastCallId msg = .skip log) :
    Inv s.readNext := by
  have hcalls := calls_readNext s
  have hnext := readNext_of_skip hw hu hjudge
  have hstale := Connection.exists_skip_iff.1 ⟨log, hjudge⟩
  constructor
  case lastCallId =>
    rw [hcalls, hnext]
    exact h.lastCallId
  case sent =>
    rw [hcalls]
    exact h.sent
  case expected =>
    rw [hcalls, arrived, hnext, arrived_read hu]
    exact h.expected
  case lost =>
    rw [hnext]
    exact h.lost_after msg
  case ended =>
    rw [hnext]
    exact fun k e he => (h.ended k e he).append [msg]
  case ordered =>
    rw [hnext]
    exact h.ordered
  case waiting =>
    intro b' hb'
    rw [hnext] at hb'
    obtain ⟨hunanswered, hafter⟩ := h.waiting b' hb'
    rw [h.lastCallId] at hstale
    constructor
    case unanswered =>
      rw [hcalls, hnext]
      exact hunanswered.concat hstale
    case after =>
      rw [hnext]
      exact hafter

theorem inv_readNext_of_settle (h : Inv s) (hw : s.waiting = some b)
    (hu : s.connection.unread = msg :: rest) {answer : Except Failure b.call.method.Reply}
    {log : List LogEntry}
    (hjudge : Connection.judge b.call.method s.connection.lastCallId msg = .settle answer log) :
    Inv s.readNext := by
  have hdecides := Connection.decides_of_settle hjudge
  have hlength := length_calls_of_waiting hw
  rw [h.lastCallId, hlength] at hdecides
  rw [readNext_of_settle hw hu hjudge]
  refine h.finish hw rfl rfl (arrived_read hu) (h.lost_after msg) rfl rfl ?_
  -- The message is the last one that was read, and nothing before it answers the call.
  refine ⟨?_, msg, List.getElem?_concat_length, hdecides⟩
  rw [List.take_left, ← hlength]
  exact (h.waiting b hw).unanswered

theorem inv_readNext (h : Inv s) : Inv s.readNext := by
  cases hw : s.waiting with
  | none =>
    rw [readNext, hw]
    exact h
  | some b =>
    cases hu : s.connection.unread with
    | nil =>
      rw [readNext, hw, hu]
      exact h
    | cons msg rest =>
      cases hjudge : Connection.judge b.call.method s.connection.lastCallId msg with
      | skip log => exact inv_readNext_of_skip h hw hu hjudge
      | settle answer log => exact inv_readNext_of_settle h hw hu hjudge

end

/-- One step keeps the invariant, as long as there are ids left. -/
theorem inv_step {s t : Conversation} (hstep : Step s t) (h : Inv s)
    (hlt : t.calls.length < 2 ^ 64) : Inv t := by
  cases hstep with
  | start call hidle =>
    cases hlink : s.connection.link.refusal? with
    | some text => exact inv_start_of_refusal h hlink hidle call
    | none => exact inv_start_of_live h hlink hidle call hlt
  | startUnsent call text reached hidle _ => exact inv_startUnsent h hidle call text reached hlt
  | arrive msg hexpected => exact inv_arrive h hexpected
  | readNext => exact inv_readNext h
  | abandon => exact inv_abandon h

/-- The invariant holds of every conversation of fewer calls than there are ids. -/
theorem inv_of_reachable {s : Conversation} (h : Reachable s) (hlt : s.calls.length < 2 ^ 64) :
    Inv s := by
  induction h with
  | refl => exact inv_new
  | tail _ hstep ih =>
    have hle := hstep.calls_prefix.length_le
    exact inv_step hstep (ih (by omega)) hlt

/-- A peer can send a frame with the id of a call that reached it. -/
theorem expects_frame {s : Conversation} {f : Frame} (hversion : f.version = Frame.currentVersion)
    (hlt : f.encode.length < 2 ^ 64) {b : Begun} (hb : b ∈ s.calls) {g : Frame}
    (hg : b.sent = some g) (hid : g.callId = f.callId) : s.Expects (.binary f.encode) := by
  intro f' hf'
  have hdecode := Frame.decode_encode_of_current hversion hlt
  rw [Incoming.content_binary hdecode, Content.frame.injEq] at hf'
  exact ⟨b, hb, g, hg, hf' ▸ hid⟩

end Conversation

/-! ## Whole conversations -/

/-- **Correlation**: in every conversation of fewer than `2 ^ 64` calls, the frame that goes
out for the `n`-th call is the one of its request and has the id `n`; every call but
one that still waits has ended in a way that is sound for that id; and the messages that
decide calls are read one call after the other, so that none decides two. -/
theorem every_call_ends_by_its_own_reply (s : Conversation) (h : s.Reachable)
    (hlt : s.calls.length < 2 ^ 64) :
    (∀ k (b : Begun), s.calls[k]? = some b → ∀ f, b.sent = some f →
      f = Connection.frame b.call.method (.ofNat (k + 1)) b.call.request ∧
        f.callId.toNat = k + 1 ∧ (f.encode.length < 2 ^ 63 → Frame.decode f.encode = .ok f)) ∧
    (∀ k (e : Ended), s.ended[k]? = some e → e.Sound s.arrived (k + 1)) ∧
    s.ended.Pairwise (fun e later => ∀ p ∈ e.ending.position?, p < later.position) ∧
    ∀ b, s.waiting = some b → s.Waits b := by
  have hinv := Conversation.inv_of_reachable h hlt
  refine ⟨fun k b hb f hf => ?_, fun k e he => ?_, hinv.ordered, hinv.waiting⟩
  · have hframe := hinv.sent k b hb f hf
    have hk : k < s.calls.length := (List.getElem?_eq_some_iff.1 hb).1
    refine ⟨hframe, ?_, fun hshort => ?_⟩
    · have hid : f.callId = .ofNat (k + 1) := by
        rw [hframe]
        rfl
      rw [hid, UInt64.toNat_ofNat']
      omega
    · have hversion : f.version = Frame.currentVersion := by
        rw [hframe]
        rfl
      exact Frame.decode_encode_of_current hversion (by omega)
  · exact (hinv.ended k e he).append s.connection.unread

/-- A call that is given up, one that reads the late reply to the first before its own,
and one that a text ends after a second copy of the reply to the call before. -/
theorem every_call_ends_by_its_own_reply_late :
    let hook : Frame := Connection.frame .hook 1 ⟨1, "f"⟩
    let unhook : Frame := Connection.frame .unhook 2 ⟨1⟩
    let late : Incoming := .binary (Frame.failure hook (-5) "no").encode
    let reply : Incoming := .binary (Frame.reply unhook .unhookReply {}).encode
    let first := (({} : Conversation).start ⟨.hook, ⟨1, "f"⟩⟩).abandon.start ⟨.unhook, ⟨1⟩⟩
    let second := (((first.arrive late).arrive reply).arrive reply).readNext.readNext
    let third := ((second.start ⟨.unhook, ⟨2⟩⟩).arrive (.text "hi")).readNext.readNext
    third.ended.map (·.ending.position?) = [none, some 1, some 3] ∧
      ∀ k (e : Ended), third.ended[k]? = some e → e.Sound third.arrived (k + 1) := by
  intro hook unhook late reply first second third
  have hlate : first.Expects late :=
    Conversation.expects_frame rfl (by rw [Frame.encode, length_encode]; decide +kernel)
      (List.mem_of_getElem? (i := 0) rfl) rfl rfl
  have hreply : first.Expects reply :=
    Conversation.expects_frame rfl (by rw [Frame.encode, length_encode]; decide +kernel)
      (List.mem_of_getElem? (i := 1) rfl) rfl rfl
  have hfirst : first.Reachable :=
    .tail (.tail (.single (.start _ rfl)) .abandon) (.start _ rfl)
  have hsecond : second.Reachable :=
    .tail (.tail (.tail (.tail (.tail hfirst (.arrive _ hlate)) (.arrive _ hreply))
      (.arrive _ hreply)) .readNext) .readNext
  have hidle : second.waiting = none := Option.isNone_iff_eq_none.1 (by decide +kernel)
  have hgarbled : (second.start ⟨.unhook, ⟨2⟩⟩).Expects (.text "hi") := by
    intro f hf
    contradiction
  have hthird : third.Reachable :=
    .tail (.tail (.tail (.tail hsecond (.start _ hidle)) (.arrive _ hgarbled)) .readNext)
      .readNext
  refine ⟨by decide +kernel, ?_⟩
  exact (every_call_ends_by_its_own_reply third hthird (by decide +kernel)).2.1

end FazClient
