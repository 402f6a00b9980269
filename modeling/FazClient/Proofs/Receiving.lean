import FazClient.Connection

/-!
# FazClient.Proofs.Receiving

What messages mean to a call that waits.  Every message is one of four things,
whoever waits: nothing to any call, a frame, garbled, or the loss of the
connection (`Incoming.content`).  A frame decides the call whose id it has.

* `Connection.judge_idle`, … — the verdict on each kind of message;
* `Connection.exists_skip_iff`, `Connection.decides_of_settle` — what is skipped, and
  what ends a call;
* `Connection.receive_append` — stale messages do not matter to what follows.
-/

namespace FazClient

/-! ## What a message says -/

/-- What a message says, whoever reads it. -/
inductive Content where
  /-- Nothing to any call. -/
  | idle
  | frame (f : Frame)
  /-- It is no frame of a version that is understood. -/
  | garbled (text : String)
  /-- The connection is lost. -/
  | lost (text : String)

/-- What a message says. -/
def Incoming.content : Incoming → Content
  | .binary bytes =>
    match Frame.decode bytes with
    | .error e => .garbled e.message
    | .ok f => .frame f
  | .text _ => .garbled "unexpected message type"
  | .ping _ => .idle
  | .pong _ => .idle
  | .close => .lost "connection closed by server"
  | .reset => .lost "WebSocket protocol error: Connection reset without closing handshake"
  | .ended => .lost "connection closed"
  | .broken reason => .lost reason

/-- The bytes of a frame that is read back say that frame. -/
theorem Incoming.content_binary {bytes : List UInt8} {f : Frame}
    (h : Frame.decode bytes = .ok f) : (Incoming.binary bytes).content = .frame f := by
  rw [content, h]

/-- What a frame says about the call that it answers. -/
def Frame.outcome (f : Frame) (m : Method) : Except Failure m.Reply :=
  if f.isOk then (f.bodyAs m.reply).mapError fun e => .protocol e.message
  else .error (.remote f.status f.message)

/-- A message that decides nothing for the call with this id: a ping, a pong, or the
reply to another call. -/
def Incoming.Stale (callId : UInt64) (msg : Incoming) : Prop :=
  msg.content = .idle ∨ ∃ f, msg.content = .frame f ∧ f.callId ≠ callId

theorem Incoming.Stale.callId_ne {callId : UInt64} {msg : Incoming} (h : msg.Stale callId)
    {f : Frame} (hf : msg.content = .frame f) : f.callId ≠ callId := by
  obtain hidle | ⟨g, hg, hne⟩ := h
  · rw [hidle] at hf
    contradiction
  · rw [hg, Content.frame.injEq] at hf
    rw [← hf]
    exact hne

/-- A message that decides the call with this id, and the answer that it gives. -/
def Incoming.Decides (callId : UInt64) (m : Method) (answer : Except Failure m.Reply)
    (msg : Incoming) : Prop :=
  match msg.content with
  | .idle => False
  | .frame f => f.callId = callId ∧ answer = f.outcome m
  | .garbled reason => answer = .error (.protocol reason)
  | .lost reason => answer = .error (.connection reason)

namespace Connection

variable {m : Method} {callId : UInt64} {msg : Incoming}

/-! ## Verdicts -/

theorem judge_idle (h : msg.content = .idle) : judge m callId msg = .skip [] := by
  cases msg with
  | binary bytes =>
    rw [Incoming.content] at h
    split at h <;> contradiction
  | ping _ | pong _ => rfl
  | text _ | close | reset | ended | broken _ => contradiction

theorem judge_garbled {text : String} (h : msg.content = .garbled text) :
    judge m callId msg = .settle (.error (.protocol text)) [] := by
  cases msg with
  | binary bytes =>
    rw [Incoming.content] at h
    split at h
    · next e he =>
      cases h
      rw [judge, he]
    · contradiction
  | text _ =>
    cases h
    rfl
  | ping _ | pong _ | close | reset | ended | broken _ => contradiction

theorem judge_lost {text : String} (h : msg.content = .lost text) :
    judge m callId msg = .settle (.error (.connection text)) [] := by
  cases msg with
  | binary bytes =>
    rw [Incoming.content] at h
    split at h <;> contradiction
  | close | reset | ended | broken _ =>
    cases h
    rfl
  | text _ | ping _ | pong _ => contradiction

theorem judge_frame {f : Frame} (h : msg.content = .frame f) :
    judge m callId msg = judgeFrame m callId f := by
  cases msg with
  | binary bytes =>
    rw [Incoming.content] at h
    split at h
    · contradiction
    · next g hg =>
      cases h
      rw [judge, hg]
  | text _ | ping _ | pong _ | close | reset | ended | broken _ => contradiction

/-- The reply to another call is skipped. -/
theorem judgeFrame_of_ne {f : Frame} (h : f.callId ≠ callId) :
    ∃ log, judgeFrame m callId f = .skip log := by
  rw [judgeFrame, if_pos h]
  exact ⟨_, rfl⟩

/-- The reply to the call that waits ends it with what the reply says. -/
theorem judgeFrame_of_eq {f : Frame} (h : f.callId = callId) :
    ∃ log, judgeFrame m callId f = .settle (f.outcome m) log := by
  rw [judgeFrame, if_neg (by simpa using h), Frame.outcome]
  by_cases hok : f.isOk
  · rw [if_pos hok, if_pos hok]
    exact ⟨_, rfl⟩
  · rw [if_neg hok, if_neg hok]
    exact ⟨_, rfl⟩

/-- A call skips exactly the messages that are stale for it. -/
theorem exists_skip_iff : (∃ log, judge m callId msg = .skip log) ↔ msg.Stale callId := by
  constructor
  · rintro ⟨log, hlog⟩
    cases hc : msg.content with
    | idle => exact .inl hc
    | frame f =>
      refine .inr ⟨f, hc, fun heq => ?_⟩
      obtain ⟨log', hsettle⟩ := judgeFrame_of_eq (m := m) heq
      rw [judge_frame hc, hsettle] at hlog
      contradiction
    | garbled text =>
      rw [judge_garbled hc] at hlog
      contradiction
    | lost text =>
      rw [judge_lost hc] at hlog
      contradiction
  · rintro (hc | ⟨f, hc, hne⟩)
    · exact ⟨[], judge_idle hc⟩
    · rw [judge_frame hc]
      exact judgeFrame_of_ne hne

/-- A message that ends a call decides it. -/
theorem decides_of_settle {answer : Except Failure m.Reply} {log : List LogEntry}
    (h : judge m callId msg = .settle answer log) : msg.Decides callId m answer := by
  cases hc : msg.content with
  | idle =>
    rw [judge_idle hc] at h
    contradiction
  | frame f =>
    rw [judge_frame hc] at h
    by_cases heq : f.callId = callId
    · obtain ⟨log', hsettle⟩ := judgeFrame_of_eq (m := m) heq
      rw [hsettle, Verdict.settle.injEq] at h
      simpa only [Incoming.Decides, hc] using ⟨heq, h.1.symm⟩
    · obtain ⟨log', hskip⟩ := judgeFrame_of_ne (m := m) heq
      rw [hskip] at h
      contradiction
  | garbled text =>
    rw [judge_garbled hc, Verdict.settle.injEq] at h
    simpa only [Incoming.Decides, hc] using h.1.symm
  | lost text =>
    rw [judge_lost hc, Verdict.settle.injEq] at h
    simpa only [Incoming.Decides, hc] using h.1.symm

/-- A message that is the loss of the connection is the only one to change the link. -/
theorem lost_of_after_ne {l : Link} (h : l.after msg ≠ l) : ∃ text, msg.content = .lost text := by
  cases msg with
  | close | reset => exact ⟨_, rfl⟩
  | _ => exact absurd rfl h

/-- A stale message leaves the link as it was. -/
theorem after_of_stale (h : msg.Stale callId) (l : Link) : l.after msg = l := by
  by_cases hne : l.after msg = l
  · exact hne
  · obtain ⟨text, hlost⟩ := lost_of_after_ne hne
    rcases h with h | ⟨f, h, -⟩
    · rw [hlost] at h
      contradiction
    · rw [hlost] at h
      contradiction

/-! ## Reading -/

/-- A message that decides the call ends it, and what follows is left unread. -/
theorem receive_of_settle {answer : Except Failure m.Reply} {log : List LogEntry}
    (h : judge m callId msg = .settle answer log) (c : Connection) (rest : List Incoming) :
    receive m callId c (msg :: rest) =
      ⟨some answer, { c with link := c.link.after msg, unread := rest }, log⟩ := by
  rw [receive, h]

/-- What was left unread before does not matter to what is read now. -/
theorem receive_unread (c : Connection) (unread messages : List Incoming) :
    receive m callId { c with unread } messages = receive m callId c messages := by
  induction messages generalizing c with
  | nil => rfl
  | cons msg messages ih =>
    simp only [receive]
    cases judge m callId msg with
    | skip log => rw [← ih { c with link := c.link.after msg }]
    | settle answer log => rfl

/-- Stale messages change nothing but the log. -/
theorem receive_append (stale rest : List Incoming) (h : ∀ msg ∈ stale, msg.Stale callId)
    (c : Connection) :
    (receive m callId c (stale ++ rest)).answer? = (receive m callId c rest).answer? ∧
      (receive m callId c (stale ++ rest)).connection =
        (receive m callId c rest).connection := by
  induction stale with
  | nil => exact ⟨rfl, rfl⟩
  | cons msg stale ih =>
    have hmsg : msg.Stale callId := h msg List.mem_cons_self
    obtain ⟨log, hskip⟩ := exists_skip_iff.2 hmsg
    rw [List.cons_append, receive, hskip, after_of_stale hmsg]
    exact ih fun msg' hmsg' => h msg' (List.mem_cons_of_mem _ hmsg')

end Connection

end FazClient
