import FazClient.Proofs.Printing
import FazClient.Proofs.Reporting

/-!
# FazClient.Proofs.Planning

What planning checks, and what it lets through.  A command in the name of a user needs one, and
a username to register, a text to post and an id to read must not be empty; a username to follow
and an id to reply to may be.

* `Action.plan_cases` — the three outcomes of planning, and when each arises;
* `Command.asks_of_plan` — what the request of a planned action asks for;
* `planning_checks_what_it_sends` — what this means for a command and a user, and
  `empty_arguments_are_planned` — what it does not.
-/

namespace FazClient

/-! ## Commands -/

/-- There is a user, with a name that is not empty. -/
def IsLoggedIn (user : Option String) : Prop := ∃ name, user = some name ∧ name ≠ ""

namespace Command

/-- Whether the command is carried out in the name of a user. -/
def needsUser : Command → Bool
  | hookAll | unhookAll | register _ | read _ => false
  | follow _ | profile | caw _ _ => true

/-- The usernames, the texts and the ids of caws in a command. -/
def arguments : Command → List String
  | hookAll | unhookAll | profile => []
  | register username => [username]
  | follow username => [username]
  | caw text reply => text :: reply.toList
  | read id => [id]

/-- The arguments that planning looks at.  It takes whom to follow and what to reply to as
they are. -/
def checked : Command → List String
  | hookAll | unhookAll | profile | follow _ => []
  | register username => [username]
  | caw text _ => [text]
  | read id => [id]

/-- What a request of a type says when the command sends it.  Only whom to follow may be empty,
and the id of a parent, which is then left out. -/
def Asks (command : Command) (user : Option String) : (e : EventType) → e.Request → Prop
  | .registerUser, r =>
    command = .register (RegisterUserRequest.username r) ∧ RegisterUserRequest.username r ≠ ""
  | .follow, r =>
    command = .follow (FollowRequest.toFollow r) ∧ user = some (FollowRequest.username r) ∧
      FollowRequest.username r ≠ ""
  | .profile, r =>
    command = .profile ∧ user = some (ProfileRequest.username r) ∧ ProfileRequest.username r ≠ ""
  | .post, r =>
    ∃ reply, command = .caw (CawRequest.text r) reply ∧ user = some (CawRequest.username r) ∧
      CawRequest.username r ≠ "" ∧ CawRequest.text r ≠ "" ∧
      (CawRequest.parentId r = none ↔ reply = none ∨ reply = some "") ∧
      ∀ id, reply = some id → id ≠ "" → CawRequest.parentId r = some (Utf8.encode id)
  | .read, r =>
    ∃ id, command = .read id ∧ ReadRequest.cawId r = Utf8.encode id ∧ ReadRequest.cawId r ≠ []

/-- The action of a command in the name of a user. -/
def action (name : String) : Command → Action
  | hookAll => .hooks .hook
  | unhookAll => .hooks .unhook
  | register username => .register username
  | follow username => .follow name username
  | profile => .profile name
  | caw text reply => .post name text reply
  | read id => .read id

end Command

/-! ## Planning -/

theorem loggedIn_of_ne {name : String} (h : name ≠ "") (action : String) :
    loggedIn (some name) action = .ok name := by
  simp [loggedIn, Option.filter, h]

theorem loggedIn_of_not {user : Option String} (h : ¬ IsLoggedIn user) (action : String) :
    loggedIn user action = .error (.notLoggedIn action) := by
  cases user with
  | none => rfl
  | some name =>
    obtain rfl : name = "" := Decidable.byContradiction fun hne => h ⟨name, rfl, hne⟩
    rfl

namespace Action

variable {user : Option String} {command : Command}

theorem plan_of_not_loggedIn (hneeds : command.needsUser = true) (huser : ¬ IsLoggedIn user) :
    ∃ what, plan user command = .error (.notLoggedIn what) := by
  cases command with
  | follow _ | profile | caw _ _ =>
    rw [plan, loggedIn_of_not huser]
    exact ⟨_, rfl⟩
  | hookAll | unhookAll | register _ | read _ => contradiction

theorem plan_of_empty (huser : command.needsUser = true → IsLoggedIn user)
    (hempty : "" ∈ command.checked) :
    ∃ text, plan user command = .error (.invalidArgument text) := by
  cases command with
  | hookAll | unhookAll | profile | follow _ => contradiction
  | register username =>
    obtain rfl := List.mem_singleton.1 hempty
    rw [plan]
    exact ⟨_, if_pos rfl⟩
  | caw text reply =>
    obtain ⟨name, rfl, hname⟩ := huser rfl
    obtain rfl := List.mem_singleton.1 hempty
    rw [plan, loggedIn_of_ne hname]
    exact ⟨_, if_pos rfl⟩
  | read id =>
    obtain rfl := List.mem_singleton.1 hempty
    rw [plan]
    exact ⟨_, if_pos rfl⟩

theorem plan_of_checked (huser : command.needsUser = true → IsLoggedIn user)
    (hchecked : "" ∉ command.checked) :
    plan user command = .ok (command.action (user.getD "")) := by
  cases command with
  | hookAll | unhookAll => rfl
  | register _ | read _ => exact if_neg fun h => hchecked (List.mem_singleton.2 h.symm)
  | follow _ | profile =>
    obtain ⟨name, rfl, hname⟩ := huser rfl
    rw [plan, loggedIn_of_ne hname]
    rfl
  | caw text reply =>
    obtain ⟨name, rfl, hname⟩ := huser rfl
    rw [plan, loggedIn_of_ne hname]
    exact if_neg fun h => hchecked (List.mem_singleton.2 h.symm)

/-- A command is planned just if it has the user that it needs and no argument that is checked
is empty; a missing user is noticed first. -/
theorem plan_cases (user : Option String) (command : Command) :
    (command.needsUser = true ∧ ¬ IsLoggedIn user) ∧
        (∃ what, plan user command = .error (.notLoggedIn what)) ∨
      ((command.needsUser = true → IsLoggedIn user) ∧ "" ∈ command.checked) ∧
        (∃ text, plan user command = .error (.invalidArgument text)) ∨
      ((command.needsUser = true → IsLoggedIn user) ∧ "" ∉ command.checked) ∧
        plan user command = .ok (command.action (user.getD "")) := by
  by_cases huser : command.needsUser = true → IsLoggedIn user
  · by_cases hempty : "" ∈ command.checked
    · exact .inr (.inl ⟨⟨huser, hempty⟩, plan_of_empty huser hempty⟩)
    · exact .inr (.inr ⟨⟨huser, hempty⟩, plan_of_checked huser hempty⟩)
  · rw [Classical.not_imp] at huser
    exact .inl ⟨huser, plan_of_not_loggedIn huser.1 huser.2⟩

end Action

/-! ## Requests -/

/-- The request of a planned action asks for what the command says. -/
theorem Command.asks_of_plan {user : Option String} {command : Command} {o : Operation}
    (huser : command.needsUser = true → IsLoggedIn user) (hchecked : "" ∉ command.checked)
    (ho : (command.action (user.getD "")).operation? = some o) :
    command.Asks user o.event o.request := by
  cases command with
  | hookAll | unhookAll => contradiction
  | register username =>
    obtain rfl := Option.some.inj ho
    exact ⟨rfl, fun h => hchecked (List.mem_singleton.2 h.symm)⟩
  | follow username =>
    obtain ⟨name, rfl, hname⟩ := huser rfl
    obtain rfl := Option.some.inj ho
    exact ⟨rfl, rfl, hname⟩
  | profile =>
    obtain ⟨name, rfl, hname⟩ := huser rfl
    obtain rfl := Option.some.inj ho
    exact ⟨rfl, rfl, hname⟩
  | caw text reply =>
    obtain ⟨name, rfl, hname⟩ := huser rfl
    obtain rfl := Option.some.inj ho
    refine ⟨reply, rfl, rfl, hname, fun h => hchecked (List.mem_singleton.2 h.symm), ?_, ?_⟩
    · cases reply <;> simp [Operation.request, CawRequest.of]
    · rintro id rfl hid
      exact if_neg hid
  | read id =>
    obtain rfl := Option.some.inj ho
    refine ⟨id, rfl, rfl, fun h => hchecked (List.mem_singleton.2 ?_)⟩
    exact (Utf8.encode_eq_nil_iff.1 h).symm

/-- An action is about the handlers, or it performs an operation. -/
theorem Action.operation?_cases (a : Action) :
    (∃ h, a = .hooks h) ∨ ∃ o, a.operation? = some o := by
  cases a with
  | hooks h => exact .inl ⟨h, rfl⟩
  | register _ | follow _ _ | profile _ | post _ _ _ | read _ => exact .inr ⟨_, rfl⟩

/-- The event of an operation carries the operation's request. -/
theorem Operation.unpack_of_mem {o : Operation} {call : Call}
    (h : call ∈ if o.Fits then [(⟨.event, o.envelope⟩ : Call)] else []) :
    ∃ payload, call = ⟨.event, ⟨o.event.value, some payload⟩⟩ ∧
      Payload.unpack o.event.request payload = .ok o.request := by
  by_cases hfits : o.Fits
  · rw [if_pos hfits] at h
    exact ⟨_, List.mem_singleton.1 h, Payload.unpack_pack (o.fits_iff.1 hfits)⟩
  · rw [if_neg hfits] at h
    contradiction

/-- **Planning**: a command is planned just if it has the user that it needs and none of its
checked arguments is empty; it is refused for want of a user just if it needs one, and has none
or one without a name; and in all other cases for an empty argument.  Every call of a planned
action is about an entry of the registry, or it is an event whose request says what the
command says, with nothing empty but whom to follow, and with a parent unless the command
has none or an empty one. -/
theorem planning_checks_what_it_sends [Writer ω] (c : Client σ) (f : Format) (out : ω) (s : σ)
    (user : Option String) (command : Command) :
    let plan := Action.plan user command
    ((∃ a, plan = .ok a) ↔
        (command.needsUser = true → IsLoggedIn user) ∧ "" ∉ command.checked) ∧
      ((∃ what, plan = .error (.notLoggedIn what)) ↔
        command.needsUser = true ∧ ¬ IsLoggedIn user) ∧
      ((∃ text, plan = .error (.invalidArgument text)) ↔
        (command.needsUser = true → IsLoggedIn user) ∧ "" ∈ command.checked) ∧
      ∀ a, plan = .ok a → ∀ call ∈ Act.calls ((a.execute c f out).run s).acts,
        (∃ h, a = .hooks h ∧ call ∈ registry.map h.call) ∨
        ∃ (e : EventType) (payload : Any) (request : e.Request),
          call = ⟨.event, ⟨e.value, some payload⟩⟩ ∧
            Payload.unpack e.request payload = .ok request ∧ command.Asks user e request := by
  intro plan
  obtain ⟨⟨hneeds, huser⟩, what, hplan⟩ | ⟨⟨huser, hempty⟩, text, hplan⟩ |
    ⟨⟨huser, hchecked⟩, hplan⟩ := Action.plan_cases user command
  · simp [plan, hplan, hneeds, huser]
  · simpa [plan, hplan, hempty] using huser
  · refine ⟨by simpa [plan, hplan, hchecked] using huser, by simpa [plan, hplan] using huser,
      by simp [plan, hplan, hchecked], fun a ha call hcall => ?_⟩
    obtain rfl : command.action (user.getD "") = a := Except.ok.inj (hplan.symm.trans ha)
    obtain ⟨h, hhooks⟩ | ⟨o, ho⟩ := (command.action (user.getD "")).operation?_cases
    · rw [hhooks, Action.calls_execute_hooks] at hcall
      exact .inl ⟨h, hhooks, hcall⟩
    · rw [Action.calls_execute c f out s ho] at hcall
      obtain ⟨payload, rfl, hrequest⟩ := Operation.unpack_of_mem hcall
      exact .inr ⟨o.event, payload, o.request, rfl, hrequest,
        Command.asks_of_plan huser hchecked ho⟩

/-- A command to follow nobody is planned and sent, and so is a reply to nothing, as a caw that
is no reply. -/
theorem empty_arguments_are_planned :
    let client : Client (List ScriptedReply) := ⟨.scripted, 100⟩
    let follow := Command.follow ""
    let reply := Command.caw "hi" (some "")
    "" ∈ follow.arguments ∧ "" ∈ reply.arguments ∧
      Action.plan (some "alice") follow = .ok (.follow "alice" "") ∧
      Action.plan (some "alice") reply = .ok (.post "alice" "hi" (some "")) ∧
      (∃ payload, Act.calls (((Action.follow "alice" "").execute client .table Sink.unlimited).run
          []).acts = [⟨.event, ⟨EventType.follow.value, some payload⟩⟩] ∧
        Payload.unpack .followRequest payload = .ok (FollowRequest.mk "alice" "")) ∧
      ∃ payload, Act.calls (((Action.post "alice" "hi" (some "")).execute client .table
          Sink.unlimited).run []).acts = [⟨.event, ⟨EventType.post.value, some payload⟩⟩] ∧
        Payload.unpack .cawRequest payload = .ok (CawRequest.mk "alice" "hi" none) := by
  intro client follow reply
  have hfollow : (Operation.follow "alice" "").Fits := by
    rw [Operation.Fits, length_encode]
    decide +kernel
  have hpost : (Operation.post "alice" "hi" "").Fits := by
    rw [Operation.Fits, length_encode]
    decide +kernel
  refine ⟨List.mem_singleton_self _, List.mem_cons_of_mem _ (List.mem_singleton_self _), rfl, rfl,
    ⟨_, ?_, Payload.unpack_pack ((Operation.fits_iff _).1 hfollow)⟩,
    ⟨_, ?_, Payload.unpack_pack ((Operation.fits_iff _).1 hpost)⟩⟩
  · rw [Action.calls_execute client .table Sink.unlimited [] rfl, if_pos hfollow]
    rfl
  · rw [Action.calls_execute client .table Sink.unlimited [] rfl]
    exact if_pos hpost

end FazClient
