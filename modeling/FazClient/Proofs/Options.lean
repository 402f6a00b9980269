import FazClient.CommandLine
import Mathlib.Algebra.Group.Nat.Defs
import Mathlib.Data.List.Nodup

/-!
# FazClient.Proofs.Options

Options and commands, written down and read back.  Options of the program stand in front of the
subcommand, each with its value behind an equals sign, and an operand stands behind two dashes, so
that no text is taken for anything else.

* `number?_eq_some_iff` — which texts are counts;
* `Setting`, `argumentsOf` — how options and commands are written down;
* `scan_settings`, `readSubcommand_argumentsOf` — how these are read back;
* `Reading.addEnvironment_eq_ok`, `Reading.addEnvironment_eq_error` — how the environment comes
  in.
-/

namespace FazClient

namespace CommandLine

/-! ## Counts -/

/-- The text is the digits of a number below `2 ^ 64`, perhaps with zeros and a plus sign in
front. -/
def Spells (text : String) (n : Nat) : Prop :=
  n < 2 ^ 64 ∧ ∃ digits : List Char, (text.toList = digits ∨ text.toList = '+' :: digits) ∧
    digits ≠ [] ∧ (∀ c ∈ digits, c.isDigit) ∧ Nat.ofDigitChars 10 digits 0 = n

theorem digitsValue?_eq_some_iff {digits : List Char} {n : Nat} :
    digitsValue? digits = some n ↔
      digits ≠ [] ∧ (∀ c ∈ digits, c.isDigit) ∧ Nat.ofDigitChars 10 digits 0 = n := by
  have hvalue : digits.foldl (fun n d => 10 * n + (d.toNat - 48)) 0 =
      Nat.ofDigitChars 10 digits 0 := rfl
  simp only [digitsValue?, hvalue, List.all_eq_true, Option.ite_none_right_eq_some,
    Option.some.injEq, and_assoc]

theorem number?_eq_some_iff {text : String} {n : Nat} :
    number? text = some n ↔ Spells text n := by
  rw [number?, Option.filter_eq_some_iff, digitsValue?_eq_some_iff, decide_eq_true_iff, and_comm]
  refine and_congr_right fun _ => ?_
  generalize text.toList = cs
  constructor
  · intro h
    split at h
    · exact ⟨_, .inr rfl, h⟩
    · exact ⟨_, .inl rfl, h⟩
  · rintro ⟨digits, rfl | rfl, hne, hdigits, hvalue⟩
    · split
      · -- a plus sign is no digit
        have hplus := hdigits '+' List.mem_cons_self
        contradiction
      · exact ⟨hne, hdigits, hvalue⟩
    · exact ⟨hne, hdigits, hvalue⟩

/-- A number of seconds, and a text for it. -/
structure Count where
  text : String
  value : Nat
  spells : Spells text value

/-- A number in plain decimal digits. -/
def Count.ofUInt64 (n : UInt64) : Count where
  text := n.toNat.repr
  value := n.toNat
  spells := by
    refine ⟨n.toNat_lt, _, .inl Nat.toList_repr, Nat.toDigits_ne_nil, fun c hc => ?_,
      Nat.ofDigitChars_ten_toDigits⟩
    exact Nat.isDigit_of_mem_toDigits (by decide) (by decide) hc

/-! ## Writing a line -/

/-- The name of a format. -/
def formatName : Format → String
  | .table => "table"
  | .json => "json"

@[simp] theorem format?_formatName (f : Format) : format? (formatName f) = some f := by
  cases f <;> decide

/-- What an option of the program is set to. -/
inductive Setting where
  | faz (url : String)
  | user (name : String)
  | format (f : Format)
  | deadlineSecs (n : Count)
  | connectTimeoutSecs (n : Count)

namespace Setting

/-- The option that is set. -/
def opt : Setting → Opt
  | faz _ => .faz
  | user _ => .user
  | format _ => .format
  | deadlineSecs _ => .deadlineSecs
  | connectTimeoutSecs _ => .connectTimeoutSecs

/-- The text of the value. -/
def text : Setting → String
  | faz url => url
  | user name => name
  | format f => formatName f
  | deadlineSecs n => n.text
  | connectTimeoutSecs n => n.text

/-- What stands in front of the value. -/
def flag : Setting → String
  | faz _ => "--faz="
  | user _ => "--user="
  | format _ => "--format="
  | deadlineSecs _ => "--deadline-secs="
  | connectTimeoutSecs _ => "--connect-timeout-secs="

/-- The argument that sets it. -/
def argument (g : Setting) : String := g.flag ++ g.text

theorem argument_eq (g : Setting) : g.argument = "--" ++ g.opt.long ++ "=" ++ g.text := by
  have hflag : g.flag = "--" ++ g.opt.long ++ "=" := by cases g <;> rfl
  rw [argument, hflag]

theorem opt_mem (g : Setting) :
    g.opt ∈ [Opt.faz, .user, .format, .deadlineSecs, .connectTimeoutSecs] := by
  cases g <;> simp [opt]

theorem check_text (g : Setting) : g.opt.check g.text = .ok () := by
  cases g with
  | faz | user => rfl
  | format f => cases f <;> decide
  | deadlineSecs n | connectTimeoutSecs n =>
    simp only [opt, text, Opt.check, number?_eq_some_iff.2 n.spells, Option.isSome_some, if_true]

/-- What a reading holds of it. -/
def entry (g : Setting) : Opt × String := (g.opt, g.text)

theorem map_fst_entry (settings : List Setting) :
    (settings.map entry).map Prod.fst = settings.map opt := by
  rw [List.map_map]
  rfl

end Setting

/-- The arguments of a command, with the operand behind two dashes. -/
def argumentsOf : Command → List String
  | .hookAll => ["hook-all"]
  | .unhookAll => ["unhook-all"]
  | .register username => ["register", "--", username]
  | .follow username => ["follow", "--", username]
  | .profile => ["profile"]
  | .caw text none => ["caw", "--", text]
  | .caw text (some reply) => ["caw", "--reply=" ++ reply, "--", text]
  | .read id => ["read", "--", id]

/-! ## Reading options -/

theorem shape_long {name : String} (h : '=' ∉ name.toList) (value : String) :
    shape ("--" ++ name ++ "=" ++ value) = .long name (some value) := by
  have hname : ∀ c ∈ name.toList, decide (c ≠ '=') = true := by
    intro c hc
    exact decide_eq_true fun heq => h (heq ▸ hc)
  have hcut : splitEquals (name.toList ++ '=' :: value.toList) = (name, some value) := by
    rw [splitEquals, List.takeWhile_append_of_pos hname, List.dropWhile_append_of_pos hname]
    simp
  have htext : ("--" ++ name ++ "=" ++ value).toList =
      '-' :: '-' :: (name.toList ++ '=' :: value.toList) := by
    simp
  obtain ⟨c, cs, hcs⟩ := List.exists_cons_of_ne_nil
    (List.append_ne_nil_of_right_ne_nil name.toList (List.cons_ne_nil '=' value.toList))
  rw [hcs] at hcut htext
  simp only [shape, htext, hcut]

/-- No subcommand looks like an option. -/
theorem ofName?_dashes (s : String) : Subcommand.ofName? ("--" ++ s) = none := by
  have hname (sub : Subcommand) : sub.name.toList.head? ≠ some '-' := by cases sub <;> decide
  rw [Subcommand.ofName?, List.find?_eq_none]
  intro sub _ heq
  refine hname sub ?_
  rw [of_decide_eq_true heq, String.toList_append]
  rfl

theorem ofName?_name (s : Subcommand) : Subcommand.ofName? s.name = some s := by
  cases s <;> decide

namespace Reading

theorem any_given_eq_false {given : List (Opt × String)} {o : Opt}
    (h : o ∉ given.map Prod.fst) : given.any (·.1 = o) = false := by
  simp only [List.any_eq_false, decide_eq_true_iff]
  exact fun entry hentry heq => h (heq ▸ List.mem_map_of_mem hentry)

theorem accept_of_notMem {r : Reading} {o : Opt} {v : String} (h : o ∉ r.given.map Prod.fst)
    (hcheck : o.check v = .ok ()) :
    r.accept o (some v) = .ok { r with given := r.given ++ [(o, v)] } := by
  simp [accept, any_given_eq_false h, hcheck]

end Reading

/-- A long option with its value is taken in as it is. -/
theorem step_long {s : Scope} {given : List (Opt × String)} {o : Opt} {v : String}
    (hknown : s.long? o.long = some o) (hvalue : o ≠ .help ∧ o ≠ .version)
    (hnew : o ∉ given.map Prod.fst) (hcheck : o.check v = .ok ()) :
    step s { given } ("--" ++ o.long ++ "=" ++ v) = .ok (.next { given := given ++ [(o, v)] }) := by
  have hname : '=' ∉ o.long.toList := by cases o <;> decide
  have hoption : Reading.option { given } o (some v) = .ok { given := given ++ [(o, v)] } := by
    have haccept := Reading.accept_of_notMem (r := { given }) hnew hcheck
    cases o <;> first | exact haccept | simp at hvalue
  have hsub : Subcommand.ofName? ("--" ++ o.long ++ "=" ++ v) = none := by
    rw [String.append_assoc, String.append_assoc, ofName?_dashes]
  simp only [step, hsub, ite_self, shape_long hname, hknown, hoption]
  rfl

theorem step_setting {given : List (Opt × String)} (g : Setting) (h : g.opt ∉ given.map Prod.fst) :
    step .program { given } g.argument = .ok (.next { given := given ++ [g.entry] }) := by
  have hopts : ∀ o ∈ [Opt.faz, .user, .format, .deadlineSecs, .connectTimeoutSecs],
      Scope.program.long? o.long = some o ∧ o ≠ .help ∧ o ≠ .version := by decide
  obtain ⟨hknown, hvalue⟩ := hopts _ g.opt_mem
  rw [g.argument_eq]
  exact step_long hknown hvalue h g.check_text

/-- Options in front are read one after the other. -/
theorem scan_settings {given : List (Opt × String)} {settings : List Setting} {rest : List String}
    (h : (given.map Prod.fst ++ settings.map Setting.opt).Nodup) :
    scan .program { given } (settings.map Setting.argument ++ rest) =
      scan .program { given := given ++ settings.map Setting.entry } rest := by
  -- What was read before grows by one option at a time, and none of it is named again.
  induction settings generalizing given with
  | nil => simp
  | cons g settings ih =>
    have hnew : g.opt ∉ given.map Prod.fst := by
      intro hmem
      exact List.disjoint_of_nodup_append h hmem List.mem_cons_self
    have hrest : ((given ++ [g.entry]).map Prod.fst ++ settings.map Setting.opt).Nodup := by
      simpa [Setting.entry] using h
    rw [List.map_cons, List.cons_append, scan, step_setting g hnew]
    simp only [ih hrest, List.map_cons, List.append_assoc, List.singleton_append]

/-! ## Reading commands -/

/-- The subcommand of a command. -/
def subcommandOf : Command → Subcommand
  | .hookAll => .hookAll
  | .unhookAll => .unhookAll
  | .register _ => .register
  | .follow _ => .follow
  | .profile => .profile
  | .caw _ _ => .caw
  | .read _ => .read

theorem argumentsOf_eq (command : Command) :
    argumentsOf command = (subcommandOf command).name :: (argumentsOf command).tail := by
  cases command with
  | caw text reply => cases reply <;> rfl
  | _ => rfl

/-- The name of a subcommand ends the options of the program. -/
theorem scan_name (given : List (Opt × String)) (s : Subcommand) (args : List String) :
    scan .program { given } (s.name :: args) = .ok ({ given }, some (s, args)) := by
  have hstep : step .program { given } s.name = .ok (.begins s) := by
    simp [step, Reading.wantsValue, ofName?_name]
  rw [scan, hstep]

/-- What stands behind two dashes is the operand, whatever it looks like. -/
theorem scan_operand {s : Subcommand} (h : s.hasOperand = true) (given : List (Opt × String))
    (operand : String) :
    scan (.subcommand s) { given } ["--", operand] =
      .ok ({ given, operand := some operand, escaped := true }, none) := by
  have hshape : shape "--" = .escape := by decide
  have hdashes : step (.subcommand s) { given } "--" =
      .ok (.next { given, escaped := true }) := by
    simp [step, hshape]
  have hoperand : step (.subcommand s) { given, escaped := true } operand =
      .ok (.next { given, operand := some operand, escaped := true }) := by
    simp [step, operandStep, Scope.hasOperand, Reading.settle, h]
  simp only [scan, hdashes, hoperand]

theorem readSubcommand_operand {s : Subcommand} (h : s.hasOperand = true) (operand : String) :
    readSubcommand s ["--", operand] =
      toCommand s { operand := some operand, escaped := true } := by
  have hhelp : s ≠ .help := by rintro rfl; contradiction
  rw [readSubcommand, if_neg hhelp, scan_operand h]
  rfl

theorem readSubcommand_argumentsOf (command : Command) :
    readSubcommand (subcommandOf command) (argumentsOf command).tail = .ok command := by
  cases command with
  | hookAll | unhookAll | profile => rfl
  | register operand | follow operand | read operand => exact readSubcommand_operand rfl operand
  | caw text reply =>
    cases reply with
    | none => exact readSubcommand_operand rfl text
    | some reply =>
      have hstep : step (.subcommand .caw) {} ("--" ++ Opt.reply.long ++ "=" ++ reply) =
          .ok (.next { given := [(.reply, reply)] }) :=
        step_long rfl (by decide) List.not_mem_nil rfl
      have hscan : scan (.subcommand .caw) {} ["--reply=" ++ reply, "--", text] =
          .ok ({ given := [(.reply, reply)], operand := some text, escaped := true }, none) := by
        rw [scan, show "--reply=" = "--" ++ Opt.reply.long ++ "=" from rfl, hstep]
        exact scan_operand rfl _ text
      have hread : readSubcommand .caw ["--reply=" ++ reply, "--", text] =
          .ok (.caw text (some reply)) := by
        rw [readSubcommand, hscan]
        rfl
      exact hread

/-! ## The environment -/

/-- What stands in for an option. -/
def Opt.standIn (env : Environment) (o : Opt) : Option String :=
  o.environmentName?.bind fun name => env.lookup name

/-- Takes in what stands in for an option. -/
def addStandIn (env : Environment) (r : Reading) (o : Opt) : Except Refusal Reading :=
  if r.given.any (·.1 = o) then .ok r
  else
    match o.standIn env with
    | none => .ok r
    | some v => r.accept o (some v)

theorem addEnvironment_eq (env : Environment) (r : Reading) :
    addEnvironment env r = Scope.program.options.foldlM (addStandIn env) r :=
  rfl

namespace Reading

variable {env : Environment} {r : Reading} {o : Opt}

theorem any_given : r.given.any (·.1 = o) = (r.value? o).isSome := by
  rw [Bool.eq_iff_iff, List.any_eq_true, value?, Option.isSome_map, List.find?_isSome]

theorem value?_concat (r : Reading) (o : Opt) (v : String) (o' : Opt) :
    ({ r with given := r.given ++ [(o, v)] } : Reading).value? o' =
      (r.value? o').or (if o' = o then some v else none) := by
  simp only [value?, List.find?_append, Option.map_or]
  by_cases h : o' = o
  · simp [h]
  · simp [h, Ne.symm h]

/-- An option is taken to be what it was before, or else what stands in for it. -/
theorem value?_addStandIn
    (h : r.value? o = none → ∀ v, o.standIn env = some v → o.check v = .ok ()) :
    ∃ later, addStandIn env r o = .ok later ∧
      ∀ o', later.value? o' = (r.value? o').or (if o' = o then o.standIn env else none) := by
  rw [addStandIn, any_given]
  cases hgiven : r.value? o with
  | some v =>
    refine ⟨r, rfl, fun o' => ?_⟩
    by_cases ho : o' = o
    · rw [ho, hgiven, Option.some_or]
    · rw [if_neg ho, Option.or_none]
  | none =>
    cases hstands : o.standIn env with
    | none => exact ⟨r, rfl, fun o' => by rw [ite_self, Option.or_none]⟩
    | some v =>
      refine ⟨{ r with given := r.given ++ [(o, v)] }, ?_, value?_concat r o v⟩
      simp [accept, any_given, hgiven, h hgiven v hstands]

theorem value?_foldlM_addStandIn {opts : List Opt}
    (h : ∀ o ∈ opts, r.value? o = none → ∀ v, o.standIn env = some v → o.check v = .ok ()) :
    ∃ later, opts.foldlM (addStandIn env) r = .ok later ∧
      ∀ o, later.value? o = (r.value? o).or (if o ∈ opts then o.standIn env else none) := by
  induction opts generalizing r with
  | nil => exact ⟨r, rfl, by simp⟩
  | cons o opts ih =>
    rw [List.forall_mem_cons] at h
    obtain ⟨next, hnext, hvalue⟩ := value?_addStandIn h.1
    obtain ⟨later, hlater, hvalues⟩ := ih (r := next) fun o' ho' hnone => by
      rw [hvalue, Option.or_eq_none_iff] at hnone
      exact h.2 o' ho' hnone.1
    refine ⟨later, ?_, fun o' => ?_⟩
    · rw [List.foldlM_cons, hnext]
      exact hlater
    · rw [hvalues, hvalue, Option.or_assoc]
      by_cases ho : o' = o
      · subst ho
        cases o'.standIn env <;> simp
      · simp [ho]

/-- The settings of the environment are taken in unless a text is to be a number and is none. -/
theorem addEnvironment_eq_ok
    (h : r.value? .deadlineSecs = none → ∀ text, Opt.deadlineSecs.standIn env = some text →
      (number? text).isSome) :
    ∃ later, addEnvironment env r = .ok later ∧
      ∀ o, later.value? o = (r.value? o).or (o.standIn env) := by
  have hcheck : ∀ o ∈ Scope.program.options, r.value? o = none → ∀ v, o.standIn env = some v →
      o.check v = .ok () := by
    intro o _ hnone v hv
    cases o with
    | deadlineSecs => exact if_pos (h hnone v hv)
    | format | connectTimeoutSecs => cases hv
    | faz | user | reply | help | version => rfl
  obtain ⟨later, hlater, hvalues⟩ := value?_foldlM_addStandIn hcheck
  refine ⟨later, hlater, fun o => ?_⟩
  have hunknown : o ∉ Scope.program.options → o.standIn env = none := by
    cases o <;> first | exact fun _ => rfl | exact fun hnot => absurd (by decide) hnot
  rw [hvalues]
  by_cases ho : o ∈ Scope.program.options
  · rw [if_pos ho]
  · rw [if_neg ho, hunknown ho]

theorem addEnvironment_eq_error {text : String} (hnone : r.value? .deadlineSecs = none)
    (hstands : Opt.deadlineSecs.standIn env = some text) (htext : number? text = none) :
    addEnvironment env r = .error .notANumber := by
  have hbefore : ∀ o ∈ [Opt.faz, .user, .format], r.value? o = none → ∀ v,
      o.standIn env = some v → o.check v = .ok () := by
    intro o ho _ v hv
    cases o with
    | format => cases hv
    | faz | user => rfl
    | _ => simp at ho
  obtain ⟨next, hnext, hvalues⟩ := value?_foldlM_addStandIn hbefore
  have hvalue : next.value? .deadlineSecs = none := by rw [hvalues, hnone]; rfl
  have hrefused : addStandIn env next .deadlineSecs = .error .notANumber := by
    simp [addStandIn, any_given, hvalue, hstands, accept, Opt.check, htext]
  have hopts : Scope.program.options =
      [.faz, .user, .format] ++ .deadlineSecs :: [.connectTimeoutSecs, .help, .version] := rfl
  rw [addEnvironment_eq, hopts, List.foldlM_append, hnext]
  simp only [bind, Except.bind, List.foldlM_cons, hrefused]

/-- With each option given once, the values are those that are given. -/
theorem value?_given_eq_some_iff {given : List (Opt × String)} (h : (given.map Prod.fst).Nodup)
    {v : String} : ({ given } : Reading).value? o = some v ↔ (o, v) ∈ given := by
  induction given with
  | nil => simp [value?]
  | cons entry given ih =>
    obtain ⟨k, w⟩ := entry
    rw [List.map_cons, List.nodup_cons] at h
    by_cases ho : k = o
    · subst ho
      have hnot : (k, v) ∉ given := fun hmem => h.1 (List.mem_map.2 ⟨_, hmem, rfl⟩)
      simp [value?, hnot, eq_comm]
    · have hlater : ({ given := (k, w) :: given } : Reading).value? o =
          ({ given } : Reading).value? o := by
        simp [value?, ho]
      rw [hlater, ih h.2, List.mem_cons, Prod.mk.injEq]
      exact (or_iff_right fun heq => ho heq.1.symm).symm

end Reading

end CommandLine

end FazClient
