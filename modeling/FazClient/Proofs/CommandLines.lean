import FazClient.Proofs.Options

/-!
# FazClient.Proofs.CommandLines

What a command line means: each option is what it is set to, or else what the environment or the
default says.

* `parse_of_misread`, `parse_of_not_misread` — what comes of a line;
* `Chosen`, `Means` — what it is to mean, and `means_iff` — that this is what comes of it;
* `Parsed.config_eq_ok_iff` — which settings of a session are valid;
* `command_lines_are_read_as_meant` — all of it together.
-/

namespace FazClient

namespace CommandLine

/-! ## The whole line -/

/-- The values of some settings. -/
def valuesOf (settings : List Setting) (o : Opt) : Option String :=
  ({ given := settings.map Setting.entry } : Reading).value? o

section

variable {settings : List Setting}

theorem valuesOf_eq_some_iff (h : (settings.map Setting.opt).Nodup) {o : Opt} {v : String} :
    valuesOf settings o = some v ↔ ∃ g ∈ settings, g.opt = o ∧ g.text = v := by
  have hentries : ((settings.map Setting.entry).map Prod.fst).Nodup := by
    rwa [Setting.map_fst_entry]
  rw [valuesOf, Reading.value?_given_eq_some_iff hentries, List.mem_map]
  simp only [Setting.entry, Prod.mk.injEq]

/-- The order of the settings does not matter. -/
theorem valuesOf_perm {settings' : List Setting} (hperm : settings'.Perm settings)
    (h : (settings.map Setting.opt).Nodup) : valuesOf settings' = valuesOf settings := by
  have h' : (settings'.map Setting.opt).Nodup := (hperm.map _).nodup_iff.2 h
  funext o
  ext v
  rw [valuesOf_eq_some_iff h, valuesOf_eq_some_iff h']
  simp only [hperm.mem_iff]

end

/-- The command line that is understood when the options have these values. -/
def assembleFrom (value? : Opt → Option String) (command : Command) : Parsed where
  faz := (value? .faz).getD Config.defaultUrl
  user := value? .user
  format := ((value? .format).bind format?).getD .default
  deadlineSecs := ((value? .deadlineSecs).bind number?).getD 10
  connectTimeoutSecs := ((value? .connectTimeoutSecs).bind number?).getD 10
  command := command

section

variable {env : Environment} {settings : List Setting} {command : Command}

/-- The options are read, then the command, and the environment comes last. -/
theorem parse_settings (h : (settings.map Setting.opt).Nodup) :
    parse env (settings.map Setting.argument ++ argumentsOf command) =
      (addEnvironment env { given := settings.map Setting.entry }).map (assemble · command) := by
  have hscan : scan .program {} (settings.map Setting.argument ++ argumentsOf command) =
      .ok ({ given := settings.map Setting.entry },
        some (subcommandOf command, (argumentsOf command).tail)) := by
    have hnone : (([] : List (Opt × String)).map Prod.fst ++ settings.map Setting.opt).Nodup := h
    rw [scan_settings hnone, argumentsOf_eq, scan_name]
    rfl
  have hsettle : ({ given := settings.map Setting.entry } : Reading).settle =
      .ok { given := settings.map Setting.entry } := rfl
  rw [parse, hscan]
  simp only [bind, Except.bind, readSubcommand_argumentsOf, hsettle]
  cases addEnvironment env { given := settings.map Setting.entry } <;> rfl

/-- No deadline is given, and the text that stands in for it is no count. -/
def Misread (env : Environment) (settings : List Setting) : Prop :=
  (∀ c, .deadlineSecs c ∉ settings) ∧
    ∃ text, env.lookup "CAW_DEADLINE_SECS" = some text ∧ ∀ n, ¬ Spells text n

theorem misread_iff (h : (settings.map Setting.opt).Nodup) :
    Misread env settings ↔ valuesOf settings .deadlineSecs = none ∧
      ∃ text, Opt.deadlineSecs.standIn env = some text ∧ number? text = none := by
  have hgiven : valuesOf settings .deadlineSecs = none ↔ ∀ c, .deadlineSecs c ∉ settings := by
    rw [Option.eq_none_iff_forall_ne_some]
    constructor
    · exact fun hnone c hc => hnone c.text ((valuesOf_eq_some_iff h).2 ⟨_, hc, rfl, rfl⟩)
    · intro hnone text htext
      obtain ⟨g, hg, hopt, -⟩ := (valuesOf_eq_some_iff h).1 htext
      cases g <;> first | exact hnone _ hg | cases hopt
  have htext (text : String) : number? text = none ↔ ∀ n, ¬ Spells text n := by
    simp only [Option.eq_none_iff_forall_ne_some, ne_eq, number?_eq_some_iff]
  simp only [Misread, hgiven, htext]
  rfl

theorem parse_of_misread (h : (settings.map Setting.opt).Nodup) (hmisread : Misread env settings) :
    parse env (settings.map Setting.argument ++ argumentsOf command) = .error .notANumber := by
  obtain ⟨hnone, text, hstands, htext⟩ := (misread_iff h).1 hmisread
  rw [parse_settings h, Reading.addEnvironment_eq_error hnone hstands htext]
  rfl

theorem parse_of_not_misread (h : (settings.map Setting.opt).Nodup)
    (hread : ¬ Misread env settings) :
    parse env (settings.map Setting.argument ++ argumentsOf command) =
      .ok (assembleFrom (fun o => (valuesOf settings o).or (o.standIn env)) command) := by
  have hnumber : valuesOf settings .deadlineSecs = none → ∀ text,
      Opt.deadlineSecs.standIn env = some text → (number? text).isSome :=
    fun hnone text hstands => Option.isSome_iff_ne_none.2 fun htext =>
      hread ((misread_iff h).2 ⟨hnone, text, hstands, htext⟩)
  obtain ⟨later, hlater, hvalues⟩ := Reading.addEnvironment_eq_ok hnumber
  have hassemble : assemble later command = assembleFrom later.value? command := rfl
  rw [parse_settings h, hlater, Except.map, hassemble]
  simp only [assembleFrom, hvalues, valuesOf]

end

/-! ## What a line means -/

/-- The value of an option is the one that is given; where none is given it is the one that
stands in for it, and where there is none it is the default. -/
inductive Chosen {α : Type} (given stands : α → Prop) (default : α) : α → Prop
  | given {a : α} (h : given a) : Chosen given stands default a
  | stands {a : α} (hgiven : ∀ b, ¬ given b) (h : stands a) : Chosen given stands default a
  | default (hgiven : ∀ b, ¬ given b) (hstands : ∀ b, ¬ stands b) :
      Chosen given stands default default

theorem chosen_iff_eq_getD {α : Type} {given stands : α → Prop} {default : α} {g e : Option α}
    (hg : ∀ a, g = some a ↔ given a) (he : ∀ a, e = some a ↔ stands a) (a : α) :
    Chosen given stands default a ↔ a = (g.or e).getD default := by
  have hnone (hgiven : ∀ b, ¬ given b) : g = none :=
    Option.eq_none_iff_forall_ne_some.2 fun b hb => hgiven b ((hg b).1 hb)
  have hnone' (hstands : ∀ b, ¬ stands b) : e = none :=
    Option.eq_none_iff_forall_ne_some.2 fun b hb => hstands b ((he b).1 hb)
  constructor
  · rintro (hgiven | ⟨hgiven, hstands⟩ | ⟨hgiven, hstands⟩)
    · rw [(hg a).2 hgiven, Option.some_or, Option.getD_some]
    · rw [hnone hgiven, (he a).2 hstands, Option.none_or, Option.getD_some]
    · rw [hnone hgiven, hnone' hstands, Option.none_or, Option.getD_none]
  · rintro rfl
    cases g with
    | some a => exact .given ((hg a).1 rfl)
    | none =>
      have hgiven (b : α) : ¬ given b := fun h => nomatch (hg b).2 h
      cases e with
      | some a => exact .stands hgiven ((he a).1 rfl)
      | none => exact .default hgiven fun b h => nomatch (he b).2 h

/-- What a line means in an environment. -/
structure Means (env : Environment) (settings : List Setting) (command : Command) (p : Parsed) :
    Prop where
  command : p.command = command
  faz : Chosen (.faz · ∈ settings) (env.lookup "CAW_FAZ_ADDR" = some ·) "ws://localhost:50000" p.faz
  user : Chosen (fun u => ∃ name, some name = u ∧ .user name ∈ settings)
    (fun u => ∃ name, env.lookup "CAW_USER" = some name ∧ some name = u) none p.user
  format : Chosen (.format · ∈ settings) (fun _ => False) .table p.format
  deadlineSecs : Chosen (fun n => ∃ c : Count, c.value = n ∧ .deadlineSecs c ∈ settings)
    (fun n => ∃ text, env.lookup "CAW_DEADLINE_SECS" = some text ∧ Spells text n) 10 p.deadlineSecs
  connectTimeoutSecs :
    Chosen (fun n => ∃ c : Count, c.value = n ∧ .connectTimeoutSecs c ∈ settings)
      (fun _ => False) 10 p.connectTimeoutSecs

section

variable (env : Environment) {settings : List Setting} {α β : Type} (o : Opt) (mk : β → Setting)
  (val : β → α) (read : String → Option α)

theorem valuesOf_bind_eq_some_iff (h : (settings.map Setting.opt).Nodup)
    (hopt : ∀ g : Setting, g.opt = o ↔ ∃ b, g = mk b)
    (hread : ∀ b, read (mk b).text = some (val b)) (a : α) :
    (valuesOf settings o).bind read = some a ↔ ∃ b, val b = a ∧ mk b ∈ settings := by
  rw [Option.bind_eq_some_iff]
  constructor
  · rintro ⟨text, htext, ha⟩
    obtain ⟨g, hg, ho, rfl⟩ := (valuesOf_eq_some_iff h).1 htext
    obtain ⟨b, rfl⟩ := (hopt g).1 ho
    exact ⟨b, Option.some.inj ((hread b).symm.trans ha), hg⟩
  · rintro ⟨b, rfl, hg⟩
    exact ⟨_, (valuesOf_eq_some_iff h).2 ⟨_, hg, (hopt _).2 ⟨b, rfl⟩, rfl⟩, hread b⟩

/-- The value that is chosen for an option whose settings are made by `mk`, and whose text is
read by `read`. -/
theorem chosen_iff (h : (settings.map Setting.opt).Nodup)
    (hopt : ∀ g : Setting, g.opt = o ↔ ∃ b, g = mk b)
    (hread : ∀ b, read (mk b).text = some (val b)) (default a : α) :
    Chosen (fun a => ∃ b, val b = a ∧ mk b ∈ settings)
      (fun a => ∃ text, o.standIn env = some text ∧ read text = some a) default a ↔
      a = (((valuesOf settings o).or (o.standIn env)).bind read).getD default := by
  have hbind : ((valuesOf settings o).or (o.standIn env)).bind read =
      ((valuesOf settings o).bind read).or ((o.standIn env).bind read) := by
    cases hvalue : valuesOf settings o with
    | none => rfl
    | some text =>
      obtain ⟨g, -, ho, rfl⟩ := (valuesOf_eq_some_iff h).1 hvalue
      obtain ⟨b, rfl⟩ := (hopt g).1 ho
      rw [Option.some_or, Option.bind_some, hread, Option.some_or]
  rw [hbind]
  exact chosen_iff_eq_getD (valuesOf_bind_eq_some_iff o mk val read h hopt hread)
    (fun a => Option.bind_eq_some_iff) a

end

section

variable {env : Environment} {settings : List Setting} (h : (settings.map Setting.opt).Nodup)

include h

theorem chosen_faz_iff (url : String) :
    Chosen (.faz · ∈ settings) (env.lookup "CAW_FAZ_ADDR" = some ·) "ws://localhost:50000" url ↔
      url = ((valuesOf settings .faz).or (Opt.faz.standIn env)).getD Config.defaultUrl := by
  have hopt (g : Setting) : g.opt = .faz ↔ ∃ url, g = .faz url := by
    cases g <;> simp [Setting.opt]
  simpa [Config.defaultUrl, Opt.standIn, Opt.environmentName?] using
    chosen_iff env .faz .faz id some h hopt (fun _ => rfl) Config.defaultUrl url

theorem chosen_user_iff (user : Option String) :
    Chosen (fun u => ∃ name, some name = u ∧ .user name ∈ settings)
      (fun u => ∃ name, env.lookup "CAW_USER" = some name ∧ some name = u) none user ↔
      user = (valuesOf settings .user).or (Opt.user.standIn env) := by
  have hopt (g : Setting) : g.opt = .user ↔ ∃ name, g = .user name := by
    cases g <;> simp [Setting.opt]
  have hsome (u? : Option String) : (u?.bind fun name => some (some name)).getD none = u? := by
    cases u? <;> rfl
  simpa [hsome, Opt.standIn, Opt.environmentName?] using
    chosen_iff env .user .user some (fun name => some (some name)) h hopt (fun _ => rfl) none user

theorem chosen_format_iff (f : Format) :
    Chosen (.format · ∈ settings) (fun _ => False) .table f ↔
      f = (((valuesOf settings .format).or (Opt.format.standIn env)).bind format?).getD
        .default := by
  have hopt (g : Setting) : g.opt = .format ↔ ∃ f, g = .format f := by
    cases g <;> simp [Setting.opt]
  simpa [Format.default, Opt.standIn, Opt.environmentName?] using
    chosen_iff env .format .format id format? h hopt format?_formatName Format.default f

theorem chosen_deadlineSecs_iff (n : Nat) :
    Chosen (fun n => ∃ c : Count, c.value = n ∧ .deadlineSecs c ∈ settings)
      (fun n => ∃ text, env.lookup "CAW_DEADLINE_SECS" = some text ∧ Spells text n) 10 n ↔
      n = (((valuesOf settings .deadlineSecs).or (Opt.deadlineSecs.standIn env)).bind
        number?).getD 10 := by
  have hopt (g : Setting) : g.opt = .deadlineSecs ↔ ∃ c, g = .deadlineSecs c := by
    cases g <;> simp [Setting.opt]
  simpa [number?_eq_some_iff, Opt.standIn, Opt.environmentName?] using
    chosen_iff env .deadlineSecs .deadlineSecs Count.value number? h hopt
      (fun c => number?_eq_some_iff.2 c.spells) 10 n

theorem chosen_connectTimeoutSecs_iff (n : Nat) :
    Chosen (fun n => ∃ c : Count, c.value = n ∧ .connectTimeoutSecs c ∈ settings)
      (fun _ => False) 10 n ↔
      n = (((valuesOf settings .connectTimeoutSecs).or (Opt.connectTimeoutSecs.standIn env)).bind
        number?).getD 10 := by
  have hopt (g : Setting) : g.opt = .connectTimeoutSecs ↔ ∃ c, g = .connectTimeoutSecs c := by
    cases g <;> simp [Setting.opt]
  simpa [Opt.standIn, Opt.environmentName?] using
    chosen_iff env .connectTimeoutSecs .connectTimeoutSecs Count.value number? h hopt
      (fun c => number?_eq_some_iff.2 c.spells) 10 n

/-- A line has one meaning. -/
theorem means_iff {command : Command} {p : Parsed} :
    Means env settings command p ↔
      p = assembleFrom (fun o => (valuesOf settings o).or (o.standIn env)) command := by
  constructor
  · rintro ⟨hcommand, hfaz, huser, hformat, hdeadline, hconnect⟩
    obtain ⟨faz, user, format, deadlineSecs, connectTimeoutSecs, c⟩ := p
    rw [assembleFrom, Parsed.mk.injEq]
    exact ⟨(chosen_faz_iff h _).1 hfaz, (chosen_user_iff h _).1 huser,
      (chosen_format_iff h _).1 hformat, (chosen_deadlineSecs_iff h _).1 hdeadline,
      (chosen_connectTimeoutSecs_iff h _).1 hconnect, hcommand⟩
  · rintro rfl
    exact ⟨rfl, (chosen_faz_iff h _).2 rfl, (chosen_user_iff h _).2 rfl,
      (chosen_format_iff h _).2 rfl, (chosen_deadlineSecs_iff h _).2 rfl,
      (chosen_connectTimeoutSecs_iff h _).2 rfl⟩

end

/-! ## Settings of a session -/

theorem knownScheme_iff {url : String} :
    Config.knownScheme url = true ↔ ∃ rest, url = "ws://" ++ rest ∨ url = "wss://" ++ rest := by
  have hfront (scheme : String) :
      scheme.toList.isPrefixOf url.toList = true ↔ ∃ rest, url = scheme ++ rest := by
    rw [List.isPrefixOf_iff_prefix]
    constructor
    · rintro ⟨cs, hcs⟩
      refine ⟨String.ofList cs, ?_⟩
      rw [← String.toList_inj, String.toList_append, String.toList_ofList, hcs]
    · rintro ⟨rest, rfl⟩
      rw [String.toList_append]
      exact List.prefix_append _ _
  rw [Config.knownScheme, Bool.or_eq_true, hfront, hfront, exists_or]

theorem Parsed.config_eq_ok_iff {p : Parsed} {c : Config} :
    p.config = .ok c ↔
      ((∃ rest, p.faz = "ws://" ++ rest ∨ p.faz = "wss://" ++ rest) ∧
        p.deadlineSecs ≠ 0 ∧ p.connectTimeoutSecs ≠ 0) ∧
      ⟨p.faz, p.connectTimeoutSecs * 1000, p.deadlineSecs * 1000⟩ = c := by
  have hzero (n : Nat) : n * 1000 = 0 ↔ n = 0 := by omega
  rw [← knownScheme_iff, config, Config.validate]
  simp only [hzero]
  by_cases hscheme : Config.knownScheme p.faz = true
  · by_cases hconnect : p.connectTimeoutSecs = 0
    · simp [hscheme, hconnect]
    · by_cases hdeadline : p.deadlineSecs = 0 <;> simp [hscheme, hconnect, hdeadline]
  · simp [hscheme]

end CommandLine

open CommandLine in
/-- **Command lines**: options of the program that are given once each, in any order, and a
command with its operand behind two dashes are read as they are meant, whatever the texts look
like and whatever the environment holds.  The line is refused only if no deadline is given and
the text that the environment has for it is no count.  What is understood makes settings of a
session exactly if the address has one of the two schemes and no time is zero, and the times are
then those numbers of seconds. -/
theorem command_lines_are_read_as_meant (env : Environment) (settings : List Setting)
    (command : Command) (h : (settings.map Setting.opt).Nodup) :
    let outcome := parse env (settings.map Setting.argument ++ argumentsOf command)
    (Misread env settings → outcome = .error .notANumber) ∧
      (¬ Misread env settings →
        ∃ p, outcome = .ok p ∧ ∀ q, Means env settings command q ↔ q = p) ∧
      (∀ settings' : List Setting, settings'.Perm settings →
        parse env (settings'.map Setting.argument ++ argumentsOf command) = outcome) ∧
      ∀ p, outcome = .ok p →
        ((∃ c, p.config = .ok c) ↔
          (∃ rest, p.faz = "ws://" ++ rest ∨ p.faz = "wss://" ++ rest) ∧
            p.deadlineSecs ≠ 0 ∧ p.connectTimeoutSecs ≠ 0) ∧
        ∀ c, p.config = .ok c → c.fazUrl = p.faz ∧ c.callDeadline = 1000 * p.deadlineSecs ∧
          c.connectTimeout = 1000 * p.connectTimeoutSecs := by
  intro outcome
  refine ⟨parse_of_misread h, fun hread => ⟨_, parse_of_not_misread h hread, fun q => means_iff h⟩,
    fun settings' hperm => ?_, fun p _ => ⟨?_, fun c hc => ?_⟩⟩
  · have h' : (settings'.map Setting.opt).Nodup := (hperm.map _).nodup_iff.2 h
    have hmisread : Misread env settings' ↔ Misread env settings := by
      rw [misread_iff h, misread_iff h', valuesOf_perm hperm h]
    by_cases hread : Misread env settings
    · exact (parse_of_misread h' (hmisread.2 hread)).trans (parse_of_misread h hread).symm
    · rw [parse_of_not_misread h' fun hread' => hread (hmisread.1 hread'), valuesOf_perm hperm h]
      exact (parse_of_not_misread h hread).symm
  · simp only [Parsed.config_eq_ok_iff, exists_and_left, exists_eq', and_true]
  · obtain ⟨-, rfl⟩ := Parsed.config_eq_ok_iff.1 hc
    exact ⟨rfl, Nat.mul_comm _ _, Nat.mul_comm _ _⟩

open CommandLine in
/-- Values that look like options are values, and a deadline that is given keeps a useless one of
the environment out. -/
theorem command_lines_are_read_as_meant_dashes :
    let env : Environment := [("CAW_USER", "bob"), ("CAW_DEADLINE_SECS", "soon")]
    let settings : List Setting :=
      [.deadlineSecs (.ofUInt64 3), .user "--faz=x", .faz "wss://faz.example:443"]
    let command : Command := .caw "--help" (some "=p1")
    let parsed : Parsed := ⟨"wss://faz.example:443", some "--faz=x", .table, 3, 10, command⟩
    (settings.map Setting.opt).Nodup ∧
      settings.map Setting.argument ++ argumentsOf command =
        ["--deadline-secs=3", "--user=--faz=x", "--faz=wss://faz.example:443",
          "caw", "--reply==p1", "--", "--help"] ∧
      parse env (settings.map Setting.argument ++ argumentsOf command) = .ok parsed ∧
      (∃ c, parsed.config = .ok c ∧ c.callDeadline = 3000) ∧
      parse env (argumentsOf command) = .error .notANumber := by
  intro env settings command parsed
  have hnodup : (settings.map Setting.opt).Nodup := by decide
  obtain ⟨-, hread, -, hconfig⟩ := command_lines_are_read_as_meant env settings command hnodup
  obtain ⟨p, hp, hmeans⟩ := hread fun hmisread => hmisread.1 (.ofUInt64 3) (by simp [settings])
  have hparsed : Means env settings command parsed :=
    { command := rfl
      faz := .given (by simp [settings, parsed])
      user := .given ⟨_, rfl, by simp [settings]⟩
      format := .default (by simp [settings]) (by simp)
      deadlineSecs := .given ⟨.ofUInt64 3, rfl, by simp [settings]⟩
      connectTimeoutSecs := .default (by simp [settings]) (by simp) }
  obtain rfl := (hmeans parsed).1 hparsed
  obtain ⟨hok, htimes⟩ := hconfig parsed hp
  obtain ⟨c, hc⟩ := hok.2 ⟨⟨"faz.example:443", .inr (by decide)⟩, by decide, by decide⟩
  have hsoon : Misread env [] := by
    have hnone : number? "soon" = none := by decide
    refine ⟨by simp, "soon", by decide, fun n hn => ?_⟩
    rw [← number?_eq_some_iff, hnone] at hn
    contradiction
  refine ⟨hnodup, by decide +kernel, hp, ⟨c, hc, (htimes c hc).2.1⟩, ?_⟩
  exact (command_lines_are_read_as_meant env [] command .nil).1 hsoon

end FazClient
