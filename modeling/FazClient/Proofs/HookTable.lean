import FazClient.Output
import FazClient.Proofs.Logging
import FazClient.Service.Scripted
import Mathlib.Algebra.Ring.Nat

/-!
# FazClient.Proofs.HookTable

The lines of the table on the handlers.  Every entry of the registry has a row, and a row is one
line unless the text of an error holds a line break.  Such a text comes from the service, and is
shown as it is.

* `HookReport.render_table` — the table row by row;
* `Lines.unique`, `Lines.breaks_eq` — the lines of a text;
* `HookReport.render_forged` — how the text of an error can pass for a row;
* `HookReport.eq_of_render_eq` — which tables are the tables of one report only;
* `hook_table_tells_what_failed` — what this means for the table on any run.
-/

namespace FazClient

/-! ## Lines -/

/-- How many line breaks there are in a text. -/
def breaks (text : String) : Nat := text.toList.count '\n'

@[simp] theorem breaks_append (s t : String) : breaks (s ++ t) = breaks s + breaks t := by
  simp [breaks]

theorem breaks_join_lines (lines : List String) :
    breaks (String.join (lines.map (· ++ "\n"))) = lines.length + (lines.map breaks).sum := by
  induction lines with
  | nil => rfl
  | cons line lines ih =>
    have hline : breaks (line ++ "\n") = breaks line + 1 := breaks_append line "\n"
    rw [List.map_cons, String.join_cons, breaks_append, ih, hline, List.length_cons, List.map_cons,
      List.sum_cons]
    omega

theorem breaks_eq_zero_iff {text : String} : breaks text = 0 ↔ '\n' ∉ text.toList :=
  List.count_eq_zero

/-- The text consists of these lines, each with a line break at its end and none before that. -/
structure Lines (text : String) (lines : List String) : Prop where
  text_eq : text = String.join (lines.map (· ++ "\n"))
  unbroken : ∀ line ∈ lines, breaks line = 0

namespace Lines

variable {text : String} {lines : List String}

theorem breaks_eq (h : Lines text lines) : breaks text = lines.length := by
  have hsum : (lines.map breaks).sum = 0 := by
    simpa [List.sum_eq_zero_iff_forall_eq_nat] using h.unbroken
  rw [h.text_eq, breaks_join_lines, hsum, Nat.add_zero]

/-- The first line goes up to the first line break. -/
theorem takeWhile_eq {line rest : String} (h : breaks line = 0) :
    (line ++ "\n" ++ rest).toList.takeWhile (· ≠ '\n') = line.toList := by
  have hline : ∀ c ∈ line.toList, decide (c ≠ '\n') = true := by
    intro c hc
    exact decide_eq_true fun heq => breaks_eq_zero_iff.1 h (heq ▸ hc)
  rw [String.append_assoc, String.toList_append, List.takeWhile_append_of_pos hline,
    String.toList_append]
  exact List.append_nil _

/-- There is one way to cut a text into lines. -/
theorem unique {lines' : List String} (h : Lines text lines) (h' : Lines text lines') :
    lines = lines' := by
  induction lines generalizing text lines' with
  | nil => exact (List.length_eq_zero_iff.1 (h'.breaks_eq.symm.trans h.breaks_eq)).symm
  | cons line lines ih =>
    cases lines' with
    | nil => exact absurd (h'.breaks_eq.symm.trans h.breaks_eq) (Nat.zero_ne_add_one _)
    | cons line' lines' =>
      obtain ⟨rfl, hlines⟩ := h
      obtain ⟨htext, hlines'⟩ := h'
      rw [List.forall_mem_cons] at hlines hlines'
      rw [List.map_cons, List.map_cons, String.join_cons, String.join_cons] at htext
      have hline : line = line' := by
        rw [← String.toList_inj, ← takeWhile_eq hlines.1, htext, takeWhile_eq hlines'.1]
      subst hline
      have hrest := String.append_right_inj _ |>.1 htext
      rw [ih ⟨rfl, hlines.2⟩ ⟨hrest, hlines'.2⟩]

end Lines

/-! ## Rows -/

namespace HookReport

/-- What the first line says. -/
def titles : String :=
  padRight 6 "TYPE" ++ " " ++ padRight 15 "EVENT" ++ " " ++ padRight 14 "HANDLER" ++ " STATUS"

/-- What a row says of an entry, in front of its status. -/
def label (entry : EventType × String) : String :=
  padRight 6 (toString entry.1.value) ++ " " ++ padRight 15 entry.1.name ++ " "
    ++ padRight 14 entry.2 ++ " "

/-- The row of an outcome. -/
def row (action : String) (o : HookOutcome) : String := label o.entry ++ status action o

theorem join_hookRow (action : String) (o : HookOutcome) :
    String.join (hookRow (toString o.event.value) o.event.name o.handler (status action o)) =
      row action o ++ "\n" := by
  simp [hookRow, row, label, HookOutcome.entry, String.append_assoc]

/-- The table is its titles and a row for each outcome, with a line break after each. -/
theorem render_table (action : String) (outcomes : List HookOutcome) :
    Format.table.render (.hooks (.of action outcomes)) =
      String.join ((titles :: outcomes.map (row action)).map (· ++ "\n")) := by
  rw [Format.render, View.table, table, of, List.flatMap_map, String.join_append, List.map_cons,
    String.join_cons]
  refine congrArg (titles ++ "\n" ++ ·) ?_
  induction outcomes with
  | nil => rfl
  | cons o outcomes ih =>
    rw [List.flatMap_cons, String.join_append, ih, List.map_cons, List.map_cons, List.map_cons,
      String.join_cons]
    exact congrArg (· ++ _) (join_hookRow action o)

/-- The text of an error can say what the next row is to say, and the row itself is then what a
longer text of the next error would say. -/
theorem render_forged (action : String) (e e' : EventType) (handler handler' text text' : String)
    (outcomes : List HookOutcome) :
    let next := "\n" ++ label (e', handler')
    Format.table.render (.hooks (.of action
        (⟨e, handler, some (text ++ (next ++ ("failed: " ++ text')))⟩ :: ⟨e', handler', none⟩ ::
          outcomes))) =
      Format.table.render (.hooks (.of action
        (⟨e, handler, some text⟩ :: ⟨e', handler', some (text' ++ (next ++ (action ++ "ed")))⟩ ::
          outcomes))) := by
  simp only [render_table, List.map_cons, String.join_cons, row, HookOutcome.entry, status,
    HookEntry.of, String.append_assoc]

variable {a : HookAction}

theorem breaks_label {entry : EventType × String} (h : entry ∈ registry) :
    breaks (label entry) = 0 := by
  revert entry
  decide +kernel

theorem breaks_status (o : HookOutcome) :
    breaks (status a.verb o) = breaks (o.error.getD "") := by
  obtain ⟨e, handler, _ | text⟩ := o
  · have hdone : breaks (a.verb ++ "ed") = 0 := by cases a <;> decide +kernel
    exact hdone
  · exact (breaks_append "failed: " text).trans (Nat.zero_add _)

/-- The status of a success is not that of a failure, and a failure is shown with its text. -/
theorem error_eq_of_status_eq {o o' : HookOutcome} (h : status a.verb o = status a.verb o') :
    o.error = o'.error := by
  have hfirst : ∀ text, a.verb ++ "ed" ≠ "failed: " ++ text := by
    intro text heq
    have hhead := congrArg (fun s : String => s.toList.head?) heq
    cases a <;> simp [HookAction.verb] at hhead
  obtain ⟨e, handler, _ | text⟩ := o <;> obtain ⟨e', handler', _ | text'⟩ := o'
  · rfl
  · exact absurd h (hfirst text')
  · exact absurd h.symm (hfirst text)
  · exact congrArg some (String.append_right_inj _ |>.1 h)

variable {a : HookAction}

/-- Rows of the same entries differ where the errors do. -/
theorem map_row_injective {outcomes outcomes' : List HookOutcome}
    (hentry : outcomes'.map HookOutcome.entry = outcomes.map HookOutcome.entry)
    (hrow : outcomes'.map (row a.verb) = outcomes.map (row a.verb)) : outcomes' = outcomes := by
  induction outcomes generalizing outcomes' with
  | nil => exact List.map_eq_nil_iff.1 hrow
  | cons o outcomes ih =>
    cases outcomes' with
    | nil => cases hrow
    | cons o' outcomes' =>
      rw [List.map_cons, List.map_cons, List.cons.injEq] at hentry hrow
      obtain ⟨hentry, hentries⟩ := hentry
      obtain ⟨hrow, hrows⟩ := hrow
      rw [row, row, hentry, String.append_right_inj] at hrow
      have herror := error_eq_of_status_eq hrow
      obtain ⟨e, handler, error⟩ := o
      obtain ⟨e', handler', error'⟩ := o'
      obtain ⟨rfl, rfl⟩ := Prod.mk.inj hentry
      obtain rfl : error' = error := herror
      rw [ih hentries hrows]

end HookReport

/-! ## Tables -/

/-- No error text has a line break. -/
def HookOutcome.Unbroken (outcomes : List HookOutcome) : Prop :=
  ∀ o ∈ outcomes, ∀ text, o.error = some text → '\n' ∉ text.toList

namespace HookReport

variable {a : HookAction} {outcomes outcomes' : List HookOutcome}

theorem unbroken_iff : HookOutcome.Unbroken outcomes ↔
    (outcomes.map fun o => breaks (o.error.getD "")).sum = 0 := by
  rw [List.sum_eq_zero_iff_forall_eq_nat, List.forall_mem_map]
  refine forall₂_congr fun o _ => ?_
  cases o.error with
  | none => simp [breaks]
  | some text => simp [breaks_eq_zero_iff]

section

variable (h : outcomes.map HookOutcome.entry = registry)

include h

theorem breaks_row {o : HookOutcome} (ho : o ∈ outcomes) :
    breaks (row a.verb o) = breaks (o.error.getD "") := by
  rw [row, breaks_append, breaks_label (h ▸ List.mem_map_of_mem ho), breaks_status, Nat.zero_add]

/-- Every line break beyond those of the titles and the rows is one of an error text. -/
theorem breaks_render : breaks (Format.table.render (.hooks (.of a.verb outcomes))) =
    1 + registry.length + (outcomes.map fun o => breaks (o.error.getD "")).sum := by
  have htitles : breaks titles = 0 := by decide +kernel
  have hrows : (outcomes.map (row a.verb)).map breaks =
      outcomes.map fun o => breaks (o.error.getD "") := by
    rw [List.map_map]
    refine List.map_congr_left fun o ho => ?_
    rw [Function.comp_apply, breaks_row h ho]
  have hlength : outcomes.length = registry.length := by rw [← h, List.length_map]
  rw [render_table, breaks_join_lines, List.map_cons, List.sum_cons, htitles, hrows,
    List.length_cons, List.length_map, hlength, Nat.zero_add, Nat.add_comm registry.length]

theorem lines_render (hunbroken : HookOutcome.Unbroken outcomes) :
    Lines (Format.table.render (.hooks (.of a.verb outcomes)))
      (titles :: outcomes.map (row a.verb)) := by
  refine ⟨render_table _ _, List.forall_mem_cons.2 ⟨by decide +kernel, ?_⟩⟩
  rw [List.forall_mem_map]
  intro o ho
  rw [breaks_row h ho]
  exact List.sum_eq_zero_iff_forall_eq_nat.1 (unbroken_iff.1 hunbroken) _
    (List.mem_map_of_mem ho)

/-- A table whose rows are lines is the table of one report only. -/
theorem eq_of_render_eq (h' : outcomes'.map HookOutcome.entry = registry)
    (hunbroken : HookOutcome.Unbroken outcomes)
    (heq : Format.table.render (.hooks (.of a.verb outcomes')) =
      Format.table.render (.hooks (.of a.verb outcomes))) : outcomes' = outcomes := by
  have hunbroken' : HookOutcome.Unbroken outcomes' := by
    have hbreaks := congrArg breaks heq
    rw [breaks_render h, breaks_render h', unbroken_iff.1 hunbroken] at hbreaks
    exact unbroken_iff.2 (by omega)
  have hlines := (lines_render h' hunbroken').unique (heq ▸ lines_render h hunbroken)
  exact map_row_injective (h'.trans h.symm) (List.tail_eq_of_cons_eq hlines)

end

end HookReport

/-- Every entry of the registry has an outcome, in order. -/
theorem Client.map_entry_driveReport (c : Client σ) (a : HookAction) (s : σ) :
    ((c.driveReport a).run s).result.map HookOutcome.entry = registry := by
  obtain ⟨-, -, -, hentries, -⟩ := c.logs_driveAll a registry s
  exact hentries

/-- **What the table tells**: whatever the service does, the table on the handlers has one line
break for its titles, one for each entry of the registry, and those of the error texts.  So it
consists of the titles and of one line for each entry, in order, with the status of the entry,
exactly if no error text has a line break.  A table like that is not the table of any other
outcomes of the action. -/
theorem hook_table_tells_what_failed (c : Client σ) (a : HookAction) (s : σ) :
    let outcomes := ((c.driveReport a).run s).result
    let text := Format.table.render (.hooks (.of a.verb outcomes))
    breaks text =
        1 + registry.length + (outcomes.map fun o => breaks (o.error.getD "")).sum ∧
      (HookOutcome.Unbroken outcomes ↔ ∃ lines, Lines text (HookReport.titles :: lines) ∧
        lines.length = registry.length ∧
        ∀ (i : Nat) entry, registry[i]? = some entry → ∃ o, outcomes[i]? = some o ∧
          o.Tells a c.deadline entry (c.service.serveCall (a.call entry)
            (c.service.after s ((registry.take i).map a.call))) ∧
          lines[i]? = some (HookReport.label entry ++ HookReport.status a.verb o)) ∧
      (HookOutcome.Unbroken outcomes → ∀ {τ : Type} (c' : Client τ) (s' : τ),
        let outcomes' := ((c'.driveReport a).run s').result
        Format.table.render (.hooks (.of a.verb outcomes')) = text → outcomes' = outcomes) := by
  intro outcomes text
  have hentries : outcomes.map HookOutcome.entry = registry := c.map_entry_driveReport a s
  have hbreaks := HookReport.breaks_render (a := a) hentries
  refine ⟨hbreaks, ⟨fun hunbroken => ?_, fun hlines => ?_⟩, fun hunbroken τ c' s' => ?_⟩
  · obtain ⟨hlength, htells⟩ := Client.tells_driveAll (c := c) (a := a) registry s
    refine ⟨outcomes.map (HookReport.row a.verb), HookReport.lines_render hentries hunbroken,
      List.length_map _ |>.trans hlength, fun i entry hi => ?_⟩
    obtain ⟨o, ho, htell⟩ := htells i entry hi
    refine ⟨o, ho, htell, ?_⟩
    have hget : outcomes[i]? = some o := ho
    have hentry : o.entry = entry := Prod.ext htell.event htell.handler
    rw [List.getElem?_map, hget, Option.map_some, HookReport.row, hentry]
  · obtain ⟨lines, hlines, hlength, -⟩ := hlines
    -- there is no line break left for the errors
    rw [hlines.breaks_eq, List.length_cons, hlength, Nat.add_comm _ 1] at hbreaks
    exact HookReport.unbroken_iff.2 (Nat.left_eq_add.1 hbreaks)
  · exact HookReport.eq_of_render_eq hentries (c'.map_entry_driveReport a s') hunbroken

/-- Two calls are refused; the table has a line for each entry, and only these outcomes have
this table. -/
theorem hook_table_tells_what_failed_busy :
    let client : Client (List ScriptedReply) := ⟨.scripted, 100⟩
    let replies : List ScriptedReply :=
      [{}, { failure := some (.remote 13 "busy") }, {}, { delay := some 101 }]
    let outcomes := ((client.driveReport .hook).run replies).result
    let text := Format.table.render (.hooks (.of "hook" outcomes))
    breaks text = 6 ∧
      (∃ lines, Lines text (HookReport.titles :: lines) ∧ lines.length = 5) ∧
      ∀ replies' : List ScriptedReply,
        let outcomes' := ((client.driveReport .hook).run replies').result
        Format.table.render (.hooks (.of "hook" outcomes')) = text → outcomes' = outcomes := by
  intro client replies outcomes text
  have hsum : (outcomes.map fun o => breaks (o.error.getD "")).sum = 0 := by decide +kernel
  have hunbroken : HookOutcome.Unbroken outcomes := HookReport.unbroken_iff.2 hsum
  obtain ⟨hbreaks, hlines, hsame⟩ := hook_table_tells_what_failed client .hook replies
  obtain ⟨lines, hlines, hlength, -⟩ := hlines.1 hunbroken
  rw [hsum] at hbreaks
  exact ⟨hbreaks, ⟨lines, hlines, hlength⟩, hsame hunbroken client⟩

/-- An error text with a line break makes a line of its own; and it can forge the row of the
next entry, so that it cannot be told whether that one failed. -/
theorem error_texts_break_hook_tables :
    let client : Client (List ScriptedReply) := ⟨.scripted, 100⟩
    let outcomes replies := ((client.driveReport .hook).run replies).result
    let text replies := Format.table.render (.hooks (.of "hook" (outcomes replies)))
    let refused (said : String) : ScriptedReply := { failure := some (.remote 13 said) }
    let follow := HookReport.label (.follow, "Follow")
    let first := [refused ("x\n" ++ follow ++ "failed: faz error (code 13): y")]
    let second := [refused "x", refused ("y\n" ++ follow ++ "hooked")]
    (∀ titles lines, Lines (text [refused "busy\nsoon"]) (titles :: lines) →
        lines.length ≠ registry.length) ∧
      text first = text second ∧
      (outcomes first).map HookOutcome.isOk = [false, true, true, true, true] ∧
      (outcomes second).map HookOutcome.isOk = [false, false, true, true, true] := by
  intro client outcomes text refused follow first second
  refine ⟨fun titles lines hlines hlength => ?_, ?_, rfl, rfl⟩
  · have hbreaks := HookReport.breaks_render (a := .hook)
      (client.map_entry_driveReport .hook [refused "busy\nsoon"])
    have hsum : (((client.driveReport .hook).run [refused "busy\nsoon"]).result.map
        fun o => breaks (o.error.getD "")).sum = 1 := by decide +kernel
    rw [hsum, ← hlength] at hbreaks
    have hlines := hlines.breaks_eq
    rw [List.length_cons] at hlines
    exact absurd (hlines.symm.trans hbreaks) (by omega)
  · exact HookReport.render_forged "hook" .registerUser .follow "RegisterUser" "Follow"
      "faz error (code 13): x" "faz error (code 13): y" _

end FazClient
