import FazClient.Json
import FazClient.Proofs.PostingTimes

/-!
# FazClient.Proofs.JsonText

The characters of the JSON texts that are written.

* `Json.escapeChar_cases` — how a character of a string is written;
* `Json.chars` — the characters of a value, with `Json.chars_list` and `Json.chars_object` for
  values with parts: each part stands on a line of its own, with commas between them;
* `Json.plain_text` — no string has a control character that is not escaped.
-/

namespace FazClient

namespace Json

/-! ## Characters -/

/-- The characters that have an escape by letter, and the letters. -/
def shortEscapes : List (Char × Char) :=
  [('"', '"'), ('\\', '\\'), ('\x08', 'b'), ('\x0c', 'f'), ('\n', 'n'), ('\r', 'r'), ('\t', 't')]

/-- A character has an escape by letter, or it is another control and has one by number, or it
stands for itself. -/
theorem escapeChar_cases (c : Char) :
    (∃ letter, (c, letter) ∈ shortEscapes ∧ (escapeChar c).toList = ['\\', letter]) ∨
      (c.toNat < 0x20 ∧ (escapeChar c).toList =
        ['\\', 'u', '0', '0', hexDigit (c.toNat / 16), hexDigit (c.toNat % 16)]) ∨
      ((c ≠ '"' ∧ c ≠ '\\' ∧ 0x20 ≤ c.toNat) ∧ (escapeChar c).toList = [c]) := by
  by_cases hshort : c ∈ shortEscapes.map Prod.fst
  · have hall : ∀ e ∈ shortEscapes, (escapeChar e.1).toList = ['\\', e.2] := by decide +kernel
    obtain ⟨⟨c, letter⟩, hmem, rfl⟩ := List.mem_map.1 hshort
    exact .inl ⟨letter, hmem, hall _ hmem⟩
  · simp only [shortEscapes, List.map_cons, List.map_nil, List.mem_cons, List.not_mem_nil,
      or_false, not_or] at hshort
    obtain ⟨hquote, hslash, hb, hf, hn, hr, ht⟩ := hshort
    rw [escapeChar, if_neg hquote, if_neg hslash, if_neg hb, if_neg hf, if_neg hn, if_neg hr,
      if_neg ht]
    by_cases hcontrol : c.toNat < 0x20
    · rw [if_pos hcontrol]
      exact .inr (.inl ⟨hcontrol, by simp⟩)
    · rw [if_neg hcontrol]
      exact .inr (.inr ⟨⟨hquote, hslash, by omega⟩, by simp⟩)

/-- Characters as they are written between quotes. -/
def escapeAll (cs : List Char) : List Char := cs.flatMap fun c => (escapeChar c).toList

/-- A string as it is written. -/
def quote (s : String) : List Char := '"' :: escapeAll s.toList ++ ['"']

theorem escapeAll_cons (c : Char) (cs : List Char) :
    escapeAll (c :: cs) = (escapeChar c).toList ++ escapeAll cs :=
  List.flatMap_cons

theorem toList_escape (s : String) : (escape s).toList = escapeAll s.toList := by
  have hfold : ∀ (cs : List Char) (text : String),
      (cs.foldl (fun text c => text ++ escapeChar c) text).toList =
        text.toList ++ escapeAll cs := by
    intro cs
    induction cs with
    | nil => simp [escapeAll]
    | cons c cs ih => simp [ih, escapeAll_cons]
  rw [escape, hfold]
  rfl

theorem flatMap_quoted (s : String) : (quoted s).flatMap String.toList = quote s := by
  simp [quoted, quote, toList_escape]

theorem toList_toString_of_nonneg {n : Int} (h : 0 ≤ n) :
    (toString n).toList = Nat.toDigits 10 n.natAbs := by
  have habs : n.toNat = n.natAbs := by omega
  rw [Int.toString_eq_repr, Int.repr_eq_if, if_pos h, Nat.toList_repr, habs]

theorem toList_toString_of_neg {n : Int} (h : n < 0) :
    (toString n).toList = '-' :: Nat.toDigits 10 n.natAbs := by
  have habs : (-n).toNat = n.natAbs := by omega
  rw [Int.toString_eq_repr, Int.repr_eq_if, if_neg (by omega), String.toList_append,
    Nat.toList_repr, habs]
  rfl

theorem toList_newline (level : Nat) :
    (newline level).toList = '\n' :: List.replicate (2 * level) ' ' := by
  rw [newline, String.toList_append, toList_pushn]
  rfl

/-! ## Values -/

/-- What holds of a value if it holds of its items or members holds of every value. -/
theorem induction {P : Json → Prop} (bool : ∀ b, P (.bool b)) (int : ∀ n, P (.int n))
    (string : ∀ s, P (.string s)) (list : ∀ items, (∀ v ∈ items, P v) → P (.list items))
    (object : ∀ members, (∀ m ∈ members, P m.2) → P (.object members)) (v : Json) : P v :=
  @Json.rec P (fun items => ∀ v ∈ items, P v) (fun members => ∀ m ∈ members, P m.2)
    (fun m => P m.2) bool int string list object (fun _ h => nomatch h)
    (fun _ _ hv hvs => List.forall_mem_cons.2 ⟨hv, hvs⟩) (fun _ h => nomatch h)
    (fun _ _ hm hms => List.forall_mem_cons.2 ⟨hm, hms⟩) (fun _ _ hv => hv) v

/-- What follows the first part of a series: the other parts, each on a line of its own, and
the new line for the closing character. -/
def remainder (level : Nat) : List (List Char) → List Char
  | [] => (newline level).toList
  | part :: parts => ',' :: ((newline (level + 1)).toList ++ (part ++ remainder level parts))

/-- The parts of a list or an object, as they are written within it. -/
def series (level : Nat) : List (List Char) → List Char
  | [] => []
  | part :: parts => (newline (level + 1)).toList ++ (part ++ remainder level parts)

/-- The characters of a value that stands at this level. -/
def chars (level : Nat) (v : Json) : List Char := (v.chunks level).flatMap String.toList

/-- The characters of a member. -/
def memberChars (level : Nat) (m : String × Json) : List Char :=
  quote m.1 ++ ':' :: ' ' :: m.2.chars level

theorem flatMap_memberChunks (level : Nat) (m : String × Json) :
    (memberChunks level m).flatMap String.toList = memberChars level m := by
  obtain ⟨key, v⟩ := m
  rw [memberChunks, List.flatMap_append, flatMap_quoted, List.flatMap_cons]
  rfl

/-- The pieces after the first part of a series. -/
theorem flatMap_remainder (level : Nat) (chunksOf : α → List String)
    (rest : List α → List String) {text : α → List Char}
    (htext : ∀ x, (chunksOf x).flatMap String.toList = text x) (hnil : rest [] = [])
    (hcons : ∀ x xs, rest (x :: xs) = "," :: newline (level + 1) :: chunksOf x ++ rest xs)
    (xs : List α) :
    (rest xs).flatMap String.toList ++ (newline level).toList = remainder level (xs.map text) := by
  induction xs with
  | nil => simp [hnil, remainder]
  | cons x xs ih =>
    rw [List.map_cons, remainder, ← ih, ← htext, hcons]
    simp

theorem chars_string (level : Nat) (s : String) : (string s).chars level = quote s :=
  flatMap_quoted s

theorem chars_int (level : Nat) (n : Int) : (int n).chars level = (toString n).toList := by
  simp [chars, chunks]

theorem chars_list (level : Nat) (items : List Json) :
    (list items).chars level = '[' :: (series level (items.map (chars (level + 1))) ++ [']']) := by
  cases items with
  | nil => simp [chars, chunks, series]
  | cons v vs =>
    have hrest : (itemChunks (level + 1) vs).flatMap String.toList ++ (newline level).toList =
        remainder level (vs.map (chars (level + 1))) :=
      flatMap_remainder level (chunks (level + 1)) (itemChunks (level + 1)) (fun _ => rfl) rfl
        (fun _ _ => rfl) vs
    rw [List.map_cons, series, ← hrest]
    simp [chars, chunks]

theorem chars_object (level : Nat) (members : List (String × Json)) :
    (object members).chars level =
      '\x7b' :: (series level (members.map (memberChars (level + 1))) ++ ['\x7d']) := by
  cases members with
  | nil => simp [chars, chunks, series]
  | cons m ms =>
    have hrest := flatMap_remainder level (memberChunks (level + 1)) (memberListChunks (level + 1))
      (flatMap_memberChunks (level + 1)) rfl (fun _ _ => rfl) ms
    rw [List.map_cons, series, ← hrest, ← flatMap_memberChunks]
    simp [chars, chunks]

/-- The characters of a text, with the new line after it. -/
theorem toList_text (v : Json) : (v.text ++ "\n").toList = v.chars 0 ++ ['\n'] := by
  rw [String.toList_append, text, String.toList_join]
  rfl

/-! ## Controls -/

/-- A place in a JSON text: outside of strings, in one, or in one and behind a backslash. -/
inductive Place where
  | outside
  | inside
  | escaped
  deriving DecidableEq

/-- The place behind a character. -/
def Place.after : Place → Char → Place
  | .outside, c => if c = '"' then .inside else .outside
  | .inside, c => if c = '"' then .outside else if c = '\\' then .escaped else .inside
  | .escaped, _ => .inside

/-- The characters that stand between the quotes of strings, from a place on. -/
def quotedChars : Place → List Char → List Char
  | _, [] => []
  | place, c :: cs =>
    if place = .outside ∨ place.after c = .outside then quotedChars (place.after c) cs
    else c :: quotedChars (place.after c) cs

/-- From a place on, no control character stands in a string as it is. -/
def Plain (place : Place) (cs : List Char) : Prop := ∀ c ∈ quotedChars place cs, 0x20 ≤ c.toNat

/-- Characters that can be put in front of a text outside of strings. -/
def Tidy (cs : List Char) : Prop := ∀ rest, Plain .outside rest → Plain .outside (cs ++ rest)

theorem Tidy.append {cs ds : List Char} (hcs : Tidy cs) (hds : Tidy ds) : Tidy (cs ++ ds) := by
  intro rest hrest
  rw [List.append_assoc]
  exact hcs _ (hds rest hrest)

theorem tidy_of_not_mem {cs : List Char} (h : '"' ∉ cs) : Tidy cs := by
  intro rest hrest
  induction cs with
  | nil => exact hrest
  | cons c cs ih =>
    rw [List.mem_cons, not_or] at h
    obtain ⟨hc, hcs⟩ := h
    simpa [Plain, quotedChars, Place.after, Ne.symm hc] using ih hcs

theorem plain_escapeChar (c : Char) {rest : List Char} (h : Plain .inside rest) :
    Plain .inside ((escapeChar c).toList ++ rest) := by
  obtain ⟨letter, hmem, htext⟩ | ⟨hcontrol, htext⟩ | ⟨⟨hquote, hslash, hplain⟩, htext⟩ :=
    escapeChar_cases c
  · have hall : ∀ e ∈ shortEscapes, 0x20 ≤ e.2.toNat := by decide
    have hletter : 0x20 ≤ letter.toNat := hall _ hmem
    rw [htext]
    simpa [Plain, quotedChars, Place.after, hletter] using h
  · have hhex : ∀ n < 16, hexDigit n ≠ '"' ∧ hexDigit n ≠ '\\' ∧ 0x20 ≤ (hexDigit n).toNat := by
      decide
    have hhigh := hhex (c.toNat / 16) (by omega)
    have hlow := hhex (c.toNat % 16) (by omega)
    rw [htext]
    simpa [Plain, quotedChars, Place.after, hhigh, hlow] using h
  · rw [htext]
    simpa [Plain, quotedChars, Place.after, hquote, hslash, hplain] using h

theorem tidy_quote (s : String) : Tidy (quote s) := by
  intro rest hrest
  have hinside : ∀ cs : List Char, Plain .inside (escapeAll cs ++ '"' :: rest) := by
    intro cs
    induction cs with
    | nil => simpa [Plain, escapeAll, quotedChars, Place.after] using hrest
    | cons c cs ih =>
      rw [escapeAll_cons, List.append_assoc]
      exact plain_escapeChar c ih
  simpa [Plain, quote, quotedChars, Place.after] using hinside s.toList

theorem tidy_newline (level : Nat) : Tidy (newline level).toList := by
  refine tidy_of_not_mem ?_
  rw [toList_newline]
  simp

theorem tidy_remainder (level : Nat) {texts : List (List Char)}
    (h : ∀ text ∈ texts, Tidy text) : Tidy (remainder level texts) := by
  induction texts with
  | nil => exact tidy_newline level
  | cons text texts ih =>
    obtain ⟨htext, htexts⟩ := List.forall_mem_cons.1 h
    have hcomma : Tidy [','] := tidy_of_not_mem (by decide)
    exact hcomma.append ((tidy_newline (level + 1)).append (htext.append (ih htexts)))

theorem tidy_series (level : Nat) {texts : List (List Char)} (h : ∀ text ∈ texts, Tidy text) :
    Tidy (series level texts) := by
  cases texts with
  | nil => exact fun _ h => h
  | cons text texts =>
    obtain ⟨htext, htexts⟩ := List.forall_mem_cons.1 h
    exact (tidy_newline (level + 1)).append (htext.append (tidy_remainder level htexts))

/-- The text of an integer has no quotes. -/
theorem tidy_toString (n : Int) : Tidy (toString n).toList := by
  have hdigits : Tidy (Nat.toDigits 10 n.natAbs) := tidy_of_not_mem fun hquote =>
    nomatch Nat.isDigit_of_mem_toDigits (by decide) (by decide) hquote
  have hminus : Tidy ['-'] := tidy_of_not_mem (by decide)
  by_cases hn : 0 ≤ n
  · rw [toList_toString_of_nonneg hn]
    exact hdigits
  · rw [toList_toString_of_neg (Int.not_le.1 hn)]
    exact hminus.append hdigits

theorem tidy_chars (v : Json) (level : Nat) : Tidy (v.chars level) := by
  induction v using Json.induction generalizing level with
  | bool b =>
    have hword : ∀ b, '"' ∉ (bool b).chars 0 := by decide
    exact tidy_of_not_mem (hword b)
  | int n =>
    rw [chars_int]
    exact tidy_toString n
  | string s =>
    rw [chars_string]
    exact tidy_quote s
  | list items ih =>
    have hopen : Tidy ['['] := tidy_of_not_mem (by decide)
    have hclose : Tidy [']'] := tidy_of_not_mem (by decide)
    rw [chars_list]
    refine hopen.append ((tidy_series level fun text htext => ?_).append hclose)
    obtain ⟨v, hv, rfl⟩ := List.mem_map.1 htext
    exact ih v hv (level + 1)
  | object members ih =>
    have hopen : Tidy ['\x7b'] := tidy_of_not_mem (by decide)
    have hclose : Tidy ['\x7d'] := tidy_of_not_mem (by decide)
    have hcolon : Tidy [':', ' '] := tidy_of_not_mem (by decide)
    rw [chars_object]
    refine hopen.append ((tidy_series level fun text htext => ?_).append hclose)
    obtain ⟨⟨key, v⟩, hm, rfl⟩ := List.mem_map.1 htext
    exact (tidy_quote key).append (hcolon.append (ih _ hm (level + 1)))

/-- No control character stands in a string of the text as it is. -/
theorem plain_text (v : Json) : Plain .outside (v.text ++ "\n").toList := by
  rw [toList_text]
  exact tidy_chars v 0 ['\n'] fun _ h => nomatch h

end Json

end FazClient
