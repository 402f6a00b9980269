import FazClient.Output
import FazClient.Proofs.JsonReading

/-!
# FazClient.Proofs.JsonOutput

The JSON of a view.  It is an object, from which the view can be told: readers for each kind of
view accept one object for each view, with all fields in order and those left out that have no
value.

* `Datum.Exact` — a reader that accepts one value for each result;
* `View.exact_ofDatum?` — the reader for views is exact for their JSON;
* `json_reads_back` — what this means for the text that is written.
-/

namespace FazClient

/-! ## Readers -/

namespace Datum

/-- The string that a value is. -/
def string? : Datum → Option String
  | .string s => some s
  | _ => none

/-- The 32-bit number that a value is. -/
def int32? : Datum → Option Int32
  | .number n 0 => if (Int32.ofInt n).toInt = n then some (.ofInt n) else none
  | _ => none

/-- What the items of a list are read as, if they all can be read. -/
def list? (read : Datum → Option α) : Datum → Option (List α)
  | .list items => items.mapM read
  | _ => none

end Datum

/-- Reads a row of a report. -/
def HookEntry.ofDatum? : Datum → Option HookEntry
  | .object (("event_type", eventType) :: ("event", .string event) ::
      ("handler", .string handler) :: ("ok", .bool ok) :: rest) => do
    let eventType ← eventType.int32?
    match rest with
    | [] => some ⟨eventType, event, handler, ok, none⟩
    | [("error", .string error)] => some ⟨eventType, event, handler, ok, some error⟩
    | _ => none
  | _ => none

/-- Reads a report. -/
def HookReport.ofDatum? : Datum → Option HookReport
  | .object [("action", .string action), ("entries", entries)] => do
    let entries ← entries.list? HookEntry.ofDatum?
    some ⟨action, entries⟩
  | _ => none

/-- Reads a profile. -/
def ProfileView.ofDatum? : Datum → Option ProfileView
  | .object [("username", .string username), ("following", following),
      ("followers", followers)] => do
    let following ← following.list? Datum.string?
    let followers ← followers.list? Datum.string?
    some ⟨username, following, followers⟩
  | _ => none

/-- Reads a caw. -/
def CawView.ofDatum? : Datum → Option CawView
  | .object (("id", .string id) :: ("username", .string username) :: ("text", .string text) ::
      rest) =>
    match rest with
    | [] => some ⟨id, username, text, none, none⟩
    | [("parent_id", .string parent)] => some ⟨id, username, text, some parent, none⟩
    | [("posted_at", .string time)] => some ⟨id, username, text, none, some time⟩
    | [("parent_id", .string parent), ("posted_at", .string time)] =>
      some ⟨id, username, text, some parent, some time⟩
    | _ => none
  | _ => none

/-- Reads a thread. -/
def ThreadView.ofDatum? : Datum → Option ThreadView
  | .object [("root", .string root), ("caws", caws)] => do
    let caws ← caws.list? CawView.ofDatum?
    some ⟨root, caws⟩
  | _ => none

/-- Reads a line for the user. -/
def Notice.ofDatum? : Datum → Option Notice
  | .object [("message", .string message)] => some ⟨message, false⟩
  | .object [("message", .string message), ("success", .bool true)] => some ⟨message, true⟩
  | _ => none

namespace View

/-- Reads a view, the kind of which its first field tells. -/
def ofDatum? (d : Datum) : Option View :=
  match d with
  | .object (("action", _) :: _) => (HookReport.ofDatum? d).map .hooks
  | .object (("username", _) :: _) => (ProfileView.ofDatum? d).map .profile
  | .object (("id", _) :: _) => (CawView.ofDatum? d).map .caw
  | .object (("root", _) :: _) => (ThreadView.ofDatum? d).map .thread
  | .object (("message", _) :: _) => (Notice.ofDatum? d).map .notice
  | _ => none

/-- The fields of a view that are shown, in the order of their declaration. -/
def fields : View → List String
  | .hooks _ => ["action", "entries"]
  | .profile _ => ["username", "following", "followers"]
  | .caw v =>
    ["id", "username", "text"] ++ (if v.parentId.isSome then ["parent_id"] else [])
      ++ (if v.postedAt.isSome then ["posted_at"] else [])
  | .thread _ => ["root", "caws"]
  | .notice v => ["message"] ++ (if v.success then ["success"] else [])

end View

/-! ## Exactness -/

/-- A reader accepts just one value for each result, which is what its JSON says. -/
def Datum.Exact (read : Datum → Option α) (json : α → Json) : Prop :=
  ∀ d a, read d = some a ↔ d = (json a).datum

namespace Datum

theorem exact_string? : Exact string? .string := by
  intro d s
  cases d <;> simp [string?, Json.datum]

theorem exact_int32? : Exact int32? fun n => .int n.toInt := by
  intro d n
  refine ⟨fun h => ?_, ?_⟩
  · unfold int32? at h
    split at h
    · obtain ⟨hrange, hn⟩ := Option.ite_none_right_eq_some.1 h
      obtain rfl := Option.some.inj hn
      exact congrArg (number · 0) hrange.symm
    · contradiction
  · rintro rfl
    simp [int32?, Json.datum]

theorem mapM_eq_some_iff {read : Datum → Option α} {json : α → Json} (h : Exact read json)
    (ds : List Datum) (as : List α) :
    ds.mapM read = some as ↔ ds = as.map fun a => (json a).datum := by
  induction ds generalizing as with
  | nil => cases as <;> simp
  | cons d ds ih =>
    simp only [List.mapM_cons, Option.bind_eq_bind, Option.bind_eq_some_iff, ih, h d]
    cases as with
    | nil => simp
    | cons a as => simp

theorem Exact.list? {read : Datum → Option α} {json : α → Json} (h : Exact read json) :
    Exact (list? read) fun as => .list (as.map json) := by
  intro d as
  rw [Json.datum_list, List.map_map]
  cases d with
  | list ds =>
    refine (mapM_eq_some_iff h ds as).trans ?_
    rw [list.injEq]
    rfl
  | null | bool _ | number _ _ | string _ | object _ => simp [Datum.list?]

end Datum

theorem HookEntry.exact_ofDatum? : Datum.Exact ofDatum? HookReport.entryJson := by
  intro d e
  refine ⟨fun h => ?_, ?_⟩
  · unfold ofDatum? at h
    split at h
    · obtain ⟨n, hn, h⟩ := Option.bind_eq_some_iff.1 h
      rw [(Datum.exact_int32? _ n).1 hn]
      split at h <;> cases h <;> rfl
    · contradiction
  · rintro rfl
    obtain ⟨eventType, event, handler, ok, error⟩ := e
    have heventType := (Datum.exact_int32? _ eventType).2 rfl
    cases error with
    | none => exact congrArg (Option.bind · _) heventType
    | some e => exact congrArg (Option.bind · _) heventType

theorem HookReport.exact_ofDatum? : Datum.Exact ofDatum? json := by
  intro d r
  refine ⟨fun h => ?_, ?_⟩
  · unfold ofDatum? at h
    split at h
    · obtain ⟨entries, hentries, h⟩ := Option.bind_eq_some_iff.1 h
      obtain rfl := Option.some.inj h
      rw [(HookEntry.exact_ofDatum?.list? _ entries).1 hentries]
      rfl
    · contradiction
  · rintro rfl
    exact congrArg (Option.bind · _) ((HookEntry.exact_ofDatum?.list? _ r.entries).2 rfl)

theorem ProfileView.exact_ofDatum? : Datum.Exact ofDatum? json := by
  intro d p
  refine ⟨fun h => ?_, ?_⟩
  · unfold ofDatum? at h
    split at h
    · obtain ⟨following, hfollowing, h⟩ := Option.bind_eq_some_iff.1 h
      obtain ⟨followers, hfollowers, h⟩ := Option.bind_eq_some_iff.1 h
      obtain rfl := Option.some.inj h
      rw [(Datum.exact_string?.list? _ following).1 hfollowing,
        (Datum.exact_string?.list? _ followers).1 hfollowers]
      rfl
    · contradiction
  · rintro rfl
    have hfollowing := (Datum.exact_string?.list? _ p.following).2 rfl
    have hfollowers := (Datum.exact_string?.list? _ p.followers).2 rfl
    exact (congrArg (Option.bind · _) hfollowing).trans (congrArg (Option.bind · _) hfollowers)

theorem CawView.exact_ofDatum? : Datum.Exact ofDatum? json := by
  intro d c
  refine ⟨fun h => ?_, ?_⟩
  · unfold ofDatum? at h
    split at h
    · split at h <;> cases h <;> rfl
    · contradiction
  · rintro rfl
    obtain ⟨id, username, text, parentId, postedAt⟩ := c
    cases parentId <;> cases postedAt <;> rfl

theorem ThreadView.exact_ofDatum? : Datum.Exact ofDatum? json := by
  intro d t
  refine ⟨fun h => ?_, ?_⟩
  · unfold ofDatum? at h
    split at h
    · obtain ⟨caws, hcaws, h⟩ := Option.bind_eq_some_iff.1 h
      obtain rfl := Option.some.inj h
      rw [(CawView.exact_ofDatum?.list? _ caws).1 hcaws]
      rfl
    · contradiction
  · rintro rfl
    exact congrArg (Option.bind · _) ((CawView.exact_ofDatum?.list? _ t.caws).2 rfl)

theorem Notice.exact_ofDatum? : Datum.Exact ofDatum? json := by
  intro d m
  refine ⟨fun h => ?_, ?_⟩
  · unfold ofDatum? at h
    split at h <;> cases h <;> rfl
  · rintro rfl
    obtain ⟨message, success⟩ := m
    cases success <;> rfl

theorem View.exact_ofDatum? : Datum.Exact ofDatum? json := by
  intro d v
  refine ⟨fun h => ?_, ?_⟩
  · unfold ofDatum? at h
    split at h
    · obtain ⟨r, hr, rfl⟩ := Option.map_eq_some_iff.1 h
      exact (HookReport.exact_ofDatum? _ r).1 hr
    · obtain ⟨p, hp, rfl⟩ := Option.map_eq_some_iff.1 h
      exact (ProfileView.exact_ofDatum? _ p).1 hp
    · obtain ⟨c, hc, rfl⟩ := Option.map_eq_some_iff.1 h
      exact (CawView.exact_ofDatum? _ c).1 hc
    · obtain ⟨t, ht, rfl⟩ := Option.map_eq_some_iff.1 h
      exact (ThreadView.exact_ofDatum? _ t).1 ht
    · obtain ⟨m, hm, rfl⟩ := Option.map_eq_some_iff.1 h
      exact (Notice.exact_ofDatum? _ m).1 hm
    · contradiction
  · rintro rfl
    cases v with
    | hooks r => exact congrArg (Option.map _) ((HookReport.exact_ofDatum? _ r).2 rfl)
    | profile p => exact congrArg (Option.map _) ((ProfileView.exact_ofDatum? _ p).2 rfl)
    | caw c => exact congrArg (Option.map _) ((CawView.exact_ofDatum? _ c).2 rfl)
    | thread t => exact congrArg (Option.map _) ((ThreadView.exact_ofDatum? _ t).2 rfl)
    | notice m => exact congrArg (Option.map _) ((Notice.exact_ofDatum? _ m).2 rfl)

/-- The members of the object that the JSON of a view is. -/
theorem View.exists_members (v : View) :
    ∃ members, v.json.datum = .object members ∧ members.map Prod.fst = v.fields := by
  cases v with
  | hooks _ | profile _ | thread _ => exact ⟨_, rfl, rfl⟩
  | caw c =>
    obtain ⟨id, username, text, parentId, postedAt⟩ := c
    cases parentId <;> cases postedAt <;> exact ⟨_, rfl, rfl⟩
  | notice m =>
    obtain ⟨message, success⟩ := m
    cases success <;> exact ⟨_, rfl, rfl⟩

/-- **JSON output reads back**: the text of a view that is written in JSON is one value, with a
new line after it.  By the JSON grammar the value is an object that has just the fields of the
view, in the order of their declaration and without those that have no value; it is read as the
view, and nothing else is.  No control character stands in a string as it is, and no other view
has the same text. -/
theorem json_reads_back (v : View) :
    let text := Format.json.render v
    Format.json.write v Sink.unlimited = (.ok (), ⟨none, (Utf8.encode text).toArray⟩) ∧
      (∃ members, Datum.read? text = some (.object members, "\n") ∧
        members.map Prod.fst = v.fields ∧
        ∀ d, View.ofDatum? d = some v ↔ d = .object members) ∧
      (∀ c ∈ Json.quotedChars .outside text.toList, 0x20 ≤ c.toNat) ∧
      ∀ w, Format.json.render w = text → w = v := by
  intro text
  have hread : ∀ w : View, Datum.read? (Format.json.render w) = some (w.json.datum, "\n") :=
    fun w => w.json.read?_text
  obtain ⟨members, hmembers, hfields⟩ := v.exists_members
  refine ⟨Format.json.write_unlimited v, ⟨members, ?_, hfields, fun d => ?_⟩, v.json.plain_text,
    fun w hw => ?_⟩
  · rw [hread, hmembers]
  · rw [View.exact_ofDatum? d v, hmembers]
  · have hdatum : w.json.datum = v.json.datum := by
      have heq := (hread w).symm.trans ((congrArg Datum.read? hw).trans (hread v))
      exact congrArg Prod.fst (Option.some.inj heq)
    have hv := (View.exact_ofDatum? _ v).2 rfl
    have hw' := (View.exact_ofDatum? _ w).2 rfl
    rw [hdatum, hv] at hw'
    exact (Option.some.inj hw').symm

end FazClient
