import MlopsLite.HostAgent.Jobs.States
import MlopsLite.Lib.Floats
import MlopsLite.Lib.Newest
import MlopsLite.Lib.Paging
import MlopsLite.Lib.Texts

/-!
# JournalRead — pages of the journal

`hostagent/journalread.py`: the job records as entries, newest first, a filter,
and a page of them. A cursor is the `sequence` of the last entry of a page, the
milliseconds of its time, and the next page holds what is strictly below: the
records that share the millisecond of a page's last entry and come after it
are on no page.

The times of a record are numbers, as the store takes them; `timestamp` is in
whole seconds, which is what its text shows.
-/

namespace MlopsLite.HostAgent.JournalRead

open PlatformLib.Jobs (Value Record)
open Jobs (Checksum checksumState)
open Texts (int? ofInt)

/-! ## Entries -/

def timeKeys : List String := ["ended_at", "started_at", "submitted_at"]

/-- A record of the journal. -/
structure JobRecord where
  record : Record
  timed : ∀ key ∈ timeKeys, ∀ v ∈ record.get? key, v = .null ∨ ∃ t, v = .num t

/-- `record.get(key)`, where it is a time that counts as one. -/
def time? (r : Record) (key : String) : Option ℚ :=
  match r.get? key with
  | some (.num t) => if t = 0 then none else some t
  | _ => none

def when (r : Record) : ℚ :=
  ((time? r "ended_at" <|> time? r "started_at") <|> time? r "submitted_at").getD 0

/-- `int(x)`: toward zero. -/
def truncate (x : ℚ) : ℤ := if 0 ≤ x then ⌊x⌋ else ⌈x⌉

structure Entry where
  sequence : ℤ
  timestamp : ℤ
  eventType : String
  jobId : Value
  engineId : Value
  pid : Value
  deviceIndex : Value
  fromState : Value
  toState : Value
  detail : Value
  checksum : Checksum

def field (r : Record) (key : String) : Value := (r.get? key).getD .null

def entry (j : JobRecord) : Entry where
  sequence := truncate (when j.record * 1000)
  timestamp := ⌊when j.record⌋
  eventType := "transition"
  jobId := field j.record "job_id"
  engineId := Json.orElse (j.record.get? "modality") .null
  pid := field j.record "pid"
  deviceIndex := (j.record.get? "device_index").getD (.num 0)
  fromState := field j.record "from_state"
  toState := field j.record "state"
  detail := field j.record "reason"
  checksum := checksumState j.record

/-- `_as_entries`. -/
def asEntries (records : List JobRecord) : List Entry :=
  Newest.sorted Entry.sequence (records.map entry)

/-! ## Filters -/

/-- What a reader asks for; an empty text asks for nothing. -/
structure Query where
  limit : Option (List Char)
  jobId : Option String
  engineId : Option String
  eventType : Option String
  since : Option Number
  till : Option Number

def defaultLimit : ℤ := 100

def maxLimit : ℤ := 500

/-- The `limit` of `read`. -/
def Query.size (q : Query) : ℕ :=
  (max 1 (min ((q.limit.bind int?).getD defaultLimit) maxLimit)).toNat

theorem Query.size_pos (q : Query) : 0 < q.size := by
  rw [size]
  omega

/-- `if x: ... == x`. -/
def asked (value : Value) : Option String → Bool
  | none => true
  | some "" => true
  | some x => match value with
    | .str s => s = x
    | _ => false

def Query.admits (q : Query) (e : Entry) : Bool :=
  asked e.jobId q.jobId && asked e.engineId q.engineId && asked (.str e.eventType) q.eventType &&
    (q.since.all fun t => (t * .fin 1000).le (.fin e.sequence)) &&
    q.till.all fun t => (Number.fin e.sequence).le (t * .fin 1000)

/-! ## Pages -/

/-- `_parse_cursor`. -/
def parseCursor (cursor : Option (List Char)) : Option ℤ :=
  match cursor with
  | none => none
  | some text => int? (if "seq:".toList.isPrefixOf text then text.drop 4 else text)

def cursorOf (e : Entry) : List Char := "seq:".toList ++ ofInt e.sequence

structure Page where
  entries : List Entry
  nextCursor : Option (List Char)
  hasMore : Bool

/-- `if after is not None: ...`. -/
def strictlyBelow (after : Option ℤ) (entries : List Entry) : List Entry :=
  match after with
  | none => entries
  | some n => entries.filter fun e => e.sequence < n

def read (records : List JobRecord) (q : Query) (cursor : Option (List Char)) : Page :=
  let entries := (asEntries records).filter q.admits
  let rest := strictlyBelow (parseCursor cursor) entries
  let page := rest.take q.size
  let hasMore := decide (q.size < rest.length)
  { entries := page
    nextCursor := if hasMore then page.getLast?.map cursorOf else none
    hasMore := hasMore }

/-- The entries of all the pages from a cursor on, each asked for with the last one's. -/
def walk (records : List JobRecord) (q : Query) : ℕ → Option (List Char) → Option (List Entry)
  | 0, _ => none
  | fuel + 1, cursor =>
    let page := read records q cursor
    match page.nextCursor with
    | none => some page.entries
    | some next => (walk records q fuel (some next)).map (page.entries ++ ·)

/-- The pages end, with every record that is asked for once, newest first. -/
def Complete (records : List JobRecord) (q : Query) : Prop :=
  ∃ fuel entries, walk records q fuel none = some entries ∧
    entries.Perm ((records.map entry).filter q.admits) ∧
    entries.Pairwise fun a b => b.sequence ≤ a.sequence

/-- How many of the records that are asked for are newer than a millisecond. -/
def newer (records : List JobRecord) (q : Query) (s : ℤ) : ℕ :=
  (records.map entry).countP fun e => q.admits e && decide (s < e.sequence)

/-- How many of them are of that millisecond. -/
def sameTime (records : List JobRecord) (q : Query) (s : ℤ) : ℕ :=
  (records.map entry).countP fun e => q.admits e && decide (s = e.sequence)

/-- No page ends among records of one millisecond. -/
def Unsplit (records : List JobRecord) (q : Query) : Prop :=
  ∀ s pages, ¬ (newer records q s < pages * q.size ∧
    pages * q.size < newer records q s + sameTime records q s)

variable {records : List JobRecord} {q : Query} {e : Entry}

theorem parseCursor_cursorOf (e : Entry) : parseCursor (some (cursorOf e)) = some e.sequence := by
  have hinit : "seq:".toList.isPrefixOf (cursorOf e) = true := by
    rw [List.isPrefixOf_iff_prefix]
    exact List.prefix_append ..
  show int? (if "seq:".toList.isPrefixOf (cursorOf e) then (cursorOf e).drop 4 else cursorOf e) = _
  rw [if_pos hinit]
  exact Texts.int?_ofInt _

/-- What is asked for, newest first. -/
def matching (records : List JobRecord) (q : Query) : List Entry :=
  (asEntries records).filter q.admits

theorem matching_perm : (matching records q).Perm ((records.map entry).filter q.admits) :=
  Newest.sorted_perm.filter _

theorem matching_pairwise (records : List JobRecord) (q : Query) :
    (matching records q).Pairwise fun a b => b.sequence ≤ a.sequence :=
  Newest.sorted_pairwise.filter _

theorem below_eq (after : Option ℤ) (entries : List Entry) :
    Paging.below Entry.sequence after entries = strictlyBelow after entries := by
  cases after <;> rfl

/-- The cursors stand for the keys of the pages' last entries. -/
theorem walk_eq (fuel : ℕ) (cursor : Option (List Char)) : walk records q fuel cursor =
    Paging.walk Entry.sequence q.size (matching records q) fuel (parseCursor cursor) := by
  induction fuel generalizing cursor with
  | zero => rfl
  | succ fuel ih =>
    unfold walk Paging.walk read
    dsimp only
    rw [below_eq, Paging.cursor, matching]
    set rest := strictlyBelow (parseCursor cursor) ((asEntries records).filter q.admits)
    by_cases hmore : q.size < rest.length
    · rw [if_pos (decide_eq_true hmore), if_pos hmore]
      cases hlast : (rest.take q.size).getLast? with
      | none => rfl
      | some e =>
        show (walk records q fuel (some (cursorOf e))).map _ = _
        rw [ih, parseCursor_cursorOf]
        rfl
    · rw [if_neg (by simpa using hmore), if_neg hmore]

/-- Following the cursors comes to an end. -/
theorem walk_ends (records : List JobRecord) (q : Query) :
    ∃ fuel entries, walk records q fuel none = some entries := by
  obtain ⟨entries, hwalk, -⟩ := Paging.walk_spec (matching_pairwise records q) q.size_pos
  exact ⟨_, entries, (walk_eq _ _).trans hwalk⟩

theorem countP_matching (p : Entry → Bool) : (matching records q).countP p =
    (records.map entry).countP fun e => q.admits e && p e := by
  rw [matching_perm.countP_eq, List.countP_filter]
  exact List.countP_congr fun e _ => by rw [Bool.and_comm]

theorem clear_iff : Paging.Clear Entry.sequence q.size (matching records q) ↔ Unsplit records q := by
  have hupto : ∀ s, newer records q s + sameTime records q s =
      (matching records q).countP fun e => decide (s ≤ e.sequence) := fun s => by
    rw [Paging.countP_le, countP_matching, countP_matching, newer, sameTime]
  rw [Paging.clear_iff_count (matching_pairwise records q) q.size_pos]
  refine forall_congr' fun s => forall_congr' fun pages => ?_
  rw [← hupto, countP_matching, newer]

/-- A record of one time. -/
def submittedAt (id : String) (t : ℚ) : JobRecord where
  record := (Dict.empty.insert "job_id" (.str id)).insert "submitted_at" (.num t)
  timed key hkey v hv := by
    have hid : key ≠ "job_id" := by
      rintro rfl
      revert hkey
      decide
    rw [Dict.get?_insert] at hv
    split at hv
    · exact Or.inr ⟨t, (Option.some.inj hv).symm⟩
    · have hv : (Dict.empty.insert "job_id" (Json.str id)).get? key = some v := hv
      rw [Dict.get?_insert_ne _ _ hid] at hv
      cases hv

def oneToAPage : Query where
  limit := some ['1']
  jobId := none
  engineId := none
  eventType := none
  since := none
  till := none

end MlopsLite.HostAgent.JournalRead
