import MlopsLite.Gateway.ChatStream
import MlopsLite.Lib.LineLog
import MlopsLite.Lib.Runs

/-!
# Outbox — the settlement log of the gateway

`_wal_append`, `_wal_entries`, `_wal_compact` and `replay_outbox`
(`gateway/app/metering.py`). The log is a text, a file that is not there is an empty one.
`none` says that a call raises.
-/

namespace MlopsLite.Gateway.Outbox

open HostAgent.Frames (key)
open Utf16Json (Units Doc)
open ChatStream (Loaded readNumber loads truthy)

/-! ## The log -/

/-- `repr` of a finite float: a word, without quotes, brackets or white space. -/
structure FloatRepr where
  text : ℚ → List Char
  atoms : ∀ q, (text q).all JsonTokens.atomChar = true

def writeNumber (repr : FloatRepr) : Loaded → List Char
  | .int z => Texts.ofInt z
  | .float .nan => "NaN".toList
  | .float (.inf false) => "Infinity".toList
  | .float (.inf true) => "-Infinity".toList
  | .float (.fin q) => repr.text q

variable (repr : FloatRepr)

/-- `json.dumps(…, separators=(",", ":"))`. -/
def compact (e : Doc Loaded) : List Char := Utf16Json.dumps [] (writeNumber repr) e

/-- A float that is read back from its `repr`. -/
structure PyFloat where
  value : Number
  back : readNumber (writeNumber repr (.float value)) = some (.float value)

/-- What is appended: by `settle`, and by `release`. -/
inductive Record
  | settlement (opId : Units) (gpuSeconds time : PyFloat repr)
  | release (opId : Units) (time : PyFloat repr)

namespace Record

variable {repr}

def opId : Record repr → Units
  | settlement opId .. | release opId .. => opId

def members : Record repr → List (Units × Doc Loaded)
  | settlement opId gpuSeconds time =>
      [(key "op_id", .str opId), (key "gpu_seconds", .num (.float gpuSeconds.value)),
        (key "at", .num (.float time.value))]
  | release opId time =>
      [(key "op_id", .str opId), (key "release", .bool true),
        (key "at", .num (.float time.value))]

def doc (r : Record repr) : Doc Loaded := .obj r.members

end Record

/-- `_wal_append`, as far as the first `n` characters. -/
def walAppendTo (n : ℕ) (log : List Char) (r : Record repr) : List Char :=
  log ++ (LineLog.line (compact repr r.doc)).take n

/-- `_wal_append`, once it has returned. -/
def walAppend (log : List Char) (r : Record repr) : List Char :=
  log ++ LineLog.line (compact repr r.doc)

/-- A line of the log, if it is an entry. -/
def entry (line : List Char) : Option (Doc Loaded) :=
  let line := Texts.strip Texts.isSpace line
  if line = [] then none else loads line

/-- `_wal_entries`. -/
def walEntries (log : List Char) : List (Doc Loaded) := LineLog.entries entry log

/-- A bool is the number 0 or 1. -/
def numeric : Doc Loaded → Option Number
  | .bool b => some (.fin (if b then 1 else 0))
  | .num (.int z) => some (.fin z)
  | .num (.float x) => some x
  | _ => none

/-- `==` of two values that can be hashed. -/
def equal (a b : Doc Loaded) : Bool :=
  match a, b with
  | .null, .null => true
  | .str s, .str t => s = t
  | a, b => (numeric a).any fun x => x ≠ .nan ∧ numeric b = some x

def hashable : Doc Loaded → Bool
  | .arr _ | .obj _ => false
  | _ => true

/-- `e.get("op_id") in done_op_ids or e.get("done")`. -/
def dropped (done : List (Doc Loaded)) : Doc Loaded → Option Bool
  | .obj members =>
      let opId := ChatStream.get members "op_id"
      if hashable opId then
        some (done.any (equal opId) || truthy (ChatStream.get members "done"))
      else none
  | _ => none

/-- The entries that remain. -/
def remaining (done : List (Doc Loaded)) : List (Doc Loaded) → Option (List (Doc Loaded))
  | [] => some []
  | e :: es =>
      (dropped done e).bind fun gone =>
        (remaining done es).map fun es => if gone then es else e :: es

/-- `_wal_compact`: what the log is replaced with. -/
def walCompact (done : List (Doc Loaded)) (log : List Char) : Option (List Char) :=
  (remaining done (walEntries log)).map fun es =>
    es.flatMap fun e => LineLog.line (compact repr e)

/-- The op ids that `replay_outbox` takes out of the log; `ok i` says whether the call for
the entry `i` of those that have an op id returns. -/
def replayed (ok : ℕ → Bool) : ℕ → List (Doc Loaded) → Option (List (Doc Loaded))
  | _, [] => some []
  | i, .obj members :: es =>
      let opId := ChatStream.get members "op_id"
      if !truthy opId then replayed ok i es
      else if ok i && hashable opId then (replayed ok (i + 1) es).map (opId :: ·)
      else replayed ok (i + 1) es
  | _, _ :: _ => none

/-! ## Histories -/

/-- The log, and the op ids that replays have still to take out of it. History: the records
whose append has returned and that no compaction has been told to remove. -/
structure State where
  log : List Char
  replays : List (List (Doc Loaded))
  pending : List (Record repr)

def State.init : State repr := ⟨[], [], []⟩

/-- An append returns, or it is cut short with `n` characters written; the compaction behind a
settlement or a release, and the one of a replay, whose new file is there at the end or
not; a replay has made its calls; the process starts again. -/
inductive Step
  | append (r : Record repr)
  | cut (r : Record repr) (n : ℕ)
  | compact (opId : Units) (lands : Bool)
  | replay (ok : ℕ → Bool)
  | finish (i : ℕ) (lands : Bool)
  | restart

variable {repr}

/-- A compaction has been told to remove the record's own op id. -/
def told (done : List (Doc Loaded)) (r : Record repr) : Bool := done.any (equal (.str r.opId))

/-- One that raises leaves the file as it is. -/
def State.compacted (s : State repr) (done : List (Doc Loaded)) (lands : Bool) : State repr :=
  { s with
    log := if lands then (walCompact repr done s.log).getD s.log else s.log
    pending := s.pending.filter fun r => !told done r }

def next (s : State repr) : Step repr → Option (State repr)
  | .append r => some { s with log := walAppend repr s.log r, pending := s.pending ++ [r] }
  | .cut r n => some { s with log := walAppendTo repr n s.log r }
  | .compact opId lands => some (s.compacted [.str opId] lands)
  | .replay ok =>
      match replayed ok 0 (walEntries s.log) with
      | none | some [] => some s
      | some done => some { s with replays := done :: s.replays }
  | .finish i lands =>
      s.replays[i]?.map fun done =>
        { s.compacted done lands with replays := s.replays.eraseIdx i }
  | .restart => some { s with replays := [] }

/-- What has been appended is read until it is to be removed. -/
def Durable (s : State repr) : Prop := (s.pending.map Record.doc).Sublist (walEntries s.log)

def Step.appends : Step repr → Bool
  | .append _ => true
  | _ => false

/-- An append that returns does not begin on a line that was cut short. -/
def Ended (s : State repr) (step : Step repr) : Prop :=
  step.appends = true → LineLog.Whole s.log

instance (s : State repr) (step : Step repr) : Decidable (Ended s step) :=
  inferInstanceAs (Decidable (_ → _))

/-! ## One entry -/

theorem entry_nil : entry [] = none := rfl

theorem atoms_writeNumber (n : Loaded) :
    (writeNumber repr n).all JsonTokens.atomChar = true := by
  cases n with
  | int z =>
    have hnumber := Doubles.isNumber_ofInt z
    rw [JsonTokens.isNumber, Bool.and_eq_true] at hnumber
    exact hnumber.1
  | float x =>
    cases x with
    | nan => rfl
    | inf negative => cases negative <;> rfl
    | fin q => exact repr.atoms q

theorem inline_compact (e : Doc Loaded) : LineLog.Inline (compact repr e) := by
  intro c hc
  have hgap : ∀ c ∈ ([] : List Char), Utf16Json.Printable c := by simp
  obtain ⟨hlow, -⟩ := Utf16Json.printable_dumps hgap (fun n _ => atoms_writeNumber n)
    (Doc.numbers_of_forall (P := fun _ => True) (fun _ => trivial) e) c hc
  constructor
  · rintro rfl
    exact absurd hlow (by decide)
  · rintro rfl
    exact absurd hlow (by decide)

theorem reads_float (x : PyFloat repr) :
    Utf16Json.Reads (writeNumber repr) readNumber id (.float x.value) := by
  have hnot : ∀ w, readNumber w = none → writeNumber repr (.float x.value) ≠ w := by
    rintro w hw heq
    have hback := x.back
    rw [heq, hw] at hback
    cases hback
  refine ⟨hnot [] (by decide +kernel), atoms_writeNumber _, ?_⟩
  rw [Utf16Json.word, if_neg (hnot _ (by decide +kernel)), if_neg (hnot _ (by decide +kernel)),
    if_neg (hnot _ (by decide +kernel)), x.back]
  rfl

theorem wellFormed_doc (r : Record repr) :
    r.doc.WellFormed (Utf16Json.Reads (writeNumber repr) readNumber id) := by
  cases r with
  | settlement opId gpuSeconds time =>
    have hkeys : [key "op_id", key "gpu_seconds", key "at"].Nodup := by decide
    refine .obj hkeys ?_
    rw [Record.members, List.forall_mem_cons, List.forall_mem_cons, List.forall_mem_singleton]
    exact ⟨.str _, .num (reads_float _), .num (reads_float _)⟩
  | release opId time =>
    have hkeys : [key "op_id", key "release", key "at"].Nodup := by decide
    refine .obj hkeys ?_
    rw [Record.members, List.forall_mem_cons, List.forall_mem_cons, List.forall_mem_singleton]
    exact ⟨.str _, .bool _, .num (reads_float _)⟩

/-- A record is read back from its line. -/
theorem entry_compact (r : Record repr) : entry (compact repr r.doc) = some r.doc := by
  obtain ⟨t, ht⟩ : ∃ t, compact repr r.doc = '\x7b' :: (t ++ ['\x7d']) :=
    ⟨_, Utf16Json.dumps_obj _ _ _⟩
  have hstrip : Texts.strip Texts.isSpace (compact repr r.doc) = compact repr r.doc := by
    refine Texts.strip_eq_self ?_ ?_
    · rw [ht]
      rintro _ ⟨⟩
      decide
    · intro c hc
      rw [ht, ← List.cons_append, List.getLast?_concat] at hc
      cases hc
      decide
  have hne : compact repr r.doc ≠ [] := by
    rw [ht]
    exact List.cons_ne_nil _ _
  rw [entry, hstrip, if_neg hne, loads, compact,
    Utf16Json.parse_dumps rfl (fun _ h => h) (wellFormed_doc r), Doc.map_id]

/-! ## Compaction -/

theorem remaining_eq {done es es' : List (Doc Loaded)} (h : remaining done es = some es') :
    es' = es.filter fun e => dropped done e = some false := by
  induction es generalizing es' with
  | nil =>
    cases h
    rfl
  | cons e es ih =>
    rw [remaining, Option.bind_eq_some_iff] at h
    obtain ⟨gone, hgone, h⟩ := h
    obtain ⟨rest, hrest, rfl⟩ := Option.map_eq_some_iff.mp h
    rw [List.filter_cons, hgone, ← ih hrest]
    cases gone <;> rfl

theorem get_opId (r : Record repr) : ChatStream.get r.members "op_id" = .str r.opId := by
  have hhead : ∀ (v : Doc Loaded) more, ChatStream.get ((key "op_id", v) :: more) "op_id" = v := by
    intro v more
    rw [ChatStream.get, List.lookup_cons_self, Option.getD_some]
  cases r with
  | settlement opId gpuSeconds time => exact hhead _ _
  | release opId time => exact hhead _ _

theorem get_done (r : Record repr) : ChatStream.get r.members "done" = .null := by
  have hkeys : ∀ k ∈ ["op_id", "gpu_seconds", "release", "at"], (key "done" == key k) = false := by
    decide
  cases r with
  | settlement opId gpuSeconds time =>
    simp [ChatStream.get, Record.members, List.lookup, hkeys]
  | release opId time =>
    simp [ChatStream.get, Record.members, List.lookup, hkeys]

/-- A record is dropped exactly if its own op id is to be removed. -/
theorem dropped_doc (done : List (Doc Loaded)) (r : Record repr) :
    dropped done r.doc = some (told done r) := by
  rw [Record.doc, dropped, get_opId, get_done]
  simp [hashable, told, truthy]

/-- A log of records. -/
def written (rs : List (Record repr)) : List Char :=
  rs.flatMap fun r => LineLog.line (compact repr r.doc)

theorem walAppend_written (rs : List (Record repr)) (r : Record repr) :
    walAppend repr (written rs) r = written (rs ++ [r]) := by
  rw [walAppend, written, written, List.flatMap_append, List.flatMap_singleton]

theorem walEntries_written (rs : List (Record repr)) :
    walEntries (written rs) = rs.map Record.doc := by
  have hsome : ∀ r ∈ rs, (entry ∘ fun r : Record repr => compact repr r.doc) r = some r.doc :=
    fun r _ => entry_compact r
  rw [walEntries, written, LineLog.entries_flatMap entry_nil fun r _ => inline_compact r.doc,
    List.filterMap_congr hsome, ← List.filterMap_eq_map]
  rfl

theorem remaining_doc (done : List (Doc Loaded)) (rs : List (Record repr)) :
    remaining done (rs.map Record.doc) =
      some ((rs.filter fun r => !told done r).map Record.doc) := by
  induction rs with
  | nil => rfl
  | cons r rs ih =>
    rw [List.map_cons, remaining, dropped_doc, Option.bind_some, ih, Option.map_some,
      List.filter_cons]
    cases told done r <;> rfl

/-- The records that remain are written again as they were. -/
theorem walCompact_written (done : List (Doc Loaded)) (rs : List (Record repr)) :
    walCompact repr done (written rs) = some (written (rs.filter fun r => !told done r)) := by
  rw [walCompact, walEntries_written, remaining_doc, Option.map_some, List.flatMap_map, written]

/-- The log that a compaction has written can be appended to. -/
theorem whole_compacted {s : State repr} {done : List (Doc Loaded)}
    (h : (remaining done (walEntries s.log)).isSome = true) :
    LineLog.Whole (s.compacted done true).log := by
  obtain ⟨es, hes⟩ := Option.isSome_iff_exists.mp h
  rw [State.compacted, if_pos rfl, walCompact, hes, Option.map_some, Option.getD_some]
  exact LineLog.whole_flatMap _ _

/-- The records that are to stay are kept. -/
theorem keeps_compacted {s : State repr} (h : LineLog.Keeps entry (s.pending.map Record.doc) s.log)
    (done : List (Doc Loaded)) (lands : Bool) :
    LineLog.Keeps entry ((s.compacted done lands).pending.map Record.doc)
      (s.compacted done lands).log := by
  have hfilter : (s.pending.filter fun r => !told done r).map Record.doc =
      (s.pending.map Record.doc).filter fun e => dropped done e = some false := by
    rw [List.filter_map]
    congr 2
    funext r
    simp [dropped_doc]
  have hkept : LineLog.Keeps entry ((s.compacted done lands).pending.map Record.doc) s.log :=
    h.of_subset (List.filter_sublist.map _)
  rw [State.compacted]
  dsimp only
  split_ifs with hlands
  · rw [hfilter]
    cases hcompact : walCompact repr done s.log with
    | none => rw [← hfilter]; exact hkept
    | some log =>
      rw [walCompact, Option.map_eq_some_iff] at hcompact
      obtain ⟨es, hes, rfl⟩ := hcompact
      rw [Option.getD_some, remaining_eq hes]
      refine h.rewrite entry_nil inline_compact ?_
      rintro _ he
      obtain ⟨r, -, rfl⟩ := List.mem_map.mp he
      exact entry_compact r
  · exact hkept

/-! ## Runs -/

/-- A step keeps what is pending on lines that have ended. -/
theorem keeps_next {s s' : State repr} {step : Step repr}
    (h : LineLog.Keeps entry (s.pending.map Record.doc) s.log) (hended : Ended s step)
    (hnext : next s step = some s') :
    LineLog.Keeps entry (s'.pending.map Record.doc) s'.log := by
  cases step with
  | append r =>
    cases hnext
    have hrecord := h.record entry_nil (hended rfl) (inline_compact r.doc) (entry_compact r)
    rwa [← List.map_singleton (f := Record.doc), ← List.map_append] at hrecord
  | cut r n =>
    cases hnext
    exact h.append _
  | compact opId lands =>
    cases hnext
    exact keeps_compacted h _ lands
  | replay ok =>
    rw [next] at hnext
    split at hnext
    · cases hnext
      exact h
    · cases hnext
      exact h
    · cases hnext
      exact h
  | finish i lands =>
    obtain ⟨done, -, rfl⟩ := Option.map_eq_some_iff.mp hnext
    exact keeps_compacted h done lands
  | restart =>
    cases hnext
    exact h

/-- Every record whose append has returned is there until a compaction is to remove it, where
no such append begins on a line that was cut short. -/
theorem durable_of_reachable {s : State repr}
    (h : Runs.Reachable next Ended (State.init repr) s) : Durable s := by
  have hkeeps : LineLog.Keeps entry (s.pending.map Record.doc) s.log :=
    h.invariant (I := fun s => LineLog.Keeps entry (s.pending.map Record.doc) s.log)
      (LineLog.keeps_nil _) fun _ _ _ _ hI hok hn => keeps_next hI hok hn
  exact hkeeps.sublist entry_nil

/-! ## Two histories -/

def halfRepr : FloatRepr := ⟨fun _ => "0.5".toList, fun _ => rfl⟩

theorem half_back : readNumber (writeNumber halfRepr (.float (.fin (1 / 2)))) =
    some (.float (.fin (1 / 2))) := by
  have hnumber : JsonTokens.isNumber "0.5".toList = true := by decide
  have hfloat : "0.5".toList.any ['.', 'e', 'E'].contains = true := by decide
  have hvalue : Doubles.nearest (Doubles.decimal "0.5".toList) = .fin (1 / 2) := by
    decide +kernel
  show readNumber "0.5".toList = _
  rw [readNumber, if_neg (by decide), if_neg (by decide), if_neg (by decide), if_pos hnumber,
    if_pos hfloat, hvalue]

def half : PyFloat halfRepr := ⟨.fin (1 / 2), half_back⟩

def charge (name : String) : Record halfRepr := .settlement (key name) half half

/-- A release is appended, a settlement behind it is cut short, and the process starts again. -/
def interrupted : State halfRepr where
  log := walAppendTo halfRepr 9 (walAppend halfRepr [] (.release (key "a") half)) (charge "b")
  replays := []
  pending := [.release (key "a") half]

/-- The log is rewritten, and a settlement is appended. -/
def resumed : State halfRepr :=
  let s := interrupted.compacted [.str (key "z")] true
  { s with log := walAppend halfRepr s.log (charge "c"), pending := s.pending ++ [charge "c"] }

theorem interrupted_durable : Durable resumed := by
  have hreached : Runs.Reachable next Ended (State.init halfRepr) interrupted :=
    ((Runs.Reachable.init.step (.append (.release (key "a") half))
      (fun _ => LineLog.whole_nil) rfl).step
      (.cut (charge "b") 9) (by decide) rfl).step .restart (by decide) rfl
  have hremaining : (remaining [.str (key "z")] (walEntries interrupted.log)).isSome = true := by
    decide +kernel
  have hwhole := whole_compacted hremaining
  exact durable_of_reachable ((hreached.step (.compact (key "z") true) (by decide) rfl).step
    (.append (charge "c")) (fun _ => hwhole) rfl)

/-- An append is cut short, and the next one begins on its line. -/
theorem cutShort_lost : ∃ s, Runs.Reachable next Runs.anyStep (State.init halfRepr) s ∧
    s.pending ≠ [] ∧ walEntries s.log = [] ∧ ¬ Durable s := by
  have hrun : (Runs.run next Runs.anyStep (State.init halfRepr)
      [.cut (charge "a") 9, .restart, .append (charge "b")]).map
      (fun s => !s.pending.isEmpty && (walEntries s.log).isEmpty) = some true := by decide +kernel
  obtain ⟨s, hs, hp⟩ := Runs.exists_reachable hrun
  simp only [Bool.and_eq_true, Bool.not_eq_true', List.isEmpty_eq_false_iff,
    List.isEmpty_iff] at hp
  refine ⟨s, hs, hp.1, hp.2, fun h => ?_⟩
  rw [Durable, hp.2, List.sublist_nil, List.map_eq_nil_iff] at h
  exact hp.1 h

end MlopsLite.Gateway.Outbox
