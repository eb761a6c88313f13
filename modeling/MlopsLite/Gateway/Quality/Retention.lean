import MlopsLite.Gateway.Quality.Captures

/-!
# Quality — retention

What prunes leave, over all runs: a body that was written has a row or is on
its way, and what is missing from the index was old or outranked
(`captures_bounded`).
-/

namespace MlopsLite.Gateway.Quality

open Newest (Outranked)

/-! ## What is asked -/

/-- A body of a modality, of a capture that has ended. -/
structure AtRest (s : Sys) (modality ref : String) (c : Capture) : Prop where
  body : s.shared.bodies.get? ref = some c
  modality : c.modality = modality
  ended : ∀ t, (s.pc t).capture? ≠ some c

/-- After a prune with these figures. -/
structure Bounded (cfg : Config) (s : Sys) (modality : String) (now : Time) : Prop where
  indexed : ∀ ref c, AtRest s modality ref c →
    ∃ row, s.shared.index.get? c.predictionId = some row ∧ row.inputRef = ref
  fresh : ∀ ref c, AtRest s modality ref c → cfg.older now c.ts = false
  capped : 0 < cfg.capN → ∀ refs : List String, refs.Nodup →
    (∀ ref ∈ refs, ∃ c, AtRest s modality ref c) → refs.length ≤ cfg.capN.toNat

/-- Within the TTL, and among the newest of the index. -/
def Retained (cfg : Config) (x : Stores) (modality : String) (ts : Time) : Prop :=
  cfg.older x.clock ts = false ∧
    (0 < cfg.capN →
      ((x.captureRows modality).filter fun r => ts < r.2.capturedAt).length < cfg.capN.toNat)

/-- A step removes nothing that is to be retained. -/
structure Spares (cfg : Config) (x x' : Stores) : Prop where
  row : ∀ id row, x.index.get? id = some row → x'.index.get? id = none →
    ¬ Retained cfg x row.modality row.capturedAt
  body : ∀ ref c, x.bodies.get? ref = some c → x'.bodies.get? ref = none →
    ¬ Retained cfg x c.modality c.ts

/-- At the end of a prune no other of its modality is between a row and a body,
and each row that it has not read is of a capture still running. -/
structure Settled (s : Sys) (t : ThreadId) (modality : String) (w : Sweep) : Prop where
  between : ∀ u c w' ref rest, u ≠ t → s.pc u = .erasing c w' ref rest → c.modality ≠ modality
  read : ∀ id row, s.shared.index.get? id = some row → row.modality = modality →
    (id, row) ∈ w.rows ∨ ∃ u c, u ≠ t ∧ (s.pc u).capture? = some c ∧ c.predictionId = id

/-! ## One step -/

variable {cfg : Config} {t u : ThreadId} {ch : Choice} {x x' : Stores} {k k' l : Pc}
  {c d : Capture} {w w' : Sweep} {ref : String}

/-- A step under the conditions. -/
inductive Step (cfg : Config) (x : Stores) : Pc → Stores → Pc → Prop
  | ignore : Step cfg x .idle x .idle
  | call (c : Capture) (hm : c.modality ∈ shadowModalities) (hnew : Unused x c) :
      Step cfg x .idle (x.begin c) (.putting c)
  | put (c : Capture) : Step cfg x (.putting c) (x.put c) (.indexing c)
  | lose (c : Capture) : Step cfg x (.putting c) x (.indexing c)
  | index (c : Capture) {k' : Pc} (hk : k' = .reading c ∨ k' = .idle) :
      Step cfg x (.indexing c) (x.captureInput c) k'
  | skip (c : Capture) {k' : Pc} (hk : k' = .reading c ∨ k' = .idle)
      (hbody : x.bodies.get? c.ref = none) : Step cfg x (.indexing c) x k'
  | read (c : Capture) (rows : List (String × Row)) (h : rows.Perm (x.captureRows c.modality)) :
      Step cfg x (.reading c) x (.timing c rows)
  | stop {k : Pc} (hk : k.fresh? = none ∧ k.sweep? = none) : Step cfg x k x .idle
  | look (c : Capture) (rows : List (String × Row)) (now : Time) (w : Sweep)
      (hw : w = ⟨rows, now, true⟩) :
      Step cfg x (.timing c rows) (x.look now) (.sweeping c w (w.taken cfg))
  | finish (c : Capture) (w : Sweep) : Step cfg x (.sweeping c w []) x .idle
  | drop (c : Capture) (w : Sweep) (ref : String) (rest : List String) {w' : Sweep}
      (hw : w' = w ∨ w' = w.failed) :
      Step cfg x (.sweeping c w (ref :: rest)) (x.deleteCapture (w.byRef ref))
        (.erasing c w' ref rest)
  | keep (c : Capture) (w : Sweep) (ref : String) (rest : List String) :
      Step cfg x (.sweeping c w (ref :: rest)) x (.erasing c w.failed ref rest)
  | erase (c : Capture) (w : Sweep) (ref : String) (rest : List String) {w' : Sweep}
      (hw : w' = w ∨ w' = w.failed) :
      Step cfg x (.erasing c w ref rest) (x.deleteObject ref) (.sweeping c w' rest)
  | miss (c : Capture) (w : Sweep) (ref : String) (rest : List String)
      (hrow : ∃ id row, w.byRef ref = some id ∧ x.index.get? id = some row) :
      Step cfg x (.erasing c w ref rest) x (.sweeping c w.failed rest)

theorem step_of_next {s s' : Sys} {a : Act} (hk : Keeps s a) (hn : next cfg s a = some s') :
    Step cfg s.shared (s.pc a.1) s'.shared (s'.pc a.1) ∧ ∀ u, u ≠ a.1 → s'.pc u = s.pc u := by
  obtain ⟨t, ch⟩ := a
  obtain ⟨ha, hothers⟩ := Interleaving.of_next hn
  refine ⟨?_, hothers⟩
  unfold Keeps at hk
  show Step cfg s.shared (s.pc t) s'.shared (s'.pc t)
  dsimp only at hk
  generalize s.pc t = k at ha hk
  generalize s'.pc t = k' at ha
  generalize s'.shared = x' at ha
  generalize s.shared = x at ha hk
  cases k with
  | idle =>
    cases ch <;> simp only [advance, reduceCtorEq] at ha
    split at ha <;> cases ha
    · rename_i hm
      exact .call _ hm hk
    · exact .ignore
  | putting c =>
    cases ch <;> simp only [advance, reduceCtorEq] at ha
    case go =>
      cases ha
      exact .put c
    case fails done =>
      cases done <;> cases ha
      · exact .lose c
      · exact .put c
  | indexing c =>
    cases ch <;> simp only [advance, reduceCtorEq] at ha
    case go =>
      cases ha
      exact .index c (.inl rfl)
    case noConn =>
      cases ha
      exact .skip c (.inl rfl) hk
    case fails done =>
      cases done <;> cases ha
      · exact .skip c (.inr rfl) hk
      · exact .index c (.inr rfl)
  | reading c =>
    cases ch <;> simp only [advance, reduceCtorEq] at ha
    case read rows =>
      split at ha
      · rename_i hperm
        cases ha
        exact .read c rows hperm
      · cases ha
    all_goals
      cases ha
      exact .stop ⟨rfl, rfl⟩
  | timing c rows =>
    cases ch <;> simp only [advance, reduceCtorEq] at ha
    case look now =>
      cases ha
      exact .look c rows now _ rfl
    case fails done =>
      cases ha
      exact .stop ⟨rfl, rfl⟩
  | sweeping c w todo =>
    cases todo with
    | nil =>
      cases ch <;> simp only [advance, reduceCtorEq] at ha
      cases ha
      exact .finish c w
    | cons ref rest =>
      cases ch <;> simp only [advance, reduceCtorEq] at ha
      case go =>
        cases ha
        exact .drop c w ref rest (.inl rfl)
      case fails done =>
        cases done <;> cases ha
        · exact .keep c w ref rest
        · exact .drop c w ref rest (.inr rfl)
  | erasing c w ref rest =>
    cases ch <;> simp only [advance, reduceCtorEq] at ha
    case go =>
      cases ha
      exact .erase c w ref rest (.inl rfl)
    case fails done =>
      cases done <;> cases ha
      · obtain ⟨id, hid, hrow⟩ := Option.any_eq_true _ _ |>.mp hk
        obtain ⟨row, hrow⟩ := Option.isSome_iff_exists.mp hrow
        exact .miss c w ref rest ⟨id, row, hid, hrow⟩
      · exact .erase c w ref rest (.inr rfl)

/-! ## The stores under a step -/

theorem captureInput_of_none (h : x.index.get? c.predictionId = none) : x.captureInput c =
    { x with index := x.index.insert c.predictionId c.row, indexed := x.indexed ++ [c] } := by
  simp [Stores.captureInput, h]

theorem deleteCapture_same (id : Option String) : (x.deleteCapture id).bodies = x.bodies ∧
    (x.deleteCapture id).made = x.made ∧ (x.deleteCapture id).indexed = x.indexed ∧
    (x.deleteCapture id).clock = x.clock := by
  unfold Stores.deleteCapture
  split
  · exact ⟨rfl, rfl, rfl, rfl⟩
  · split_ifs <;> exact ⟨rfl, rfl, rfl, rfl⟩

/-- A delete takes the row it names or nothing. -/
theorem get?_deleteCapture (id : Option String) (key : String) :
    (x.deleteCapture id).index.get? key = x.index.get? key ∨
      id = some key ∧ (x.deleteCapture id).index.get? key = none := by
  unfold Stores.deleteCapture
  split
  · exact .inl rfl
  · rename_i id
    split_ifs with hempty
    · exact .inl rfl
    · by_cases hkey : key = id
      · subst hkey
        exact .inr ⟨rfl, by rw [Dict.get?_erase, if_pos rfl]⟩
      · exact .inl (Dict.get?_erase_ne _ hkey)

/-- The captures of a modality that got a row. -/
def Stores.history (x : Stores) (modality : String) : Finset Capture :=
  (x.indexed.filter fun c => c.modality = modality).toFinset

theorem mem_history {modality : String} :
    c ∈ x.history modality ↔ c ∈ x.indexed ∧ c.modality = modality := by
  simp [Stores.history]

/-- A prune may take it. -/
def Dismissed (cfg : Config) (x : Stores) (c : Capture) : Prop :=
  cfg.older x.clock c.ts = true ∨
    0 < cfg.capN ∧ Outranked Capture.ts cfg.capN.toNat (x.history c.modality) c

/-- What only grows. -/
structure Grows (x x' : Stores) : Prop where
  made : ∀ c ∈ x.made, c ∈ x'.made
  indexed : ∀ c ∈ x.indexed, c ∈ x'.indexed
  clock : x.clock ≤ x'.clock

theorem Grows.rfl : Grows x x := ⟨fun _ h => h, fun _ h => h, le_rfl⟩

theorem Dismissed.mono (h : Dismissed cfg x c) (hx : Grows x x') : Dismissed cfg x' c := by
  refine h.imp (fun hold => older_mono hold le_rfl hx.clock) fun ⟨hcap, hout⟩ => ⟨hcap, ?_⟩
  refine hout.mono fun d hd => ?_
  rw [mem_history] at hd ⊢
  exact ⟨hx.indexed d hd.1, hd.2⟩

/-! ## The invariant of the stores -/

structure Kept (cfg : Config) (x : Stores) : Prop where
  id : ∀ c ∈ x.made, ∀ d ∈ x.made, c.predictionId = d.predictionId → c = d
  time : ∀ c ∈ x.made, ∀ d ∈ x.made, c.modality = d.modality → c.ts = d.ts → c = d
  shadow : ∀ c ∈ x.made, c.modality ∈ shadowModalities
  sub : ∀ c ∈ x.indexed, c ∈ x.made
  rows : ∀ id row, x.index.get? id = some row → ∃ c ∈ x.indexed, c.entry = (id, row)
  bodies : ∀ ref c, x.bodies.get? ref = some c → c ∈ x.made ∧ c.ref = ref
  gone : ∀ c ∈ x.indexed, x.index.get? c.predictionId = none → Dismissed cfg x c

theorem normalize_of_shadow {modality : String} (h : modality ∈ shadowModalities) :
    normalizeModality modality ∈ shadowModalities := by
  simp only [shadowModalities, List.mem_cons, List.not_mem_nil, or_false] at h
  rcases h with rfl | rfl | rfl <;> decide

namespace Kept

variable (h : Kept cfg x)

include h

theorem eq_of_ref (hc : c ∈ x.made) (hd : d ∈ x.made) (href : c.ref = d.ref) : c = d :=
  h.id c hc d hd (inputKey_inj (normalize_of_shadow (h.shadow c hc))
    (normalize_of_shadow (h.shadow d hd)) href)

/-- The row under a capture's id is its own. -/
theorem row_eq {row : Row} (hc : c ∈ x.made) (hrow : x.index.get? c.predictionId = some row) :
    c ∈ x.indexed ∧ row = c.row := by
  obtain ⟨d, hd, hentry⟩ := h.rows _ _ hrow
  obtain ⟨hid, rfl⟩ := Prod.mk.inj hentry
  obtain rfl := h.id d (h.sub d hd) c hc hid
  exact ⟨hd, rfl⟩

theorem no_row (hc : c ∈ x.made) (hfresh : c ∉ x.indexed) :
    x.index.get? c.predictionId = none := by
  cases hrow : x.index.get? c.predictionId with
  | none => rfl
  | some row => exact absurd (h.row_eq hc hrow).1 hfresh

end Kept

/-- Rows as a prune reads them. -/
structure Reads (x : Stores) (modality : String) (rows : List (String × Row)) : Prop where
  nodup : rows.Nodup
  rows : ∀ r ∈ rows, ∃ d ∈ x.indexed, d.modality = modality ∧ d.entry = r

theorem Reads.mono {modality : String} {rows : List (String × Row)} (h : Reads x modality rows)
    (hx : Grows x x') : Reads x' modality rows := by
  refine ⟨h.nodup, fun r hr => ?_⟩
  obtain ⟨d, hd, hrest⟩ := h.rows r hr
  exact ⟨d, hx.indexed d hd, hrest⟩

theorem Kept.reads (h : Kept cfg x) {modality : String} {rows : List (String × Row)}
    (hperm : rows.Perm (x.captureRows modality)) : Reads x modality rows := by
  constructor
  · rw [hperm.nodup_iff]
    exact (List.Nodup.of_map _ x.index.nodup).filter _
  · intro r hr
    obtain ⟨hitem, hm⟩ := List.mem_filter.mp (hperm.mem_iff.mp hr)
    obtain ⟨d, hd, hentry⟩ := h.rows r.1 r.2 (Dict.mem_items.mp hitem)
    refine ⟨d, hd, ?_, hentry⟩
    have hrow : d.row = r.2 := (Prod.mk.inj hentry).2
    rw [← of_decide_eq_true hm, ← hrow]
    rfl

/-- What a prune takes was read, and may be taken. -/
theorem Reads.dismissed {modality : String} (h : Reads x modality w.rows) (hx : Kept cfg x)
    (hnow : w.now ≤ x.clock) (href : ref ∈ w.taken cfg) :
    ∃ c ∈ x.indexed, c.modality = modality ∧ c.ref = ref ∧ Dismissed cfg x c := by
  have htimes : (w.records.map Prod.snd).Nodup := by
    rw [Sweep.records, List.map_map]
    refine List.Nodup.map_on ?_ h.nodup
    intro r hr r' hr' hts
    obtain ⟨c, hc, hm, rfl⟩ := h.rows r hr
    obtain ⟨c', hc', hm', rfl⟩ := h.rows r' hr'
    rw [hx.time c (hx.sub c hc) c' (hx.sub c' hc') (hm.trans hm'.symm) hts]
  obtain ⟨ts, hmem, hwhy⟩ := of_mem_inputsToPrune htimes href
  obtain ⟨r, hr, heq⟩ := List.mem_map.mp hmem
  obtain ⟨c, hc, hm, rfl⟩ := h.rows r hr
  obtain ⟨hcref, hcts⟩ := Prod.mk.inj heq
  refine ⟨c, hc, hm, hcref, ?_⟩
  have hcts : c.ts = ts := hcts
  subst hcts
  refine hwhy.imp (fun hold => older_mono hold le_rfl hnow) fun ⟨hcap, hlen⟩ => ⟨hcap, ?_⟩
  -- the newer rows are those of captures of the history
  rw [Sweep.records, List.filter_map, List.length_map] at hlen
  refine hlen.trans ?_
  rw [← List.toFinset_card_of_nodup (h.nodup.filter _),
    ← Finset.card_image_of_injective _ Capture.entry_injective]
  refine Finset.card_le_card fun r hr => ?_
  rw [List.mem_toFinset, List.mem_filter] at hr
  obtain ⟨c', hc', hm', rfl⟩ := h.rows r hr.1
  refine Finset.mem_image_of_mem _ (Finset.mem_filter.mpr ⟨?_, of_decide_eq_true hr.2⟩)
  rw [mem_history]
  exact ⟨hc', hm'.trans hm.symm⟩

/-! ## The invariant of a thread -/

/-- What a prune has read and taken so far. -/
structure Swept (cfg : Config) (x : Stores) (w : Sweep) (todo : List String) : Prop where
  now : w.now ≤ x.clock
  listed : ∀ ref ∈ todo, ref ∈ w.taken cfg
  taken : w.clean = true → ∀ ref ∈ w.taken cfg, ref ∉ todo → x.bodies.get? ref = none

structure Local (cfg : Config) (x : Stores) (k : Pc) : Prop where
  made : ∀ c, k.capture? = some c → c ∈ x.made
  fresh : ∀ c, k.fresh? = some c → c ∉ x.indexed
  rows : ∀ modality rows, k.rows? = some (modality, rows) → Reads x modality rows
  sweep : ∀ w todo, k.sweep? = some (w, todo) → Swept cfg x w todo

theorem Pc.capture?_of_fresh (h : k.fresh? = some c) : k.capture? = some c := by
  cases k <;> first | exact h | cases h

theorem Pc.rows?_of_sweep {todo : List String} (h : k.sweep? = some (w, todo)) :
    ∃ c, k.capture? = some c ∧ k.rows? = some (c.modality, w.rows) := by
  cases k <;> cases h <;> exact ⟨_, rfl, rfl⟩

/-- A capture that a thread's prune is to take. -/
theorem Local.dismissed {todo : List String} (h : Local cfg x k) (hx : Kept cfg x)
    (hs : k.sweep? = some (w, todo)) (href : ref ∈ w.taken cfg) :
    ∃ c d, k.capture? = some c ∧ d ∈ x.indexed ∧ d.modality = c.modality ∧ d.ref = ref ∧
      Dismissed cfg x d := by
  obtain ⟨c, hc, hrows⟩ := Pc.rows?_of_sweep hs
  obtain ⟨d, hd, hrest⟩ := (h.rows _ _ hrows).dismissed hx (h.sweep _ _ hs).now href
  exact ⟨c, d, hc, hd, hrest⟩

/-- What `by_ref` gives is a row the prune read. -/
theorem Reads.byRef {modality id : String} (h : Reads x modality w.rows)
    (hid : w.byRef ref = some id) :
    ∃ d ∈ x.indexed, d.modality = modality ∧ d.predictionId = id ∧ d.ref = ref := by
  obtain ⟨r, hfind, rfl⟩ := Option.map_eq_some_iff.mp hid
  obtain ⟨d, hd, hm, rfl⟩ := h.rows r (List.mem_reverse.mp (List.mem_of_find?_eq_some hfind))
  have href := List.find?_some hfind
  exact ⟨d, hd, hm, rfl, of_decide_eq_true href⟩

namespace Swept

variable {todo : List String}

theorem failed (h : Swept cfg x w todo) : Swept cfg x w.failed todo :=
  ⟨h.now, h.listed, fun hclean => by cases hclean⟩

theorem mono (h : Swept cfg x w todo) (hx : Grows x x')
    (hbodies : ∀ ref, x.bodies.get? ref = none → x'.bodies.get? ref = none) :
    Swept cfg x' w todo :=
  ⟨h.now.trans hx.clock, h.listed, fun hclean ref href hout =>
    hbodies ref (h.taken hclean ref href hout)⟩

/-- The next body is gone. -/
theorem tail (h : Swept cfg x w (ref :: todo)) (hgone : x.bodies.get? ref = none) :
    Swept cfg x w todo := by
  refine ⟨h.now, fun ref' href => h.listed ref' (List.mem_cons_of_mem _ href), ?_⟩
  intro hclean ref' href hout
  by_cases heq : ref' = ref
  · exact heq ▸ hgone
  · exact h.taken hclean ref' href fun hmem => (List.mem_cons.mp hmem).elim heq hout

end Swept

namespace Local

theorem idle : Local cfg x .idle := by
  constructor <;> intros <;> rename_i h <;> cases h

theorem start (hmade : c ∈ x.made) (hk : k = .putting c ∨ k = .indexing c)
    (hfresh : c ∉ x.indexed) : Local cfg x k := by
  rcases hk with rfl | rfl <;> constructor
  case inl.made | inr.made =>
    intro d hd
    cases hd
    exact hmade
  case inl.fresh | inr.fresh =>
    intro d hd
    cases hd
    exact hfresh
  all_goals
    intros
    rename_i h
    cases h

theorem reading (hmade : c ∈ x.made) : Local cfg x (.reading c) := by
  constructor
  case made =>
    intro d hd
    cases hd
    exact hmade
  all_goals
    intros
    rename_i h
    cases h

theorem timing {rows : List (String × Row)} (hmade : c ∈ x.made)
    (hrows : Reads x c.modality rows) : Local cfg x (.timing c rows) := by
  constructor
  case made =>
    intro d hd
    cases hd
    exact hmade
  case rows =>
    intro modality rows h
    cases h
    exact hrows
  all_goals
    intros
    rename_i h
    cases h

theorem pruning {todo : List String}
    (hk : k = .sweeping c w todo ∨ ∃ ref rest, todo = ref :: rest ∧ k = .erasing c w ref rest)
    (hmade : c ∈ x.made) (hrows : Reads x c.modality w.rows) (hswept : Swept cfg x w todo) :
    Local cfg x k := by
  rcases hk with rfl | ⟨ref, rest, rfl, rfl⟩ <;> constructor
  case inl.made | inr.made =>
    intro d hd
    cases hd
    exact hmade
  case inl.rows | inr.rows =>
    intro modality rows h
    cases h
    exact hrows
  case inl.sweep | inr.sweep =>
    intro w' todo' h
    cases h
    exact hswept
  all_goals
    intros
    rename_i h
    cases h

end Local

section

variable (h : Step cfg x k x' k')

include h

theorem Step.grows : Grows x x' := by
  cases h with
  | call c hm hnew => exact ⟨fun d hd => List.mem_append_left _ hd, fun _ h => h, le_rfl⟩
  | index c hk =>
    unfold Stores.captureInput
    split
    · exact .rfl
    · exact ⟨fun _ h => h, fun d hd => List.mem_append_left _ hd, le_rfl⟩
  | look c rows now w hw => exact ⟨fun _ h => h, fun _ h => h, le_max_left ..⟩
  | drop c w ref rest hw =>
    obtain ⟨-, hmade, hindexed, hclock⟩ := deleteCapture_same (x := x) (w.byRef ref)
    exact ⟨fun d hd => hmade ▸ hd, fun d hd => hindexed ▸ hd, hclock.ge⟩
  | _ => exact ⟨fun _ h => h, fun _ h => h, le_rfl⟩

/-- A body is written by its own capture. -/
theorem Step.bodies (hc : x'.bodies.get? ref = some c) :
    x.bodies.get? ref = some c ∨ k = .putting c ∧ c.ref = ref := by
  cases h with
  | put d =>
    by_cases href : ref = d.ref
    · subst href
      have hput : (x.put d).bodies.get? d.ref = some d := Dict.get?_insert_self ..
      cases hput.symm.trans hc
      exact .inr ⟨rfl, rfl⟩
    · left
      rwa [Stores.put, Dict.get?_insert_ne _ _ href] at hc
  | index d hk =>
    unfold Stores.captureInput at hc
    split at hc <;> exact .inl hc
  | drop d w ref' rest hw =>
    rw [(deleteCapture_same (x := x) (w.byRef ref')).1] at hc
    exact .inl hc
  | erase d w ref' rest hw =>
    left
    rw [Stores.deleteObject, Dict.get?_erase] at hc
    split_ifs at hc
    exact hc
  | _ => exact .inl hc

/-- A row is written by its own capture. -/
theorem Step.index_row {id : String} {row : Row} (hrow : x'.index.get? id = some row) :
    x.index.get? id = some row ∨ ∃ c, k = .indexing c ∧ c.entry = (id, row) ∧ c ∈ x'.indexed := by
  cases h with
  | index d hk =>
    unfold Stores.captureInput at hrow ⊢
    split
    · rename_i hsome
      rw [if_pos hsome] at hrow
      exact .inl hrow
    · rename_i hnone
      rw [if_neg hnone] at hrow
      by_cases hid : id = d.predictionId
      · subst hid
        rw [Dict.get?_insert_self] at hrow
        cases hrow
        exact .inr ⟨d, rfl, rfl, List.mem_append_right _ (List.mem_singleton_self _)⟩
      · rw [Dict.get?_insert_ne _ _ hid] at hrow
        exact .inl hrow
  | drop d w ref' rest hw =>
    rcases get?_deleteCapture (x := x) (w.byRef ref') id with hsame | ⟨-, hnone⟩
    · exact .inl (hsame ▸ hrow)
    · cases hnone.symm.trans hrow
  | _ => exact .inl hrow

/-- A row is lost to the prune that was to take it. -/
theorem Step.index_lost {id : String} {row : Row} (hrow : x.index.get? id = some row)
    (hlost : x'.index.get? id = none) : ∃ c w w' ref rest, k = .sweeping c w (ref :: rest) ∧
      w.byRef ref = some id ∧ k' = .erasing c w' ref rest := by
  cases h with
  | index d hk =>
    unfold Stores.captureInput at hlost
    split at hlost
    · cases hlost.symm.trans hrow
    · by_cases hid : id = d.predictionId
      · subst hid
        rw [Dict.get?_insert_self] at hlost
        cases hlost
      · rw [Dict.get?_insert_ne _ _ hid] at hlost
        cases hlost.symm.trans hrow
  | drop d w ref' rest hw =>
    rcases get?_deleteCapture (x := x) (w.byRef ref') id with hsame | ⟨hid, -⟩
    · cases (hsame ▸ hlost).symm.trans hrow
    · exact ⟨d, w, _, ref', rest, rfl, hid, rfl⟩
  | _ => cases hlost.symm.trans hrow

/-- A capture gets its row from its own thread, and has it then. -/
theorem Step.indexed (hc : c ∈ x'.indexed) : c ∈ x.indexed ∨
    k = .indexing c ∧ (x'.index.get? c.predictionId).isSome ∧ (k' = .reading c ∨ k' = .idle) := by
  cases h with
  | index d hk =>
    unfold Stores.captureInput at hc ⊢
    split at hc
    · exact .inl hc
    · rename_i hnone
      rcases List.mem_append.mp hc with hc | hc
      · exact .inl hc
      · obtain rfl := List.mem_singleton.mp hc
        right
        refine ⟨rfl, ?_, hk⟩
        rw [if_neg hnone]
        simp [Dict.get?_insert_self]
  | drop d w ref' rest hw =>
    rw [(deleteCapture_same (x := x) (w.byRef ref')).2.2.1] at hc
    exact .inl hc
  | _ => exact .inl hc

theorem Step.made (hc : c ∈ x'.made) :
    c ∈ x.made ∨ k' = .putting c ∧ c.modality ∈ shadowModalities ∧ Unused x c := by
  cases h with
  | call d hm hnew =>
    rcases List.mem_append.mp hc with hc | hc
    · exact .inl hc
    · obtain rfl := List.mem_singleton.mp hc
      exact .inr ⟨rfl, hm, hnew⟩
  | index d hk =>
    unfold Stores.captureInput at hc
    split at hc <;> exact .inl hc
  | drop d w ref' rest hw =>
    rw [(deleteCapture_same (x := x) (w.byRef ref')).2.1] at hc
    exact .inl hc
  | _ => exact .inl hc

/-- A row that goes was to be taken. -/
theorem Step.row_dismissed (hx : Kept cfg x) (hk : Local cfg x k) {id : String} {row : Row}
    (hrow : x.index.get? id = some row) (hlost : x'.index.get? id = none) :
    ∃ c ∈ x.indexed, c.entry = (id, row) ∧ Dismissed cfg x c := by
  obtain ⟨c, hc, hentry⟩ := hx.rows id row hrow
  refine ⟨c, hc, hentry, ?_⟩
  obtain ⟨e, w, w', ref, rest, rfl, hby, -⟩ := h.index_lost hrow hlost
  obtain ⟨d, hd, -, hid, href⟩ := (hk.rows _ _ rfl).byRef hby
  obtain rfl := hx.id d (hx.sub d hd) c (hx.sub c hc) (hid.trans (Prod.mk.inj hentry).1.symm)
  have hmem := (hk.sweep _ _ rfl).listed ref (List.mem_cons_self ..)
  obtain ⟨-, d', -, hd', -, href', hdis⟩ := hk.dismissed hx rfl hmem
  rwa [hx.eq_of_ref (hx.sub d' hd') (hx.sub d hd) (href'.trans href.symm)] at hdis

/-- So was a body. -/
theorem Step.body_dismissed (hx : Kept cfg x) (hk : Local cfg x k)
    (hc : x.bodies.get? ref = some c) (hlost : x'.bodies.get? ref = none) :
    c ∈ x.indexed ∧ Dismissed cfg x c := by
  obtain ⟨hmade, hcref⟩ := hx.bodies ref c hc
  cases h with
  | put d =>
    by_cases href : ref = d.ref
    · subst href
      rw [Stores.put, Dict.get?_insert_self] at hlost
      cases hlost
    · rw [Stores.put, Dict.get?_insert_ne _ _ href] at hlost
      cases hlost.symm.trans hc
  | index d hk =>
    unfold Stores.captureInput at hlost
    split at hlost <;> cases hlost.symm.trans hc
  | drop d w ref' rest hw =>
    rw [(deleteCapture_same (x := x) (w.byRef ref')).1] at hlost
    cases hlost.symm.trans hc
  | erase d w ref' rest hw =>
    by_cases href : ref = ref'
    · subst href
      have hmem := (hk.sweep _ _ rfl).listed ref (List.mem_cons_self ..)
      obtain ⟨-, e, -, he, -, href, hdis⟩ := hk.dismissed hx rfl hmem
      obtain rfl := hx.eq_of_ref (hx.sub e he) hmade (href.trans hcref.symm)
      exact ⟨he, hdis⟩
    · rw [Stores.deleteObject, Dict.get?_erase_ne _ href] at hlost
      cases hlost.symm.trans hc
  | _ => cases hlost.symm.trans hc

/-- A step keeps the stores. -/
theorem Step.kept (hx : Kept cfg x) (hk : Local cfg x k) : Kept cfg x' := by
  constructor
  · intro c hc d hd hid
    rcases h.made hc with hc | ⟨hcput, -, hcnew⟩ <;> rcases h.made hd with hd | ⟨hdput, -, hdnew⟩
    · exact hx.id c hc d hd hid
    · exact absurd hid.symm (hdnew c hc).1
    · exact absurd hid (hcnew d hd).1
    · exact Pc.putting.inj (hcput.symm.trans hdput)
  · intro c hc d hd hm hts
    rcases h.made hc with hc | ⟨hcput, -, hcnew⟩ <;> rcases h.made hd with hd | ⟨hdput, -, hdnew⟩
    · exact hx.time c hc d hd hm hts
    · exact absurd hts.symm ((hdnew c hc).2 hm.symm)
    · exact absurd hts ((hcnew d hd).2 hm)
    · exact Pc.putting.inj (hcput.symm.trans hdput)
  · intro c hc
    rcases h.made hc with hc | ⟨-, hm, -⟩
    · exact hx.shadow c hc
    · exact hm
  · intro c hc
    rcases h.indexed hc with hc | ⟨rfl, -, -⟩
    · exact h.grows.made c (hx.sub c hc)
    · exact h.grows.made c (hk.made c rfl)
  · intro id row hrow
    rcases h.index_row hrow with hrow | ⟨c, -, hentry, hc⟩
    · obtain ⟨c, hc, hentry⟩ := hx.rows id row hrow
      exact ⟨c, h.grows.indexed c hc, hentry⟩
    · exact ⟨c, hc, hentry⟩
  · intro ref c hc
    rcases h.bodies hc with hc | ⟨rfl, href⟩
    · obtain ⟨hmade, href⟩ := hx.bodies ref c hc
      exact ⟨h.grows.made c hmade, href⟩
    · exact ⟨h.grows.made c (hk.made c rfl), href⟩
  · intro c hc hnone
    rcases h.indexed hc with hc | ⟨-, hsome, -⟩
    · cases hrow : x.index.get? c.predictionId with
      | none => exact (hx.gone c hc hrow).mono h.grows
      | some row =>
        obtain ⟨d, hd, hentry, hdis⟩ := h.row_dismissed hx hk hrow hnone
        obtain rfl := hx.id d (hx.sub d hd) c (hx.sub c hc) (Prod.mk.inj hentry).1
        exact hdis.mono h.grows
    · rw [hnone] at hsome
      cases hsome

/-- A step moves its own thread along. -/
theorem Step.own (hx : Kept cfg x) (hk : Local cfg x k) : Local cfg x' k' := by
  have hgrows := h.grows
  cases h with
  | ignore | stop _ | finish _ _ => exact .idle
  | call c hm hnew =>
    refine .start (List.mem_append_right _ (List.mem_singleton_self c)) (.inl rfl) fun hc => ?_
    exact (hnew c (hx.sub c hc)).1 rfl
  | put c => exact .start (hk.made c rfl) (.inr rfl) (hk.fresh c rfl)
  | lose c => exact .start (hk.made c rfl) (.inr rfl) (hk.fresh c rfl)
  | index c hk' =>
    rcases hk' with rfl | rfl
    · exact .reading (hgrows.made c (hk.made c rfl))
    · exact .idle
  | skip c hk' hbody =>
    rcases hk' with rfl | rfl
    · exact .reading (hk.made c rfl)
    · exact .idle
  | read c rows hperm => exact .timing (hk.made c rfl) (hx.reads hperm)
  | look c rows now w hw =>
    subst hw
    exact .pruning (.inl rfl) (hk.made c rfl) ((hk.rows _ _ rfl).mono hgrows)
      ⟨le_max_right .., fun _ h => h, fun _ ref href hout => absurd href hout⟩
  | drop c w ref rest hw =>
    have hswept : Swept cfg (x.deleteCapture (w.byRef ref)) w (ref :: rest) :=
      (hk.sweep _ _ rfl).mono hgrows fun ref' hnone => by
        rw [(deleteCapture_same (x := x) (w.byRef ref)).1]
        exact hnone
    have hrows := (hk.rows _ _ rfl).mono hgrows
    have hmade := hgrows.made c (hk.made c rfl)
    rcases hw with rfl | rfl
    · exact .pruning (.inr ⟨ref, rest, rfl, rfl⟩) hmade hrows hswept
    · exact .pruning (.inr ⟨ref, rest, rfl, rfl⟩) hmade hrows hswept.failed
  | keep c w ref rest =>
    exact .pruning (.inr ⟨ref, rest, rfl, rfl⟩) (hk.made c rfl) (hk.rows _ _ rfl)
      (hk.sweep _ _ rfl).failed
  | erase c w ref rest hw =>
    have hswept : Swept cfg (x.deleteObject ref) w (ref :: rest) :=
      (hk.sweep _ _ rfl).mono hgrows fun ref' hnone => by
        rw [Stores.deleteObject, Dict.get?_erase, hnone, ite_self]
    have htail := hswept.tail (by rw [Stores.deleteObject, Dict.get?_erase, if_pos rfl])
    have hrows := (hk.rows _ _ rfl).mono hgrows
    rcases hw with rfl | rfl
    · exact .pruning (.inl rfl) (hk.made c rfl) hrows htail
    · exact .pruning (.inl rfl) (hk.made c rfl) hrows htail.failed
  | miss c w ref rest hrow =>
    refine .pruning (.inl rfl) (hk.made c rfl) (hk.rows _ _ rfl) ?_
    have hswept := hk.sweep _ _ rfl
    exact ⟨hswept.now, fun ref' href => hswept.listed ref' (List.mem_cons_of_mem _ href),
      fun hclean => by cases hclean⟩

/-- And leaves the others where they are. -/
theorem Step.other (hx : Kept cfg x) (hk : Local cfg x k) (hl : Local cfg x l)
    (hne : ∀ c, k.capture? = some c → l.capture? ≠ some c) : Local cfg x' l := by
  have hgrows := h.grows
  constructor
  · intro c hc
    exact hgrows.made c (hl.made c hc)
  · intro c hc hin
    rcases h.indexed hin with hin | ⟨rfl, -, -⟩
    · exact hl.fresh c hc hin
    · exact hne c rfl (Pc.capture?_of_fresh hc)
  · intro modality rows hr
    exact (hl.rows modality rows hr).mono hgrows
  · intro w todo hs
    have hsweep := hl.sweep w todo hs
    refine ⟨hsweep.now.trans hgrows.clock, hsweep.listed, fun hclean ref href hout => ?_⟩
    have hnone := hsweep.taken hclean ref href hout
    cases hbody : x'.bodies.get? ref with
    | none => rfl
    | some c =>
      rcases h.bodies hbody with hbody | ⟨rfl, hcref⟩
      · cases hnone.symm.trans hbody
      · -- a capture whose body comes now has no row yet, and this one was read
        obtain ⟨-, d, -, hd, -, hdref, -⟩ := hl.dismissed hx hs href
        obtain rfl := hx.eq_of_ref (hx.sub d hd) (hk.made c rfl) (hdref.trans hcref.symm)
        exact absurd hd (hk.fresh d rfl)

end

/-! ## Runs -/

/-- A body has its row, or a thread is between the two. -/
def Accounted (s : Sys) (c : Capture) : Prop :=
  (∃ row, s.shared.index.get? c.predictionId = some row) ∨ (∃ t, s.pc t = .indexing c) ∨
    ∃ t d w rest, s.pc t = .erasing d w c.ref rest

structure Inv (cfg : Config) (s : Sys) : Prop where
  stores : Kept cfg s.shared
  threads : ∀ t, Local cfg s.shared (s.pc t)
  alone : ∀ t u c, (s.pc t).capture? = some c → (s.pc u).capture? = some c → t = u
  accounted : ∀ ref c, s.shared.bodies.get? ref = some c → Accounted s c

theorem inv_init : Inv cfg Sys.init := by
  refine ⟨?_, fun _ => .idle, ?_, ?_⟩
  · constructor
    case rows | bodies =>
      intros
      rename_i h
      cases h
    all_goals
      intro c hc
      cases hc
  · intro t u c hc
    cases hc
  · intro ref c hc
    cases hc

/-- A thread takes up a capture that is new to the stores. -/
theorem Step.capture (h : Step cfg x k x' k') (hc : k'.capture? = some c) :
    k.capture? = some c ∨ Unused x c := by
  cases h with
  | call d hm hnew =>
    cases hc
    exact .inr hnew
  | index d hk | skip d hk hbody =>
    rcases hk with rfl | rfl
    · exact .inl hc
    · cases hc
  | ignore | stop _ | finish _ _ => cases hc
  | _ => exact .inl hc

theorem Step.of_putting (h : Step cfg x (.putting c) x' k') : k' = .indexing c := by
  cases h with
  | put | lose => rfl
  | stop hk => cases hk.1

theorem Step.of_indexing (h : Step cfg x (.indexing c) x' k') :
    (∃ row, x'.index.get? c.predictionId = some row) ∨ x' = x ∧ x.bodies.get? c.ref = none := by
  cases h with
  | index _ hk =>
    left
    unfold Stores.captureInput
    split
    · rename_i hsome
      exact Option.isSome_iff_exists.mp hsome
    · exact ⟨c.row, Dict.get?_insert_self ..⟩
  | skip _ hk hbody => exact .inr ⟨rfl, hbody⟩
  | stop hk => cases hk.1

theorem Step.of_erasing {rest : List String} (h : Step cfg x (.erasing d w ref rest) x' k') :
    x'.bodies.get? ref = none ∨
      x' = x ∧ ∃ id row, w.byRef ref = some id ∧ x.index.get? id = some row := by
  cases h with
  | erase _ _ _ _ hw =>
    left
    rw [Stores.deleteObject, Dict.get?_erase, if_pos rfl]
  | miss _ _ _ _ hrow => exact .inr ⟨rfl, hrow⟩
  | stop hk => cases hk.2

theorem Inv.alone_next {s s' : Sys} (h : Inv cfg s)
    (hstep : Step cfg s.shared (s.pc t) s'.shared (s'.pc t))
    (hothers : ∀ u, u ≠ t → s'.pc u = s.pc u) {u v : ThreadId}
    (hu : (s'.pc u).capture? = some c) (hv : (s'.pc v).capture? = some c) : u = v := by
  have hnew : ∀ v, v ≠ t → (s'.pc v).capture? = some c → (s'.pc t).capture? = some c → False := by
    intro v hv hvc htc
    rw [hothers v hv] at hvc
    rcases hstep.capture htc with htc | hunused
    · exact hv (h.alone v t c hvc htc)
    · exact (hunused c ((h.threads v).made c hvc)).1 rfl
  by_cases hut : u = t <;> by_cases hvt : v = t
  · rw [hut, hvt]
  · subst hut
    exact (hnew v hvt hv hu).elim
  · subst hvt
    exact (hnew u hut hu hv).elim
  · rw [hothers u hut] at hu
    rw [hothers v hvt] at hv
    exact h.alone u v c hu hv

theorem Inv.accounted_next {s s' : Sys} (h : Inv cfg s)
    (hstep : Step cfg s.shared (s.pc t) s'.shared (s'.pc t))
    (hothers : ∀ u, u ≠ t → s'.pc u = s.pc u) (hc : s'.shared.bodies.get? ref = some c) :
    Accounted s' c := by
  have hx := h.stores
  have hlocal := h.threads t
  generalize hpc : s.pc t = k at hstep hlocal
  generalize hpc' : s'.pc t = k' at hstep
  rcases hstep.bodies hc with hbody | ⟨rfl, -⟩
  · obtain ⟨hmade, href⟩ := hx.bodies ref c hbody
    rcases h.accounted ref c hbody with ⟨row, hrow⟩ | ⟨u, hu⟩ | ⟨u, d, w, rest, hu⟩
    · cases hrow' : s'.shared.index.get? c.predictionId with
      | some row' => exact .inl ⟨row', hrow'⟩
      | none =>
        obtain ⟨d, w, w', ref', rest, rfl, hby, rfl⟩ := hstep.index_lost hrow hrow'
        obtain ⟨e, he, -, hid, rfl⟩ := (hlocal.rows _ _ rfl).byRef hby
        obtain rfl := hx.id e (hx.sub e he) c hmade hid
        exact .inr (.inr ⟨t, d, w', rest, hpc'⟩)
    · by_cases hut : u = t
      · subst hut
        obtain rfl := hu.symm.trans hpc
        rcases hstep.of_indexing with hrow | ⟨-, hnone⟩
        · exact .inl hrow
        · rw [href] at hnone
          cases hnone.symm.trans hbody
      · exact .inr (.inl ⟨u, (hothers u hut).trans hu⟩)
    · by_cases hut : u = t
      · subst hut
        obtain rfl := hu.symm.trans hpc
        rcases hstep.of_erasing with hnone | ⟨hsame, id, row, hby, hrow⟩
        · rw [href] at hnone
          cases hnone.symm.trans hc
        · obtain ⟨e, he, -, rfl, heref⟩ := (hlocal.rows _ _ rfl).byRef hby
          obtain rfl := hx.eq_of_ref (hx.sub e he) hmade heref
          exact .inl ⟨row, hsame ▸ hrow⟩
      · exact .inr (.inr ⟨u, d, w, rest, (hothers u hut).trans hu⟩)
  · exact .inr (.inl ⟨t, hpc'.trans hstep.of_putting⟩)

theorem Inv.next {s s' : Sys} {a : Act} (h : Inv cfg s) (hk : Keeps s a)
    (hn : next cfg s a = some s') : Inv cfg s' := by
  obtain ⟨t, ch⟩ := a
  obtain ⟨hstep, hothers⟩ := step_of_next hk hn
  refine ⟨hstep.kept h.stores (h.threads t), ?_, ?_, fun ref c hc => ?_⟩
  · intro u
    by_cases hu : u = t
    · subst hu
      exact hstep.own h.stores (h.threads u)
    · rw [hothers u hu]
      exact hstep.other h.stores (h.threads t) (h.threads u) fun c htc huc =>
        hu (h.alone u t c huc htc)
  · intro u v c
    exact h.alone_next hstep hothers
  · exact h.accounted_next hstep hothers hc

theorem inv_of_reachable {s : Sys} (h : Runs.Reachable (next cfg) Keeps Sys.init s) :
    Inv cfg s :=
  h.invariant inv_init fun _ _ _ _ ih hk hn => ih.next hk hn

/-! ## Captures are bounded -/

/-- What may be taken is not among the newest of what is left. -/
theorem Kept.not_retained (hx : Kept cfg x) (hdis : Dismissed cfg x c) :
    ¬ Retained cfg x c.modality c.ts := by
  rintro ⟨hfresh, hfew⟩
  rcases hdis with hold | ⟨hcap, hout⟩
  · rw [hold] at hfresh
    cases hfresh
  set left := (x.history c.modality).filter fun d => (x.index.get? d.predictionId).isSome
  have hleft : Outranked Capture.ts cfg.capN.toNat left c := by
    have hold : ∀ a b : Capture, a.ts ≤ b.ts → cfg.older x.clock b.ts = true →
        cfg.older x.clock a.ts = true := fun a b hab hb => older_mono hb hab le_rfl
    refine Outranked.left hold ?_ hout (by simp [hfresh])
    · intro d hd hgone
      obtain ⟨hd, hm⟩ := mem_history.mp hd
      have hnone : x.index.get? d.predictionId = none := by
        by_contra hne
        exact hgone (Finset.mem_filter.mpr ⟨mem_history.mpr ⟨hd, hm⟩,
          Option.isSome_iff_ne_none.mpr hne⟩)
      rcases hx.gone d hd hnone with hold | ⟨-, hout⟩
      · exact .inl hold
      · exact .inr (hm ▸ hout)
  refine absurd (hfew hcap) (not_lt.mpr (le_trans hleft ?_))
  rw [← Finset.card_image_of_injective _ Capture.entry_injective]
  refine le_trans (Finset.card_le_card ?_) (List.toFinset_card_le _)
  intro r hr
  obtain ⟨d, hd, rfl⟩ := Finset.mem_image.mp hr
  obtain ⟨hd, hlt⟩ := Finset.mem_filter.mp hd
  obtain ⟨hd, hsome⟩ := Finset.mem_filter.mp hd
  obtain ⟨hd, hm⟩ := mem_history.mp hd
  obtain ⟨row, hrow⟩ := Option.isSome_iff_exists.mp hsome
  obtain ⟨-, rfl⟩ := hx.row_eq (hx.sub d hd) hrow
  rw [List.mem_toFinset, List.mem_filter, Stores.captureRows, List.mem_filter]
  exact ⟨⟨Dict.mem_items.mpr hrow, decide_eq_true hm⟩, decide_eq_true hlt⟩

theorem Inv.spares {s s' : Sys} {a : Act} (h : Inv cfg s) (hk : Keeps s a)
    (hn : Quality.next cfg s a = some s') : Spares cfg s.shared s'.shared := by
  obtain ⟨hstep, -⟩ := step_of_next hk hn
  constructor
  · intro id row hrow hlost
    obtain ⟨c, -, hentry, hdis⟩ := hstep.row_dismissed h.stores (h.threads a.1) hrow hlost
    obtain ⟨-, rfl⟩ := Prod.mk.inj hentry
    exact h.stores.not_retained hdis
  · intro ref c hc hlost
    obtain ⟨-, hdis⟩ := hstep.body_dismissed h.stores (h.threads a.1) hc hlost
    exact h.stores.not_retained hdis

/-- A body that is left when a prune ends is one it read and did not take. -/
theorem Inv.left {s s' : Sys} (h : Inv cfg s) (hpc : s.pc t = .sweeping c w [])
    (hclean : w.clean = true) (hsettled : Settled s t c.modality w) (hx : s'.shared = s.shared)
    (hothers : ∀ u, u ≠ t → s'.pc u = s.pc u) (hd : AtRest s' c.modality ref d) :
    d.ref = ref ∧ s.shared.index.get? d.predictionId = some d.row ∧ d.entry ∈ w.rows ∧
      ref ∉ w.taken cfg := by
  have hbody := hd.body
  rw [hx] at hbody
  obtain ⟨hmade, href⟩ := h.stores.bodies ref d hbody
  have hstill : ∀ u, u ≠ t → (s.pc u).capture? ≠ some d := fun u hu huc =>
    hd.ended u (by rw [hothers u hu]; exact huc)
  have hrow : ∃ row, s.shared.index.get? d.predictionId = some row := by
    rcases h.accounted ref d hbody with hrow | ⟨u, hu⟩ | ⟨u, e, w', rest, hu⟩
    · exact hrow
    · have hut : u ≠ t := fun heq => by
        rw [heq, hpc] at hu
        cases hu
      exact absurd (by rw [hu]; rfl) (hstill u hut)
    · have hut : u ≠ t := fun heq => by
        rw [heq, hpc] at hu
        cases hu
      -- the other prune has it among its own
      have hlocal := h.threads u
      rw [hu] at hlocal
      have hmem := (hlocal.sweep _ _ rfl).listed d.ref (List.mem_cons_self ..)
      obtain ⟨e', d', he', hd', hm, href', -⟩ := hlocal.dismissed h.stores rfl hmem
      cases he'
      obtain rfl := h.stores.eq_of_ref (h.stores.sub d' hd') hmade href'
      exact absurd (hm.symm.trans hd.modality) (hsettled.between u e w' _ rest hut hu)
  obtain ⟨row, hrow⟩ := hrow
  obtain ⟨-, rfl⟩ := h.stores.row_eq hmade hrow
  refine ⟨href, hrow, ?_, fun htaken => ?_⟩
  · rcases hsettled.read _ _ hrow hd.modality with hread | ⟨u, e, hut, hue, hid⟩
    · exact hread
    · obtain rfl := h.stores.id e ((h.threads u).made e hue) d hmade hid
      exact absurd hue (hstill u hut)
  · have hlocal := h.threads t
    rw [hpc] at hlocal
    have hnone := (hlocal.sweep _ _ rfl).taken hclean ref htaken (by simp)
    cases hnone.symm.trans hbody

theorem Inv.bounded {s s' : Sys} (h : Inv cfg s) (hpc : s.pc t = .sweeping c w [])
    (hclean : w.clean = true) (hsettled : Settled s t c.modality w) (hx : s'.shared = s.shared)
    (hothers : ∀ u, u ≠ t → s'.pc u = s.pc u) : Bounded cfg s' c.modality w.now := by
  have hleft : ∀ ref d, AtRest s' c.modality ref d → d.ref = ref ∧
      s.shared.index.get? d.predictionId = some d.row ∧ d.entry ∈ w.rows ∧ ref ∉ w.taken cfg :=
    fun ref d hd => h.left hpc hclean hsettled hx hothers hd
  refine ⟨?_, ?_, ?_⟩
  · intro ref d hd
    obtain ⟨href, hrow, -, -⟩ := hleft ref d hd
    rw [hx]
    exact ⟨d.row, hrow, href⟩
  · intro ref d hd
    obtain ⟨href, -, hread, hkept⟩ := hleft ref d hd
    exact fresh_of_kept (List.mem_map.mpr ⟨d.entry, hread, rfl⟩) (href ▸ hkept)
  · intro hcap refs hnodup hrest
    have hfit : (w.records.filter fun r => r.1 ∉ w.taken cfg).length ≤ cfg.capN.toNat :=
      length_kept hcap
    have hsub : refs ⊆ (w.records.filter fun r => r.1 ∉ w.taken cfg).map Prod.fst := by
      intro ref hmem
      obtain ⟨d, hd⟩ := hrest ref hmem
      obtain ⟨href, -, hread, hkept⟩ := hleft ref d hd
      refine List.mem_map.mpr ⟨(d.ref, d.ts), List.mem_filter.mpr ⟨?_, ?_⟩, href⟩
      · exact List.mem_map.mpr ⟨d.entry, hread, rfl⟩
      · exact decide_eq_true (href ▸ hkept)
    have hlen := (hnodup.subperm hsub).length_le
    rw [List.length_map] at hlen
    exact hlen.trans hfit

/-- In every run that keeps to the conditions, a prune that ends without a
failed delete, with no other of its modality half-way and none missed, leaves
no body without a row, none older than the TTL and no more than `cap_n`; and no
step removes a capture within the TTL and among the newest `cap_n`. -/
theorem captures_bounded (cfg : Config) {s : Sys}
    (h : Runs.Reachable (next cfg) Keeps Sys.init s) :
    (∀ t c w s', s.pc t = .sweeping c w [] → w.clean = true → Settled s t c.modality w →
      next cfg s (t, .go) = some s' → Bounded cfg s' c.modality w.now) ∧
    ∀ a s', Keeps s a → next cfg s a = some s' → Spares cfg s.shared s'.shared := by
  have hinv := inv_of_reachable h
  refine ⟨?_, fun a s' hk hn => hinv.spares hk hn⟩
  intro t c w s' hpc hclean hsettled hn
  obtain ⟨ha, hothers⟩ := Interleaving.of_next hn
  rw [hpc] at ha
  have hx : s'.shared = s.shared := by
    simp only [advance, Option.some.injEq, Prod.mk.injEq] at ha
    exact ha.1.symm
  exact hinv.bounded hpc hclean hsettled hx hothers

/-! ## Two captures -/

/-- The first thread is at the end of a prune that read the whole index. -/
def Sys.ends (s : Sys) (c : Capture) (now : Time) : Bool :=
  match s.pc 0 with
  | .sweeping d w [] =>
      d = c && w.clean && w.now = now && decide (s.shared.index.items ⊆ w.rows)
  | _ => false

theorem settled_of_ends {s : Sys} {now : Time} (halone : ∀ u, u ≠ 0 → s.pc u = .idle)
    (h : s.ends c now = true) : ∃ w, s.pc 0 = .sweeping c w [] ∧ w.clean = true ∧ w.now = now ∧
      Settled s 0 c.modality w := by
  unfold Sys.ends at h
  split at h
  · rename_i d w hpc
    simp only [Bool.and_eq_true, decide_eq_true_eq] at h
    obtain ⟨⟨⟨rfl, hclean⟩, hnow⟩, hread⟩ := h
    refine ⟨w, hpc, hclean, hnow, ?_, ?_⟩
    · intro u e w' ref rest hu hue
      rw [halone u hu] at hue
      cases hue
    · intro id row hrow _
      exact .inl (hread (Dict.mem_items.mpr hrow))
  · cases h

/-- An input is kept for a day, and one only. -/
def oneDay : Config := ⟨1, 86400000000⟩

def firstCapture : Capture := ⟨"p1", "asr", 1700000000000000⟩

def secondCapture : Capture := ⟨"p2", "asr", 1700000000500000⟩

/-- Two captures, one after the other; the prune of the second takes the first. -/
def twoCaptures : List Act :=
  [(0, .call "p1" "asr" 1700000000000000), (0, .go), (0, .go), (0, .read [firstCapture.entry]),
    (0, .look 1700000000100000), (0, .go), (0, .call "p2" "asr" 1700000000500000), (0, .go),
    (0, .go), (0, .read [firstCapture.entry, secondCapture.entry]), (0, .look 1700000000600000),
    (0, .go), (0, .go)]

theorem twoCaptures_bounded : ∃ s s', s.shared.bodies.keys = [secondCapture.ref] ∧
    next oneDay s (0, .go) = some s' ∧ Bounded oneDay s' "asr" 1700000000600000 ∧
    Spares oneDay s.shared s'.shared := by
  have hrun : ((Runs.run (next oneDay) (fun s a => Keeps s a ∧ a.1 = 0) Sys.init twoCaptures).bind
      fun s => (next oneDay s (0, .go)).map fun _ =>
        decide (s.shared.bodies.keys = [secondCapture.ref]) &&
          s.ends secondCapture 1700000000600000 && decide (Keeps s (0, .go))) = some true := by
    decide +kernel
  obtain ⟨s, s', hs, hn, hp⟩ := Runs.exists_step hrun
  simp only [Bool.and_eq_true, decide_eq_true_eq] at hp
  obtain ⟨⟨hkeys, hends⟩, hkeeps⟩ := hp
  have halone := Interleaving.others_of_solo (fun _ _ h => h.2) hs
  obtain ⟨w, hpc, hclean, hnow, hsettled⟩ := settled_of_ends halone hends
  have hbounded := captures_bounded oneDay (hs.mono fun _ _ h => h.1)
  refine ⟨s, s', hkeys, hn, ?_, hbounded.2 _ s' hkeeps hn⟩
  rw [← hnow]
  exact hbounded.1 0 secondCapture w s' hpc hclean hsettled hn

/-- The row of the first is not written; the prune of the second, two days
later, ends. -/
def lostRow : List Act :=
  [(0, .call "p1" "asr" 1700000000000000), (0, .go), (0, .fails false),
    (0, .call "p2" "asr" 1700172800000000), (0, .go), (0, .go),
    (0, .read [("p2", Capture.row ⟨"p2", "asr", 1700172800000000⟩)]),
    (0, .look 1700172800100000)]

/-- The body of the first is still there: no row has it, it is older than the
TTL, and no later prune looks for it. -/
theorem lostRow_outlives : ¬ ∀ s, Runs.Reachable (next oneDay) Runs.anyStep Sys.init s →
    ∀ t c w s', s.pc t = .sweeping c w [] → w.clean = true → Settled s t c.modality w →
      next oneDay s (t, .go) = some s' → Bounded oneDay s' c.modality w.now := by
  intro hclaim
  have hrun : ((Runs.run (next oneDay) (fun _ a => a.1 = 0) Sys.init lostRow).bind
      fun s => (next oneDay s (0, .go)).map fun s' =>
        s.ends ⟨"p2", "asr", 1700172800000000⟩ 1700172800100000 &&
          decide (s'.shared.bodies.get? firstCapture.ref = some firstCapture) &&
          decide (s'.shared.index.get? "p1" = none) && (s'.pc 0).capture?.isNone) = some true := by
    decide +kernel
  obtain ⟨s, s', hs, hn, hp⟩ := Runs.exists_step hrun
  simp only [Bool.and_eq_true, decide_eq_true_eq] at hp
  obtain ⟨⟨⟨hends, hbody⟩, hnone⟩, hidle⟩ := hp
  have halone := Interleaving.others_of_solo (fun _ _ h => h) hs
  obtain ⟨w, hpc, hclean, -, hsettled⟩ := settled_of_ends halone hends
  have hbounded := hclaim s hs.any 0 _ w s' hpc hclean hsettled hn
  have hrest : AtRest s' "asr" firstCapture.ref firstCapture := by
    refine ⟨hbody, rfl, fun u hu => ?_⟩
    by_cases hu0 : u = 0
    · subst hu0
      rw [hu] at hidle
      cases hidle
    · rw [(Interleaving.of_next hn).2 u hu0, halone u hu0] at hu
      cases hu
  obtain ⟨row, hrow, -⟩ := hbounded.indexed _ _ hrest
  cases hnone.symm.trans hrow

end MlopsLite.Gateway.Quality
