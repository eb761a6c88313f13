import MlopsLite.Scripts.Backfill.Progress

/-!
# Converge — runs that fail, and runs again

Where the offers are clear, every run that ends without errors comes to one database,
whatever was written, refused, lost or cut off before it, and a further run finds nothing
to do.
-/

namespace MlopsLite.Scripts.Backfill

open Filling

variable {ν τ : Type} [Zero ν] [One ν] [DecidableEq ν] {d : Driver ν τ} {env : ℕ → Fate}
  {i : Item ν} {w : World ν τ} {src : Source ν} {db db₀ : Database ν τ}

/-! ## The whole run -/

theorem rank_of_table {k : ℕ} {t : String × Option (List (Item ν))}
    (ht : (tables d src)[k]? = some t) (hi : i ∈ t.2.getD []) : i.rank = k := by
  have hmap : ∀ {α : Type} {l : List α} {f : α → Item ν} {n : ℕ}, (∀ a, (f a).rank = n) →
      i ∈ l.map f → i.rank = n := by
    intro α l f n hf hi
    obtain ⟨a, -, rfl⟩ := List.mem_map.mp hi
    exact hf a
  match k with
  | 0 => cases ht; exact hmap (fun _ => rfl) hi
  | 1 => cases ht; exact hmap (fun _ => rfl) hi
  | 2 => cases ht; exact hmap (fun _ => rfl) hi
  | 3 => cases ht; exact hmap (fun _ => rfl) hi
  | 4 => cases ht; exact hmap (fun _ => rfl) hi
  | 5 => cases ht; exact hmap (fun _ => rfl) hi
  | 6 => cases ht; exact hmap (fun _ => rfl) hi
  | 7 =>
    cases ht
    dsimp only [jobItems] at hi
    split at hi
    · cases hi
    · cases hjobs : foldJournal d _ with
      | none => rw [hjobs] at hi; cases hi
      | some jobs => rw [hjobs] at hi; exact hmap (fun _ => rfl) hi
  | k + 8 => cases ht

theorem pairwise_rank : (itemsOf (tables d src)).Pairwise fun i j => i.rank ≤ j.rank := by
  refine List.pairwise_flatMap.mpr ⟨fun t ht => ?_, ?_⟩
  · obtain ⟨k, hk⟩ := List.getElem?_of_mem ht
    refine List.pairwise_of_forall_mem_list fun i hi j hj => ?_
    rw [rank_of_table hk hi, rank_of_table hk hj]
  · rw [List.pairwise_iff_getElem]
    intro k l hk hl hlt i hi j hj
    rw [rank_of_table (List.getElem?_eq_getElem hk) hi,
      rank_of_table (List.getElem?_eq_getElem hl) hj]
    exact hlt.le

/-- What the objects and the records offer. -/
def offers (d : Driver ν τ) (src : Source ν) : Set (Offer ν τ) :=
  offersOf d (itemsOf (tables d src))

theorem backfillAll_ran (env : ℕ → Fate) (hclear : Clear Content.live (offers d src) db₀.cells)
    (hgrows : Grows Content.live (offers d src) db₀.cells db.cells) :
    ∃ done, Ran d env (itemsOf (tables d src)) ⟨db, 0⟩ (backfillAll d env src ⟨db, 0⟩).2 done ∧
      Totals (backfillAll d env src ⟨db, 0⟩).1 done :=
  report_ran (w := ⟨db, 0⟩) env hclear hgrows Set.Subset.rfl pairwise_rank

/-- The database behind some runs. -/
def runs (d : Driver ν τ) (src : Source ν) (db : Database ν τ) (envs : List (ℕ → Fate)) :
    Database ν τ :=
  envs.foldl (fun db env => (backfillAll d env src ⟨db, 0⟩).2.db) db

theorem runs_grows (hclear : Clear Content.live (offers d src) db₀.cells)
    (envs : List (ℕ → Fate)) :
    Grows Content.live (offers d src) db₀.cells (runs d src db₀ envs).cells := by
  induction envs using List.reverseRecOn with
  | nil => exact .refl
  | append_singleton envs env ih =>
    obtain ⟨done, hran, -⟩ := backfillAll_ran env hclear ih
    rw [runs, List.foldl_append]
    exact ih.trans hran.grows

/-- The row of a job id is the left fold of the entries of a job that has it. -/
def Folded (d : Driver ν τ) (src : Source ν) (id : String) (row : JobRow ν τ) : Prop :=
  ∃ lines key record jobId, src.journal = some lines ∧
    recordOf d (lines.filterMap (entryOf key)) = some record ∧
    jobSplit d record = some (jobId, row) ∧ keyOf jobId = some key ∧ d.text jobId = some id

/-- Whatever fails, and wherever a run is killed: no run changes what is there, and the
first that ends without errors brings about what one run alone would have, for good. -/
structure Converges (d : Driver ν τ) (src : Source ν) (db₀ : Database ν τ) : Prop where
  keeps : ∀ envs env, Below (runs d src db₀ envs).cells
    (backfillAll d env src ⟨runs d src db₀ envs, 0⟩).2.db.cells
  same : ∀ envs env r w, backfillAll d env src ⟨runs d src db₀ envs, 0⟩ = (.ok r, w) →
    r.errors = 0 → ∃ r₀ w₀, backfillAll d (fun _ => .fine) src ⟨db₀, 0⟩ = (.ok r₀, w₀) ∧
      w.db = w₀.db
  folded : ∀ envs env r w, backfillAll d env src ⟨runs d src db₀ envs, 0⟩ = (.ok r, w) →
    r.errors = 0 → ∀ id row, db₀.jobs id = none → w.db.jobs id = some row → Folded d src id row
  quiet : ∀ envs env r w, backfillAll d env src ⟨runs d src db₀ envs, 0⟩ = (.ok r, w) →
    r.errors = 0 → ∀ env', (backfillAll d env' src ⟨w.db, 0⟩).2.db = w.db ∧
      ∀ r', (backfillAll d env' src ⟨w.db, 0⟩).1 = .ok r' → r'.inserted = 0

/-- A folded record names the job that its entries are of. -/
def NamesItself (d : Driver ν τ) (src : Source ν) : Prop :=
  ∀ lines, src.journal = some lines → ∀ key record,
    recordOf d (lines.filterMap (entryOf key)) = some record →
      ∀ jobId, record.get? "job_id" = some jobId → keyOf jobId = some key

variable {r : Report}

theorem grows_of_run (hclear : Clear Content.live (offers d src) db₀.cells)
    (hgrows : Grows Content.live (offers d src) db₀.cells db.cells)
    (hrun : backfillAll d env src ⟨db, 0⟩ = (.ok r, w)) :
    Grows Content.live (offers d src) db₀.cells w.db.cells := by
  obtain ⟨done, hran, -⟩ := backfillAll_ran env hclear hgrows
  rw [hrun] at hran
  exact hgrows.trans hran.grows

theorem complete_of_run (hclear : Clear Content.live (offers d src) db₀.cells)
    (hgrows : Grows Content.live (offers d src) db₀.cells db.cells)
    (hrun : backfillAll d env src ⟨db, 0⟩ = (.ok r, w))
    (hclean : r.errors = 0 ∨ ∀ k, env k = .fine) :
    Complete Content.live (offers d src) w.db.cells := by
  obtain ⟨done, hran, htotals⟩ := backfillAll_ran env hclear hgrows
  rw [hrun] at hran htotals
  exact hran.complete _ _ htotals hclean

/-- Behind a complete database a run finds nothing to do. -/
theorem quiet_of_complete (env : ℕ → Fate) (hclear : Clear Content.live (offers d src) db₀.cells)
    (hgrows : Grows Content.live (offers d src) db₀.cells db.cells)
    (hcomplete : Complete Content.live (offers d src) db.cells) :
    (backfillAll d env src ⟨db, 0⟩).2.db = db ∧
      ∀ r, (backfillAll d env src ⟨db, 0⟩).1 = .ok r → r.inserted = 0 := by
  obtain ⟨done, hran, htotals⟩ := backfillAll_ran env hclear hgrows
  refine ⟨cells_injective (hcomplete.eq_of_grows hran.grows), fun r hr => ?_⟩
  rw [hr] at htotals
  rcases hran.quiet _ _ htotals with hzero | ⟨s, t, hs, hfills⟩
  · exact hzero
  · obtain rfl := hcomplete.eq_of_grows hs
    exact absurd hfills hcomplete.not_fills

omit [One ν] in
theorem jobId_of_jobSplit {record : Record ν} {jobId : Json ν} {row : JobRow ν τ}
    (h : jobSplit d record = some (jobId, row)) : record.get? "job_id" = some jobId := by
  obtain ⟨found, hfound, h⟩ := Option.bind_eq_some_iff.mp h
  simp only [Option.bind_eq_bind, Option.bind_eq_some_iff, Option.pure_def] at h
  obtain ⟨_, -, _, -, _, -, _, -, _, -, _, -, _, -, h⟩ := h
  split at h
  · cases h
    exact hfound
  · obtain ⟨_, -, heq⟩ := Option.bind_eq_some_iff.mp h
    cases heq
    exact hfound

/-- A new job row comes from a record of the journal. -/
theorem folded_of_grows (hnames : NamesItself d src)
    (hgrows : Grows Content.live (offers d src) db₀.cells db.cells) {id : String}
    {row : JobRow ν τ} (hold : db₀.jobs id = none) (hnew : db.jobs id = some row) :
    Folded d src id row := by
  have hcell : db.cells (.job id) = some (.job row) := by simp [Database.cells, hnew]
  rcases hgrows.origin hcell with hsame | ⟨-, o, ⟨i, hi, ho⟩, hcell, hvalue, -⟩
  · simp [Database.cells, hold] at hsame
  · have hrank : i.rank = 7 := by
      rw [← (rank_of_offer ho).1, hcell]
      rfl
    obtain ⟨t, ht, hi⟩ := List.mem_flatMap.mp hi
    obtain ⟨k, hk⟩ := List.getElem?_of_mem ht
    obtain rfl : k = 7 := by rw [← rank_of_table hk hi, hrank]
    cases hk
    dsimp only [jobItems] at hi
    cases hjournal : src.journal with
    | none => rw [hjournal] at hi; cases hi
    | some lines =>
      rw [hjournal] at hi
      dsimp only at hi
      cases hjobs : foldJournal d lines with
      | none => rw [hjobs] at hi; cases hi
      | some jobs =>
        rw [hjobs] at hi
        obtain ⟨record, hrecord, rfl⟩ := List.mem_map.mp hi
        obtain ⟨key, hkey⟩ := Dict.mem_values.mp hrecord
        rw [get?_foldJournal hjobs] at hkey
        obtain ⟨⟨jobId, row'⟩, hsplit, ho⟩ := Option.bind_eq_some_iff.mp ho
        obtain ⟨id', htext, ho⟩ := Option.bind_eq_some_iff.mp ho
        cases ho
        cases hcell
        cases hvalue
        exact ⟨lines, key, record, jobId, hjournal, hkey, hsplit,
          hnames lines hjournal key record hkey jobId (jobId_of_jobSplit hsplit), htext⟩

/-- Runs converge where no two offers for an empty cell differ, none of them meets a JSON
null or is one, and each job's record names that job. -/
theorem converges (d : Driver ν τ) (src : Source ν) (db₀ : Database ν τ)
    (hclear : Clear Content.live (offers d src) db₀.cells) (hnames : NamesItself d src) :
    Converges d src db₀ where
  keeps envs env := by
    obtain ⟨done, hran, -⟩ := backfillAll_ran env hclear (runs_grows hclear envs)
    exact hran.grows.below
  same envs env r w hrun hclean := by
    have hgrows := runs_grows hclear envs
    obtain ⟨r₀, w₀, hfine⟩ : ∃ r₀ w₀, backfillAll d (fun _ => .fine) src ⟨db₀, 0⟩ =
        (.ok r₀, w₀) := by
      rw [backfillAll_eq] at hrun ⊢
      exact report_of_fine (fun _ => rfl) (folds_of_report hrun)
    refine ⟨r₀, w₀, hfine, cells_injective ?_⟩
    exact hclear.unique (grows_of_run hclear hgrows hrun)
      (complete_of_run hclear hgrows hrun (.inl hclean)) (grows_of_run hclear .refl hfine)
      (complete_of_run hclear .refl hfine (.inr fun _ => rfl))
  folded envs env r w hrun hclean id row hold hnew :=
    folded_of_grows hnames (grows_of_run hclear (runs_grows hclear envs) hrun) hold hnew
  quiet envs env r w hrun hclean env' := by
    have hgrows := runs_grows hclear envs
    exact quiet_of_complete env' hclear (grows_of_run hclear hgrows hrun)
      (complete_of_run hclear hgrows hrun (.inl hclean))

/-! ## Two sources -/

/-- A database that takes every value, at one time. -/
def plain : Driver ℤ ℕ where
  chars := fun _ => true
  cast := fun _ => none
  jsonb := fun _ => true
  time := fun _ => some 0
  str := fun _ => "1"
  dict := fun _ => none

def vacant : Database ℤ ℕ := ⟨fun _ => none, fun _ => none, fun _ => none, fun _ => none,
  fun _ => none, fun _ => none⟩

/-- A prediction with its label, and a job of one line before a torn one. -/
def legacy : Source ℤ where
  bucket := [
    ("labels/p.json", some (.obj [("prediction_id", .str "p"), ("label", .num 1), ("ts", .num 8)])),
    ("predictions/p.json", some (.obj [("prediction_id", .str "p"), ("model_name", .str "m"),
      ("model_version", .num 1), ("modality", .str "llm"), ("ts", .num 7)]))]
  journal := some [.json (.obj [("job_id", .str "j"), ("to", .str "queued"),
    ("record", .obj [("job_id", .str "j"), ("submitted_at", .num 6)])]), .torn]

theorem itemsOf_legacy : itemsOf (tables plain legacy) = [
    .prediction "predictions/p.json" (some (.obj [("prediction_id", .str "p"),
      ("model_name", .str "m"), ("model_version", .num 1), ("modality", .str "llm"),
      ("ts", .num 7)])),
    .label (some (.obj [("prediction_id", .str "p"), ("label", .num 1), ("ts", .num 8)])),
    .job ((Dict.ofItems [("job_id", .str "j"), ("submitted_at", .num 6)]).insert "state"
      (.str "queued"))] := rfl

theorem clear_legacy : Clear Content.live (offers plain legacy) vacant.cells := by
  have hvacant : ∀ c, vacant.cells c = none := by
    intro c
    cases c <;> rfl
  have hoffers : ∀ o ∈ offers plain legacy,
      o = ⟨.prediction "p", .prediction ⟨"m", "1", "llm", 0, true, "predictions/p.json"⟩, []⟩ ∨
      o = ⟨.label "p", .label ⟨.num 1, 0⟩, [.prediction "p"]⟩ ∨
      o = ⟨.job "j", .job ⟨"", "", .obj [], "queued", 0, none, none, none⟩, []⟩ := by
    rintro o ⟨i, hi, ho⟩
    rw [itemsOf_legacy] at hi
    simp only [List.mem_cons, List.not_mem_nil, or_false] at hi
    rcases hi with rfl | rfl | rfl
    · exact .inl (Option.some.inj ho).symm
    · exact .inr (.inl (Option.some.inj ho).symm)
    · exact .inr (.inr (Option.some.inj ho).symm)
  refine ⟨fun o ho o' ho' _ _ hcell _ => ?_, fun o _ _ v hv => ?_, fun o ho _ _ => ?_⟩
  · rcases hoffers o ho with rfl | rfl | rfl <;> rcases hoffers o' ho' with rfl | rfl | rfl <;>
      first | rfl | cases hcell
  · rw [hvacant] at hv
    cases hv
  · rcases hoffers o ho with rfl | rfl | rfl <;> trivial

theorem namesItself_legacy : NamesItself plain legacy := by
  rintro lines hlines key record hrecord jobId hjobId
  cases hlines
  by_cases hkey : key = .str "j"
  · subst hkey
    cases hrecord
    cases hjobId
    rfl
  · rw [List.filterMap_eq_nil_iff.mpr] at hrecord
    · cases hrecord
    · intro line hline
      rcases List.mem_pair.mp hline with rfl | rfl
      · simp [entryOf, Entry.jobId, keyOf, Ne.symm hkey]
      · rfl

/-- The two objects and the job come to one database. -/
theorem legacy_converges : Converges plain legacy vacant :=
  converges plain legacy vacant clear_legacy namesItself_legacy

/-- A pending suggestion that is a JSON null. -/
def nullPending : Source ℤ := ⟨[("policies/_pending/m.json", some .null)], none⟩

def onePolicy : Database ℤ ℕ :=
  { vacant with policies := vacant.policies.put "m" ⟨.obj [], 0, "operator", none, none⟩ }

/-- What is written is read as nothing, and is written by each run again. -/
theorem nullPending_not_converges : ¬ Converges plain nullPending onePolicy := by
  intro h
  have hquiet := h.quiet [] (fun _ => .fine) _ _ rfl rfl (fun _ => .fine)
  exact absurd (hquiet.2 _ rfl) (by decide)

end MlopsLite.Scripts.Backfill
