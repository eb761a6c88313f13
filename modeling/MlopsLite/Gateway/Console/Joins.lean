import MlopsLite.Gateway.Console.Jobs

/-!
# Joins — what the join keeps and which conflicts it sees

`detect_conflict` against the pairs of sources it is about, and `join` against
the records it was given (`gateway/app/console/jobs.py`).
-/

namespace MlopsLite.Gateway.Console.Jobs

/-! ## The pairs of a conflict -/

variable (lower : String → String)

/-- What a source's state is compared by. -/
def Observation.class (o : Observation) : Option String := o.state.map (comparableBy lower)

/-- Two readings within the threshold of each other, or one of them without a time. -/
def Near (a b : Observation) : Prop :=
  ∀ x ∈ a.observedEpoch, ∀ y ∈ b.observedEpoch, |x - y| ≤ skewThresholdS

/-- Two readable sources, read near each other, that say different things. -/
def Disagree (sources : List Observation) : Prop :=
  ∃ a ∈ known sources, ∃ b ∈ known sources, Near a b ∧ a.class lower ≠ b.class lower

/-- The conflict is claimed, not only reported as suppressed. -/
def Claimed (entity entityId : String) (sources : List Observation) : Prop :=
  ∃ c, detectConflictBy lower entity entityId sources = some c ∧ c.conflict = true

/-- The spread of the times is within the threshold exactly if every two are near. -/
theorem skewExceeded_eq_false_iff (sources : List Observation) :
    skewExceeded sources = false ↔ ∀ a ∈ sources, ∀ b ∈ sources, Near a b := by
  have hmem (x : ℚ) : x ∈ sources.filterMap Observation.observedEpoch ↔
      ∃ a ∈ sources, a.observedEpoch = some x := List.mem_filterMap
  have hnear : (∀ a ∈ sources, ∀ b ∈ sources, Near a b) ↔
      ∀ x ∈ sources.filterMap Observation.observedEpoch,
        ∀ y ∈ sources.filterMap Observation.observedEpoch, |x - y| ≤ skewThresholdS := by
    constructor
    · intro h x hx y hy
      obtain ⟨a, ha, hax⟩ := (hmem x).mp hx
      obtain ⟨b, hb, hby⟩ := (hmem y).mp hy
      exact h a ha b hb x hax y hby
    · intro h a ha b hb x hx y hy
      exact h x ((hmem x).mpr ⟨a, ha, hx⟩) y ((hmem y).mpr ⟨b, hb, hy⟩)
  rw [hnear, skewExceeded]
  generalize sources.filterMap Observation.observedEpoch = epochs
  cases hmax : epochs.max? with
  | none => simp [List.max?_eq_none_iff.mp hmax]
  | some late =>
    cases hmin : epochs.min? with
    | none => simp [List.min?_eq_none_iff.mp hmin]
    | some early =>
      obtain ⟨hlate, hbelow⟩ := List.max?_eq_some_iff.mp hmax
      obtain ⟨hearly, habove⟩ := List.min?_eq_some_iff.mp hmin
      show decide (skewThresholdS < late - early) = false ↔ _
      rw [decide_eq_false_iff_not, not_lt]
      constructor
      · intro hspread x hx y hy
        have hx' := hbelow x hx
        have hy' := hbelow y hy
        have hx'' := habove x hx
        have hy'' := habove y hy
        rw [abs_le]
        constructor <;> linarith
      · intro h
        exact (le_abs_self _).trans (h late hlate early hearly)

/-- Two different classes are enough for the set of them to have two members. -/
theorem two_le_card_iff (classes : List String) :
    ¬ classes.toFinset.card < 2 ↔ ∃ a ∈ classes, ∃ b ∈ classes, a ≠ b := by
  rw [not_lt, ← Nat.lt_iff_add_one_le, Finset.one_lt_card]
  simp only [List.mem_toFinset]

theorem state_of_known {sources : List Observation} {o : Observation} (h : o ∈ known sources) :
    ∃ s, o.state = some s := by
  rw [known, List.mem_filter, Option.any_eq_true] at h
  obtain ⟨-, s, hs, -⟩ := h
  exact ⟨s, hs⟩

theorem mem_classes {sources : List Observation} {k : String} :
    k ∈ (known sources).filterMap (fun s => s.state.map (comparableBy lower)) ↔
      ∃ o ∈ known sources, o.class lower = some k := List.mem_filterMap

/-- A conflict is claimed exactly if two readable sources differ and all of them were
read near each other. -/
theorem claimed_iff (entity entityId : String) (sources : List Observation) :
    Claimed lower entity entityId sources ↔
      (∃ a ∈ known sources, ∃ b ∈ known sources, a.class lower ≠ b.class lower) ∧
        ∀ a ∈ known sources, ∀ b ∈ known sources, Near a b := by
  have hdiffer : (∃ a ∈ known sources, ∃ b ∈ known sources, a.class lower ≠ b.class lower) ↔
      ¬ ((known sources).filterMap fun s =>
        s.state.map (comparableBy lower)).toFinset.card < 2 := by
    rw [two_le_card_iff]
    constructor
    · rintro ⟨a, ha, b, hb, hne⟩
      obtain ⟨s, hs⟩ := state_of_known ha
      obtain ⟨s', hs'⟩ := state_of_known hb
      rw [Observation.class, Observation.class, hs, hs'] at hne
      refine ⟨_, (mem_classes lower).mpr ⟨a, ha, by rw [Observation.class, hs]; rfl⟩, _,
        (mem_classes lower).mpr ⟨b, hb, by rw [Observation.class, hs']; rfl⟩, ?_⟩
      intro heq
      exact hne (congrArg some heq)
    · rintro ⟨k, hk, k', hk', hne⟩
      obtain ⟨a, ha, hak⟩ := (mem_classes lower).mp hk
      obtain ⟨b, hb, hbk⟩ := (mem_classes lower).mp hk'
      refine ⟨a, ha, b, hb, ?_⟩
      rw [hak, hbk]
      exact fun heq => hne (Option.some.inj heq)
  rw [hdiffer, ← skewExceeded_eq_false_iff, Claimed, detectConflictBy]
  by_cases hcard : ((known sources).filterMap fun s =>
      s.state.map (comparableBy lower)).toFinset.card < 2
  · simp [hcard]
  · -- two classes come from two sources
    have hlength : ¬ (known sources).length < 2 := by
      have hbound := List.toFinset_card_le ((known sources).filterMap fun s =>
        s.state.map (comparableBy lower))
      have hfilter := List.length_filterMap_le (fun s : Observation =>
        s.state.map (comparableBy lower)) (known sources)
      omega
    cases hskew : skewExceeded (known sources) <;> simp [hcard, hlength]

/-- The conflicts claimed are those of two sources near each other unless such two
differ while others were read too far apart. -/
theorem detectConflict_exact_iff (entity entityId : String) (sources : List Observation) :
    (Claimed lower entity entityId sources ↔ Disagree lower sources) ↔
      (Disagree lower sources → ∀ a ∈ known sources, ∀ b ∈ known sources, Near a b) := by
  rw [claimed_iff]
  constructor
  · intro h hdisagree
    exact (h.mpr hdisagree).2
  · intro h
    constructor
    · rintro ⟨⟨a, ha, b, hb, hne⟩, hnear⟩
      exact ⟨a, ha, b, hb, hnear a ha b hb, hne⟩
    · intro hdisagree
      refine ⟨?_, h hdisagree⟩
      obtain ⟨a, ha, b, hb, -, hne⟩ := hdisagree
      exact ⟨a, ha, b, hb, hne⟩

/-- The gateway and the agent differ within ten seconds. -/
def twoSources : List Observation :=
  [⟨"gateway", some "running", none, some 1000⟩, ⟨"agent", some "failed", none, some 1010⟩]

/-- With what tracking said long before, the conflict is gone. -/
theorem conflict_hidden :
    Claimed String.toLower "job" "j" twoSources ∧
      ¬ (Claimed String.toLower "job" "j"
          (twoSources ++ [⟨"tracking", some "RUNNING", none, some 900⟩]) ↔
        Disagree String.toLower
          (twoSources ++ [⟨"tracking", some "RUNNING", none, some 900⟩])) := by
  have hdiffer : Observation.class String.toLower ⟨"gateway", some "running", none, some 1000⟩ ≠
      Observation.class String.toLower ⟨"agent", some "failed", none, some 1010⟩ := by
    decide +kernel
  refine ⟨⟨⟨"job", "j", known twoSources, false, .inspectJournal, true⟩, by decide +kernel, rfl⟩,
    ?_⟩
  intro hexact
  have hclaimed := hexact.mpr ⟨⟨"gateway", some "running", none, some 1000⟩, by decide +kernel,
    ⟨"agent", some "failed", none, some 1010⟩, by decide +kernel, ?_, hdiffer⟩
  · have hspread := ((claimed_iff String.toLower "job" "j" _).mp hclaimed).2
      ⟨"gateway", some "running", none, some 1000⟩ (by decide +kernel)
      ⟨"tracking", some "RUNNING", none, some 900⟩ (by decide +kernel)
    exact absurd (hspread _ rfl _ rfl) (by decide +kernel)
  · rintro x hx y hy
    cases hx
    cases hy
    decide +kernel

/-! ## The records of a row -/

/-- What a record says it is about: a job, or a run that names no job. -/
inductive Identity
  | job (id : String)
  | run (id : String)
  | unnamed
  deriving DecidableEq

def JobRecord.identity (job : JobRecord) : Identity := (job.jobId.map .job).getD .unnamed

/-- The run's own tag for a job, which may be an empty text. -/
def TrackingRun.tagged (run : TrackingRun) : Bool := run.jobId.any (· ≠ "")

def TrackingRun.identity (run : TrackingRun) : Identity :=
  if run.tagged then (run.jobId.map .job).getD .unnamed else (run.runId.map .run).getD .unnamed

/-- The key a run is filed under. -/
def TrackingRun.key (run : TrackingRun) : Option String := orText run.jobId run.runId

def Parts.identities (p : Parts) : List Identity :=
  (p.gateway.map JobRecord.identity).toList ++ (p.agent.map JobRecord.identity).toList ++
    (p.tracking.map TrackingRun.identity).toList

/-- The record is the part of a row that is shown. -/
def Shown {α : Type} (r : Reads) (observed : Observed) (part : Parts → Option α) (a : α) : Prop :=
  ∃ p ∈ (byId r).values, part p = some a ∧ platformJob p observed ∈ join r observed

/-- Every record is part of some row, and the records of a row are about one thing. -/
structure Lossless (r : Reads) (observed : Observed) : Prop where
  gateway : ∀ job ∈ r.gateway.getD [], Shown r observed Parts.gateway job
  agent : ∀ job ∈ r.agent.getD [], Shown r observed Parts.agent job
  tracking : ∀ run ∈ r.tracking.getD [], Shown r observed Parts.tracking run
  unmerged : ∀ p ∈ (byId r).values, ∀ i ∈ p.identities, ∀ j ∈ p.identities, i = j

/-- No two records of one source share a key, unless they are the same. -/
def OnePerKey {α : Type} (key : α → Option String) (records : List α) : Prop :=
  ∀ a ∈ records, ∀ b ∈ records, key a = key b → a = b

/-- No run that names no job goes under the id of a job. -/
def RunsApart (r : Reads) : Prop :=
  ∀ run ∈ r.tracking.getD [], run.tagged = false → ∀ id, run.runId = some id →
    ∀ job ∈ r.gateway.getD [] ++ r.agent.getD [], job.jobId ≠ some id

theorem tracking_byId (r : Reads) (k : Option String) :
    ((byId r).get? k).bind Parts.tracking = lastOf TrackingRun.key k (r.tracking.getD []) := by
  have htracking := part_fileAll TrackingRun.key Parts.putTracking Parts.tracking fun _ _ => rfl
  have hagent := part_fileAll_same JobRecord.jobId Parts.putAgent Parts.tracking
    (fun _ _ => rfl) rfl
  have hgateway := part_fileAll_same JobRecord.jobId Parts.putGateway Parts.tracking
    (fun _ _ => rfl) rfl
  have hfiled : byId r = fileAll TrackingRun.key Parts.putTracking (r.tracking.getD [])
    (fileAgent (r.agent.getD []) (fileGateway (r.gateway.getD []) .empty)) := rfl
  rw [hfiled, htracking, fileAgent, hagent, fileGateway, hgateway]
  simp

theorem lastOf_some {α : Type} {key : α → Option String} {k : Option String} {records : List α}
    {a : α} (h : lastOf key k records = some a) : a ∈ records ∧ key a = k := by
  induction records with
  | nil => cases h
  | cons b rest ih =>
    rw [lastOf_cons] at h
    cases hrest : lastOf key k rest with
    | some c =>
      rw [hrest, Option.some_or] at h
      obtain ⟨hmem, hkey⟩ := ih (hrest.trans h)
      exact ⟨List.mem_cons_of_mem _ hmem, hkey⟩
    | none =>
      rw [hrest, Option.none_or] at h
      split_ifs at h with hkey
      cases h
      exact ⟨List.mem_cons_self, hkey⟩

/-- Some record of a key is filed there last. -/
theorem lastOf_key {α : Type} (key : α → Option String) {records : List α} {a : α}
    (h : a ∈ records) : ∃ b, lastOf key (key a) records = some b := by
  induction records with
  | nil => cases h
  | cons b rest ih =>
    rw [lastOf_cons]
    rcases List.mem_cons.mp h with rfl | hrest
    · cases lastOf key (key a) rest <;> simp
    · obtain ⟨c, hc⟩ := ih hrest
      exact ⟨c, by rw [hc]; rfl⟩

theorem mem_values_byId {r : Reads} {p : Parts} :
    p ∈ (byId r).values ↔ ∃ k, (byId r).get? k = some p := Dict.mem_values

/-- A record is shown exactly if it is the last one filed under its key. -/
theorem shown_iff {α : Type} {r : Reads} {observed : Observed} {part : Parts → Option α}
    {key : α → Option String} {records : List α}
    (hpart : ∀ k, ((byId r).get? k).bind part = lastOf key k records) (a : α) :
    Shown r observed part a ↔ lastOf key (key a) records = some a := by
  constructor
  · rintro ⟨p, hp, ha, -⟩
    obtain ⟨k, hk⟩ := mem_values_byId.mp hp
    have hlast : lastOf key k records = some a := by rw [← hpart, hk, Option.bind_some, ha]
    rw [(lastOf_some hlast).2]
    exact hlast
  · intro hlast
    rw [← hpart] at hlast
    obtain ⟨p, hp, ha⟩ := Option.bind_eq_some_iff.mp hlast
    exact ⟨p, mem_values_byId.mpr ⟨_, hp⟩, ha, mem_join.mpr ⟨_, p, hp, rfl⟩⟩

/-- A source's records are all shown exactly if no two of them share a key. -/
theorem all_shown_iff {α : Type} {r : Reads} {observed : Observed} {part : Parts → Option α}
    {key : α → Option String} {records : List α}
    (hpart : ∀ k, ((byId r).get? k).bind part = lastOf key k records) :
    (∀ a ∈ records, Shown r observed part a) ↔ OnePerKey key records := by
  simp only [shown_iff hpart]
  constructor
  · intro h a ha b hb hkey
    have hlast := h a ha
    rw [hkey, h b hb] at hlast
    exact (Option.some.inj hlast).symm
  · intro h a ha
    obtain ⟨b, hb⟩ := lastOf_key key ha
    obtain ⟨hmem, hkey⟩ := lastOf_some hb
    rw [h a ha b hmem hkey.symm]
    rwa [h a ha b hmem hkey.symm] at hb

/-- A job's record under a key is about the job of that key. -/
theorem JobRecord.identity_eq {job : JobRecord} {k : Option String} (h : job.jobId = k) :
    job.identity = (k.map .job).getD .unnamed := by rw [JobRecord.identity, h]

/-- A run under a key is about the job of that key, or about the run. -/
theorem TrackingRun.identity_eq {run : TrackingRun} {k : Option String} (h : run.key = k) :
    run.identity = if run.tagged then (k.map .job).getD .unnamed
      else (k.map .run).getD .unnamed := by
  subst h
  rw [TrackingRun.identity, TrackingRun.key, orText, TrackingRun.tagged]
  cases run.jobId.any (· ≠ "") <;> rfl

theorem mem_identities {p : Parts} {i : Identity} :
    i ∈ p.identities ↔ (∃ job, p.gateway = some job ∧ job.identity = i) ∨
      (∃ job, p.agent = some job ∧ job.identity = i) ∨
        ∃ run, p.tracking = some run ∧ run.identity = i := by
  simp [Parts.identities]

/-- In a row that has a job's record, a run is about that job. -/
theorem unmerged_of_apart {r : Reads} (h : RunsApart r) {k : Option String} {p : Parts}
    (hk : (byId r).get? k = some p) :
    ∃ i, ∀ j ∈ p.identities, j = i := by
  have hgateway := gateway_byId r k
  have hagent := agent_byId r k
  have htracking := tracking_byId r k
  rw [hk, Option.bind_some] at hgateway hagent htracking
  -- the records of jobs are about the key's job
  have hjobs : ∀ job, p.gateway = some job ∨ p.agent = some job →
      job ∈ r.gateway.getD [] ++ r.agent.getD [] ∧ job.jobId = k := by
    rintro job (hjob | hjob)
    · obtain ⟨hmem, hkey⟩ := lastOf_some (hgateway.symm.trans hjob)
      exact ⟨List.mem_append_left _ hmem, hkey⟩
    · obtain ⟨hmem, hkey⟩ := lastOf_some (hagent.symm.trans hjob)
      exact ⟨List.mem_append_right _ hmem, hkey⟩
  by_cases hjob : ∃ job, p.gateway = some job ∨ p.agent = some job
  · refine ⟨(k.map .job).getD .unnamed, ?_⟩
    intro j hj
    rcases mem_identities.mp hj with ⟨job, hpart, rfl⟩ | ⟨job, hpart, rfl⟩ | ⟨run, hpart, rfl⟩
    · exact JobRecord.identity_eq (hjobs job (.inl hpart)).2
    · exact JobRecord.identity_eq (hjobs job (.inr hpart)).2
    · obtain ⟨hmem, hkey⟩ := lastOf_some (htracking.symm.trans hpart)
      rw [TrackingRun.identity_eq hkey]
      cases htagged : run.tagged with
      | true => rfl
      | false =>
        cases k with
        | none => rfl
        | some id =>
          have hrun : run.runId = some id := by
            rw [TrackingRun.key, orText] at hkey
            rwa [show run.jobId.any (· ≠ "") = false from htagged] at hkey
          obtain ⟨job, hpart⟩ := hjob
          obtain ⟨hmem', hkey'⟩ := hjobs job hpart
          exact absurd hkey' (h run hmem htagged id hrun job hmem')
  · -- at most the run is there
    cases hrun : p.tracking with
    | none =>
      refine ⟨.unnamed, ?_⟩
      intro j hj
      rcases mem_identities.mp hj with ⟨job, hpart, -⟩ | ⟨job, hpart, -⟩ | ⟨run, hpart, -⟩
      · exact absurd ⟨job, .inl hpart⟩ hjob
      · exact absurd ⟨job, .inr hpart⟩ hjob
      · cases hrun.symm.trans hpart
    | some run =>
      refine ⟨run.identity, ?_⟩
      intro j hj
      rcases mem_identities.mp hj with ⟨job, hpart, -⟩ | ⟨job, hpart, -⟩ | ⟨run', hpart, rfl⟩
      · exact absurd ⟨job, .inl hpart⟩ hjob
      · exact absurd ⟨job, .inr hpart⟩ hjob
      · cases hrun.symm.trans hpart
        rfl

/-- Where everything is shown and nothing merged, a run that names no job is in no row
of a job. -/
theorem apart_of_lossless {r : Reads} {observed : Observed} (h : Lossless r observed) :
    RunsApart r := by
  intro run hrun htagged id hid job hjob hjobId
  have hkey : run.key = some id := by
    rw [TrackingRun.key, orText, show run.jobId.any (· ≠ "") = false from htagged]
    exact hid
  have htracking := (shown_iff (tracking_byId r) run).mp (h.tracking run hrun)
  rw [hkey, ← tracking_byId] at htracking
  obtain ⟨p, hp, hpart⟩ := Option.bind_eq_some_iff.mp htracking
  have hboth : .job id ∈ p.identities := by
    have hidentity : job.identity = .job id := JobRecord.identity_eq hjobId
    rcases List.mem_append.mp hjob with hmem | hmem
    · have hlast := (shown_iff (gateway_byId r) job).mp (h.gateway job hmem)
      rw [hjobId, ← gateway_byId, hp] at hlast
      exact mem_identities.mpr (.inl ⟨job, hlast, hidentity⟩)
    · have hlast := (shown_iff (agent_byId r) job).mp (h.agent job hmem)
      rw [hjobId, ← agent_byId, hp] at hlast
      exact mem_identities.mpr (.inr (.inl ⟨job, hlast, hidentity⟩))
  have hthis : .run id ∈ p.identities := by
    refine mem_identities.mpr (.inr (.inr ⟨run, hpart, ?_⟩))
    rw [TrackingRun.identity_eq hkey, htagged]
    rfl
  cases h.unmerged p (mem_values_byId.mpr ⟨_, hp⟩) _ hboth _ hthis

/-- The join loses nothing exactly if no source has two records under one key and no run
that names no job goes under the id of a job. -/
theorem lossless_iff (r : Reads) (observed : Observed) :
    Lossless r observed ↔
      (OnePerKey JobRecord.jobId (r.gateway.getD []) ∧
        OnePerKey JobRecord.jobId (r.agent.getD []) ∧
        OnePerKey TrackingRun.key (r.tracking.getD [])) ∧ RunsApart r := by
  constructor
  · intro h
    refine ⟨⟨?_, ?_, ?_⟩, apart_of_lossless h⟩
    · exact (all_shown_iff (gateway_byId r)).mp h.gateway
    · exact (all_shown_iff (agent_byId r)).mp h.agent
    · exact (all_shown_iff (tracking_byId r)).mp h.tracking
  · rintro ⟨⟨hgateway, hagent, htracking⟩, hapart⟩
    refine ⟨(all_shown_iff (gateway_byId r)).mpr hgateway,
      (all_shown_iff (agent_byId r)).mpr hagent,
      (all_shown_iff (tracking_byId r)).mpr htracking, ?_⟩
    intro p hp i hi j hj
    obtain ⟨k, hk⟩ := mem_values_byId.mp hp
    obtain ⟨identity, hall⟩ := unmerged_of_apart hapart hk
    rw [hall i hi, hall j hj]

/-- Two runs of one job in tracking. -/
def twoRuns : Reads where
  gateway := some []
  agent := some [{ jobId := some "j", state := some "running" }]
  tracking := some [⟨some "j", some "first", some "RUNNING"⟩, ⟨some "j", some "second",
    some "FAILED"⟩]

/-- Only the second of them is left. -/
theorem run_lost : ¬ Lossless twoRuns [] := by
  intro h
  have hshown := (shown_iff (tracking_byId twoRuns) _).mp
    (h.tracking ⟨some "j", some "first", some "RUNNING"⟩ (by decide))
  exact absurd hshown (by decide +kernel)

end MlopsLite.Gateway.Console.Jobs
