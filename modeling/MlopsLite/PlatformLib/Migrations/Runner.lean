import MlopsLite.Lib.Interleaving
import MlopsLite.PlatformLib.Migrations.Files

/-!
# Migrations — the runner

`apply` (`platformlib/migrations.py`) by any number of runners on one
database, each with the files of a directory of its own. The advisory lock is
a flag one session holds, and a session that ends drops it; a transaction that
is not committed leaves nothing. What the SQL of a file does is the file's
place in `schema`.
-/

namespace MlopsLite.PlatformLib.Migrations

open Interleaving (Guarded Guards)

abbrev RunnerId := ℕ

/-- The committed database. `schema` has the files whose SQL is in it, in the
order they were applied; `writer` is history: the files of the runner that
committed last. -/
structure Database where
  ledger : Ledger
  schema : List Migration
  locked : Bool
  writer : Option LocalFiles

/-- How a run of `apply` ends. -/
inductive Ending
  | done
  | refused (why : Refusal)
  | failed
  deriving DecidableEq

/-- Where a runner stands. `inserted` is inside the transaction of a file, its
SQL and its ledger row not committed; `lingering` is a caller's connection that
could not be unlocked. -/
inductive Pc
  | idle
  | waiting (files : LocalFiles)
  | verifying (files : LocalFiles)
  | applying (files : LocalFiles) (pending : List Migration)
  | inserted (files : LocalFiles) (m : Migration) (rest : List Migration)
  | closing (how : Ending)
  | lingering

/-- What a step leaves open. `fails`: a statement raises (the SQL of a file,
its shape check, a commit that is not applied); `lost`: a commit is applied and
raises; `crash`: the session ends. -/
inductive Choice
  | start (dir : List File)
  | go
  | fails
  | lost
  | crash

namespace Database

variable (rules : Rules) (x : Database)

def lock : Database := { x with locked := true }

def unlock : Database := { x with locked := false }

/-- The transaction of one file: its SQL and its row. -/
def commit (files : LocalFiles) (m : Migration) : Database :=
  { x with
    ledger := x.ledger.insert m.version ⟨m.name, m.checksum rules⟩
    schema := x.schema ++ [m]
    writer := some files }

end Database

def advance (rules : Rules) : Interleaving.Program RunnerId Database Pc Choice := fun _ c x k =>
  match k, c with
  | .idle, .start dir =>
      match discover rules dir with
      | .ok files => some (x, .waiting files)
      | .error _ => some (x, .idle)
  | .waiting files, .go => if x.locked then none else some (x.lock, .verifying files)
  | .waiting _, .fails | .waiting _, .crash => some (x, .idle)
  | .verifying files, .go =>
      match verify rules files.migrations x.ledger with
      | .ok pending => some (x, .applying files pending)
      | .error r => some (x, .closing (.refused r))
  | .verifying _, .fails => some (x, .closing .failed)
  | .applying _ [], .go => some (x, .closing .done)
  | .applying files (m :: rest), .go =>
      -- the row's version is the table's key
      if (x.ledger.get? m.version).isSome then some (x, .closing .failed)
      else some (x, .inserted files m rest)
  | .applying _ _, .fails => some (x, .closing .failed)
  | .inserted files m rest, .go => some (x.commit rules files m, .applying files rest)
  | .inserted _ _ _, .fails => some (x, .closing .failed)
  | .inserted files m _, .lost => some (x.commit rules files m, .closing .failed)
  | .closing _, .go => some (x.unlock, .idle)
  | .closing _, .fails => some (x, .lingering)
  | .lingering, .go => some (x.unlock, .idle)
  | .verifying _, .crash | .applying _ _, .crash | .inserted _ _ _, .crash | .closing _, .crash
  | .lingering, .crash => some (x.unlock, .idle)
  | _, _ => none

abbrev Sys := Interleaving.State RunnerId Database Pc

abbrev Act := RunnerId × Choice

abbrev next (rules : Rules) : Sys → Act → Option Sys := Interleaving.next (advance rules)

def Sys.init (x : Database) : Sys := ⟨x, fun _ => .idle⟩

/-- A database without a ledger, or with an empty one. -/
def Database.fresh : Database := ⟨.empty, [], false, none⟩

namespace Pc

/-- The session has the advisory lock. -/
def inside : Pc → Prop
  | .idle | .waiting _ => False
  | _ => True

/-- The files of a runner whose ledger check has passed. -/
def files? : Pc → Option LocalFiles
  | .applying files _ | .inserted files _ _ => some files
  | _ => none

/-- What it has still to apply. -/
def pending : Pc → List Migration
  | .applying _ pending => pending
  | .inserted _ m rest => m :: rest
  | _ => []

end Pc

/-! ## One step -/

variable {rules : Rules} {t u : RunnerId} {c : Choice} {x x' : Database} {k k' : Pc}

/-- What a step does: to the ledger and the schema together, and to the runner. -/
inductive Step (rules : Rules) (x : Database) : Pc → Database → Pc → Prop
  /-- Not at a file: nothing is written. -/
  | quiet {k k' : Pc} {x' : Database} (ledger : x'.ledger = x.ledger)
      (schema : x'.schema = x.schema) (writer : x'.writer = x.writer) (files : k'.files? = none)
      (guards : Guards (fun x : Database => x.locked = true) Pc.inside x k x' k') :
      Step rules x k x' k'
  | verified (files : LocalFiles) (pending : List Migration)
      (h : verify rules files.migrations x.ledger = .ok pending) :
      Step rules x (.verifying files) x (.applying files pending)
  | executed (files : LocalFiles) (m : Migration) (rest : List Migration)
      (h : x.ledger.get? m.version = none) :
      Step rules x (.applying files (m :: rest)) x (.inserted files m rest)
  | committed (files : LocalFiles) (m : Migration) (rest : List Migration) {k' : Pc}
      (h : k' = .applying files rest ∨ k' = .closing .failed) :
      Step rules x (.inserted files m rest) (x.commit rules files m) k'

theorem Step.leaves (hin : k.inside) (hout : ¬ k'.inside) (files : k'.files? = none) :
    Step rules x k x.unlock k' :=
  .quiet rfl rfl rfl files (.inr (.inr ⟨hin, hout, by simp [Database.unlock]⟩))

theorem Step.stays (hiff : k'.inside ↔ k.inside) (files : k'.files? = none) :
    Step rules x k x k' :=
  .quiet rfl rfl rfl files (.inl ⟨hiff, Iff.rfl⟩)

theorem step_of_advance (h : advance rules t c x k = some (x', k')) : Step rules x k x' k' := by
  cases k with
  | idle =>
    cases c <;> simp only [advance, reduceCtorEq] at h
    split at h
    · cases h
      exact .stays Iff.rfl rfl
    · cases h
      exact .stays Iff.rfl rfl
  | waiting files =>
    cases c <;> simp only [advance, reduceCtorEq] at h
    case go =>
      split at h
      · cases h
      · rename_i hfree
        cases h
        exact .quiet rfl rfl rfl rfl (.inr (.inl ⟨hfree, trivial, rfl⟩))
    all_goals
      cases h
      exact .stays Iff.rfl rfl
  | verifying files =>
    cases c <;> simp only [advance, reduceCtorEq] at h
    case go =>
      split at h
      · rename_i pending hv
        cases h
        exact .verified files pending hv
      · cases h
        exact .stays Iff.rfl rfl
    case fails =>
      cases h
      exact .stays Iff.rfl rfl
    case crash =>
      cases h
      exact .leaves trivial id rfl
  | applying files pending =>
    cases c <;> cases pending <;> simp only [advance, reduceCtorEq] at h
    case go.nil =>
      cases h
      exact .stays Iff.rfl rfl
    case go.cons m rest =>
      split at h
      · cases h
        exact .stays Iff.rfl rfl
      · rename_i hnone
        cases h
        exact .executed files m rest (by simpa using hnone)
    case fails.nil | fails.cons =>
      cases h
      exact .stays Iff.rfl rfl
    case crash.nil | crash.cons =>
      cases h
      exact .leaves trivial id rfl
  | inserted files m rest =>
    cases c <;> simp only [advance, reduceCtorEq] at h
    case go =>
      cases h
      exact .committed files m rest (.inl rfl)
    case lost =>
      cases h
      exact .committed files m rest (.inr rfl)
    case fails =>
      cases h
      exact .stays Iff.rfl rfl
    case crash =>
      cases h
      exact .leaves trivial id rfl
  | closing how =>
    cases c <;> simp only [advance, reduceCtorEq] at h
    case fails =>
      cases h
      exact .stays Iff.rfl rfl
    all_goals
      cases h
      exact .leaves trivial id rfl
  | lingering =>
    cases c <;> simp only [advance, reduceCtorEq] at h <;> cases h <;>
      exact .leaves trivial id rfl

theorem Step.guards (h : Step rules x k x' k') :
    Guards (fun x : Database => x.locked = true) Pc.inside x k x' k' := by
  cases h with
  | quiet ledger schema writer files guards => exact guards
  | verified files pending hv => exact .inl ⟨Iff.rfl, Iff.rfl⟩
  | executed files m rest hnone => exact .inl ⟨Iff.rfl, Iff.rfl⟩
  | committed files m rest hk =>
    refine .inl ⟨?_, Iff.rfl⟩
    rcases hk with rfl | rfl <;> exact Iff.rfl

theorem Pc.inside_of_files {files : LocalFiles} (h : k.files? = some files) : k.inside := by
  cases k <;> trivial

/-! ## The ledger is a prefix -/

/-- What a row records of a file. -/
def stamp (rules : Rules) (m : Migration) : ℕ × String := (m.version, m.checksum rules)

def entry (rules : Rules) (m : Migration) : ℕ × Row := (m.version, ⟨m.name, m.checksum rules⟩)

/-- The ledger has the files that were applied, in order, each with its own
checksum, and they are a prefix of the files of whoever wrote last. -/
structure InOrder (rules : Rules) (x : Database) : Prop where
  ledger : x.ledger.items = x.schema.map (entry rules)
  writer : match x.writer with
    | none => x.schema = []
    | some files => x.schema.map (stamp rules) <+: files.migrations.map (stamp rules)

/-- With what a runner that passed the check has still to apply, its own files. -/
def Continues (rules : Rules) (x : Database) (k : Pc) : Prop :=
  ∀ files, k.files? = some files →
    x.schema.map (stamp rules) ++ k.pending.map (stamp rules) =
      files.migrations.map (stamp rules)

theorem increasing_stamps (files : LocalFiles) :
    Keyed.Increasing Prod.fst (files.migrations.map (stamp rules)) :=
  List.pairwise_map.mpr files.increasing

namespace InOrder

theorem increasing (h : InOrder rules x) :
    Keyed.Increasing Prod.fst (x.schema.map (stamp rules)) := by
  have hw := h.writer
  cases hwriter : x.writer with
  | none =>
    rw [hwriter] at hw
    simp [show x.schema = [] from hw]
  | some files =>
    rw [hwriter] at hw
    exact (increasing_stamps files).sublist hw.sublist

theorem mem_recorded (h : InOrder rules x) {v : ℕ} {c : String} :
    (v, c) ∈ recorded x.ledger ↔ (v, c) ∈ x.schema.map (stamp rules) := by
  simp only [recorded, List.mem_insertionSort, h.ledger, List.map_map, List.mem_map,
    Function.comp_apply, entry, stamp]

/-- What a check that passes finds done is what was applied. -/
theorem verified (h : InOrder rules x) {files : LocalFiles} {pending : List Migration}
    (hv : verify rules files.migrations x.ledger = .ok pending) :
    x.schema.map (stamp rules) ++ pending.map (stamp rules) =
      files.migrations.map (stamp rules) := by
  obtain ⟨done, hfiles, hrec⟩ := (verify_iff files).mp hv
  have hdone : Keyed.Increasing Prod.fst (done.map (stamp rules)) :=
    (increasing_stamps files).sublist (by
      rw [hfiles, List.map_append]
      exact List.sublist_append_left ..)
  have hsame : x.schema.map (stamp rules) = done.map (stamp rules) := by
    refine h.increasing.eq_of_mem_iff hdone fun p => ?_
    obtain ⟨v, c⟩ := p
    rw [← h.mem_recorded, hrec]
    simp [stamp]
  rw [hfiles, List.map_append, hsame]

/-- The next file of a runner is not in the ledger. -/
theorem next_missing (h : InOrder rules x) {files : LocalFiles} {m : Migration}
    {rest : List Migration} (hcont : x.schema.map (stamp rules) ++ (m :: rest).map (stamp rules) =
      files.migrations.map (stamp rules)) : x.ledger.get? m.version = none := by
  refine Dict.lookup_eq_none.mpr fun hmem => ?_
  rw [h.ledger, List.map_map, List.mem_map] at hmem
  obtain ⟨m', hm', hv⟩ := hmem
  have hlt := (List.pairwise_append.mp (hcont ▸ increasing_stamps files)).2.2
    (stamp rules m') (List.mem_map_of_mem hm') (stamp rules m) (List.mem_cons_self ..)
  exact absurd hv hlt.ne

theorem commit (h : InOrder rules x) {files : LocalFiles} {m : Migration} {rest : List Migration}
    (hcont : x.schema.map (stamp rules) ++ (m :: rest).map (stamp rules) =
      files.migrations.map (stamp rules)) :
    (x.commit rules files m).ledger.items = x.ledger.items ++ [entry rules m] ∧
      InOrder rules (x.commit rules files m) := by
  have hitems : (x.commit rules files m).ledger.items = x.ledger.items ++ [entry rules m] :=
    Dict.insert_of_none _ (h.next_missing hcont)
  refine ⟨hitems, ?_, ?_⟩
  · rw [hitems, h.ledger]
    simp [Database.commit]
  · show (x.schema ++ [m]).map (stamp rules) <+: files.migrations.map (stamp rules)
    rw [← hcont]
    exact ⟨rest.map (stamp rules), by simp⟩

end InOrder

/-- Everything at once: one session inside, the ledger in order, and each runner
that passed the check where its files say. -/
structure Inv (rules : Rules) (s : Sys) : Prop where
  lock : Guarded (fun x : Database => x.locked = true) Pc.inside s
  order : InOrder rules s.shared
  own : ∀ t, Continues rules s.shared (s.pc t)

theorem inv_init : Inv rules (Sys.init .fresh) := by
  refine ⟨⟨?_, ?_, ?_⟩, ⟨rfl, rfl⟩, ?_⟩
  · intro t ht
    cases ht
  · intro hlocked
    cases hlocked
  · intro t u ht
    cases ht
  · intro t files hfiles
    cases hfiles

/-- One step of a runner keeps its own account. -/
theorem Step.own (h : Step rules x k x' k') (hx : InOrder rules x) (hk : Continues rules x k) :
    InOrder rules x' ∧ Continues rules x' k' := by
  cases h with
  | quiet ledger schema writer files guards =>
    refine ⟨⟨?_, ?_⟩, ?_⟩
    · rw [ledger, schema]
      exact hx.ledger
    · rw [writer, schema]
      exact hx.writer
    · intro files' hfiles
      cases files.symm.trans hfiles
  | verified files pending hv =>
    refine ⟨hx, ?_⟩
    intro files' hfiles
    cases hfiles
    exact hx.verified hv
  | executed files m rest hnone =>
    refine ⟨hx, ?_⟩
    intro files' hfiles
    cases hfiles
    exact hk files rfl
  | committed files m rest hk' =>
    have hcont := hk files rfl
    refine ⟨(hx.commit hcont).2, ?_⟩
    intro files' hfiles
    rcases hk' with rfl | rfl <;> cases hfiles
    rw [← hcont]
    simp [Database.commit, Pc.pending]

/-- Outside its own session nothing of the ledger moves. -/
theorem Step.other (h : Step rules x k x' k') (hk : ¬ k.inside) :
    x'.ledger = x.ledger ∧ x'.schema = x.schema := by
  cases h with
  | quiet ledger schema writer files guards => exact ⟨ledger, schema⟩
  | verified files pending hv => exact ⟨rfl, rfl⟩
  | executed files m rest hnone => exact ⟨rfl, rfl⟩
  | committed files m rest hk' => exact absurd trivial hk

theorem Inv.next {s s' : Sys} (h : Inv rules s) {a : Act} (hn : next rules s a = some s') :
    Inv rules s' := by
  obtain ⟨t, c⟩ := a
  obtain ⟨ha, hothers⟩ := Interleaving.of_next hn
  have hstep := step_of_advance ha
  obtain ⟨horder, hown⟩ := hstep.own h.order (h.own t)
  refine ⟨?_, horder, ?_⟩
  · exact h.lock.next hn fun x k hadv => (step_of_advance hadv).guards
  · intro u
    by_cases hu : u = t
    · exact hu ▸ hown
    · intro files hfiles
      rw [hothers u hu] at hfiles ⊢
      -- a runner past its check is alone inside
      have hout : ¬ (s.pc t).inside := fun hin =>
        hu (h.lock.unique u t (Pc.inside_of_files hfiles) hin)
      rw [(hstep.other hout).2]
      exact h.own u files hfiles

theorem inv_of_reachable {s : Sys}
    (h : Runs.Reachable (next rules) Runs.anyStep (Sys.init .fresh) s) : Inv rules s :=
  h.invariant inv_init fun _ _ _ _ ih _ hn => ih.next hn

/-! ## Migrations are applied in order -/

/-- What one step may do to the ledger: nothing, or append the next file of the
runner, with its SQL; and nothing when it fails. -/
structure Extends (rules : Rules) (s s' : Sys) (a : Act) : Prop where
  append : (s'.shared.ledger = s.shared.ledger ∧ s'.shared.schema = s.shared.schema) ∨
    ∃ m rest, (s.pc a.1).pending = m :: rest ∧
      s'.shared.ledger.items = s.shared.ledger.items ++ [entry rules m] ∧
      s'.shared.schema = s.shared.schema ++ [m]
  failing : a.2 = .fails ∨ a.2 = .crash →
    s'.shared.ledger = s.shared.ledger ∧ s'.shared.schema = s.shared.schema

theorem Inv.extends {s s' : Sys} (h : Inv rules s) {a : Act}
    (hn : Migrations.next rules s a = some s') :
    Extends rules s s' a := by
  obtain ⟨t, c⟩ := a
  obtain ⟨ha, -⟩ := Interleaving.of_next hn
  constructor
  · have hstep := step_of_advance ha
    have hown := h.own t
    generalize hpc : s.pc t = k at hstep hown
    generalize hpc' : s'.pc t = k' at hstep
    generalize hx : s'.shared = x' at hstep
    cases hstep with
    | quiet ledger schema writer files guards => exact .inl ⟨ledger, schema⟩
    | verified files pending hv => exact .inl ⟨rfl, rfl⟩
    | executed files m rest hnone => exact .inl ⟨rfl, rfl⟩
    | committed files m rest hk' =>
      exact .inr ⟨m, rest, rfl, (h.order.commit (hown files rfl)).1, rfl⟩
  · intro hc
    generalize s.pc t = k at ha
    rcases hc with rfl | rfl <;> cases k <;> simp only [advance, reduceCtorEq, Option.some.injEq,
      Prod.mk.injEq] at ha <;> obtain ⟨hx, -⟩ := ha <;> rw [← hx] <;> exact ⟨rfl, rfl⟩

/-- A ledger the files do not fit is refused, whatever is in the database. -/
theorem refused_of_unfit {s s' : Sys} {files : LocalFiles} (hpc : s.pc t = .verifying files)
    (hunfit : Unfit rules s.shared.ledger files) (hn : next rules s (t, c) = some s') :
    (s'.shared.ledger = s.shared.ledger ∧ s'.shared.schema = s.shared.schema) ∧
      (s'.pc t).files? = none := by
  obtain ⟨ha, -⟩ := Interleaving.of_next hn
  obtain ⟨r, hr⟩ := hunfit.refused
  rw [hpc] at ha
  cases c <;> simp only [advance, hr, reduceCtorEq, Option.some.injEq, Prod.mk.injEq] at ha
  all_goals
    obtain ⟨hx, hk⟩ := ha
    rw [← hx, ← hk]
    exact ⟨⟨rfl, rfl⟩, rfl⟩

/-- The ledger of a database that only the runners write is at all times what
was applied, in order: a prefix of the files of whoever wrote last and of every
runner that passed its check. A step appends one file or nothing, one that fails
nothing; and any ledger that does not fit a runner's files is left as it is. -/
theorem migrations_in_order (rules : Rules) :
    (∀ s, Runs.Reachable (next rules) Runs.anyStep (Sys.init .fresh) s →
      InOrder rules s.shared ∧ (s.shared.schema.map Migration.version).Pairwise (· < ·) ∧
      (∀ t, Continues rules s.shared (s.pc t)) ∧
      ∀ a s', next rules s a = some s' → Extends rules s s' a) ∧
    ∀ x s, Runs.Reachable (next rules) Runs.anyStep (Sys.init x) s →
      ∀ t files, s.pc t = .verifying files → Unfit rules s.shared.ledger files →
        ∀ c s', next rules s (t, c) = some s' →
          (s'.shared.ledger = s.shared.ledger ∧ s'.shared.schema = s.shared.schema) ∧
            (s'.pc t).files? = none := by
  refine ⟨?_, ?_⟩
  · intro s hs
    have hinv := inv_of_reachable hs
    refine ⟨hinv.order, ?_, hinv.own, fun a s' hn => hinv.extends hn⟩
    have hinc := hinv.order.increasing
    rw [Keyed.Increasing, List.pairwise_map] at hinc
    exact List.pairwise_map.mpr hinc
  · intro x s _ t files hpc hunfit c s' hn
    exact refused_of_unfit hpc hunfit hn

/-- The digits of a file name, and the digests of the files below. -/
def plainRules : Rules where
  digit c := if c.isDigit then some (c.toNat - 48) else none
  sha256 bytes :=
    if bytes = [65] then "559aead08264d5795d3909718cdd05abd49572e84fe55590eef31a88a08fdffd"
    else if bytes = [66] then "df7e70e5021544f4834bbee64a9e3789febc4be81470df629cad6ddb03320a5c"
    else ""

def fileA : File := ⟨"001_a.sql", [65]⟩

def fileB : File := ⟨"002_b.sql", [66]⟩

/-- The second file fails at first; the next runner ends it, and a third has an
older directory. -/
def threeRunners : List Act :=
  [(0, .start [fileB, fileA]), (0, .go), (0, .go), (1, .start [fileA, fileB]), (0, .go), (0, .go),
    (0, .fails), (2, .start [fileA]), (0, .go), (1, .go), (1, .go), (1, .go), (1, .go), (1, .go),
    (1, .go), (2, .go)]

/-- A ledger that is newer than the files of a runner at its check. -/
def Sys.outruns (s : Sys) (t : RunnerId) (v : ℕ) : Bool :=
  match s.pc t with
  | .verifying files =>
      (s.shared.ledger.get? v).isSome && files.migrations.all fun m => m.version < v
  | _ => false

theorem Sys.unfit_of_outruns {s : Sys} {v : ℕ} (h : s.outruns t v = true) :
    ∃ files, s.pc t = .verifying files ∧ Unfit rules s.shared.ledger files := by
  unfold Sys.outruns at h
  split at h
  · rename_i files hpc
    rw [Bool.and_eq_true, List.all_eq_true] at h
    obtain ⟨row, hrow⟩ := Option.isSome_iff_exists.mp h.1
    exact ⟨files, hpc, .newer v row hrow fun m hm => of_decide_eq_true (h.2 m hm)⟩
  · cases h

/-- Both files are in, and the third runner is refused. -/
theorem threeRunners_in_order :
    ∃ s, s.shared.schema.map Migration.version = [1, 2] ∧ InOrder plainRules s.shared ∧
      ∃ files s', s.pc 2 = .verifying files ∧ next plainRules s (2, .go) = some s' ∧
        s'.shared.ledger = s.shared.ledger ∧ (s'.pc 2).files? = none := by
  have hrun : ((Runs.run (next plainRules) Runs.anyStep (Sys.init .fresh) threeRunners).bind
      fun s => (next plainRules s (2, .go)).map fun _ =>
        decide (s.shared.schema.map Migration.version = [1, 2]) && s.outruns 2 2) =
      some true := by
    decide +kernel
  obtain ⟨s, s', hs, hn, hp⟩ := Runs.exists_step hrun
  rw [Bool.and_eq_true] at hp
  obtain ⟨files, hpc, hunfit⟩ := Sys.unfit_of_outruns hp.2
  have hleft := (migrations_in_order plainRules).2 .fresh s hs 2 files hpc hunfit .go s' hn
  exact ⟨s, of_decide_eq_true hp.1, ((migrations_in_order plainRules).1 s hs).1, files, s', hpc, hn,
    hleft.1.1, hleft.2⟩

end MlopsLite.PlatformLib.Migrations
