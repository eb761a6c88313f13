import MlopsLite.Lib.Dict
import MlopsLite.Lib.Keyed

/-!
# Migrations — files and the ledger

`discover` and the verification part of `apply` (`platformlib/migrations.py`).
The files of a directory are ordered by version; a ledger passes exactly when
it is a prefix of them, by version and checksum (`verify_iff`).
-/

namespace MlopsLite.PlatformLib.Migrations

open Keyed (Increasing)

abbrev Bytes := List UInt8

/-- What the interpreter and its libraries decide: the value of a digit (`\d`)
and the SHA-256 of bytes. -/
structure Rules where
  digit : Char → Option ℕ
  sha256 : Bytes → String

/-- A file of a directory. -/
structure File where
  name : String
  bytes : Bytes

/-- `Migration`; its path is left out. -/
structure Migration where
  version : ℕ
  name : String
  raw : Bytes
  deriving DecidableEq

/-- `raw.replace(b"\r\n", b"\n")`. -/
def normalized : Bytes → Bytes
  | 13 :: 10 :: rest => 10 :: normalized rest
  | b :: rest => b :: normalized rest
  | [] => []

def Migration.checksum (rules : Rules) (m : Migration) : String := rules.sha256 (normalized m.raw)

/-! ## Discovery -/

inductive DiscoverError
  | badName (file : String)
  | versionZero
  | duplicate (version : ℕ)
  deriving DecidableEq

/-- `[a-z0-9_]`. -/
def stemChar (c : Char) : Bool := c.isLower || ('0' ≤ c && c ≤ '9') || c = '_'

/-- `_FILE_RE` on a name that ends in `.sql`: the version and the name. -/
def parseName (rules : Rules) (file : String) : Option (ℕ × String) :=
  match file.toList with
  | a :: b :: c :: '_' :: rest => do
      let x ← rules.digit a
      let y ← rules.digit b
      let z ← rules.digit c
      let stem := rest.take (rest.length - 4)
      if stem ≠ [] ∧ stem.all stemChar then some (100 * x + 10 * y + z, String.ofList stem)
      else none
  | _ => none

/-- One file; `found` is what came before it. -/
def discoverFile (rules : Rules) (found : Dict ℕ Migration) (f : File) :
    Except DiscoverError (Dict ℕ Migration) :=
  match parseName rules f.name with
  | none => .error (.badName f.name)
  | some (version, name) =>
      if version = 0 then .error .versionZero
      else if (found.get? version).isSome then .error (.duplicate version)
      else .ok (found.insert version ⟨version, name, f.bytes⟩)

/-- The `.sql` files of a directory, in the order of their names. -/
def sqlFiles (dir : List File) : List File :=
  (dir.filter fun f => f.name.endsWith ".sql").insertionSort fun f g => f.name ≤ g.name

def foundIn (rules : Rules) (dir : List File) : Except DiscoverError (Dict ℕ Migration) :=
  (sqlFiles dir).foldlM (discoverFile rules) .empty

/-- The migrations under their versions. -/
structure Found (found : Dict ℕ Migration) : Prop where
  version : ∀ v m, found.get? v = some m → m.version = v ∧ 0 < v

theorem Found.empty : Found .empty := ⟨fun _ _ h => by cases h⟩

theorem Found.discoverFile {rules : Rules} {found found' : Dict ℕ Migration} {f : File}
    (h : Found found) (hf : discoverFile rules found f = .ok found') : Found found' := by
  unfold Migrations.discoverFile at hf
  split at hf
  · cases hf
  · rename_i version name hname
    split_ifs at hf with hzero hdup
    cases hf
    constructor
    intro v m hm
    by_cases hv : v = version
    · subst hv
      rw [Dict.get?_insert_self] at hm
      cases hm
      exact ⟨rfl, Nat.pos_of_ne_zero hzero⟩
    · rw [Dict.get?_insert_ne _ _ hv] at hm
      exact h.version v m hm

theorem Found.foldlM {rules : Rules} (files : List File) {found found' : Dict ℕ Migration}
    (h : Found found) (hf : files.foldlM (Migrations.discoverFile rules) found = .ok found') :
    Found found' := by
  induction files generalizing found with
  | nil =>
    cases hf
    exact h
  | cons f files ih =>
    rw [List.foldlM_cons] at hf
    cases hfirst : Migrations.discoverFile rules found f with
    | error e =>
      rw [hfirst] at hf
      cases hf
    | ok found₁ =>
      rw [hfirst] at hf
      exact ih (h.discoverFile hfirst) hf

/-- Migrations in order: versions positive and strictly increasing. -/
structure LocalFiles where
  migrations : List Migration
  increasing : Increasing Migration.version migrations
  positive : ∀ m ∈ migrations, 0 < m.version

/-- `[found[v] for v in sorted(found)]`. -/
def inOrder (found : Dict ℕ Migration) : List Migration :=
  (found.keys.insertionSort (· ≤ ·)).filterMap found.get?

theorem mem_inOrder {found : Dict ℕ Migration} {m : Migration} :
    m ∈ inOrder found ↔ ∃ v, found.get? v = some m := by
  simp only [inOrder, List.mem_filterMap, List.mem_insertionSort, Dict.mem_keys]
  constructor
  · rintro ⟨v, -, hm⟩
    exact ⟨v, hm⟩
  · rintro ⟨v, hm⟩
    exact ⟨v, ⟨m, hm⟩, hm⟩

theorem increasing_inOrder {found : Dict ℕ Migration} (h : Found found) :
    Increasing Migration.version (inOrder found) := by
  have hsorted := List.pairwise_insertionSort (· ≤ ·) found.keys
  have hnodup : (found.keys.insertionSort (· ≤ ·)).Nodup :=
    (List.perm_insertionSort ..).nodup_iff.mpr found.nodup
  have hlt : (found.keys.insertionSort (· ≤ ·)).Pairwise (· < ·) :=
    (hsorted.and hnodup).imp fun ⟨hle, hne⟩ => lt_of_le_of_ne hle hne
  refine List.Pairwise.filterMap found.get? ?_ hlt
  intro v w hvw m hm m' hm'
  rw [(h.version v m hm).1, (h.version w m' hm').1]
  exact hvw

/-- `discover`. -/
def discover (rules : Rules) (dir : List File) : Except DiscoverError LocalFiles :=
  match h : foundIn rules dir with
  | .error e => .error e
  | .ok found => .ok {
      migrations := inOrder found
      increasing := increasing_inOrder (Found.empty.foldlM _ h)
      positive := by
        intro m hm
        obtain ⟨v, hv⟩ := mem_inOrder.mp hm
        obtain ⟨hversion, hpos⟩ := (Found.empty.foldlM _ h).version v m hv
        exact hversion ▸ hpos }

/-! ## Verification -/

/-- A row of `schema_migrations`, under its version. -/
structure Row where
  name : String
  checksum : String
  deriving DecidableEq

abbrev Ledger := Dict ℕ Row

inductive Refusal
  | newer (version newest : ℕ)
  | diverged (version : ℕ)
  | checksum (version : ℕ)
  | gap (versions : List ℕ)
  deriving DecidableEq

/-- `SELECT version, checksum … ORDER BY version`. -/
def recorded (ledger : Ledger) : List (ℕ × String) :=
  (ledger.items.map fun kv => (kv.1, kv.2.checksum)).insertionSort fun a b => a.1 ≤ b.1

/-- The newest of a list of versions, 0 for none. -/
def newest (versions : List ℕ) : ℕ := versions.foldr max 0

/-- Every recorded version is there with its checksum. -/
def checkRecorded (rules : Rules) (migrations : List Migration) :
    List (ℕ × String) → Except Refusal Unit
  | [] => .ok ()
  | (v, c) :: rest =>
      match Keyed.find? Migration.version migrations v with
      | none =>
          if newest (migrations.map Migration.version) < v then
            .error (.newer v (newest (migrations.map Migration.version)))
          else .error (.diverged v)
      | some m =>
          if m.checksum rules ≠ c then .error (.checksum v)
          else checkRecorded rules migrations rest

/-- The part of `apply` that reads the ledger: what is pending. -/
def verify (rules : Rules) (migrations : List Migration) (ledger : Ledger) :
    Except Refusal (List Migration) := do
  checkRecorded rules migrations (recorded ledger)
  let have' := newest ((recorded ledger).map Prod.fst)
  let gap := migrations.filter fun m =>
    m.version ≤ have' ∧ m.version ∉ (recorded ledger).map Prod.fst
  if gap ≠ [] then .error (.gap (gap.map Migration.version))
  else return migrations.filter fun m => have' < m.version

/-! ## What passes -/

variable {rules : Rules} {ledger : Ledger} {migrations done pending : List Migration}

/-- The ledger has these migrations and no others, by version and checksum. -/
def Records (rules : Rules) (ledger : Ledger) (done : List Migration) : Prop :=
  ∀ v c, (v, c) ∈ recorded ledger ↔ ∃ m ∈ done, m.version = v ∧ m.checksum rules = c

theorem mem_recorded {v : ℕ} {c : String} :
    (v, c) ∈ recorded ledger ↔ ∃ row, ledger.get? v = some row ∧ row.checksum = c := by
  simp only [recorded, List.mem_insertionSort, List.mem_map, Prod.mk.injEq, Prod.exists,
    Dict.mem_items]
  constructor
  · rintro ⟨v', row, hrow, rfl, rfl⟩
    exact ⟨row, hrow, rfl⟩
  · rintro ⟨row, hrow, rfl⟩
    exact ⟨v, row, hrow, rfl, rfl⟩

/-- The recorded version is some migration's, and its checksum with it. -/
theorem Records.version (h : Records rules ledger done) {v : ℕ} :
    v ∈ (recorded ledger).map Prod.fst ↔ ∃ m ∈ done, m.version = v := by
  constructor
  · intro hv
    obtain ⟨⟨v', c⟩, hc, rfl⟩ := List.mem_map.mp hv
    obtain ⟨m, hm, hv, -⟩ := (h v' c).mp hc
    exact ⟨m, hm, hv⟩
  · rintro ⟨m, hm, rfl⟩
    exact List.mem_map.mpr ⟨_, (h _ _).mpr ⟨m, hm, rfl, rfl⟩, rfl⟩

theorem le_newest {versions : List ℕ} {v : ℕ} (h : v ∈ versions) : v ≤ newest versions := by
  induction versions with
  | nil => cases h
  | cons w versions ih =>
    rcases List.mem_cons.mp h with rfl | h
    · exact le_max_left ..
    · exact (ih h).trans (le_max_right ..)

theorem newest_mem (versions : List ℕ) : newest versions = 0 ∨ newest versions ∈ versions := by
  induction versions with
  | nil => exact .inl rfl
  | cons w versions ih =>
    show max w (newest versions) = 0 ∨ max w (newest versions) ∈ w :: versions
    rcases max_cases w (newest versions) with ⟨hmax, -⟩ | ⟨hmax, -⟩ <;> rw [hmax]
    · exact .inr (List.mem_cons_self ..)
    · exact ih.imp id (List.mem_cons_of_mem _)

theorem checkRecorded_ok (h : Increasing Migration.version migrations)
    (pairs : List (ℕ × String)) : checkRecorded rules migrations pairs = .ok () ↔
      ∀ v c, (v, c) ∈ pairs → ∃ m ∈ migrations, m.version = v ∧ m.checksum rules = c := by
  induction pairs with
  | nil => simp [checkRecorded]
  | cons pair rest ih =>
    obtain ⟨v, c⟩ := pair
    cases hfind : Keyed.find? Migration.version migrations v with
    | none =>
      have hnone := Keyed.find?_eq_none.mp hfind
      simp only [checkRecorded, hfind]
      constructor
      · intro hok
        split_ifs at hok
      · intro hall
        obtain ⟨m, hm, hv, -⟩ := hall v c (List.mem_cons_self ..)
        exact absurd hv (hnone m hm)
    | some m =>
      obtain ⟨hm, hv⟩ := h.find?_eq_some.mp hfind
      by_cases hc : m.checksum rules = c
      · simp only [checkRecorded, hfind, hc, ne_eq, not_true_eq_false, if_false]
        rw [ih]
        constructor
        · intro hrest v' c' hmem
          rcases List.mem_cons.mp hmem with hhead | hmem
          · cases hhead
            exact ⟨m, hm, hv, hc⟩
          · exact hrest v' c' hmem
        · intro hall v' c' hmem
          exact hall v' c' (List.mem_cons_of_mem _ hmem)
      · simp only [checkRecorded, hfind, hc, ne_eq, not_false_eq_true, if_true, reduceCtorEq,
          false_iff]
        intro hall
        obtain ⟨m', hm', hv', hc'⟩ := hall v c (List.mem_cons_self ..)
        rw [h.unique hm' hm (hv'.trans hv.symm)] at hc'
        exact hc hc'

/-- A ledger passes exactly when it is a prefix of the files; the rest is pending. -/
theorem verify_iff (files : LocalFiles) :
    verify rules files.migrations ledger = .ok pending ↔
      ∃ done, files.migrations = done ++ pending ∧ Records rules ledger done := by
  have hinc := files.increasing
  set top := newest ((recorded ledger).map Prod.fst) with htop
  constructor
  · intro hok
    simp only [verify, bind, Except.bind] at hok
    split at hok
    · cases hok
    rename_i hcheck
    have hrecorded := (checkRecorded_ok hinc _).mp hcheck
    rw [← htop] at hok
    split_ifs at hok with hgap
    cases hok
    have hnogap := List.filter_eq_nil_iff.mp (not_not.mp hgap)
    refine ⟨files.migrations.filter fun m => m.version ≤ top, hinc.cut top, fun v c => ?_⟩
    constructor
    · intro hmem
      obtain ⟨m, hm, rfl, rfl⟩ := hrecorded v c hmem
      have hle : m.version ≤ top := le_newest (List.mem_map_of_mem (f := Prod.fst) hmem)
      exact ⟨m, List.mem_filter.mpr ⟨hm, decide_eq_true hle⟩, rfl, rfl⟩
    · rintro ⟨m, hm, rfl, rfl⟩
      obtain ⟨hm, hle⟩ := List.mem_filter.mp hm
      -- no gap: the version is recorded, and then with this checksum
      have hversion : m.version ∈ (recorded ledger).map Prod.fst := by
        by_contra hunrecorded
        exact hnogap m hm (decide_eq_true ⟨of_decide_eq_true hle, hunrecorded⟩)
      obtain ⟨⟨v, c⟩, hmem, hv⟩ := List.mem_map.mp hversion
      obtain rfl : v = m.version := hv
      obtain ⟨m', hm', hv', rfl⟩ := hrecorded _ c hmem
      rwa [hinc.unique hm' hm hv'] at hmem
  · rintro ⟨done, hfiles, hrec⟩
    have hcheck : checkRecorded rules files.migrations (recorded ledger) = .ok () := by
      refine (checkRecorded_ok hinc _).mpr fun v c hmem => ?_
      obtain ⟨m, hm, hv, hc⟩ := (hrec v c).mp hmem
      exact ⟨m, hfiles ▸ List.mem_append_left _ hm, hv, hc⟩
    have hdone : ∀ m ∈ done, m.version ≤ top := fun m hm =>
      le_newest (hrec.version.mpr ⟨m, hm, rfl⟩)
    have hpending : ∀ m ∈ pending, top < m.version := by
      intro m hm
      have hmem : m ∈ files.migrations := hfiles ▸ List.mem_append_right _ hm
      rcases newest_mem ((recorded ledger).map Prod.fst) with hzero | hin
      · rw [htop, hzero]
        exact files.positive m hmem
      · obtain ⟨m', hm', hv⟩ := hrec.version.mp hin
        have hlt := (List.pairwise_append.mp (hfiles ▸ hinc)).2.2 m' hm' m hm
        rwa [hv] at hlt
    have hgap : (files.migrations.filter fun m =>
        m.version ≤ top ∧ m.version ∉ (recorded ledger).map Prod.fst) = [] := by
      rw [List.filter_eq_nil_iff]
      intro m hm hbad
      obtain ⟨hle, hunrecorded⟩ := of_decide_eq_true hbad
      rcases List.mem_append.mp (hfiles ▸ hm) with hm | hm
      · exact hunrecorded (hrec.version.mpr ⟨m, hm, rfl⟩)
      · exact absurd hle (not_le.mpr (hpending m hm))
    simp only [verify, hcheck, bind, Except.bind, ← htop, hgap]
    rw [hfiles, Keyed.filter_above hdone hpending]
    rfl

/-- What a ledger can have against the files of a directory. -/
inductive Unfit (rules : Rules) (ledger : Ledger) (files : LocalFiles) : Prop
  | newer (v : ℕ) (row : Row) (h : ledger.get? v = some row)
      (above : ∀ m ∈ files.migrations, m.version < v)
  | unknown (v : ℕ) (row : Row) (h : ledger.get? v = some row)
      (missing : ∀ m ∈ files.migrations, m.version ≠ v)
  | gap (m : Migration) (hm : m ∈ files.migrations) (v : ℕ) (row : Row)
      (h : ledger.get? v = some row) (le : m.version ≤ v) (missing : ledger.get? m.version = none)
  | checksum (m : Migration) (hm : m ∈ files.migrations) (row : Row)
      (h : ledger.get? m.version = some row) (differs : row.checksum ≠ m.checksum rules)

/-- Such a ledger is no prefix of the files. -/
theorem Unfit.refused {files : LocalFiles} (h : Unfit rules ledger files) :
    ∃ r, verify rules files.migrations ledger = .error r := by
  cases hv : verify rules files.migrations ledger with
  | error r => exact ⟨r, rfl⟩
  | ok pending =>
    obtain ⟨done, hfiles, hrec⟩ := (verify_iff files).mp hv
    have hlocal : ∀ v row, ledger.get? v = some row →
        ∃ m ∈ files.migrations, m.version = v ∧ m.checksum rules = row.checksum ∧ m ∈ done := by
      intro v row hrow
      obtain ⟨m, hm, hv, hc⟩ := (hrec v row.checksum).mp (mem_recorded.mpr ⟨row, hrow, rfl⟩)
      exact ⟨m, hfiles ▸ List.mem_append_left _ hm, hv, hc, hm⟩
    exfalso
    cases h with
    | newer v row h above =>
      obtain ⟨m, hm, rfl, -⟩ := hlocal v row h
      exact lt_irrefl _ (above m hm)
    | unknown v row h missing =>
      obtain ⟨m, hm, hv, -⟩ := hlocal v row h
      exact missing m hm hv
    | gap m hm v row h le missing =>
      obtain ⟨m', -, rfl, -, hdone⟩ := hlocal v row h
      rcases List.mem_append.mp (hfiles ▸ hm) with hin | hin
      · obtain ⟨row', hrow', -⟩ :=
          mem_recorded.mp ((hrec _ _).mpr ⟨m, hin, rfl, rfl⟩)
        cases missing.symm.trans hrow'
      · have hlt := (List.pairwise_append.mp (hfiles ▸ files.increasing)).2.2 m' hdone m hin
        exact absurd le (not_le.mpr hlt)
    | checksum m hm row h differs =>
      obtain ⟨m', hm', hv, hc, -⟩ := hlocal m.version row h
      rw [files.increasing.unique hm' hm hv] at hc
      exact differs hc.symm

end MlopsLite.PlatformLib.Migrations
