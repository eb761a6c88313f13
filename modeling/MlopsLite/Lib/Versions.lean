import MlopsLite.Lib.Dict

/-!
# Versions — rows under transactions

A row has the version that is committed and, while a transaction that wrote
it is open, the version it will commit. The pending version is also the row
lock. A transaction reads its own pending versions and otherwise what is
committed; it writes a row nobody else has pending; a commit turns its
pending versions into the committed ones, a rollback forgets them.

`waits` and `taken` are what a unique index says to a new key: a transaction
still open may yet leave the key in it, or the key is there.
-/

namespace Versions

variable {κ ι α : Type} [DecidableEq κ] [DecidableEq ι]

structure Row (ι α : Type) where
  committed : Option α
  pending : Option (ι × α)

abbrev Table (κ ι α : Type) := Dict κ (Row ι α)

def committed (d : Table κ ι α) (k : κ) : Option α := (d.get? k).bind Row.committed

def pending (d : Table κ ι α) (k : κ) : Option (ι × α) := (d.get? k).bind Row.pending

/-- What `t` reads. -/
def view (d : Table κ ι α) (t : ι) (k : κ) : Option α :=
  match pending d k with
  | some (u, v) => if u = t then some v else committed d k
  | none => committed d k

/-- No other transaction has the row locked. -/
def free (d : Table κ ι α) (t : ι) (k : κ) : Bool := (pending d k).all fun p => p.1 = t

def write (d : Table κ ι α) (t : ι) (k : κ) (v : α) : Table κ ι α :=
  d.insert k ⟨committed d k, some (t, v)⟩

def Row.commit (t : ι) (row : Row ι α) : Row ι α :=
  match row.pending with
  | some (u, v) => if u = t then ⟨some v, none⟩ else row
  | none => row

def Row.rollback (t : ι) (row : Row ι α) : Row ι α :=
  match row.pending with
  | some (u, _) => if u = t then ⟨row.committed, none⟩ else row
  | none => row

def commit (d : Table κ ι α) (t : ι) : Table κ ι α := d.map fun _ row => row.commit t

def rollback (d : Table κ ι α) (t : ι) : Table κ ι α := d.map fun _ row => row.rollback t

/-! ## Unique indexes -/

/-- Another transaction is adding the key to the index, or taking it out. -/
def waits (d : Table κ ι α) (t : ι) (k : κ) (p : α → Bool) : Bool :=
  d.items.any fun kv => kv.1 ≠ k && kv.2.pending.any fun w =>
    w.1 ≠ t && (p w.2 || kv.2.committed.any p)

/-- Another row has the key. -/
def taken (d : Table κ ι α) (t : ι) (k : κ) (p : α → Bool) : Bool :=
  d.keys.any fun k' => k' ≠ k && (view d t k').any p

/-! ## Reads after writes -/

variable {d : Table κ ι α} {t u : ι} {k k' : κ} {v : α}

/-- The version `t` has pending. -/
def own (d : Table κ ι α) (t : ι) (k : κ) : Option α :=
  (pending d k).bind fun w => if w.1 = t then some w.2 else none

theorem own_eq_some : own d t k = some v ↔ pending d k = some (t, v) := by
  unfold own
  cases hp : pending d k with
  | none => simp
  | some w =>
    obtain ⟨u, v'⟩ := w
    by_cases hu : u = t <;> simp [hu]

theorem own_unique {w : α} (ht : own d t k = some v) (hu : own d u k = some w) : t = u := by
  have hpair := (own_eq_some.mp ht).symm.trans (own_eq_some.mp hu)
  cases hpair
  rfl

theorem free_of_own (h : own d t k = some v) : free d t k = true := by
  simp [free, own_eq_some.mp h]

theorem not_free_of_own (h : own d u k = some v) (hne : u ≠ t) : free d t k = false := by
  simp [free, own_eq_some.mp h, hne]

/-- What `t` reads: its own version before the committed one. -/
theorem view_eq (d : Table κ ι α) (t : ι) (k : κ) :
    view d t k = (own d t k).or (committed d k) := by
  unfold view own
  cases hp : pending d k with
  | none => rfl
  | some w =>
    obtain ⟨u, v⟩ := w
    by_cases hu : u = t <;> simp [hu]

theorem view_of_own (h : own d t k = some v) : view d t k = some v := by
  rw [view_eq, h]
  rfl

theorem view_of_own_none (h : own d t k = none) : view d t k = committed d k := by
  rw [view_eq, h]
  rfl

omit [DecidableEq ι] in
@[simp] theorem committed_write (d : Table κ ι α) (t : ι) (k : κ) (v : α) (k' : κ) :
    committed (write d t k v) k' = committed d k' := by
  simp only [committed, write]
  rw [Dict.get?_insert]
  by_cases hk : k' = k
  · subst hk
    simp
  · simp [hk]

omit [DecidableEq ι] in
@[simp] theorem pending_write_self (d : Table κ ι α) (t : ι) (k : κ) (v : α) :
    pending (write d t k v) k = some (t, v) := by
  simp [pending, write]

omit [DecidableEq ι] in
theorem pending_write_ne (d : Table κ ι α) (t : ι) (v : α) (h : k' ≠ k) :
    pending (write d t k v) k' = pending d k' := by
  simp [pending, write, Dict.get?_insert_ne _ _ h]

@[simp] theorem own_write_self (d : Table κ ι α) (t : ι) (k : κ) (v : α) :
    own (write d t k v) t k = some v :=
  own_eq_some.mpr (pending_write_self ..)

theorem own_write_ne (d : Table κ ι α) (t u : ι) (v : α) (h : k' ≠ k) :
    own (write d t k v) u k' = own d u k' := by
  simp [own, pending_write_ne d t v h]

/-- A write leaves what the others have pending. -/
theorem own_write_other (hf : free d t k = true) (hu : u ≠ t) (k' : κ) :
    own (write d t k v) u k' = own d u k' := by
  by_cases hk : k' = k
  · subst hk
    cases hown : own d u k' with
    | none => simp [own, Ne.symm hu]
    | some w =>
      rw [not_free_of_own hown hu] at hf
      cases hf
  · exact own_write_ne d t u v hk

omit [DecidableEq ι] in
theorem committed_map (f : κ → Row ι α → Row ι α) (k : κ) :
    committed (d.map f) k = (d.get? k).bind fun row => (f k row).committed := by
  simp only [committed, Dict.get?_map]
  cases d.get? k <;> rfl

omit [DecidableEq ι] in
theorem pending_map (f : κ → Row ι α → Row ι α) (k : κ) :
    pending (d.map f) k = (d.get? k).bind fun row => (f k row).pending := by
  simp only [pending, Dict.get?_map]
  cases d.get? k <;> rfl

/-- A commit makes what its transaction reads the committed state. -/
theorem committed_commit (d : Table κ ι α) (t : ι) (k : κ) :
    committed (commit d t) k = view d t k := by
  rw [commit, committed_map]
  simp only [view, pending, committed]
  cases hget : d.get? k with
  | none => rfl
  | some row =>
    simp only [Option.bind_some, Row.commit]
    cases hp : row.pending with
    | none => rfl
    | some w =>
      obtain ⟨u, v⟩ := w
      by_cases hu : u = t <;> simp [hu]

theorem pending_commit (d : Table κ ι α) (t : ι) (k : κ) :
    pending (commit d t) k = (pending d k).filter fun w => w.1 ≠ t := by
  rw [commit, pending_map]
  simp only [pending]
  cases hget : d.get? k with
  | none => rfl
  | some row =>
    simp only [Option.bind_some, Row.commit]
    cases hp : row.pending with
    | none => simp [hp]
    | some w =>
      obtain ⟨u, v⟩ := w
      by_cases hu : u = t <;> simp [hu, hp, Option.filter]

theorem own_of_filter {d' : Table κ ι α}
    (h : pending d' k = (pending d k).filter fun w => w.1 ≠ t) :
    own d' u k = if u = t then none else own d u k := by
  unfold own
  rw [h]
  cases hp : pending d k with
  | none => simp
  | some w =>
    obtain ⟨u', v⟩ := w
    by_cases hu' : u' = t
    · subst hu'
      by_cases hu : u = u'
      · simp [Option.filter, hu]
      · simp [Option.filter, hu, Ne.symm hu]
    · by_cases hu : u = t
      · subst hu
        simp [Option.filter, hu']
      · simp [Option.filter, hu', hu]

/-- A commit ends what its transaction has pending, and nothing else. -/
theorem own_commit (d : Table κ ι α) (t u : ι) (k : κ) :
    own (commit d t) u k = if u = t then none else own d u k :=
  own_of_filter (pending_commit d t k)

@[simp] theorem committed_rollback (d : Table κ ι α) (t : ι) (k : κ) :
    committed (rollback d t) k = committed d k := by
  rw [rollback, committed_map]
  simp only [committed]
  cases hget : d.get? k with
  | none => rfl
  | some row =>
    simp only [Option.bind_some, Row.rollback]
    cases hp : row.pending with
    | none => rfl
    | some w =>
      obtain ⟨u, v⟩ := w
      by_cases hu : u = t <;> simp [hu]

theorem pending_rollback (d : Table κ ι α) (t : ι) (k : κ) :
    pending (rollback d t) k = (pending d k).filter fun w => w.1 ≠ t := by
  rw [rollback, pending_map]
  simp only [pending]
  cases hget : d.get? k with
  | none => rfl
  | some row =>
    simp only [Option.bind_some, Row.rollback]
    cases hp : row.pending with
    | none => simp [hp]
    | some w =>
      obtain ⟨u, v⟩ := w
      by_cases hu : u = t <;> simp [hu, hp, Option.filter]

theorem own_rollback (d : Table κ ι α) (t u : ι) (k : κ) :
    own (rollback d t) u k = if u = t then none else own d u k :=
  own_of_filter (pending_rollback d t k)

/-- A row another transaction has pending is not changed by a commit. -/
theorem committed_commit_of_own (h : own d u k = some v) (hne : u ≠ t) :
    committed (commit d t) k = committed d k := by
  rw [committed_commit]
  refine view_of_own_none ?_
  cases hown : own d t k with
  | none => rfl
  | some w => exact absurd (own_unique h hown) hne

/-! ## What holds of every version -/

structure All (p : α → Prop) (d : Table κ ι α) : Prop where
  committed : ∀ k v, Versions.committed d k = some v → p v
  own : ∀ t k v, Versions.own d t k = some v → p v

variable {p : α → Prop}

theorem All.view (h : All p d) (hv : Versions.view d t k = some v) : p v := by
  rw [view_eq] at hv
  cases hown : Versions.own d t k with
  | none =>
    rw [hown] at hv
    exact h.committed k v hv
  | some w =>
    rw [hown] at hv
    cases hv
    exact h.own t k v hown

theorem All.write (h : All p d) (hf : free d t k = true) (hv : p v) : All p (write d t k v) := by
  constructor
  · intro k' w hw
    exact h.committed k' w ((committed_write ..).symm.trans hw)
  · intro u k' w hw
    by_cases hk : k' = k
    · subst hk
      by_cases hu : u = t
      · subst hu
        cases (own_write_self d u k' v).symm.trans hw
        exact hv
      · exact h.own u k' w ((own_write_other hf hu k').symm.trans hw)
    · exact h.own u k' w ((own_write_ne d t u v hk).symm.trans hw)

theorem All.commit (h : All p d) (t : ι) : All p (commit d t) := by
  constructor
  · intro k v hv
    exact h.view ((committed_commit ..).symm.trans hv)
  · intro u k v hv
    rw [own_commit] at hv
    split at hv
    · cases hv
    · exact h.own u k v hv

theorem All.rollback (h : All p d) (t : ι) : All p (rollback d t) := by
  constructor
  · intro k v hv
    exact h.committed k v ((committed_rollback ..).symm.trans hv)
  · intro u k v hv
    rw [own_rollback] at hv
    split at hv
    · cases hv
    · exact h.own u k v hv

end Versions
