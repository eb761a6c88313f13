import MlopsLite.Lib.RowLocks

/-!
# Tenancy — keys issued, rotated and revoked by concurrent transactions

`issue_key`, `rotate_key`, `revoke_key`, `set_tenant_status` and `resolve_key`
(`platformlib/storeimpl/tenancy.py`) on the tables of `003_broker.sql`, under
READ COMMITTED. A rotation is one transaction: its UPDATE reads which keys are
active when it starts, locks them one by one, passing over those that are no
longer active when their lock is free, and then the new key is inserted. The
others are single statements.
-/

namespace MlopsLite.PlatformLib.Tenancy

abbrev ThreadId := ℕ

abbrev TenantId := String

abbrev KeyId := String

abbrev Raw := List Char

abbrev Time := ℚ

inductive TenantStatus
  | active
  | disabled
  deriving DecidableEq

structure Tenant where
  status : TenantStatus
  isSystem : Bool

/-- A revoked key carries its revocation time; an active one never does. -/
inductive KeyStatus
  | active
  | revoked (revokedAt : Time)
  deriving DecidableEq

/-- Whether a key was issued alone or by a rotation. -/
inductive Mint
  | issue
  | rotate
  deriving DecidableEq

/-- A row of `api_keys`; `mint` is history. -/
structure KeyRow where
  id : KeyId
  tenantId : TenantId
  keyHash : List Char
  displayPrefix : Raw
  status : KeyStatus
  mint : Mint
  deriving DecidableEq

/-- Both tables as committed, the keys in the order of their commits, the last
first; the rows rotations have locked, and the rows they have inserted and not
committed. -/
structure Store where
  tenants : TenantId → Option Tenant
  keys : List KeyRow
  locks : RowLocks.Table KeyId ThreadId
  inserting : List (ThreadId × KeyRow)

/-- `seen` is the number of keys there were when the UPDATE started, `targets`
the keys it has still to lock, `mine` those it has locked. -/
inductive Pc
  | idle
  | rotateUpdate (tenantId : TenantId) (now : Time) (seen : ℕ) (targets mine : List KeyId)
  | rotateCommit (tenantId : TenantId) (now : Time) (seen : ℕ) (mine : List KeyId) (row : KeyRow)

inductive Choice
  | createTenant (id : TenantId) (isSystem : Bool)
  | setTenantStatus (id : TenantId) (status : TenantStatus)
  | issueKey (tenantId : TenantId) (raw : Raw) (id : KeyId)
  | revokeKey (id : KeyId) (now : Time)
  | rotateKey (tenantId : TenantId) (now : Time)
  | lock (id : KeyId)
  | insert (raw : Raw) (id : KeyId)
  | commit
  | rollback

variable (hashKey : Raw → List Char)

/-- The row `issue_key` inserts. -/
def mintKey (tenantId : TenantId) (raw : Raw) (id : KeyId) (mint : Mint) : KeyRow where
  id := id
  tenantId := tenantId
  keyHash := hashKey raw
  displayPrefix := raw.take 11
  status := .active
  mint := mint

/-- `SET status = 'revoked', revoked_at = now()` of the active ones among `ids`. -/
def KeyRow.revoke (ids : List KeyId) (now : Time) (r : KeyRow) : KeyRow :=
  if r.id ∈ ids ∧ r.status = .active then { r with status := .revoked now } else r

namespace Store

variable (x : Store)

/-- The ids an UPDATE over the tenant's active keys reads. -/
def activeKeys (tenantId : TenantId) : List KeyId :=
  (x.keys.filter fun r => r.tenantId = tenantId ∧ r.status = .active).map KeyRow.id

def isActive (id : KeyId) : Bool := x.keys.any fun r => r.id = id ∧ r.status = .active

/-- The tenant exists, and neither unique index has or awaits the new row. -/
def insertable (r : KeyRow) : Bool :=
  (x.tenants r.tenantId).isSome &&
    (x.keys ++ x.inserting.map Prod.snd).all fun r' => r'.id ≠ r.id ∧ r'.keyHash ≠ r.keyHash

/-- `resolve_key`: the tenant and the key's id. -/
def resolveKey (raw : Raw) : Option (TenantId × KeyId) :=
  if raw = [] then none
  else
    (x.keys.find? fun r => r.keyHash = hashKey raw ∧ r.status = .active ∧
      (x.tenants r.tenantId).any fun tenant => tenant.status = .active).map
      fun r => (r.tenantId, r.id)

end Store

def advance : Interleaving.Program ThreadId Store Pc Choice := fun t choice x k =>
  match k, choice with
  | .idle, .createTenant id isSystem =>
      if (x.tenants id).isSome then none
      else some ({ x with
        tenants := Function.update x.tenants id (some ⟨.active, isSystem⟩) }, .idle)
  | .idle, .setTenantStatus id status =>
      match x.tenants id with
      | some ⟨_, false⟩ =>
          some ({ x with tenants := Function.update x.tenants id (some ⟨status, false⟩) }, .idle)
      | _ => none
  | .idle, .issueKey tenantId raw id =>
      let row := mintKey hashKey tenantId raw id .issue
      if x.insertable row then some ({ x with keys := row :: x.keys }, .idle) else none
  | .idle, .revokeKey id now =>
      if RowLocks.free x.locks id t then
        some ({ x with keys := x.keys.map (KeyRow.revoke [id] now) }, .idle)
      else none
  | .idle, .rotateKey tenantId now =>
      some (x, .rotateUpdate tenantId now x.keys.length (x.activeKeys tenantId) [])
  | .rotateUpdate tenantId now seen targets mine, .lock id =>
      if id ∈ targets ∧ RowLocks.free x.locks id t then
        -- the row is read again once it can be locked
        if x.isActive id then
          some ({ x with locks := RowLocks.take x.locks id t },
            .rotateUpdate tenantId now seen (targets.filter (· ≠ id)) (id :: mine))
        else some (x, .rotateUpdate tenantId now seen (targets.filter (· ≠ id)) mine)
      else none
  | .rotateUpdate tenantId now seen [] mine, .insert raw id =>
      let row := mintKey hashKey tenantId raw id .rotate
      if x.insertable row then
        some ({ x with inserting := (t, row) :: x.inserting },
          .rotateCommit tenantId now seen mine row)
      else none
  | .rotateCommit _ now _ mine row, .commit =>
      some ({ x with
        keys := row :: x.keys.map (KeyRow.revoke mine now)
        locks := RowLocks.drop x.locks t
        inserting := x.inserting.erase (t, row) }, .idle)
  | .rotateUpdate .., .rollback => some ({ x with locks := RowLocks.drop x.locks t }, .idle)
  | .rotateCommit _ _ _ _ row, .rollback =>
      some ({ x with
        locks := RowLocks.drop x.locks t
        inserting := x.inserting.erase (t, row) }, .idle)
  | _, _ => none

abbrev Sys := Interleaving.State ThreadId Store Pc

abbrev Act := ThreadId × Choice

abbrev next : Sys → Act → Option Sys := Interleaving.next (advance hashKey)

def Sys.init : Sys := ⟨⟨fun _ => none, [], fun _ => none, []⟩, fun _ => .idle⟩

/-! ## What is asked -/

/-- What resolves once rotations have committed. -/
structure Rotates (x : Store) : Prop where
  /-- After a rotation: its own key, or one that was committed later. -/
  rotated : ∀ later e earlier, x.keys = later ++ e :: earlier → e.mint = .rotate →
    ∀ raw id, x.resolveKey hashKey raw = some (e.tenantId, id) →
      ∃ r ∈ later ++ [e], r.id = id ∧ r.tenantId = e.tenantId ∧ r.keyHash = hashKey raw
  /-- After a rotation and no other key of the tenant: one key at most. -/
  single : ∀ later e earlier, x.keys = later ++ e :: earlier → e.mint = .rotate →
    (∀ r ∈ later, r.tenantId ≠ e.tenantId) →
    ∀ raw raw' id id', x.resolveKey hashKey raw = some (e.tenantId, id) →
      x.resolveKey hashKey raw' = some (e.tenantId, id') → id = id'
  /-- Nothing revoked and nothing of a disabled tenant. -/
  active : ∀ raw tenantId id, x.resolveKey hashKey raw = some (tenantId, id) →
    (∀ r ∈ x.keys, r.id = id → r.tenantId = tenantId ∧ r.status = .active) ∧
      ∃ tenant, x.tenants tenantId = some tenant ∧ tenant.status = .active

/-- When a rotation commits, its UPDATE has seen every key of the tenant that
is active. -/
def SeesAllAt (x : Store) (k : Pc) (choice : Choice) : Prop :=
  match k, choice with
  | .rotateCommit tenantId _ seen _ _, .commit =>
      ∀ r ∈ x.keys.take (x.keys.length - seen), r.tenantId = tenantId → r.status ≠ .active
  | _, _ => True

def SeesAll (s : Sys) (a : Act) : Prop := SeesAllAt s.shared (s.pc a.1) a.2

instance (s : Sys) (a : Act) : Decidable (SeesAll s a) := by
  unfold SeesAll SeesAllAt
  exact Interleaving.pointwise (s.pc a.1) a.2 fun pc choice => by split <;> infer_instance

/-- A key committed later by a rotation supersedes the tenant's earlier ones. -/
def Supersedes (later earlier : KeyRow) : Prop :=
  later.mint = .rotate → earlier.tenantId = later.tenantId → earlier.status ≠ .active

structure Inv (x : Store) : Prop where
  rotated : x.keys.Pairwise Supersedes
  ids : (x.inserting.map (fun p => p.2.id) ++ x.keys.map KeyRow.id).Nodup

/-- The keys that were there when there were `seen`. -/
def seenKeys (x : Store) (seen : ℕ) : List KeyRow := x.keys.drop (x.keys.length - seen)

def Local (t : ThreadId) (x : Store) : Pc → Prop
  | .idle => True
  | .rotateUpdate tenantId _ seen targets mine =>
      seen ≤ x.keys.length ∧
        ∀ r ∈ seenKeys x seen, r.tenantId = tenantId → r.status = .active →
          r.id ∈ targets ∨ r.id ∈ mine
  | .rotateCommit tenantId _ seen mine row =>
      seen ≤ x.keys.length ∧
        (∀ r ∈ seenKeys x seen, r.tenantId = tenantId → r.status = .active → r.id ∈ mine) ∧
        row.tenantId = tenantId ∧ (t, row) ∈ x.inserting

/-- An update of rows that at most revokes. -/
structure Revokes (f : KeyRow → KeyRow) : Prop where
  id : ∀ r, (f r).id = r.id
  tenantId : ∀ r, (f r).tenantId = r.tenantId
  mint : ∀ r, (f r).mint = r.mint
  active : ∀ r, (f r).status = .active → r.status = .active

theorem Revokes.refl : Revokes fun r => r := ⟨fun _ => rfl, fun _ => rfl, fun _ => rfl, fun _ h => h⟩

theorem revokes (ids : List KeyId) (now : Time) : Revokes (KeyRow.revoke ids now) := by
  constructor <;> intro r <;> unfold KeyRow.revoke <;> split <;> simp

theorem revoke_not_active {ids : List KeyId} {now : Time} {r : KeyRow} (h : r.id ∈ ids) :
    (r.revoke ids now).status ≠ .active := by
  unfold KeyRow.revoke
  split
  · simp
  · rename_i hnot
    exact fun hactive => hnot ⟨h, hactive⟩

/-- What a section leaves the other threads. -/
structure Leaves (t : ThreadId) (x y : Store) : Prop where
  keys : ∃ f, Revokes f ∧ ∃ new, y.keys = new ++ x.keys.map f
  inserting : ∀ p ∈ x.inserting, p.1 ≠ t → p ∈ y.inserting

variable {hashKey} {x y : Store} {t u : ThreadId}

theorem Leaves.of_keys_eq (hk : y.keys = x.keys)
    (hi : ∀ p ∈ x.inserting, p.1 ≠ t → p ∈ y.inserting) : Leaves t x y where
  keys := ⟨_, .refl, [], by simp [hk]⟩
  inserting := hi

/-- The keys seen stay, but for revocations. -/
theorem Leaves.seenKeys (h : Leaves t x y) {seen : ℕ} (hseen : seen ≤ x.keys.length) :
    seen ≤ y.keys.length ∧ ∀ r ∈ Tenancy.seenKeys y seen, ∃ r' ∈ Tenancy.seenKeys x seen,
      r.id = r'.id ∧ r.tenantId = r'.tenantId ∧ (r.status = .active → r'.status = .active) := by
  obtain ⟨f, hf, new, hkeys⟩ := h.keys
  have hlen : y.keys.length = new.length + x.keys.length := by
    rw [hkeys, List.length_append, List.length_map]
  refine ⟨by omega, ?_⟩
  intro r hr
  have hdrop : Tenancy.seenKeys y seen = (Tenancy.seenKeys x seen).map f := by
    unfold Tenancy.seenKeys
    have hsub : y.keys.length - seen = new.length + (x.keys.length - seen) := by omega
    rw [hsub, hkeys, List.drop_append, ← List.map_drop]
    simp
  rw [hdrop] at hr
  obtain ⟨r', hr', rfl⟩ := List.mem_map.mp hr
  exact ⟨r', hr', hf.id r', hf.tenantId r', hf.active r'⟩

theorem Local.leaves {k : Pc} (h : Local u x k) (hl : Leaves t x y) (hu : u ≠ t) : Local u y k := by
  cases k with
  | idle => trivial
  | rotateUpdate tenantId now seen targets mine =>
    obtain ⟨hseen, hall⟩ := h
    obtain ⟨hseen', hkeys⟩ := hl.seenKeys hseen
    refine ⟨hseen', fun r hr htenant hactive => ?_⟩
    obtain ⟨r', hr', hid, htenant', hactive'⟩ := hkeys r hr
    rw [hid]
    exact hall r' hr' (htenant' ▸ htenant) (hactive' hactive)
  | rotateCommit tenantId now seen mine row =>
    obtain ⟨hseen, hall, hrow, hins⟩ := h
    obtain ⟨hseen', hkeys⟩ := hl.seenKeys hseen
    refine ⟨hseen', fun r hr htenant hactive => ?_, hrow, hl.inserting _ hins hu⟩
    obtain ⟨r', hr', hid, htenant', hactive'⟩ := hkeys r hr
    rw [hid]
    exact hall r' hr' (htenant' ▸ htenant) (hactive' hactive)

/-! ## Statements -/

theorem Revokes.pairwise {f : KeyRow → KeyRow} (hf : Revokes f) {keys : List KeyRow}
    (h : keys.Pairwise Supersedes) : (keys.map f).Pairwise Supersedes := by
  refine h.map f fun later earlier hsup hmint htenant hactive => ?_
  rw [hf.mint] at hmint
  rw [hf.tenantId, hf.tenantId] at htenant
  exact hsup hmint htenant (hf.active earlier hactive)

theorem Revokes.map_id {f : KeyRow → KeyRow} (hf : Revokes f) (keys : List KeyRow) :
    (keys.map f).map KeyRow.id = keys.map KeyRow.id := by
  rw [List.map_map]
  exact List.map_congr_left fun r _ => hf.id r

theorem id_notMem_of_insertable {r : KeyRow} (h : x.insertable r = true) :
    r.id ∉ x.inserting.map (fun p => p.2.id) ++ x.keys.map KeyRow.id := by
  simp only [Store.insertable, Bool.and_eq_true, List.all_eq_true, List.mem_append,
    decide_eq_true_eq] at h
  intro hmem
  rcases List.mem_append.mp hmem with hmem | hmem
  · obtain ⟨p, hp, hid⟩ := List.mem_map.mp hmem
    exact (h.2 p.2 (.inr (List.mem_map_of_mem hp))).1 hid
  · obtain ⟨r', hr', hid⟩ := List.mem_map.mp hmem
    exact (h.2 r' (.inl hr')).1 hid

namespace Inv

variable (h : Inv x)

include h

theorem issue {r : KeyRow} (hr : x.insertable r = true) (hmint : r.mint = .issue) :
    Inv { x with keys := r :: x.keys } where
  rotated := by
    refine List.pairwise_cons.mpr ⟨fun r' _ hrotate => ?_, h.rotated⟩
    rw [hmint] at hrotate
    cases hrotate
  ids := by
    have hnodup := List.nodup_cons.mpr ⟨id_notMem_of_insertable hr, h.ids⟩
    exact (List.perm_middle.nodup_iff).mpr hnodup

theorem map_keys {f : KeyRow → KeyRow} (hf : Revokes f) : Inv { x with keys := x.keys.map f } where
  rotated := hf.pairwise h.rotated
  ids := by
    show (_ ++ (x.keys.map f).map KeyRow.id).Nodup
    rw [hf.map_id]
    exact h.ids

theorem insert {r : KeyRow} (hr : x.insertable r = true) :
    Inv { x with inserting := (t, r) :: x.inserting } where
  rotated := h.rotated
  ids := List.nodup_cons.mpr ⟨id_notMem_of_insertable hr, h.ids⟩

theorem stopInserting (locks : RowLocks.Table KeyId ThreadId) (p : ThreadId × KeyRow) :
    Inv { x with locks := locks, inserting := x.inserting.erase p } where
  rotated := h.rotated
  ids := h.ids.sublist (((List.erase_sublist ..).map _).append (List.Sublist.refl _))

/-- A commit that revokes every active key of the tenant. -/
theorem commit {row : KeyRow} {mine : List KeyId} {now : Time}
    (locks : RowLocks.Table KeyId ThreadId) (hrow : (t, row) ∈ x.inserting)
    (hall : ∀ r ∈ x.keys, r.tenantId = row.tenantId → r.status = .active → r.id ∈ mine) :
    Inv { x with
      keys := row :: x.keys.map (KeyRow.revoke mine now)
      locks := locks
      inserting := x.inserting.erase (t, row) } where
  rotated := by
    have hrev := revokes mine now
    refine List.pairwise_cons.mpr ⟨fun r' hr' _ htenant hactive => ?_, hrev.pairwise h.rotated⟩
    obtain ⟨r, hr, rfl⟩ := List.mem_map.mp hr'
    rw [hrev.tenantId] at htenant
    exact revoke_not_active (hall r hr htenant (hrev.active r hactive)) hactive
  ids := by
    have hperm : (x.inserting.map fun p => p.2.id).Perm
        (row.id :: (x.inserting.erase (t, row)).map fun p => p.2.id) :=
      (List.perm_cons_erase hrow).map _
    have hnodup := ((hperm.append_right _).nodup_iff).mp h.ids
    show (_ ++ (row :: x.keys.map (KeyRow.revoke mine now)).map KeyRow.id).Nodup
    rw [List.map_cons, (revokes mine now).map_id]
    exact (List.perm_middle.nodup_iff).mpr hnodup

end Inv

/-- One section keeps the invariant, what it knows itself and what the others know. -/
structure Keeps (t : ThreadId) (x y : Store) (k : Pc) : Prop where
  inv : Inv y
  own : Local t y k
  leaves : Leaves t x y

theorem keeps_idle (h : Inv x) {k : Pc} {choice : Choice}
    (ha : advance hashKey t choice x .idle = some (y, k)) : Keeps t x y k := by
  cases choice with
  | createTenant id isSystem =>
    simp only [advance] at ha
    split at ha <;> cases ha
    exact ⟨⟨h.rotated, h.ids⟩, trivial, .of_keys_eq rfl fun _ hp _ => hp⟩
  | setTenantStatus id status =>
    simp only [advance] at ha
    split at ha <;> cases ha
    exact ⟨⟨h.rotated, h.ids⟩, trivial, .of_keys_eq rfl fun _ hp _ => hp⟩
  | issueKey tenantId raw id =>
    simp only [advance] at ha
    split at ha
    · rename_i hinsertable
      cases ha
      exact {
        inv := h.issue hinsertable rfl
        own := trivial
        leaves := ⟨⟨_, .refl, [mintKey hashKey tenantId raw id .issue], by simp⟩, fun _ hp _ => hp⟩ }
    · cases ha
  | revokeKey id now =>
    simp only [advance] at ha
    split at ha <;> cases ha
    exact {
      inv := h.map_keys (revokes [id] now)
      own := trivial
      leaves := ⟨⟨_, revokes [id] now, [], rfl⟩, fun _ hp _ => hp⟩ }
  | rotateKey tenantId now =>
    cases ha
    refine ⟨h, ⟨Nat.le_refl _, fun r hr htenant hactive => .inl ?_⟩,
      .of_keys_eq rfl fun _ hp _ => hp⟩
    have hmem : r ∈ x.keys := List.mem_of_mem_drop hr
    exact List.mem_map_of_mem (List.mem_filter.mpr ⟨hmem, by simp [htenant, hactive]⟩)
  | _ => cases ha

theorem keeps_rotateUpdate (h : Inv x) {tenantId : TenantId} {now : Time} {seen : ℕ}
    {targets mine : List KeyId} {k : Pc} {choice : Choice}
    (hl : Local t x (.rotateUpdate tenantId now seen targets mine))
    (ha : advance hashKey t choice x (.rotateUpdate tenantId now seen targets mine) = some (y, k)) :
    Keeps t x y k := by
  obtain ⟨hseen, hall⟩ := hl
  cases choice with
  | lock id =>
    simp only [advance] at ha
    split at ha
    · split at ha
      · cases ha
        refine ⟨⟨h.rotated, h.ids⟩, ⟨hseen, fun r hr htenant hactive => ?_⟩,
          .of_keys_eq rfl fun _ hp _ => hp⟩
        obtain hin | hin := hall r hr htenant hactive
        · by_cases hid : r.id = id
          · exact .inr (hid ▸ List.mem_cons_self)
          · exact .inl (List.mem_filter.mpr ⟨hin, by simpa using hid⟩)
        · exact .inr (List.mem_cons_of_mem id hin)
      · rename_i hnot
        cases ha
        refine ⟨h, ⟨hseen, fun r hr htenant hactive => ?_⟩, .of_keys_eq rfl fun _ hp _ => hp⟩
        have hid : r.id ≠ id := by
          -- an active row of that id would have been locked
          rintro rfl
          refine hnot (List.any_eq_true.mpr ⟨r, List.mem_of_mem_drop hr, ?_⟩)
          simp [hactive]
        exact (hall r hr htenant hactive).imp
          (fun hin => List.mem_filter.mpr ⟨hin, by simpa using hid⟩) fun hin => hin
    · cases ha
  | insert raw id =>
    cases targets with
    | cons _ _ => cases ha
    | nil =>
      simp only [advance] at ha
      split at ha
      · rename_i hinsertable
        cases ha
        refine ⟨h.insert hinsertable, ⟨hseen, fun r hr htenant hactive => ?_, rfl,
          List.mem_cons_self⟩, .of_keys_eq rfl fun _ hp _ => List.mem_cons_of_mem _ hp⟩
        exact (hall r hr htenant hactive).resolve_left List.not_mem_nil
      · cases ha
  | rollback =>
    cases ha
    exact ⟨⟨h.rotated, h.ids⟩, trivial, .of_keys_eq rfl fun _ hp _ => hp⟩
  | _ => cases targets <;> cases ha

theorem mem_erase_of_other {p : ThreadId × KeyRow} {row : KeyRow} {l : List (ThreadId × KeyRow)}
    (hp : p ∈ l) (hne : p.1 ≠ t) : p ∈ l.erase (t, row) := by
  refine (List.mem_erase_of_ne ?_).mpr hp
  rintro rfl
  exact hne rfl

theorem keeps_rotateCommit (h : Inv x) {tenantId : TenantId} {now : Time} {seen : ℕ}
    {mine : List KeyId} {row : KeyRow} {k : Pc} {choice : Choice}
    (hl : Local t x (.rotateCommit tenantId now seen mine row))
    (hok : SeesAllAt x (.rotateCommit tenantId now seen mine row) choice)
    (ha : advance hashKey t choice x (.rotateCommit tenantId now seen mine row) = some (y, k)) :
    Keeps t x y k := by
  obtain ⟨_, hall, hrow, hins⟩ := hl
  cases choice with
  | commit =>
    cases ha
    have hkeys : ∀ r ∈ x.keys, r.tenantId = row.tenantId → r.status = .active → r.id ∈ mine := by
      intro r hr htenant hactive
      rw [hrow] at htenant
      rw [← List.take_append_drop (x.keys.length - seen) x.keys, List.mem_append] at hr
      obtain hr | hr := hr
      · exact absurd hactive (hok r hr htenant)
      · exact hall r hr htenant hactive
    exact {
      inv := h.commit _ hins hkeys
      own := trivial
      leaves := ⟨⟨_, revokes mine now, [row], rfl⟩, fun _ hp hne => mem_erase_of_other hp hne⟩ }
  | rollback =>
    cases ha
    exact ⟨h.stopInserting _ (t, row), trivial,
      .of_keys_eq rfl fun _ hp hne => mem_erase_of_other hp hne⟩
  | _ => cases ha

theorem keeps_section (h : Inv x) {k k' : Pc} {choice : Choice} (hl : Local t x k)
    (hok : SeesAllAt x k choice) (ha : advance hashKey t choice x k = some (y, k')) :
    Keeps t x y k' := by
  cases k with
  | idle => exact keeps_idle h ha
  | rotateUpdate => exact keeps_rotateUpdate h hl ha
  | rotateCommit => exact keeps_rotateCommit h hl hok ha

/-! ## What resolves -/

/-- The row a key resolves by. -/
theorem row_of_resolveKey {raw : Raw} {tenantId : TenantId} {id : KeyId}
    (h : x.resolveKey hashKey raw = some (tenantId, id)) :
    (∃ r ∈ x.keys, r.id = id ∧ r.tenantId = tenantId ∧ r.keyHash = hashKey raw ∧
      r.status = .active) ∧ ∃ tenant, x.tenants tenantId = some tenant ∧ tenant.status = .active := by
  unfold Store.resolveKey at h
  split at h
  · cases h
  · obtain ⟨r, hr, heq⟩ := Option.map_eq_some_iff.mp h
    obtain ⟨rfl, rfl⟩ := Prod.mk.inj heq
    have hrow := List.find?_some hr
    simp only [decide_eq_true_eq, Option.any_eq_true] at hrow
    obtain ⟨hhash, hactive, tenant, htenant, hstatus⟩ := hrow
    exact ⟨⟨r, List.mem_of_find?_eq_some hr, rfl, rfl, hhash, hactive⟩, tenant, htenant,
      by simpa using hstatus⟩

theorem Inv.rotates (h : Inv x) : Rotates hashKey x := by
  have hids : (x.keys.map KeyRow.id).Nodup := (List.nodup_append.mp h.ids).2.1
  -- an active key of the tenant is not behind a rotation
  have hlater : ∀ later e earlier, x.keys = later ++ e :: earlier → e.mint = .rotate →
      ∀ r ∈ x.keys, r.tenantId = e.tenantId → r.status = .active → r ∈ later ++ [e] := by
    intro later e earlier hkeys hmint r hr htenant hactive
    have hsup := h.rotated
    rw [hkeys, List.pairwise_append, List.pairwise_cons] at hsup
    rw [hkeys, List.append_cons, List.mem_append] at hr
    exact hr.resolve_right fun hr => hsup.2.1.1 r hr hmint htenant hactive
  constructor
  · intro later e earlier hkeys hmint raw id hres
    obtain ⟨⟨r, hr, hid, htenant, hhash, hactive⟩, _⟩ := row_of_resolveKey hres
    exact ⟨r, hlater later e earlier hkeys hmint r hr htenant hactive, hid, htenant, hhash⟩
  · intro later e earlier hkeys hmint hnone raw raw' id id' hres hres'
    have hown : ∀ raw id, x.resolveKey hashKey raw = some (e.tenantId, id) → id = e.id := by
      intro raw id hres
      obtain ⟨⟨r, hr, hid, htenant, _, hactive⟩, _⟩ := row_of_resolveKey hres
      have hmem := hlater later e earlier hkeys hmint r hr htenant hactive
      obtain hin | hin := List.mem_append.mp hmem
      · exact absurd htenant (hnone r hin)
      · rw [← hid, List.mem_singleton.mp hin]
    rw [hown raw id hres, hown raw' id' hres']
  · intro raw tenantId id hres
    obtain ⟨⟨r, hr, hid, htenant, _, hactive⟩, htenants⟩ := row_of_resolveKey hres
    refine ⟨fun r' hr' hid' => ?_, htenants⟩
    rw [List.inj_on_of_nodup_map hids hr' hr (hid'.trans hid.symm)]
    exact ⟨htenant, hactive⟩

/-! ## Runs -/

open Interleaving (Holds)

theorem holds_init : Holds Inv Local Sys.init where
  global := ⟨List.Pairwise.nil, List.nodup_nil⟩
  thread := fun _ => trivial

theorem reachable_inv {s : Sys}
    (hs : Runs.Reachable (next hashKey) SeesAll Sys.init s) : Holds Inv Local s := by
  refine Interleaving.threadwise (R := Leaves) holds_init ?_ ?_ hs
  · intro s t c y k _ h hok ha
    have hkeeps := keeps_section h.global (h.thread t) hok ha
    exact ⟨hkeeps.inv, hkeeps.own, hkeeps.leaves⟩
  · intro t u x y k hl hu h
    exact h.leaves hl hu

/-- What rotation promises of the runs of a kind. -/
def KeysRotate (hashKey : Raw → List Char) (ok : Sys → Act → Prop) : Prop :=
  ∀ s, Runs.Reachable (next hashKey) ok Sys.init s → Rotates hashKey s.shared

/-- No old key outlives a rotation in the runs in which each rotation that
commits has seen the tenant's active keys. -/
theorem keysRotate (hashKey : Raw → List Char) : KeysRotate hashKey SeesAll :=
  fun _ hs => (reachable_inv hs).global.rotates

example : (Runs.run (next id) SeesAll Sys.init
    [(0, .createTenant "t" false), (0, .issueKey "t" ['a'] "a"), (0, .rotateKey "t" 10),
      (0, .lock "a"), (0, .insert ['b'] "b"), (0, .commit), (1, .rotateKey "t" 11),
      (1, .lock "b"), (1, .insert ['c'] "c"), (1, .commit)]).map
    (fun s => [['a'], ['b'], ['c']].map (s.shared.resolveKey id)) =
      some [none, none, some ("t", "c")] := by
  decide +kernel

/-! ## Two rotations at once -/

/-- `generate_key` of the one-letter tokens. -/
def rawKey (c : Char) : Raw := "sk-".toList ++ List.replicate 43 c

/-- The sha256 of the three keys below. -/
def hashOf (raw : Raw) : List Char :=
  if raw = rawKey 'A' then
    "d40a82f736e89291055c8dcbddec74ad06f26425073957cce3a31c553758e683".toList
  else if raw = rawKey 'B' then
    "7a287dab1cb2e5f41345d18a406842206f33281fba31f9440994336117ff3aa6".toList
  else if raw = rawKey 'C' then
    "01538255a76fbbf9a30ba7f242009a0720fcbf3443d0830f70a0289f1d6f88bf".toList
  else raw

/-- Both UPDATEs read the first key; the second rotation waits for its lock. -/
def rotateTwice : List Act :=
  [(0, .createTenant "t" false), (0, .issueKey "t" (rawKey 'A') "a"),
    (0, .rotateKey "t" 10), (1, .rotateKey "t" 10),
    (0, .lock "a"), (0, .insert (rawKey 'B') "b"), (0, .commit),
    (1, .lock "a"), (1, .insert (rawKey 'C') "c"), (1, .commit)]

theorem rotations_leave_two : ¬ ∀ hashKey, KeysRotate hashKey Runs.anyStep := by
  intro h
  have hrun : (Runs.run (next hashOf) Runs.anyStep Sys.init rotateTwice).map (fun s =>
      decide (s.shared.keys.map KeyRow.id = ["c", "b", "a"] ∧
        s.shared.keys.map KeyRow.mint = [.rotate, .rotate, .issue] ∧
        s.shared.keys.all (fun r => r.tenantId = "t") = true ∧
        s.shared.resolveKey hashOf (rawKey 'B') = some ("t", "b") ∧
        s.shared.resolveKey hashOf (rawKey 'C') = some ("t", "c"))) = some true := by
    decide +kernel
  obtain ⟨s, hs, hp⟩ := Runs.exists_reachable hrun
  obtain ⟨hids, hmint, htenant, hb, hc⟩ := of_decide_eq_true hp
  obtain ⟨e, earlier, hkeys⟩ : ∃ e earlier, s.shared.keys = e :: earlier := by
    cases hk : s.shared.keys with
    | nil => simp [hk] at hids
    | cons e earlier => exact ⟨e, earlier, rfl⟩
  rw [hkeys] at hmint htenant
  have hrotate : e.mint = .rotate := List.head_eq_of_cons_eq hmint
  have het : e.tenantId = "t" := by
    have hall := List.all_eq_true.mp htenant e List.mem_cons_self
    simpa using hall
  have hsingle := (h hashOf s hs).single [] e earlier hkeys hrotate
    (fun r hr => absurd hr List.not_mem_nil) (rawKey 'B') (rawKey 'C') "b" "c"
  rw [het] at hsingle
  exact absurd (hsingle hb hc) (by decide)

end MlopsLite.PlatformLib.Tenancy
