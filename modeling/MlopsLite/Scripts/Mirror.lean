import MlopsLite.Lib.Dict

/-!
# Mirror — one object store after another

The mirror of `scripts/migrate_store.py`: a pass copies what the destination
lacks or holds in another size, and reports how many objects and bytes either
side has. Where no one else writes, a pass leaves the destination with every
object of the source in its size and with all that it had besides, the next
pass copies nothing, and parity says exactly that it had nothing besides.
-/

namespace MlopsLite.Scripts.Mirror

abbrev Bucket := String

abbrev Key := String

/-! ## Stores -/

/-- `δ`: the bytes of a body; `contentType` is `none` where the store has put its default. -/
structure Obj (δ : Type) where
  size : ℕ
  body : δ
  contentType : Option String

/-- The object that an upload of a body that was read leaves. -/
def Obj.put {δ : Type} (o : Obj δ) : Obj δ :=
  { o with contentType := o.contentType.filter (· ≠ "") }

abbrev Contents (δ : Type) := Dict Key (Obj δ)

abbrev Store (δ : Type) := Dict Bucket (Contents δ)

/-- A page of `list_objects_v2`; an empty token is none. -/
structure Page (τ : Type) where
  contents : List (Key × ℕ)
  truncated : Bool
  next : Option τ

/-- What the service answers of a bucket, from a token on. -/
abbrev Lister (τ δ : Type) := Contents δ → Option τ → Page τ

inductive Err
  /-- `SystemExit`: it never creates a bucket -/
  | missing (b : Bucket)
  | noSuchKey (k : Key)

variable {τ δ : Type}

/-- Failures; `none` says that there is not fuel enough. -/
abbrev Run (α : Type) := ExceptT Err Option α

/-! ## The listing -/

def addPage (inventory : Dict Key ℕ) (contents : List (Key × ℕ)) : Dict Key ℕ :=
  contents.foldl (fun acc kv => acc.insert kv.1 kv.2) inventory

/-- The loop of `list_bucket`. -/
def listPages (page : Option τ → Page τ) : ℕ → Option τ → Dict Key ℕ → Option (Dict Key ℕ)
  | 0, _, _ => none
  | fuel + 1, token, inventory =>
    let p := page token
    let inventory := addPage inventory p.contents
    if !p.truncated then some inventory
    else
      match p.next with
      -- a truncated page without a token ends the loop too
      | none => some inventory
      | some token => listPages page fuel (some token) inventory

/-- `list_bucket`. -/
def listBucket (list : Lister τ δ) (fuel : ℕ) (s : Store δ) (b : Bucket) : Run (Dict Key ℕ) :=
  match s.get? b with
  | none => .mk (some (.error (.missing b)))
  | some contents => .mk ((listPages (list contents) fuel none .empty).map .ok)

/-! ## A pass -/

structure Pass (δ : Type) where
  dest : Contents δ
  copied : ℕ
  skipped : ℕ

def copyKey (source : Contents δ) (srcInv destInv : Dict Key ℕ) (p : Pass δ) (k : Key) :
    Except Err (Pass δ) :=
  if destInv.get? k = srcInv.get? k then .ok { p with skipped := p.skipped + 1 }
  else
    match source.get? k with
    | none => .error (.noSuchKey k)
    | some o => .ok ⟨p.dest.insert k o.put, p.copied + 1, p.skipped⟩

structure Count where
  objects : ℕ
  bytes : ℕ
  deriving DecidableEq

def count (inventory : Dict Key ℕ) : Count := ⟨inventory.items.length, inventory.values.sum⟩

structure Entry where
  name : Bucket
  source : Count
  dest : Count
  copied : ℕ
  skipped : ℕ

/-- The two services. -/
structure Services (τ δ : Type) where
  source : Lister τ δ
  dest : Lister τ δ

variable (services : Services τ δ) (fuel : ℕ) (source : Store δ)

/-- `mirror_bucket`, and the destination after it. -/
def mirrorBucket (dest : Store δ) (b : Bucket) : Run (Store δ × Entry) := do
  let srcInv ← listBucket services.source fuel source b
  let destInv ← listBucket services.dest fuel dest b
  let pass ← ExceptT.mk (some ((srcInv.keys.mergeSort (· ≤ ·)).foldlM
    (copyKey ((source.get? b).getD .empty) srcInv destInv) ⟨(dest.get? b).getD .empty, 0, 0⟩))
  let dest := dest.modify b fun _ => pass.dest
  -- both sides are counted after the pass
  let srcAfter ← listBucket services.source fuel source b
  let destAfter ← listBucket services.dest fuel dest b
  return (dest, ⟨b, count srcAfter, count destAfter, pass.copied, pass.skipped⟩)

def mirrorAll (dest : Store δ) : List Bucket → Run (Store δ × List Entry)
  | [] => return (dest, [])
  | b :: bs => do
    let (dest, entry) ← mirrorBucket services fuel source dest b
    let (dest, entries) ← mirrorAll dest bs
    return (dest, entry :: entries)

structure Report where
  buckets : List Entry
  parity : Bool

/-- `run_migration`; for the reverse direction the sides are swapped. -/
def runMigration (dest : Store δ) (bs : List Bucket) : Run (Store δ × Report) := do
  let (dest, entries) ← mirrorAll services fuel source dest bs
  return (dest, ⟨entries, entries.all fun e => e.source = e.dest⟩)

def exitCode (r : Report) : ℕ := if r.parity then 0 else 1

theorem exitCode_eq_zero {r : Report} : exitCode r = 0 ↔ r.parity = true := by
  cases h : r.parity <;> simp [exitCode, h]

/-! ## The listing is the contents -/

/-- The pages from a token on, as the service answers them one after another. -/
inductive Pages (page : Option τ → Page τ) : Option τ → List (Key × ℕ) → Prop
  | last {token : Option τ} : (page token).truncated = false →
      Pages page token (page token).contents
  | more {token : Option τ} {t : τ} {l : List (Key × ℕ)} : (page token).truncated = true →
      (page token).next = some t → Pages page (some t) l →
      Pages page token ((page token).contents ++ l)

/-- Its pages list a bucket: every key once, with its size. -/
def Complete (list : Lister τ δ) : Prop :=
  ∀ contents : Contents δ, ∃ l, Pages (list contents) none l ∧
    l.Perm (contents.items.map fun kv => (kv.1, kv.2.size))

variable {services fuel source}

theorem listPages_of_pages {page : Option τ → Page τ} {token : Option τ} {l : List (Key × ℕ)}
    (h : Pages page token l) : ∃ n, ∀ fuel, n ≤ fuel → ∀ inventory,
      listPages page fuel token inventory = some (addPage inventory l) := by
  induction h with
  | last hlast =>
    refine ⟨1, fun fuel hfuel inventory => ?_⟩
    obtain ⟨fuel, rfl⟩ := Nat.exists_eq_add_of_le' hfuel
    simp [listPages, hlast]
  | more hmore hnext _ ih =>
    obtain ⟨n, ih⟩ := ih
    refine ⟨n + 1, fun fuel hfuel inventory => ?_⟩
    obtain ⟨fuel, rfl⟩ : ∃ m, fuel = m + 1 := ⟨fuel - 1, by omega⟩
    simp only [listPages, hmore, Bool.not_true, Bool.false_eq_true, ↓reduceIte, hnext]
    rw [ih fuel (by omega), addPage, addPage, addPage, List.foldl_append]

def size? (contents : Contents δ) (k : Key) : Option ℕ := (contents.get? k).map Obj.size

def countOf (contents : Contents δ) : Count :=
  ⟨contents.items.length, (contents.items.map fun kv => kv.2.size).sum⟩

/-- What a listing gives of a bucket. -/
structure Lists (contents : Contents δ) (inventory : Dict Key ℕ) : Prop where
  sizes : ∀ k, inventory.get? k = size? contents k
  count : count inventory = countOf contents

theorem lists_of_perm {contents : Contents δ} {inventory : Dict Key ℕ}
    (h : inventory.items.Perm (contents.items.map fun kv => (kv.1, kv.2.size))) :
    Lists contents inventory := by
  constructor
  · intro k
    rw [size?, ← Dict.get?_map contents fun _ o => o.size]
    apply Option.ext
    intro n
    -- both are read off their items
    rw [← Dict.mem_items, ← Dict.mem_items]
    exact h.mem_iff
  · show Count.mk _ _ = Count.mk _ _
    have hvalues : inventory.values.Perm (contents.items.map fun kv => kv.2.size) := by
      simpa [Dict.values, Function.comp_def] using h.map Prod.snd
    rw [h.length_eq, List.length_map, hvalues.sum_eq]

theorem listBucket_eq {list : Lister τ δ} (hlist : Complete list) {s : Store δ} {b : Bucket}
    {contents : Contents δ} (hb : s.get? b = some contents) :
    ∃ inventory, Lists contents inventory ∧ ∃ n, ∀ fuel, n ≤ fuel →
      listBucket list fuel s b = .mk (some (.ok inventory)) := by
  obtain ⟨l, hpages, hperm⟩ := hlist contents
  obtain ⟨n, hn⟩ := listPages_of_pages hpages
  have hnodup : (l.map Prod.fst).Nodup := by
    rw [(hperm.map Prod.fst).nodup_iff, List.map_map]
    exact contents.nodup
  refine ⟨.ofItems l, lists_of_perm ?_, n, fun fuel hfuel => ?_⟩
  · rw [Dict.items_ofItems hnodup]
    exact hperm
  · simp only [listBucket, hb, hn fuel hfuel, Option.map_some]
    rfl

/-! ## The copies -/

/-- The object of a key after a pass over a bucket. -/
def mirrored (source dest : Contents δ) (k : Key) : Option (Obj δ) :=
  match source.get? k with
  | none => dest.get? k
  | some o => if size? dest k = some o.size then dest.get? k else some o.put

/-- Keys whose object is copied. -/
def stale (source dest : Contents δ) (k : Key) : Bool := size? dest k ≠ size? source k

theorem foldlM_copyKey {src dst : Contents δ} {srcInv destInv : Dict Key ℕ}
    (hsrc : Lists src srcInv) (hdst : Lists dst destInv) :
    ∀ (ks : List Key) (p : Pass δ), (∀ k ∈ ks, (src.get? k).isSome = true) → ks.Nodup →
      ∃ p', ks.foldlM (copyKey src srcInv destInv) p = .ok p' ∧
        (∀ k, p'.dest.get? k =
          if k ∈ ks ∧ stale src dst k then (src.get? k).map Obj.put else p.dest.get? k) ∧
        p'.copied = p.copied + ks.countP (stale src dst) ∧
        p'.copied + p'.skipped = p.copied + p.skipped + ks.length := by
  intro ks
  induction ks with
  | nil =>
    intro p _ _
    exact ⟨p, rfl, by simp, by simp, by simp⟩
  | cons k ks ih =>
    intro p hks hnodup
    obtain ⟨hk, hnodup⟩ := List.nodup_cons.mp hnodup
    obtain ⟨o, ho⟩ := Option.isSome_iff_exists.mp (hks k List.mem_cons_self)
    have hrest : ∀ k' ∈ ks, (src.get? k').isSome = true := fun k' hk' =>
      hks k' (List.mem_cons_of_mem _ hk')
    by_cases hstale : stale src dst k = true
    case pos =>
      have hne : destInv.get? k ≠ srcInv.get? k := by
        rw [hsrc.sizes, hdst.sizes]
        simpa [stale] using hstale
      obtain ⟨p', hp', hget, hcopied, htotal⟩ :=
        ih ⟨p.dest.insert k o.put, p.copied + 1, p.skipped⟩ hrest hnodup
      refine ⟨p', ?_, fun k' => ?_, ?_, ?_⟩
      · rw [List.foldlM_cons, copyKey, if_neg hne, ho]
        exact hp'
      · rw [hget k', Dict.get?_insert]
        by_cases heq : k' = k
        · subst heq
          simp [hk, hstale, ho]
        · simp [heq]
      · rw [hcopied, List.countP_cons_of_pos hstale]
        show p.copied + 1 + _ = _
        omega
      · rw [htotal, List.length_cons]
        show p.copied + 1 + p.skipped + _ = _
        omega
    case neg =>
      have heq : destInv.get? k = srcInv.get? k := by
        rw [hsrc.sizes, hdst.sizes]
        simpa [stale] using hstale
      obtain ⟨p', hp', hget, hcopied, htotal⟩ :=
        ih { p with skipped := p.skipped + 1 } hrest hnodup
      refine ⟨p', ?_, fun k' => ?_, ?_, ?_⟩
      · rw [List.foldlM_cons, copyKey, if_pos heq]
        exact hp'
      · rw [hget k']
        by_cases heq : k' = k
        · subst heq
          simp [hk, hstale]
        · simp [heq]
      · rw [hcopied, List.countP_cons_of_neg hstale]
      · rw [htotal, List.length_cons]
        show p.copied + (p.skipped + 1) + _ = _
        omega

/-- Where nothing is stale nothing is copied. -/
theorem foldlM_copyKey_skip {src dst : Contents δ} {srcInv destInv : Dict Key ℕ}
    (hsrc : Lists src srcInv) (hdst : Lists dst destInv) (ks : List Key) (p : Pass δ)
    (hks : ∀ k ∈ ks, stale src dst k = false) :
    ks.foldlM (copyKey src srcInv destInv) p =
      .ok { p with skipped := p.skipped + ks.length } := by
  induction ks generalizing p with
  | nil => rfl
  | cons k ks ih =>
    have heq : destInv.get? k = srcInv.get? k := by
      rw [hsrc.sizes, hdst.sizes]
      simpa [stale] using hks k List.mem_cons_self
    rw [List.foldlM_cons, copyKey, if_pos heq]
    show ks.foldlM (copyKey src srcInv destInv) { p with skipped := p.skipped + 1 } = _
    rw [ih _ fun k' hk' => hks k' (List.mem_cons_of_mem _ hk'), List.length_cons]
    congr 2
    show p.skipped + 1 + ks.length = _
    omega

/-- The keys of the source, in the order of the pass. -/
structure Ordered (src : Contents δ) (ks : List Key) : Prop where
  mem : ∀ k, k ∈ ks ↔ (src.get? k).isSome = true
  nodup : ks.Nodup
  length : ks.length = src.items.length

theorem ordered_of_lists {src : Contents δ} {srcInv : Dict Key ℕ} (h : Lists src srcInv) :
    Ordered src (srcInv.keys.mergeSort (· ≤ ·)) where
  mem k := by
    rw [(List.mergeSort_perm _ _).mem_iff, Dict.mem_keys, h.sizes, size?]
    cases src.get? k <;> simp
  nodup := (List.mergeSort_perm _ _).nodup_iff.mpr srcInv.nodup
  length := by
    rw [(List.mergeSort_perm _ _).length_eq, Dict.keys, List.length_map]
    exact congrArg Count.objects h.count

/-! ## Parity -/

theorem mem_sizes {contents : Contents δ} {k : Key} {n : ℕ} :
    (k, n) ∈ contents.items.map (fun kv => (kv.1, kv.2.size)) ↔ size? contents k = some n := by
  rw [size?, ← Dict.get?_map contents fun _ o => o.size, ← Dict.mem_items]
  exact Iff.rfl

theorem countOf_congr {src dst : Contents δ} (h : ∀ k, size? dst k = size? src k) :
    countOf src = countOf dst := by
  have hperm : (src.items.map fun kv => (kv.1, kv.2.size)).Perm
      (dst.items.map fun kv => (kv.1, kv.2.size)) := by
    have hnodup : ∀ c : Contents δ, (c.items.map fun kv => (kv.1, kv.2.size)).Nodup := fun c =>
      List.Nodup.of_map Prod.fst (by simpa [Function.comp_def] using c.nodup)
    rw [List.perm_ext_iff_of_nodup (hnodup src) (hnodup dst)]
    rintro ⟨k, n⟩
    rw [mem_sizes, mem_sizes, h]
  have hsizes : (src.items.map fun kv => kv.2.size).Perm (dst.items.map fun kv => kv.2.size) := by
    simpa [Function.comp_def] using hperm.map Prod.snd
  show Count.mk _ _ = Count.mk _ _
  rw [hsizes.sum_eq]
  congr 1
  simpa using hperm.length_eq

/-- Every object of the source is at the destination in its size. -/
def Covers (src dst : Contents δ) : Prop := ∀ k o, src.get? k = some o → size? dst k = some o.size

/-- Equal counts of a destination that has all of the source say that it has no more. -/
theorem countOf_eq_iff {src dst : Contents δ} (h : Covers src dst) :
    countOf src = countOf dst ↔ ∀ k, size? dst k = size? src k := by
  refine ⟨fun heq k => ?_, countOf_congr⟩
  have hsub : src.keys ⊆ dst.keys := by
    intro k hk
    obtain ⟨o, ho⟩ := Dict.mem_keys.mp hk
    obtain ⟨o', ho', -⟩ := Option.map_eq_some_iff.mp (h k o ho)
    exact Dict.mem_keys.mpr ⟨o', ho'⟩
  have hlength : dst.keys.length ≤ src.keys.length := by
    have := congrArg Count.objects heq
    simpa [Dict.keys, countOf] using this.ge
  have hperm : src.keys.Perm dst.keys := (src.nodup.subperm hsub).perm_of_length_le hlength
  cases ho : src.get? k with
  | some o => rw [h k o ho, size?, ho, Option.map_some]
  | none =>
    have hk : k ∉ dst.keys := by
      rw [← hperm.mem_iff, Dict.mem_keys]
      simp [ho]
    have hnone : dst.get? k = none := by
      rw [Dict.mem_keys] at hk
      simpa [Option.eq_none_iff_forall_ne_some] using hk
    rw [size?, size?, ho, hnone]

/-! ## A bucket -/

/-- The destination's contents after a pass. -/
def Mirrors (src dst dst' : Contents δ) : Prop := ∀ k, dst'.get? k = mirrored src dst k

theorem Mirrors.covers {src dst dst' : Contents δ} (h : Mirrors src dst dst') :
    Covers src dst' := by
  intro k o ho
  rw [size?, h k, mirrored, ho]
  show Option.map Obj.size (if size? dst k = some o.size then dst.get? k else some o.put) = _
  split
  · assumption
  · rfl

section

variable {dest : Store δ} {b : Bucket} {src dst : Contents δ}

/-- A pass whose listings and copies succeed. -/
theorem mirrorBucket_of {srcInv destInv destAfter : Dict Key ℕ} {pass : Pass δ}
    (hsrc : source.get? b = some src) (hdst : dest.get? b = some dst)
    (hsrcInv : listBucket services.source fuel source b = .mk (some (.ok srcInv)))
    (hdestInv : listBucket services.dest fuel dest b = .mk (some (.ok destInv)))
    (hpass : (srcInv.keys.mergeSort (· ≤ ·)).foldlM (copyKey src srcInv destInv) ⟨dst, 0, 0⟩ =
      .ok pass)
    (hdestAfter : listBucket services.dest fuel (dest.modify b fun _ => pass.dest) b =
      .mk (some (.ok destAfter))) :
    mirrorBucket services fuel source dest b = .mk (some (.ok (dest.modify b fun _ => pass.dest,
      ⟨b, count srcInv, count destAfter, pass.copied, pass.skipped⟩))) := by
  have hok : ∀ {α β : Type} (a : α) (f : α → Run β),
      (ExceptT.mk (some (.ok a)) : Run α) >>= f = f a := fun _ _ => rfl
  rw [mirrorBucket, hsrcInv, hdestInv, hsrc, hdst, hok, hok]
  simp only [Option.getD_some]
  rw [hpass, hok, hok, hdestAfter]
  rfl

theorem mirrorBucket_eq (hs : Complete services.source) (hd : Complete services.dest)
    (hsrc : source.get? b = some src) (hdst : dest.get? b = some dst) :
    ∃ dst' e, Mirrors src dst dst' ∧ e.name = b ∧ e.source = countOf src ∧
      e.dest = countOf dst' ∧ e.copied + e.skipped = src.items.length ∧
      ∃ n, ∀ fuel, n ≤ fuel → mirrorBucket services fuel source dest b =
        .mk (some (.ok (dest.modify b fun _ => dst', e))) := by
  obtain ⟨srcInv, hsrcInv, n₁, hn₁⟩ := listBucket_eq hs hsrc
  obtain ⟨destInv, hdestInv, n₂, hn₂⟩ := listBucket_eq hd hdst
  have hordered := ordered_of_lists hsrcInv
  obtain ⟨pass, hpass, hget, hcopied, htotal⟩ := foldlM_copyKey hsrcInv hdestInv _ ⟨dst, 0, 0⟩
    (fun k hk => (hordered.mem k).mp hk) hordered.nodup
  have hdst' : (dest.modify b fun _ => pass.dest).get? b = some pass.dest := by
    rw [Dict.get?_modify_self, hdst, Option.map_some]
  obtain ⟨destAfter, hdestAfter, n₃, hn₃⟩ := listBucket_eq hd hdst'
  refine ⟨pass.dest, ⟨b, count srcInv, count destAfter, pass.copied, pass.skipped⟩, fun k => ?_,
    rfl, hsrcInv.count, hdestAfter.count, ?_, max n₁ (max n₂ n₃), fun fuel hfuel => ?_⟩
  · rw [hget k, mirrored]
    cases ho : src.get? k with
    | none => simp [hordered.mem, ho]
    | some o =>
      have hsize : size? src k = some o.size := by rw [size?, ho, Option.map_some]
      by_cases heq : size? dst k = some o.size <;>
        simp [hordered.mem, ho, stale, hsize, heq]
  · rw [htotal, ← hordered.length]
    show 0 + 0 + _ = _
    omega
  · exact mirrorBucket_of hsrc hdst (hn₁ fuel (by omega)) (hn₂ fuel (by omega)) hpass
      (hn₃ fuel (by omega))

/-- A value is rewritten by itself. -/
theorem modify_self (hdst : dest.get? b = some dst) : (dest.modify b fun _ => dst) = dest := by
  have hitems : (dest.modify b fun _ => dst).items = dest.items := by
    show dest.items.map _ = dest.items
    refine (List.map_congr_left fun kv hkv => ?_).trans (List.map_id _)
    show (kv.1, if kv.1 = b then dst else kv.2) = kv
    split
    · rename_i heq
      have hv : dest.get? b = some kv.2 := heq ▸ Dict.mem_items.mp hkv
      rw [Option.some.inj (hdst.symm.trans hv)]
    · rfl
  exact Dict.ext hitems

/-- Where the destination has all of the source a pass copies nothing. -/
theorem mirrorBucket_again (hs : Complete services.source) (hd : Complete services.dest)
    (hsrc : source.get? b = some src) (hdst : dest.get? b = some dst) (hcovers : Covers src dst) :
    ∃ e, e.name = b ∧ e.source = countOf src ∧ e.dest = countOf dst ∧ e.copied = 0 ∧
      ∃ n, ∀ fuel, n ≤ fuel → mirrorBucket services fuel source dest b =
        .mk (some (.ok (dest, e))) := by
  obtain ⟨srcInv, hsrcInv, n₁, hn₁⟩ := listBucket_eq hs hsrc
  obtain ⟨destInv, hdestInv, n₂, hn₂⟩ := listBucket_eq hd hdst
  have hordered := ordered_of_lists hsrcInv
  have hpass := foldlM_copyKey_skip hsrcInv hdestInv (srcInv.keys.mergeSort (· ≤ ·)) ⟨dst, 0, 0⟩
    fun k hk => by
      obtain ⟨o, ho⟩ := Option.isSome_iff_exists.mp ((hordered.mem k).mp hk)
      have hsize : size? dst k = size? src k := by rw [hcovers k o ho, size?, ho, Option.map_some]
      simp [stale, hsize]
  refine ⟨⟨b, count srcInv, count destInv, 0, 0 + (srcInv.keys.mergeSort (· ≤ ·)).length⟩, rfl,
    hsrcInv.count, hdestInv.count, rfl, max n₁ n₂, fun fuel hfuel => ?_⟩
  have hrun := mirrorBucket_of hsrc hdst (hn₁ fuel (by omega)) (hn₂ fuel (by omega)) hpass
    (by rw [modify_self hdst]; exact hn₂ fuel (by omega))
  rw [modify_self hdst] at hrun
  exact hrun

end

/-! ## The migration -/

/-- Buckets of a migration, each on both sides. -/
abbrev Present (source dest : Store δ) (bs : List Bucket) : Prop :=
  ∀ b ∈ bs, (source.get? b).isSome = true ∧ (dest.get? b).isSome = true

/-- What the destination's buckets hold when some have been mirrored. -/
structure After (source dest dest' : Store δ) (bs : List Bucket) : Prop where
  others : ∀ b, b ∉ bs → dest'.get? b = dest.get? b
  mirrors : ∀ b ∈ bs, ∀ src dst, source.get? b = some src → dest.get? b = some dst →
    ∃ dst', dest'.get? b = some dst' ∧ Mirrors src dst dst'

/-- The destination has no object of the bucket beside the source's. -/
def NoMore (source dest : Store δ) (b : Bucket) : Prop :=
  ∀ src dst, source.get? b = some src → dest.get? b = some dst →
    ∀ k, src.get? k = none → dst.get? k = none

/-- A pass over what a pass has left. -/
theorem Mirrors.again {src dst dst' dst'' : Contents δ} (h : Mirrors src dst dst')
    (h' : Mirrors src dst' dst'') : Mirrors src dst dst'' := by
  intro k
  rw [h' k, mirrored]
  cases ho : src.get? k with
  | none =>
    show dst'.get? k = _
    rw [h k]
  | some o =>
    show (if size? dst' k = some o.size then dst'.get? k else some o.put) = _
    rw [if_pos (h.covers k o ho), h k]

theorem Mirrors.noMore {src dst dst' : Contents δ} (h : Mirrors src dst dst') :
    (∀ k, size? dst' k = size? src k) ↔ ∀ k, src.get? k = none → dst.get? k = none := by
  constructor
  · intro hsizes k hk
    have := hsizes k
    rw [size?, size?, h k, mirrored, hk] at this
    simpa using this
  · intro hnone k
    cases ho : src.get? k with
    | some o => rw [h.covers k o ho, size?, ho, Option.map_some]
    | none => rw [size?, size?, h k, mirrored, ho, hnone k ho]

section

variable {dest : Store δ} {b : Bucket} {bs : List Bucket} {src dst dst' : Contents δ}

theorem Present.modify (h : Present source dest bs) (c : Contents δ) :
    Present source (dest.modify b fun _ => c) bs := by
  intro b' hb'
  refine ⟨(h b' hb').1, ?_⟩
  rw [Dict.get?_modify]
  split
  · rename_i heq
    simpa [heq] using (h b' hb').2
  · exact (h b' hb').2

/-- A bucket, and the others after it. -/
theorem After.cons {dest' : Store δ} (hsrc : source.get? b = some src)
    (hdst : dest.get? b = some dst) (hb : Mirrors src dst dst')
    (h : After source (dest.modify b fun _ => dst') dest' bs) :
    After source dest dest' (b :: bs) where
  others b' hb' := by
    obtain ⟨hne, hb'⟩ := not_or.mp (mt List.mem_cons.mpr hb')
    rw [h.others b' hb', Dict.get?_modify_ne _ _ hne]
  mirrors b' hb' src' dst₀ hsrc' hdst₀ := by
    by_cases hmem : b' ∈ bs
    · by_cases heq : b' = b
      · -- mirrored twice
        subst heq
        obtain rfl := Option.some.inj (hsrc.symm.trans hsrc')
        obtain rfl := Option.some.inj (hdst.symm.trans hdst₀)
        obtain ⟨dst'', hget, hagain⟩ := h.mirrors b' hmem src dst' hsrc (by
          rw [Dict.get?_modify_self, hdst, Option.map_some])
        exact ⟨dst'', hget, hb.again hagain⟩
      · exact h.mirrors b' hmem src' dst₀ hsrc' (by rw [Dict.get?_modify_ne _ _ heq, hdst₀])
    · obtain rfl : b' = b := (List.mem_cons.mp hb').resolve_right hmem
      obtain rfl := Option.some.inj (hsrc.symm.trans hsrc')
      obtain rfl := Option.some.inj (hdst.symm.trans hdst₀)
      exact ⟨dst', by rw [h.others b' hmem, Dict.get?_modify_self, hdst, Option.map_some], hb⟩

theorem noMore_iff (hsrc : source.get? b = some src) (hdst : dest.get? b = some dst) :
    NoMore source dest b ↔ ∀ k, src.get? k = none → dst.get? k = none := by
  constructor
  · exact fun h => h src dst hsrc hdst
  · intro h src' dst₀ hsrc' hdst₀
    obtain rfl := Option.some.inj (hsrc.symm.trans hsrc')
    obtain rfl := Option.some.inj (hdst.symm.trans hdst₀)
    exact h

theorem noMore_modify (hsrc : source.get? b = some src) (hdst : dest.get? b = some dst)
    (hb : Mirrors src dst dst') (b' : Bucket) :
    NoMore source (dest.modify b fun _ => dst') b' ↔ NoMore source dest b' := by
  by_cases heq : b' = b
  · subst heq
    have hdst' : (dest.modify b' fun _ => dst').get? b' = some dst' := by
      rw [Dict.get?_modify_self, hdst, Option.map_some]
    rw [noMore_iff hsrc hdst', noMore_iff hsrc hdst]
    refine forall_congr' fun k => imp_congr_right fun hk => ?_
    rw [hb k, mirrored, hk]
  · simp only [NoMore, Dict.get?_modify_ne _ _ heq]

theorem mirrorAll_eq (hs : Complete services.source) (hd : Complete services.dest) :
    ∀ (bs : List Bucket) (dest : Store δ), Present source dest bs →
      ∃ dest' entries, After source dest dest' bs ∧ entries.map Entry.name = bs ∧
        (∀ e ∈ entries, e.source = e.dest ↔ NoMore source dest e.name) ∧
        ∃ n, ∀ fuel, n ≤ fuel → mirrorAll services fuel source dest bs =
          .mk (some (.ok (dest', entries))) := by
  intro bs
  induction bs with
  | nil =>
    intro dest _
    exact ⟨dest, [], ⟨fun _ _ => rfl, by simp⟩, rfl, by simp, 0, fun _ _ => rfl⟩
  | cons b bs ih =>
    intro dest hpresent
    obtain ⟨hb, hb'⟩ := hpresent b List.mem_cons_self
    obtain ⟨src, hsrc⟩ := Option.isSome_iff_exists.mp hb
    obtain ⟨dst, hdst⟩ := Option.isSome_iff_exists.mp hb'
    obtain ⟨dst', e, hmirrors, hname, hsource, hdest, -, n₁, hn₁⟩ :=
      mirrorBucket_eq hs hd hsrc hdst
    have hrest : Present source dest bs := fun b' hb' => hpresent b' (List.mem_cons_of_mem _ hb')
    obtain ⟨dest', entries, hafter, hnames, hparity, n₂, hn₂⟩ :=
      ih (dest.modify b fun _ => dst') (hrest.modify dst')
    refine ⟨dest', e :: entries, hafter.cons hsrc hdst hmirrors, ?_, ?_, max n₁ n₂,
      fun fuel hfuel => ?_⟩
    · rw [List.map_cons, hname, hnames]
    · intro e' he'
      rcases List.mem_cons.mp he' with rfl | he'
      · rw [hsource, hdest, countOf_eq_iff hmirrors.covers, hmirrors.noMore, hname,
          noMore_iff hsrc hdst]
      · rw [hparity e' he', noMore_modify hsrc hdst hmirrors]
    · rw [mirrorAll, hn₁ fuel (by omega)]
      show (mirrorAll services fuel source (dest.modify b fun _ => dst') bs >>= fun r =>
        return (r.1, e :: r.2) : Run (Store δ × List Entry)) = _
      rw [hn₂ fuel (by omega)]
      rfl

/-- A destination that has all of the source stays as it is. -/
theorem mirrorAll_again (hs : Complete services.source) (hd : Complete services.dest)
    (hpresent : Present source dest bs)
    (hcovers : ∀ b ∈ bs, ∀ src dst, source.get? b = some src → dest.get? b = some dst →
      Covers src dst) :
    ∃ entries, (∀ e ∈ entries, e.copied = 0) ∧ entries.map Entry.name = bs ∧
      ∃ n, ∀ fuel, n ≤ fuel → mirrorAll services fuel source dest bs =
        .mk (some (.ok (dest, entries))) := by
  induction bs with
  | nil => exact ⟨[], by simp, rfl, 0, fun _ _ => rfl⟩
  | cons b bs ih =>
    obtain ⟨hb, hb'⟩ := hpresent b List.mem_cons_self
    obtain ⟨src, hsrc⟩ := Option.isSome_iff_exists.mp hb
    obtain ⟨dst, hdst⟩ := Option.isSome_iff_exists.mp hb'
    obtain ⟨e, hname, -, -, hcopied, n₁, hn₁⟩ := mirrorBucket_again hs hd hsrc hdst
      (hcovers b List.mem_cons_self src dst hsrc hdst)
    obtain ⟨entries, hentries, hnames, n₂, hn₂⟩ := ih
      (fun b' hb' => hpresent b' (List.mem_cons_of_mem _ hb'))
      fun b' hb' => hcovers b' (List.mem_cons_of_mem _ hb')
    refine ⟨e :: entries, ?_, ?_, max n₁ n₂, fun fuel hfuel => ?_⟩
    · intro e' he'
      rcases List.mem_cons.mp he' with rfl | he'
      · exact hcopied
      · exact hentries e' he'
    · rw [List.map_cons, hname, hnames]
    · rw [mirrorAll, hn₁ fuel (by omega)]
      show (mirrorAll services fuel source dest bs >>= fun r =>
        return (r.1, e :: r.2) : Run (Store δ × List Entry)) = _
      rw [hn₂ fuel (by omega)]
      rfl

end

def object? (s : Store δ) (b : Bucket) (k : Key) : Option (Obj δ) :=
  (s.get? b).bind fun contents => contents.get? k

/-- A migration that nobody else disturbs, and the one after it. -/
structure Converged (services : Services τ δ) (fuel : ℕ) (source dest dest' : Store δ)
    (bs : List Bucket) (report : Report) : Prop where
  names : report.buckets.map Entry.name = bs
  copied : ∀ b ∈ bs, ∀ k o, object? source b k = some o → ∃ o', object? dest' b k = some o' ∧
    o'.size = o.size ∧ (o' = o.put ∨ object? dest b k = some o')
  kept : ∀ b k, b ∉ bs ∨ object? source b k = none → object? dest' b k = object? dest b k
  parity : exitCode report = 0 ↔
    ∀ b ∈ bs, ∀ k, (object? dest' b k).map Obj.size = (object? source b k).map Obj.size
  again : ∃ report', runMigration services fuel source dest' bs =
    .mk (some (.ok (dest', report'))) ∧ ∀ e ∈ report'.buckets, e.copied = 0

section

variable {dest dest' : Store δ} {b : Bucket} {bs : List Bucket} {src dst : Contents δ}

theorem object?_of_get? {s : Store δ} {contents : Contents δ} (h : s.get? b = some contents)
    (k : Key) : object? s b k = contents.get? k := by
  rw [object?, h]
  rfl

/-- A mirrored bucket, with its contents on both sides and afterwards. -/
theorem After.at (h : After source dest dest' bs) (hpresent : Present source dest bs)
    (hb : b ∈ bs) : ∃ src dst dst', source.get? b = some src ∧ dest.get? b = some dst ∧
      dest'.get? b = some dst' ∧ Mirrors src dst dst' := by
  obtain ⟨src, hsrc⟩ := Option.isSome_iff_exists.mp (hpresent b hb).1
  obtain ⟨dst, hdst⟩ := Option.isSome_iff_exists.mp (hpresent b hb).2
  obtain ⟨dst', hdst', hmirrors⟩ := h.mirrors b hb src dst hsrc hdst
  exact ⟨src, dst, dst', hsrc, hdst, hdst', hmirrors⟩

theorem After.copied (h : After source dest dest' bs) (hpresent : Present source dest bs)
    (hb : b ∈ bs) {k : Key} {o : Obj δ} (ho : object? source b k = some o) :
    ∃ o', object? dest' b k = some o' ∧ o'.size = o.size ∧
      (o' = o.put ∨ object? dest b k = some o') := by
  obtain ⟨src, dst, dst', hsrc, hdst, hdst', hmirrors⟩ := h.at hpresent hb
  rw [object?_of_get? hsrc] at ho
  rw [object?_of_get? hdst', object?_of_get? hdst, hmirrors k, mirrored, ho]
  show ∃ o', (if size? dst k = some o.size then dst.get? k else some o.put) = some o' ∧ _
  split
  · rename_i hsize
    obtain ⟨o', ho', hsize⟩ := Option.map_eq_some_iff.mp hsize
    exact ⟨o', ho', hsize, .inr ho'⟩
  · exact ⟨o.put, rfl, rfl, .inl rfl⟩

theorem After.kept (h : After source dest dest' bs) (hpresent : Present source dest bs) {k : Key}
    (hk : b ∉ bs ∨ object? source b k = none) : object? dest' b k = object? dest b k := by
  by_cases hb : b ∈ bs
  · obtain ⟨src, dst, dst', hsrc, hdst, hdst', hmirrors⟩ := h.at hpresent hb
    have hnone := hk.resolve_left (not_not.mpr hb)
    rw [object?_of_get? hsrc] at hnone
    rw [object?_of_get? hdst', object?_of_get? hdst, hmirrors k, mirrored, hnone]
  · rw [object?, object?, h.others b hb]

theorem After.noMore_iff (h : After source dest dest' bs) (hpresent : Present source dest bs)
    (hb : b ∈ bs) : NoMore source dest b ↔
      ∀ k, (object? dest' b k).map Obj.size = (object? source b k).map Obj.size := by
  obtain ⟨src, dst, dst', hsrc, hdst, hdst', hmirrors⟩ := h.at hpresent hb
  rw [Mirror.noMore_iff hsrc hdst, ← hmirrors.noMore]
  refine forall_congr' fun k => ?_
  rw [object?_of_get? hdst', object?_of_get? hsrc]
  rfl

theorem After.present (h : After source dest dest' bs) (hpresent : Present source dest bs) :
    Present source dest' bs := by
  intro b hb
  obtain ⟨src, dst, dst', hsrc, -, hdst', -⟩ := h.at hpresent hb
  exact ⟨by rw [hsrc]; rfl, by rw [hdst']; rfl⟩

theorem After.covers (h : After source dest dest' bs) (hpresent : Present source dest bs)
    (hb : b ∈ bs) (hsrc : source.get? b = some src) (hdst : dest'.get? b = some dst) :
    Covers src dst := by
  obtain ⟨src', dst₀, dst', hsrc', -, hdst', hmirrors⟩ := h.at hpresent hb
  obtain rfl := Option.some.inj (hsrc.symm.trans hsrc')
  obtain rfl := Option.some.inj (hdst.symm.trans hdst')
  exact hmirrors.covers

theorem runMigration_of {entries : List Entry}
    (h : mirrorAll services fuel source dest bs = .mk (some (.ok (dest', entries)))) :
    runMigration services fuel source dest bs = .mk (some (.ok (dest',
      ⟨entries, entries.all fun e => e.source = e.dest⟩))) := by
  rw [runMigration, h]
  rfl

/-- Where no one else writes the mirror converges in one pass. -/
theorem migration_converges (hs : Complete services.source) (hd : Complete services.dest)
    (hpresent : Present source dest bs) : ∃ dest' report n, ∀ fuel, n ≤ fuel →
      runMigration services fuel source dest bs = .mk (some (.ok (dest', report))) ∧
        Converged services fuel source dest dest' bs report := by
  obtain ⟨dest', entries, hafter, hnames, hparity, n₁, hn₁⟩ := mirrorAll_eq hs hd bs dest hpresent
  obtain ⟨entries', hcopied, -, n₂, hn₂⟩ := mirrorAll_again hs hd (hafter.present hpresent)
    fun b hb src dst hsrc hdst => hafter.covers hpresent hb hsrc hdst
  refine ⟨dest', ⟨entries, entries.all fun e => e.source = e.dest⟩, max n₁ n₂, fun fuel hfuel =>
    ⟨runMigration_of (hn₁ fuel (by omega)), hnames, ?_, ?_, ?_, ?_⟩⟩
  · intro b hb k o ho
    exact hafter.copied hpresent hb ho
  · intro b k hk
    exact hafter.kept hpresent hk
  · rw [exitCode_eq_zero]
    simp only [List.all_eq_true, decide_eq_true_eq]
    constructor
    · intro h b hb
      obtain ⟨e, he, rfl⟩ := List.mem_map.mp (hnames ▸ hb)
      exact (hafter.noMore_iff hpresent hb).mp ((hparity e he).mp (h e he))
    · intro h e he
      have hb : e.name ∈ bs := hnames ▸ List.mem_map_of_mem he
      exact (hparity e he).mpr ((hafter.noMore_iff hpresent hb).mpr (h e.name hb))
  · exact ⟨_, runMigration_of (hn₂ fuel (by omega)), hcopied⟩

end

/-- All of a bucket in one page. -/
def onePage : Lister Unit Unit := fun contents _ =>
  ⟨contents.items.map fun kv => (kv.1, kv.2.size), false, none⟩

theorem onePage_complete : Complete onePage := fun _ => ⟨_, .last rfl, .refl _⟩

/-- A source, and a destination with an object in another size and with one more. -/
def models (more : Bool) : Store Unit := .ofItems [("models", .ofItems
  (if more then [("a", ⟨4, (), none⟩), ("c", ⟨9, (), none⟩)]
    else [("a", ⟨3, (), none⟩), ("b", ⟨5, (), none⟩)]))]

theorem models_converge : ∃ dest' report n, ∀ fuel, n ≤ fuel →
    runMigration ⟨onePage, onePage⟩ fuel (models false) (models true) ["models"] =
        .mk (some (.ok (dest', report))) ∧
      Converged ⟨onePage, onePage⟩ fuel (models false) (models true) dest' ["models"] report :=
  migration_converges onePage_complete onePage_complete (by decide)

end MlopsLite.Scripts.Mirror
