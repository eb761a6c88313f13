import MlopsLite.Lib.Interleaving

/-!
# Datasets — content addressing in two writes

`register_dataset` (`gateway/app/datasets.py`) and `write_result`
(`gateway/app/batch.py`). A version is the first twelve digits of the sha256 of
the bytes; below it lie the data object and the manifest, written one after the
other. Each request to the store is a section of its own and may fail, with or
without its effect.
-/

namespace MlopsLite.Gateway.Datasets

abbrev ThreadId := ℕ

abbrev Bytes := List UInt8

abbrev Digest := List Char

abbrev Time := ℚ

/-! ## Versions and manifests -/

/-- `BUCKET` and `RESULTS_BUCKET`. -/
structure Config where
  bucket : String
  resultsBucket : String

structure DatasetManifest where
  name : List Char
  version : Digest
  sizeBytes : ℕ
  sha256 : Digest
  format : Option String
  metadata : List (String × String)
  uri : List Char
  registeredAt : Time
  deriving DecidableEq

/-- What `score_dataset` gives as `manifest_extra`. -/
structure ManifestExtra where
  dataset : List Char
  model : String
  registryVersion : Option String
  elapsedS : Time
  deriving DecidableEq

structure ResultManifest where
  job : List Char
  version : Digest
  sha256 : Digest
  nIn : ℕ
  nOut : ℕ
  nFailed : ℕ
  uri : List Char
  createdAt : Time
  extra : Option ManifestExtra
  deriving DecidableEq

inductive Manifest
  | dataset (m : DatasetManifest)
  | result (m : ResultManifest)
  deriving DecidableEq

def Manifest.sha256 : Manifest → Digest
  | dataset m => m.sha256
  | result m => m.sha256

def Manifest.version : Manifest → Digest
  | dataset m => m.version
  | result m => m.version

/-- What `run_batch` returns, each result as `json.dumps` writes it with its
keys sorted. -/
structure Batch where
  results : List (List Char)
  nIn : ℕ
  nOut : ℕ
  nFailed : ℕ
  deriving DecidableEq

def utf8 (s : List Char) : Bytes := s.flatMap String.utf8EncodeChar

def Batch.data (b : Batch) : Bytes := utf8 (['\n'].intercalate b.results ++ ['\n'])

/-- The bucket and the path below which the two objects lie. -/
structure Key where
  bucket : String
  base : List Char
  deriving DecidableEq

inductive Call
  | registerDataset (name : List Char) (content : Bytes) (fmt : Option String)
      (metadata : List (String × String))
  | writeResult (jobName : List Char) (batch : Batch) (extra : Option ManifestExtra)
  deriving DecidableEq

/-- `score_dataset` of scored rows. -/
def scoreDataset (name version : List Char) (model : String) (registryVersion : Option String)
    (batch : Batch) (elapsedS : Time) : Call :=
  .writeResult (name ++ '_' :: version) batch
    (some { dataset := name ++ '@' :: version, model, registryVersion, elapsedS })

namespace Call

variable (cfg : Config) (sha256 : Bytes → Digest)

def content : Call → Bytes
  | registerDataset _ content _ _ => content
  | writeResult _ batch _ => batch.data

/-- Where a call finds or puts a version of its own. -/
def keyOf (version : Digest) : Call → Key
  | registerDataset name _ _ _ => ⟨cfg.bucket, name ++ '/' :: version⟩
  | writeResult jobName _ _ => ⟨cfg.resultsBucket, "batch/".toList ++ jobName ++ '/' :: version⟩

def version (c : Call) : Digest := (sha256 c.content).take 12

def key (c : Call) : Key := c.keyOf cfg (c.version sha256)

def uri (c : Call) : List Char :=
  "s3://".toList ++ (c.key cfg sha256).bucket.toList ++ '/' :: (c.key cfg sha256).base ++
    "/data".toList

def manifest (now : Time) (c : Call) : Manifest :=
  match c with
  | registerDataset name content fmt metadata =>
      .dataset {
        name
        version := c.version sha256
        sizeBytes := content.length
        sha256 := sha256 content
        format := fmt
        metadata
        uri := c.uri cfg sha256
        registeredAt := now }
  | writeResult jobName batch extra =>
      .result {
        job := jobName
        version := c.version sha256
        sha256 := sha256 batch.data
        nIn := batch.nIn
        nOut := batch.nOut
        nFailed := batch.nFailed
        uri := c.uri cfg sha256
        createdAt := now
        extra }

@[simp] theorem manifest_sha256 (now : Time) (c : Call) :
    (c.manifest cfg sha256 now).sha256 = sha256 c.content := by
  cases c <;> rfl

@[simp] theorem manifest_version (now : Time) (c : Call) :
    (c.manifest cfg sha256 now).version = c.version sha256 := by
  cases c <;> rfl

end Call

/-! ## The store and its callers -/

/-- A call that has returned, with the version in its answer. -/
structure Returned where
  call : Call
  version : Digest

/-- The objects below each key. The rest is history: the calls that have begun,
the threads that write with the key they write to, and the calls that have
returned. -/
structure Shared where
  data : Key → Option Bytes
  manifest : Key → Option Manifest
  given : List Call
  writing : List (ThreadId × Key)
  returned : List Returned

inductive Pc
  | idle
  | checking (c : Call)
  | puttingData (c : Call) (m : Manifest)
  | puttingManifest (c : Call) (m : Manifest)

/-- A request to the store succeeds, fails, or has its effect and fails: the
caller goes away, or sees an error. `now` is read where a manifest is made. -/
inductive Choice
  | call (c : Call) (now : Time)
  | respond (now : Time)
  | fail
  | failAfter

variable (cfg : Config) (sha256 : Bytes → Digest)

def advance : Interleaving.Program ThreadId Shared Pc Choice := fun t choice x k =>
  match k, choice with
  | .idle, .call c now =>
      match c with
      | .registerDataset .. => some ({ x with given := c :: x.given }, .checking c)
      -- no check: `write_result` goes on to write
      | .writeResult .. =>
          some ({ x with
            given := c :: x.given
            writing := (t, c.key cfg sha256) :: x.writing },
            .puttingData c (c.manifest cfg sha256 now))
  | .checking c, .respond now =>
      match x.manifest (c.key cfg sha256) with
      | some m => some ({ x with returned := ⟨c, m.version⟩ :: x.returned }, .idle)
      | none =>
          some ({ x with writing := (t, c.key cfg sha256) :: x.writing },
            .puttingData c (c.manifest cfg sha256 now))
  | .checking _, .fail => some (x, .idle)
  | .puttingData c m, .respond _ =>
      some ({ x with data := Function.update x.data (c.key cfg sha256) (some c.content) },
        .puttingManifest c m)
  | .puttingData c _, .failAfter =>
      some ({ x with
        data := Function.update x.data (c.key cfg sha256) (some c.content)
        writing := x.writing.erase (t, c.key cfg sha256) }, .idle)
  | .puttingData c _, .fail =>
      some ({ x with writing := x.writing.erase (t, c.key cfg sha256) }, .idle)
  | .puttingManifest c m, .respond _ =>
      some ({ x with
        manifest := Function.update x.manifest (c.key cfg sha256) (some m)
        writing := x.writing.erase (t, c.key cfg sha256)
        returned := ⟨c, m.version⟩ :: x.returned }, .idle)
  | .puttingManifest c m, .failAfter =>
      some ({ x with
        manifest := Function.update x.manifest (c.key cfg sha256) (some m)
        writing := x.writing.erase (t, c.key cfg sha256) }, .idle)
  | .puttingManifest c _, .fail =>
      some ({ x with writing := x.writing.erase (t, c.key cfg sha256) }, .idle)
  | _, _ => none

abbrev Sys := Interleaving.State ThreadId Shared Pc

abbrev Act := ThreadId × Choice

abbrev next : Sys → Act → Option Sys := Interleaving.next (advance cfg sha256)

def Sys.init : Sys := ⟨⟨fun _ => none, fun _ => none, [], [], []⟩, fun _ => .idle⟩

/-! ## What is asked -/

/-- Data objects hash to their manifests, and hold what the calls that returned
their versions were given. -/
structure Addressed (x : Shared) : Prop where
  hashed : ∀ k m, x.manifest k = some m → ∃ b, x.data k = some b ∧ sha256 b = m.sha256
  returned : ∀ r ∈ x.returned, x.data (r.call.keyOf cfg r.version) = some r.call.content

/-- A manifest and the data beside it stay as they are. -/
def Kept (x y : Shared) : Prop :=
  ∀ k m, x.manifest k = some m → y.manifest k = some m ∧ y.data k = x.data k

/-- No other content was given for the key. -/
def SameContent (x : Shared) (c : Call) : Prop :=
  ∀ c' ∈ x.given, c'.key cfg sha256 = c.key cfg sha256 → c'.content = c.content

/-- Nobody writes to the key. -/
def Free (x : Shared) (k : Key) : Prop := ∀ w ∈ x.writing, w.2 ≠ k

/-- A call comes with a content no other has collided with, and it begins to
write to a key nobody else writes to and that has no manifest. -/
def Alone (x : Shared) (k : Pc) (choice : Choice) : Prop :=
  match k, choice with
  | .idle, .call c _ =>
      SameContent cfg sha256 x c ∧
        match c with
        | .registerDataset .. => True
        | .writeResult .. => Free x (c.key cfg sha256) ∧ x.manifest (c.key cfg sha256) = none
  | .checking c, .respond _ =>
      x.manifest (c.key cfg sha256) = none → Free x (c.key cfg sha256)
  | _, _ => True

def StepAlone (s : Sys) (a : Act) : Prop := Alone cfg sha256 s.shared (s.pc a.1) a.2

instance (x : Shared) (c : Call) : Decidable (SameContent cfg sha256 x c) :=
  inferInstanceAs (Decidable (∀ c' ∈ x.given, _))

instance (x : Shared) (k : Key) : Decidable (Free x k) :=
  inferInstanceAs (Decidable (∀ w ∈ x.writing, _))

instance (s : Sys) (a : Act) : Decidable (StepAlone cfg sha256 s a) := by
  unfold StepAlone Alone
  exact Interleaving.pointwise (s.pc a.1) a.2 fun pc choice => by
    split
    · exact @instDecidableAnd _ _ _ (by split <;> infer_instance)
    · infer_instance
    · infer_instance

/-! ## The invariant -/

structure Inv (x : Shared) : Prop where
  same : ∀ c ∈ x.given, SameContent cfg sha256 x c
  written : ∀ k b, x.data k = some b → ∃ c ∈ x.given, c.key cfg sha256 = k ∧ c.content = b
  stored : ∀ k m, x.manifest k = some m → ∃ c ∈ x.given, c.key cfg sha256 = k ∧
    x.data k = some c.content ∧ m.sha256 = sha256 c.content ∧ m.version = c.version sha256
  alone : (x.writing.map Prod.snd).Nodup
  unwritten : ∀ w ∈ x.writing, x.manifest w.2 = none
  answered : ∀ r ∈ x.returned, r.version = r.call.version sha256 ∧
    x.data (r.call.key cfg sha256) = some r.call.content

/-- What a call under way knows. -/
structure Underway (t : ThreadId) (x : Shared) (c : Call) (m : Manifest) : Prop where
  given : c ∈ x.given
  writing : (t, c.key cfg sha256) ∈ x.writing
  digest : m.sha256 = sha256 c.content
  version : m.version = c.version sha256

def Local (t : ThreadId) (x : Shared) : Pc → Prop
  | .idle => True
  | .checking c => c ∈ x.given
  | .puttingData c m => Underway cfg sha256 t x c m
  | .puttingManifest c m =>
      Underway cfg sha256 t x c m ∧ x.data (c.key cfg sha256) = some c.content

/-- What a section of `t` leaves the other threads. -/
structure Leaves (t : ThreadId) (x y : Shared) : Prop where
  given : ∀ c ∈ x.given, c ∈ y.given
  data : ∀ k b, x.data k = some b → y.data k = some b
  writing : ∀ w ∈ x.writing, w.1 ≠ t → w ∈ y.writing

variable {cfg sha256} {x y : Shared} {t u : ThreadId} {c : Call} {m : Manifest}

theorem Leaves.refl : Leaves t x x := ⟨fun _ h => h, fun _ _ h => h, fun _ h _ => h⟩

theorem Underway.leaves (h : Underway cfg sha256 u x c m) (hl : Leaves t x y) (hu : u ≠ t) :
    Underway cfg sha256 u y c m :=
  { h with
    given := hl.given c h.given
    writing := hl.writing _ h.writing hu }

theorem Local.leaves {k : Pc} (h : Local cfg sha256 u x k) (hl : Leaves t x y) (hu : u ≠ t) :
    Local cfg sha256 u y k := by
  cases k with
  | idle => trivial
  | checking c => exact hl.given c h
  | puttingData c m => exact Underway.leaves h hl hu
  | puttingManifest c m => exact ⟨h.1.leaves hl hu, hl.data _ _ h.2⟩

namespace Inv

variable (h : Inv cfg sha256 x)

include h

theorem give (hsame : SameContent cfg sha256 x c) :
    Inv cfg sha256 { x with given := c :: x.given } :=
  { h with
    same := by
      intro d hd d' hd' hkey
      rcases List.mem_cons.mp hd with hdc | hd <;> rcases List.mem_cons.mp hd' with hdc' | hd'
      · rw [hdc, hdc']
      · exact hdc ▸ hsame d' hd' (hdc ▸ hkey)
      · exact hdc' ▸ (hsame d hd (hdc' ▸ hkey.symm)).symm
      · exact h.same d hd d' hd' hkey
    written := fun k b hb => by
      obtain ⟨d, hd, hrest⟩ := h.written k b hb
      exact ⟨d, List.mem_cons_of_mem c hd, hrest⟩
    stored := fun k m hm => by
      obtain ⟨d, hd, hrest⟩ := h.stored k m hm
      exact ⟨d, List.mem_cons_of_mem c hd, hrest⟩ }

theorem startWriting {k : Key} (hfree : Free x k) (hnone : x.manifest k = none) :
    Inv cfg sha256 { x with writing := (t, k) :: x.writing } :=
  { h with
    alone := by
      refine List.nodup_cons.mpr ⟨?_, h.alone⟩
      intro hk
      obtain ⟨w, hw, hwk⟩ := List.mem_map.mp hk
      exact hfree w hw hwk
    unwritten := by
      intro w hw
      obtain rfl | hw := List.mem_cons.mp hw
      · exact hnone
      · exact h.unwritten w hw }

theorem stopWriting (w : ThreadId × Key) :
    Inv cfg sha256 { x with writing := x.writing.erase w } :=
  { h with
    alone := h.alone.sublist ((List.erase_sublist ..).map Prod.snd)
    unwritten := fun v hv => h.unwritten v (List.mem_of_mem_erase hv) }

/-- A call's data object is what it is, and what any other call put there. -/
theorem update_data_eq (hc : c ∈ x.given) {k : Key} {b : Bytes} (hb : x.data k = some b) :
    Function.update x.data (c.key cfg sha256) (some c.content) k = some b := by
  by_cases hk : k = c.key cfg sha256
  · subst hk
    obtain ⟨d, hd, hkey, rfl⟩ := h.written _ b hb
    rw [Function.update_self, h.same c hc d hd hkey]
  · rwa [Function.update_of_ne hk]

theorem putData (hc : c ∈ x.given) :
    Inv cfg sha256
      { x with data := Function.update x.data (c.key cfg sha256) (some c.content) } :=
  { h with
    written := by
      intro k b hb
      dsimp only at hb
      by_cases hk : k = c.key cfg sha256
      · subst hk
        rw [Function.update_self, Option.some_inj] at hb
        exact ⟨c, hc, rfl, hb⟩
      · rw [Function.update_of_ne hk] at hb
        exact h.written k b hb
    stored := by
      intro k m hm
      obtain ⟨d, hd, hkey, hdata, hrest⟩ := h.stored k m hm
      exact ⟨d, hd, hkey, h.update_data_eq hc hdata, hrest⟩
    answered := by
      intro r hr
      obtain ⟨hversion, hdata⟩ := h.answered r hr
      exact ⟨hversion, h.update_data_eq hc hdata⟩ }

theorem putManifest (hunder : Underway cfg sha256 t x c m)
    (hdata : x.data (c.key cfg sha256) = some c.content) :
    Inv cfg sha256 { x with
      manifest := Function.update x.manifest (c.key cfg sha256) (some m)
      writing := x.writing.erase (t, c.key cfg sha256) } :=
  { h with
    stored := by
      intro k m' hm
      dsimp only at hm
      by_cases hk : k = c.key cfg sha256
      · subst hk
        rw [Function.update_self, Option.some_inj] at hm
        subst hm
        exact ⟨c, hunder.given, rfl, hdata, hunder.digest, hunder.version⟩
      · rw [Function.update_of_ne hk] at hm
        exact h.stored k m' hm
    alone := h.alone.sublist ((List.erase_sublist ..).map Prod.snd)
    unwritten := by
      intro w hw
      have hne : w.2 ≠ c.key cfg sha256 := by
        intro heq
        -- the key is written by one thread, whose entry is gone
        have hnodup := h.alone
        have hperm := List.perm_cons_erase hunder.writing
        rw [(hperm.map Prod.snd).nodup_iff, List.map_cons, List.nodup_cons] at hnodup
        have hmem : w.2 ∈ (x.writing.erase (t, c.key cfg sha256)).map Prod.snd :=
          List.mem_map_of_mem hw
        rw [heq] at hmem
        exact hnodup.1 hmem
      dsimp only
      rw [Function.update_of_ne hne]
      exact h.unwritten w (List.mem_of_mem_erase hw) }

theorem answer (hdata : x.data (c.key cfg sha256) = some c.content) {v : Digest}
    (hv : v = c.version sha256) :
    Inv cfg sha256 { x with returned := ⟨c, v⟩ :: x.returned } :=
  { h with
    answered := by
      intro r hr
      obtain rfl | hr := List.mem_cons.mp hr
      · exact ⟨hv, hdata⟩
      · exact h.answered r hr }

/-- The manifest a call finds is of its own content. -/
theorem found (hc : c ∈ x.given) (hm : x.manifest (c.key cfg sha256) = some m) :
    x.data (c.key cfg sha256) = some c.content ∧ m.version = c.version sha256 := by
  obtain ⟨d, hd, hkey, hdata, _, hversion⟩ := h.stored _ m hm
  have hsame := h.same c hc d hd hkey
  refine ⟨hsame ▸ hdata, ?_⟩
  rw [hversion, Call.version, hsame, Call.version]

theorem addressed : Addressed cfg sha256 x where
  hashed := by
    intro k m hm
    obtain ⟨c, _, _, hdata, hdigest, _⟩ := h.stored k m hm
    exact ⟨c.content, hdata, hdigest.symm⟩
  returned := by
    intro r hr
    obtain ⟨hversion, hdata⟩ := h.answered r hr
    rw [hversion]
    exact hdata

end Inv

/-! ## Sections -/

theorem Kept.of_manifest_eq (hm : y.manifest = x.manifest) (hd : y.data = x.data) : Kept x y := by
  intro k m h
  rw [hm, hd]
  exact ⟨h, rfl⟩

theorem Kept.trans {z : Shared} (h : Kept x y) (h' : Kept y z) : Kept x z := by
  intro k m hm
  obtain ⟨hmy, hdy⟩ := h k m hm
  obtain ⟨hmz, hdz⟩ := h' k m hmy
  exact ⟨hmz, hdz.trans hdy⟩

theorem Leaves.of_stopWriting {k : Key} (hg : y.given = x.given)
    (hd : ∀ k b, x.data k = some b → y.data k = some b)
    (hw : y.writing = x.writing.erase (t, k)) : Leaves t x y where
  given := fun c hc => hg ▸ hc
  data := hd
  writing := by
    intro w hwx hne
    rw [hw]
    refine (List.mem_erase_of_ne ?_).mpr hwx
    rintro rfl
    exact hne rfl

/-- One section of a call keeps the invariant, what it knows itself, what the
others know, and every manifest with its data. -/
structure Keeps (cfg : Config) (sha256 : Bytes → Digest) (t : ThreadId) (x y : Shared) (k : Pc) :
    Prop where
  inv : Inv cfg sha256 y
  own : Local cfg sha256 t y k
  leaves : Leaves t x y
  kept : Kept x y

section

variable (h : Inv cfg sha256 x)

include h

theorem keeps_call {now : Time} {k : Pc} (hok : Alone cfg sha256 x .idle (.call c now))
    (ha : advance cfg sha256 t (.call c now) x .idle = some (y, k)) :
    Keeps cfg sha256 t x y k := by
  obtain ⟨hsame, hrest⟩ := hok
  have hgive := h.give hsame
  cases c with
  | registerDataset name content fmt metadata =>
    cases ha
    exact {
      inv := hgive
      own := List.mem_cons_self
      leaves := ⟨fun _ hc => List.mem_cons_of_mem _ hc, fun _ _ hb => hb, fun _ hw _ => hw⟩
      kept := .of_manifest_eq rfl rfl }
  | writeResult jobName batch extra =>
    obtain ⟨hfree, hnone⟩ := hrest
    cases ha
    exact {
      inv := hgive.startWriting hfree hnone
      own := ⟨List.mem_cons_self, List.mem_cons_self, Call.manifest_sha256 .., Call.manifest_version ..⟩
      leaves := ⟨fun _ hc => List.mem_cons_of_mem _ hc, fun _ _ hb => hb,
        fun _ hw _ => List.mem_cons_of_mem _ hw⟩
      kept := .of_manifest_eq rfl rfl }

theorem keeps_check {now : Time} {k : Pc} (hc : c ∈ x.given)
    (hok : Alone cfg sha256 x (.checking c) (.respond now))
    (ha : advance cfg sha256 t (.respond now) x (.checking c) = some (y, k)) :
    Keeps cfg sha256 t x y k := by
  unfold advance at ha
  dsimp only at ha
  split at ha
  · rename_i m hm
    cases ha
    obtain ⟨hdata, hversion⟩ := h.found hc hm
    exact {
      inv := h.answer hdata hversion
      own := trivial
      leaves := ⟨fun _ h => h, fun _ _ h => h, fun _ h _ => h⟩
      kept := .of_manifest_eq rfl rfl }
  · rename_i hnone
    cases ha
    exact {
      inv := h.startWriting (hok hnone) hnone
      own := ⟨hc, List.mem_cons_self, Call.manifest_sha256 .., Call.manifest_version ..⟩
      leaves := ⟨fun _ h => h, fun _ _ h => h, fun _ h _ => List.mem_cons_of_mem _ h⟩
      kept := .of_manifest_eq rfl rfl }

theorem kept_putData (hc : c ∈ x.given) (hy : y.manifest = x.manifest)
    (hd : y.data = Function.update x.data (c.key cfg sha256) (some c.content)) : Kept x y := by
  intro k m hm
  obtain ⟨d, _, _, hdata, _⟩ := h.stored k m hm
  rw [hy, hd, h.update_data_eq hc hdata, hdata]
  exact ⟨hm, rfl⟩

theorem kept_putManifest (hw : (t, c.key cfg sha256) ∈ x.writing)
    (hy : y.manifest = Function.update x.manifest (c.key cfg sha256) (some m))
    (hd : y.data = x.data) : Kept x y := by
  intro k m' hm
  have hne : k ≠ c.key cfg sha256 := by
    rintro rfl
    rw [h.unwritten _ hw] at hm
    cases hm
  rw [hy, hd, Function.update_of_ne hne]
  exact ⟨hm, rfl⟩

theorem keeps_fail {k : Key} : Keeps cfg sha256 t x
    { x with writing := x.writing.erase (t, k) } .idle where
  inv := h.stopWriting (t, k)
  own := trivial
  leaves := .of_stopWriting rfl (fun _ _ hb => hb) rfl
  kept := .of_manifest_eq rfl rfl

theorem keeps_section {k k' : Pc} {choice : Choice} (hl : Local cfg sha256 t x k)
    (hok : Alone cfg sha256 x k choice)
    (ha : advance cfg sha256 t choice x k = some (y, k')) : Keeps cfg sha256 t x y k' := by
  cases k with
  | idle =>
    cases choice with
    | call c now => exact keeps_call h hok ha
    | _ => cases ha
  | checking c =>
    cases choice with
    | respond now => exact keeps_check h hl hok ha
    | fail =>
      cases ha
      exact ⟨h, trivial, .refl, .of_manifest_eq rfl rfl⟩
    | _ => cases ha
  | puttingData c m =>
    have hl : Underway cfg sha256 t x c m := hl
    cases choice with
    | respond now =>
      cases ha
      exact {
        inv := h.putData hl.given
        own := ⟨⟨hl.given, hl.writing, hl.digest, hl.version⟩, Function.update_self ..⟩
        leaves := ⟨fun _ h => h, fun _ _ hb => h.update_data_eq hl.given hb, fun _ h _ => h⟩
        kept := kept_putData h hl.given rfl rfl }
    | failAfter =>
      cases ha
      exact {
        inv := (h.putData hl.given).stopWriting _
        own := trivial
        leaves := .of_stopWriting rfl (fun _ _ hb => h.update_data_eq hl.given hb) rfl
        kept := kept_putData h hl.given rfl rfl }
    | fail =>
      cases ha
      exact keeps_fail h
    | call c now => cases ha
  | puttingManifest c m =>
    obtain ⟨hl, hdata⟩ := hl
    have hput := h.putManifest hl hdata
    cases choice with
    | respond now =>
      cases ha
      exact {
        inv := hput.answer hdata hl.version
        own := trivial
        leaves := .of_stopWriting rfl (fun _ _ hb => hb) rfl
        kept := kept_putManifest h hl.writing rfl rfl }
    | failAfter =>
      cases ha
      exact {
        inv := hput
        own := trivial
        leaves := .of_stopWriting rfl (fun _ _ hb => hb) rfl
        kept := kept_putManifest h hl.writing rfl rfl }
    | fail =>
      cases ha
      exact keeps_fail h
    | call c now => cases ha

end

/-! ## Runs -/

open Interleaving (Holds)

theorem holds_init : Holds (Inv cfg sha256) (Local cfg sha256) Sys.init where
  global := {
    same := fun _ hc => absurd hc List.not_mem_nil
    written := fun _ _ hb => by cases hb
    stored := fun _ _ hm => by cases hm
    alone := List.nodup_nil
    unwritten := fun _ hw => absurd hw List.not_mem_nil
    answered := fun _ hr => absurd hr List.not_mem_nil }
  thread := fun _ => trivial

/-- One step of the system. -/
theorem step_keeps {s s' : Sys} {a : Act} (h : Holds (Inv cfg sha256) (Local cfg sha256) s)
    (hok : StepAlone cfg sha256 s a) (hn : next cfg sha256 s a = some s') :
    Holds (Inv cfg sha256) (Local cfg sha256) s' ∧ Kept s.shared s'.shared := by
  obtain ⟨t, choice⟩ := a
  constructor
  · refine h.next hn (fun y k ha => ?_) (fun y k ha u hu hl => ?_)
    · have hkeeps := keeps_section h.global (h.thread t) hok ha
      exact ⟨hkeeps.inv, hkeeps.own⟩
    · exact hl.leaves (keeps_section h.global (h.thread t) hok ha).leaves hu
  · exact (keeps_section h.global (h.thread t) hok (Interleaving.of_next hn).1).kept

theorem reachable_keeps {s s' : Sys} (h : Holds (Inv cfg sha256) (Local cfg sha256) s)
    (hr : Runs.Reachable (next cfg sha256) (StepAlone cfg sha256) s s') :
    Holds (Inv cfg sha256) (Local cfg sha256) s' ∧ Kept s.shared s'.shared := by
  induction hr with
  | init => exact ⟨h, .of_manifest_eq rfl rfl⟩
  | step a _ hok hn ih =>
    obtain ⟨hholds, hkept⟩ := ih
    obtain ⟨hholds', hkept'⟩ := step_keeps hholds hok hn
    exact ⟨hholds', hkept.trans hkept'⟩

/-- What content addressing promises of the runs of a kind. -/
def ContentAddressed (cfg : Config) (sha256 : Bytes → Digest) (ok : Sys → Act → Prop) : Prop :=
  ∀ s, Runs.Reachable (next cfg sha256) ok Sys.init s →
    Addressed cfg sha256 s.shared ∧
      ∀ s', Runs.Reachable (next cfg sha256) ok s s' → Kept s.shared s'.shared

/-- Content addressing is sound in the runs in which no two calls bring one key
different contents, and each call begins to write alone, to a key without a
manifest. -/
theorem contentAddressed (cfg : Config) (sha256 : Bytes → Digest) :
    ContentAddressed cfg sha256 (StepAlone cfg sha256) := by
  intro s hs
  have hholds := (reachable_keeps holds_init hs).1
  exact ⟨hholds.global.addressed, fun s' hs' => (reachable_keeps hholds hs').2⟩

example :
    (Runs.run (next ⟨"datasets", "results"⟩ fun _ => "0123456789abcdef".toList)
        (StepAlone ⟨"datasets", "results"⟩ fun _ => "0123456789abcdef".toList) Sys.init
        [(0, .call (.registerDataset "iris".toList [1, 2] none []) 10), (0, .respond 11),
          (1, .call (.registerDataset "iris".toList [1, 2] none []) 12), (0, .respond 12),
          (0, .respond 13), (1, .respond 14)]).map
      (fun s => s.shared.returned.map Returned.version) =
        some ["0123456789ab".toList, "0123456789ab".toList] := by
  decide +kernel

/-! ## Identical results, twice -/

def line : List Char := "\x7b\"index\": 0, \"input\": \x7b\"x\": 1\x7d, \"ok\": true, \"output\": 2\x7d".toList

def batch : Batch := ⟨[line], 1, 1, 0⟩

/-- The sha256 of the one batch, and no other text has the same. -/
def digestOf (b : Bytes) : Digest :=
  if b = batch.data then
    "771ae2023b532c0a7a6bdd56d3e5fad56bb9b1d5b832b2460b453dd24b75c6f1".toList
  else 'x' :: b.map fun byte => Char.ofNat byte.toNat

theorem digestOf_injective : Function.Injective digestOf := by
  have hbyte : Function.Injective fun byte : UInt8 => Char.ofNat byte.toNat := by
    intro a b hab
    have hval (x : UInt8) : (Char.ofNat x.toNat).toNat = x.toNat := by
      have hx := x.toNat_lt
      rw [Char.toNat_ofNat, if_pos]
      left
      omega
    have hnat := congrArg Char.toNat hab
    dsimp only at hnat
    rw [hval, hval] at hnat
    exact UInt8.toNat_inj.mp hnat
  have hhead (b : Bytes) :
      "771ae2023b532c0a7a6bdd56d3e5fad56bb9b1d5b832b2460b453dd24b75c6f1".toList ≠
        'x' :: b.map fun byte => Char.ofNat byte.toNat := by
    intro heq
    have hfirst := congrArg List.head? heq
    rw [List.head?_cons] at hfirst
    revert hfirst
    decide +kernel
  intro a b hab
  unfold digestOf at hab
  split_ifs at hab with ha hb hb
  · rw [ha, hb]
  · exact absurd hab (hhead b)
  · exact absurd hab.symm (hhead a)
  · exact hbyte.list_map (List.cons_inj_right 'x' |>.mp hab)

def writeTwice : List Act :=
  let write := fun v => scoreDataset "iris".toList "0123456789ab".toList "llm" (some v) batch 1
  [(0, .call (write "1") 10), (0, .respond 10), (0, .respond 10),
    (0, .call (write "2") 20), (0, .respond 20)]

/-- A second write of the same results replaces the manifest of the first. -/
theorem manifest_replaced :
    ¬ ∀ (cfg : Config) (sha256 : Bytes → Digest), Function.Injective sha256 →
      ContentAddressed cfg sha256 Runs.anyStep := by
  intro h
  let cfg : Config := ⟨"datasets", "results"⟩
  let k : Key := ⟨"results", "batch/iris_0123456789ab/771ae2023b53".toList⟩
  have hrun : ((Runs.run (next cfg digestOf) Runs.anyStep Sys.init writeTwice).bind fun s =>
      (next cfg digestOf s (0, .respond 20)).map fun s' =>
        (s.shared.manifest k).isSome &&
          decide (s'.shared.manifest k ≠ s.shared.manifest k)) = some true := by
    decide +kernel
  obtain ⟨s, s', hs, hn, hp⟩ := Runs.exists_step hrun
  obtain ⟨hsome, hne⟩ := Bool.and_eq_true_iff.mp hp
  obtain ⟨m, hm⟩ := Option.isSome_iff_exists.mp hsome
  have hkept := (h cfg digestOf digestOf_injective s hs).2 s' (.step _ .init trivial hn)
  have heq := (hkept k m hm).1.trans hm.symm
  exact (of_decide_eq_true hne) heq

end MlopsLite.Gateway.Datasets
