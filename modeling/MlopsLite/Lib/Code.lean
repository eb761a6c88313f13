import MlopsLite.Lib.Interleaving

/-!
# Code — programs as trees of atomic calls

A program returns, raises, or makes an atomic call on the shared state and
goes on by the reply. Programs of several threads run interleaved; a thread
of an earlier epoch (a process that crashed) does nothing more.

`Meets` is the proof obligation of one program: each of its calls keeps the
invariant and moves the state within what the thread guarantees, while the
other threads move it within what the thread relies on. `sound` is the rule
for the whole machine.
-/

/-- A program over the calls `ω`, each with its own type of reply. -/
inductive Code (ω : Type) (ρ : ω → Type) (ε α : Type) : Type
  | ret (a : α)
  | raise (e : ε)
  | call (o : ω) (k : ρ o → Code ω ρ ε α)

namespace Code

variable {ω : Type} {ρ : ω → Type} {ε α β : Type}

protected def bind : Code ω ρ ε α → (α → Code ω ρ ε β) → Code ω ρ ε β
  | .ret a, f => f a
  | .raise e, _ => .raise e
  | .call o k, f => .call o fun r => (k r).bind f

instance : Monad (Code ω ρ ε) where
  pure := .ret
  bind := Code.bind

/-- One call. -/
def op (o : ω) : Code ω ρ ε (ρ o) := .call o .ret

/-- `try`: what the program returned or raised. -/
def result : Code ω ρ ε α → Code ω ρ ε (Except ε α)
  | .ret a => .ret (.ok a)
  | .raise e => .ret (.error e)
  | .call o k => .call o fun r => (k r).result

@[simp] theorem pure_eq (a : α) : (pure a : Code ω ρ ε α) = .ret a := rfl

@[simp] theorem bind_ret (a : α) (f : α → Code ω ρ ε β) : Code.ret a >>= f = f a := rfl

@[simp] theorem bind_raise (e : ε) (f : α → Code ω ρ ε β) : Code.raise e >>= f = .raise e := rfl

@[simp] theorem bind_call (o : ω) (k : ρ o → Code ω ρ ε α) (f : α → Code ω ρ ε β) :
    Code.call o k >>= f = .call o fun r => k r >>= f := rfl

/-! ## What a program calls -/

/-- Every call that a program can come to. -/
def Calls (P : ω → Prop) : Code ω ρ ε α → Prop
  | .ret _ | .raise _ => True
  | .call o k => P o ∧ ∀ r, (k r).Calls P

variable {P : ω → Prop} {t : Code ω ρ ε α} {f : α → Code ω ρ ε β}

theorem calls_bind (ht : t.Calls P) (hf : ∀ a, (f a).Calls P) : (t >>= f).Calls P := by
  induction t with
  | ret a => exact hf a
  | raise e => trivial
  | call o k ih => exact ⟨ht.1, fun r => ih r (ht.2 r)⟩

theorem calls_result (ht : t.Calls P) : t.result.Calls P := by
  induction t with
  | ret a => trivial
  | raise e => trivial
  | call o k ih => exact ⟨ht.1, fun r => ih r (ht.2 r)⟩

theorem calls_op {o : ω} (h : P o) : (op o : Code ω ρ ε (ρ o)).Calls P := ⟨h, fun _ => trivial⟩

theorem Calls.mono {Q : ω → Prop} (ht : t.Calls P) (h : ∀ o, P o → Q o) : t.Calls Q := by
  induction t with
  | ret a => trivial
  | raise e => trivial
  | call o k ih => exact ⟨h o ht.1, fun r => ih r (ht.2 r)⟩

/-! ## Obligations -/

/-- How the calls act, and what a thread may assume and must keep. -/
structure Spec (σ χ ω : Type) (ρ : ω → Type) where
  exec : χ → σ → (o : ω) → Option (σ × ρ o)
  inv : σ → Prop
  cond : χ → σ → ω → Prop
  rely : σ → σ → Prop
  guar : σ → σ → Prop

variable {σ χ : Type}

/-- From `x` the program keeps to the specification, and what it returns or
raises is as stated. -/
def Meets (S : Spec σ χ ω ρ) (post : α → σ → Prop) (raises : ε → σ → Prop) :
    Code ω ρ ε α → σ → Prop
  | .ret a, x => post a x
  | .raise e, x => raises e x
  | .call o k, x => ∀ c x' r, S.inv x → S.cond c x o → S.exec c x o = some (x', r) →
      S.inv x' ∧ S.guar x x' ∧ ∀ y, S.inv y → S.rely x' y → (k r).Meets S post raises y

section Rules

variable {S : Spec σ χ ω ρ} {post post' : α → σ → Prop} {raises raises' : ε → σ → Prop} {x : σ}

/-- A call: what it does, and what is so when the reply is looked at. -/
theorem meets_op {o : ω} {post : ρ o → σ → Prop}
    (h : ∀ c x' r, S.inv x → S.cond c x o → S.exec c x o = some (x', r) →
      S.inv x' ∧ S.guar x x' ∧ ∀ y, S.inv y → S.rely x' y → post r y) :
    (op o : Code ω ρ ε (ρ o)).Meets S post raises x := h

theorem meets_bind {post : β → σ → Prop}
    (h : t.Meets S (fun a y => (f a).Meets S post raises y) raises x) :
    (t >>= f).Meets S post raises x := by
  induction t generalizing x with
  | ret a => exact h
  | raise e => exact h
  | call o k ih =>
    intro c x' r hinv hc he
    obtain ⟨hinv', hguar, hk⟩ := h c x' r hinv hc he
    exact ⟨hinv', hguar, fun y hy hr => ih r (hk y hy hr)⟩

theorem meets_result {post : Except ε α → σ → Prop}
    (h : t.Meets S (fun a => post (.ok a)) (fun e => post (.error e)) x) :
    t.result.Meets S post raises x := by
  induction t generalizing x with
  | ret a => exact h
  | raise e => exact h
  | call o k ih =>
    intro c x' r hinv hc he
    obtain ⟨hinv', hguar, hk⟩ := h c x' r hinv hc he
    exact ⟨hinv', hguar, fun y hy hr => ih r (hk y hy hr)⟩

theorem Meets.mono (h : t.Meets S post raises x) (hpost : ∀ a y, post a y → post' a y)
    (hraises : ∀ e y, raises e y → raises' e y) : t.Meets S post' raises' x := by
  induction t generalizing x with
  | ret a => exact hpost a x h
  | raise e => exact hraises e x h
  | call o k ih =>
    intro c x' r hinv hc he
    obtain ⟨hinv', hguar, hk⟩ := h c x' r hinv hc he
    exact ⟨hinv', hguar, fun y hy hr => ih r (hk y hy hr)⟩

/-- A program whose calls all keep an assertion that the others keep too. -/
theorem meets_of_calls {J : σ → Prop} (ht : t.Calls P)
    (hcall : ∀ c x o x' r, P o → J x → S.inv x → S.cond c x o → S.exec c x o = some (x', r) →
      S.inv x' ∧ S.guar x x' ∧ J x')
    (hstable : ∀ x y, J x → S.rely x y → J y) (hx : J x) :
    t.Meets S (fun _ => J) (fun _ => J) x := by
  induction t generalizing x with
  | ret a => exact hx
  | raise e => exact hx
  | call o k ih =>
    intro c x' r hinv hc he
    obtain ⟨hinv', hguar, hJ⟩ := hcall c x o x' r ht.1 hx hinv hc he
    exact ⟨hinv', hguar, fun y _ hr => ih r (ht.2 r) (hstable x' y hJ hr)⟩

/-- Wherever it starts with `J`, the program keeps to the specification and
ends with `J`. -/
def Keeps (S : Spec σ χ ω ρ) (J : σ → Prop) (t : Code ω ρ ε α) : Prop :=
  ∀ x, J x → t.Meets S (fun _ => J) (fun _ => J) x

variable {J : σ → Prop}

theorem keeps_ret (a : α) : (Code.ret a : Code ω ρ ε α).Keeps S J := fun _ hJ => hJ

theorem keeps_raise (e : ε) : (Code.raise e : Code ω ρ ε α).Keeps S J := fun _ hJ => hJ

theorem keeps_bind (ht : t.Keeps S J) (hf : ∀ a, (f a).Keeps S J) : (t >>= f).Keeps S J :=
  fun x hJ => meets_bind ((ht x hJ).mono (fun a y hy => hf a y hy) fun _ _ h => h)

theorem keeps_result (ht : t.Keeps S J) : t.result.Keeps S J := fun x hJ => meets_result (ht x hJ)

/-- A program whose calls all keep to it. -/
theorem keeps_of_calls (ht : t.Calls P)
    (hcall : ∀ c x o x' r, P o → J x → S.inv x → S.cond c x o → S.exec c x o = some (x', r) →
      S.inv x' ∧ S.guar x x' ∧ J x')
    (hstable : ∀ x y, J x → S.rely x y → J y) : t.Keeps S J := fun _ hJ =>
  meets_of_calls ht hcall hstable hJ

end Rules

/-! ## The machine -/

/-- Threads that run programs: `spawn` is the program a thread may start,
`env` a step that is no program's, `finish` what the end of a program leaves. -/
structure Machine (ι σ χ ω : Type) (ρ : ω → Type) (ε α : Type) where
  exec : χ → σ → (o : ω) → Option (σ × ρ o)
  spawn : ι → χ → σ → Option (Code ω ρ ε α)
  env : ι → χ → σ → Option σ
  finish : ι → σ → Except ε α → σ
  epoch : σ → ℕ

variable {ι : Type}

/-- A thread is idle, or runs a program it started in an epoch. -/
abbrev Pc (ω : Type) (ρ : ω → Type) (ε α : Type) := Option (ℕ × Code ω ρ ε α)

namespace Machine

variable (M : Machine ι σ χ ω ρ ε α)

def advance : Interleaving.Program ι σ (Pc ω ρ ε α) χ := fun t c x k =>
  match k with
  | none =>
      match M.spawn t c x with
      | some code => some (x, some (M.epoch x, code))
      | none => (M.env t c x).map fun x' => (x', none)
  | some (e, code) =>
      if e ≠ M.epoch x then some (x, none)
      else
        match code with
        | .ret a => some (M.finish t x (.ok a), none)
        | .raise err => some (M.finish t x (.error err), none)
        | .call o k => (M.exec c x o).map fun r => (r.1, some (e, k r.2))

abbrev next [DecidableEq ι] := Interleaving.next M.advance

/-- What a step does to the shared state: a program starts or is dropped,
ends, makes its call, or it is the environment's. -/
theorem cases_of_next [DecidableEq ι] {M : Machine ι σ χ ω ρ ε α}
    {s s' : Interleaving.State ι σ (Pc ω ρ ε α)} {a : ι × χ} (hn : M.next s a = some s') :
    s'.shared = s.shared ∨ M.env a.1 a.2 s.shared = some s'.shared ∨
      (∃ r, s'.shared = M.finish a.1 s.shared r) ∨
      ∃ e o k r, s.pc a.1 = some (e, .call o k) ∧ e = M.epoch s.shared ∧
        M.exec a.2 s.shared o = some (s'.shared, r) ∧ s'.pc a.1 = some (e, k r) := by
  obtain ⟨t, c⟩ := a
  have ha := (Interleaving.of_next hn).1
  show _ ∨ M.env t c s.shared = _ ∨ (∃ r, _ = M.finish t s.shared r) ∨
    ∃ e o k r, s.pc t = some (e, .call o k) ∧ _ ∧ M.exec c s.shared o = _ ∧ s'.pc t = _
  generalize s.pc t = running at ha
  cases running with
  | none =>
    simp only [advance] at ha
    split at ha
    · exact .inl (Prod.mk.inj (Option.some.inj ha)).1.symm
    · obtain ⟨x', henv, heq⟩ := Option.map_eq_some_iff.mp ha
      exact .inr (.inl ((Prod.mk.inj heq).1 ▸ henv))
  | some running =>
    obtain ⟨e, code⟩ := running
    simp only [advance] at ha
    split at ha
    · exact .inl (Prod.mk.inj (Option.some.inj ha)).1.symm
    · rename_i hepoch
      cases code with
      | ret a => exact .inr (.inr (.inl ⟨_, (Prod.mk.inj (Option.some.inj ha)).1.symm⟩))
      | raise err => exact .inr (.inr (.inl ⟨_, (Prod.mk.inj (Option.some.inj ha)).1.symm⟩))
      | call o k =>
        obtain ⟨⟨x', r⟩, hexec, heq⟩ := Option.map_eq_some_iff.mp ha
        obtain ⟨rfl, hpc⟩ := Prod.mk.inj heq
        exact .inr (.inr (.inr ⟨e, o, k, r, rfl, not_not.mp hepoch, hexec, hpc.symm⟩))

end Machine

/-- The call a thread is about to make. -/
def Pc.call? (epoch : ℕ) : Pc ω ρ ε α → Option ω
  | some (e, .call o _) => if e = epoch then some o else none
  | _ => none

/-- What a machine's proof gives: the parts of `sound`. `rest` holds for a
thread that runs nothing. -/
structure Sound (M : Machine ι σ χ ω ρ ε α) (inv : σ → Prop) (cond : ι → χ → σ → ω → Prop)
    (okEnv : ι → χ → σ → Prop) (rely guar : ι → σ → σ → Prop) (rest : ι → σ → Prop) : Prop where
  refl : ∀ t x, rely t x x
  trans : ∀ t x y z, rely t x y → rely t y z → rely t x z
  /-- No call begins an epoch. -/
  epoch : ∀ t x y, rely t x y → M.epoch y = M.epoch x
  epoch_guar : ∀ t x y, guar t x y → M.epoch y = M.epoch x
  others : ∀ t u x y, t ≠ u → guar t x y → rely u x y
  stable : ∀ t x y, rest t x → rely t x y → rest t y
  spawn : ∀ t c x code, M.spawn t c x = some code → ∀ y, inv y → rest t y →
    code.Meets ⟨M.exec, inv, cond t, rely t, guar t⟩ (fun _ => rest t) (fun _ => rest t) y
  env : ∀ t c x x', inv x → okEnv t c x → M.env t c x = some x' →
    inv x' ∧ ((∀ u, rely u x x') ∨ M.epoch x < M.epoch x' ∧ ∀ u, rest u x')
  finish : ∀ t x r, inv x → rest t x → inv (M.finish t x r) ∧ rest t (M.finish t x r) ∧
    ∀ u, u ≠ t → rely u x (M.finish t x r)

/-- The parts of the rule where what a program ends with is told: `ends` holds of what a thread's
program has returned or raised. -/
structure SoundTo (M : Machine ι σ χ ω ρ ε α) (inv : σ → Prop) (cond : ι → χ → σ → ω → Prop)
    (okEnv : ι → χ → σ → Prop) (rely guar : ι → σ → σ → Prop) (rest : ι → σ → Prop)
    (ends : ι → Except ε α → σ → Prop) : Prop where
  refl : ∀ t x, rely t x x
  trans : ∀ t x y z, rely t x y → rely t y z → rely t x z
  epoch : ∀ t x y, rely t x y → M.epoch y = M.epoch x
  epoch_guar : ∀ t x y, guar t x y → M.epoch y = M.epoch x
  others : ∀ t u x y, t ≠ u → guar t x y → rely u x y
  stable : ∀ t x y, rest t x → rely t x y → rest t y
  spawn : ∀ t c x code, M.spawn t c x = some code → ∀ y, inv y → rest t y →
    code.Meets ⟨M.exec, inv, cond t, rely t, guar t⟩ (fun a => ends t (.ok a))
      (fun e => ends t (.error e)) y
  env : ∀ t c x x', inv x → okEnv t c x → M.env t c x = some x' →
    inv x' ∧ ((∀ u, rely u x x') ∨ M.epoch x < M.epoch x' ∧ ∀ u, rest u x')
  finish : ∀ t x r, inv x → ends t r x → inv (M.finish t x r) ∧ rest t (M.finish t x r) ∧
    ∀ u, u ≠ t → rely u x (M.finish t x r)

theorem Sound.to {M : Machine ι σ χ ω ρ ε α} {inv : σ → Prop} {cond : ι → χ → σ → ω → Prop}
    {okEnv : ι → χ → σ → Prop} {rely guar : ι → σ → σ → Prop} {rest : ι → σ → Prop}
    (h : Sound M inv cond okEnv rely guar rest) :
    SoundTo M inv cond okEnv rely guar rest fun t _ => rest t :=
  ⟨h.refl, h.trans, h.epoch, h.epoch_guar, h.others, h.stable, h.spawn, h.env, h.finish⟩

/-- The side condition on a step: of a call, or of the environment. -/
def OkStep (M : Machine ι σ χ ω ρ ε α) (cond : ι → χ → σ → ω → Prop) (okEnv : ι → χ → σ → Prop)
    (s : Interleaving.State ι σ (Pc ω ρ ε α)) (a : ι × χ) : Prop :=
  match s.pc a.1 with
  | none => okEnv a.1 a.2 s.shared
  | some (e, .call o _) => e = M.epoch s.shared → cond a.1 a.2 s.shared o
  | _ => True

/-- What the call that a thread is about to make must meet is all that is asked of its step. -/
theorem okStep_of_call {M : Machine ι σ χ ω ρ ε α} {cond : ι → χ → σ → ω → Prop}
    {okEnv : ι → χ → σ → Prop} {s : Interleaving.State ι σ (Pc ω ρ ε α)} {a : ι × χ}
    (henv : s.pc a.1 = none → okEnv a.1 a.2 s.shared)
    (hcall : ∀ o, (s.pc a.1).call? (M.epoch s.shared) = some o → cond a.1 a.2 s.shared o) :
    OkStep M cond okEnv s a := by
  unfold OkStep
  split
  · rename_i hpc
    exact henv hpc
  · rename_i e o k hpc
    intro he
    refine hcall o ?_
    rw [hpc]
    simp [Pc.call?, he]
  · trivial

/-- A thread at rest, or a program in progress: of an earlier epoch, or it
meets its obligations wherever the others may take it. -/
def Running (M : Machine ι σ χ ω ρ ε α) (inv : σ → Prop) (cond : ι → χ → σ → ω → Prop)
    (rely guar : ι → σ → σ → Prop) (rest : ι → σ → Prop) (t : ι) (x : σ) : Pc ω ρ ε α → Prop
  | none => rest t x
  | some (e, code) =>
      (e < M.epoch x ∧ rest t x) ∨
      (e = M.epoch x ∧ ∀ y, inv y → rely t x y →
        code.Meets ⟨M.exec, inv, cond t, rely t, guar t⟩ (fun _ => rest t) (fun _ => rest t) y)

/-- The same, where what a program ends with is told. -/
def RunningTo (M : Machine ι σ χ ω ρ ε α) (inv : σ → Prop) (cond : ι → χ → σ → ω → Prop)
    (rely guar : ι → σ → σ → Prop) (rest : ι → σ → Prop) (ends : ι → Except ε α → σ → Prop)
    (t : ι) (x : σ) : Pc ω ρ ε α → Prop
  | none => rest t x
  | some (e, code) =>
      (e < M.epoch x ∧ rest t x) ∨
      (e = M.epoch x ∧ ∀ y, inv y → rely t x y →
        code.Meets ⟨M.exec, inv, cond t, rely t, guar t⟩ (fun a => ends t (.ok a))
          (fun e => ends t (.error e)) y)

theorem running_iff {M : Machine ι σ χ ω ρ ε α} {inv : σ → Prop} {cond : ι → χ → σ → ω → Prop}
    {rely guar : ι → σ → σ → Prop} {rest : ι → σ → Prop} {t : ι} {x : σ} {k : Pc ω ρ ε α} :
    Running M inv cond rely guar rest t x k ↔
      RunningTo M inv cond rely guar rest (fun t _ => rest t) t x k := by
  cases k <;> exact Iff.rfl

section Soundness

variable {M : Machine ι σ χ ω ρ ε α} {inv : σ → Prop}
  {cond : ι → χ → σ → ω → Prop} {okEnv : ι → χ → σ → Prop} {rely guar : ι → σ → σ → Prop}
  {rest : ι → σ → Prop} {ends : ι → Except ε α → σ → Prop}

/-- The others leave a thread's assertion as it is. -/
theorem RunningTo.others (h : SoundTo M inv cond okEnv rely guar rest ends) {t : ι} {x y : σ}
    {k : Pc ω ρ ε α} (hk : RunningTo M inv cond rely guar rest ends t x k)
    (hxy : rely t x y ∨ M.epoch x < M.epoch y ∧ rest t y) :
    RunningTo M inv cond rely guar rest ends t y k := by
  cases k with
  | none =>
    rcases hxy with hrely | ⟨-, hrest⟩
    · exact h.stable t x y hk hrely
    · exact hrest
  | some running =>
    obtain ⟨e, code⟩ := running
    rcases hxy with hrely | ⟨hlt, hrest⟩
    · have hepoch := h.epoch t x y hrely
      rcases hk with ⟨he, hrest⟩ | ⟨he, hmeets⟩
      · exact .inl ⟨hepoch ▸ he, h.stable t x y hrest hrely⟩
      · exact .inr ⟨he.trans hepoch.symm, fun z hz hyz =>
          hmeets z hz (h.trans t x y z hrely hyz)⟩
    · refine .inl ⟨?_, hrest⟩
      rcases hk with ⟨he, -⟩ | ⟨he, -⟩
      · exact he.trans hlt
      · exact he ▸ hlt

variable [DecidableEq ι]

theorem SoundTo.holds (h : SoundTo M inv cond okEnv rely guar rest ends) {x₀ : σ} (h0 : inv x₀)
    (hrest : ∀ t, rest t x₀) {s : Interleaving.State ι σ (Pc ω ρ ε α)}
    (hr : Runs.Reachable M.next (OkStep M cond okEnv) ⟨x₀, fun _ => none⟩ s) :
    Interleaving.Holds inv (RunningTo M inv cond rely guar rest ends) s := by
  refine Interleaving.threadwise (R := fun t x y => ∀ u, u ≠ t →
    rely u x y ∨ M.epoch x < M.epoch y ∧ rest u y) ⟨h0, hrest⟩ ?_ ?_ hr
  · intro s t c x k _ hs hok ha
    have hthread := hs.thread t
    generalize hpc : s.pc t = k₀ at ha hthread
    unfold OkStep at hok
    simp only [hpc] at hok
    cases k₀ with
    | none =>
      simp only [Machine.advance] at ha
      split at ha
      · rename_i code hspawn
        obtain ⟨rfl, rfl⟩ := Prod.mk.inj (Option.some.inj ha)
        refine ⟨hs.global, ?_, fun u _ => .inl (h.refl u _)⟩
        refine .inr ⟨rfl, fun y hy hrely => ?_⟩
        exact h.spawn t c _ _ hspawn y hy (h.stable t _ y hthread hrely)
      · obtain ⟨x', henv, heq⟩ := Option.map_eq_some_iff.mp ha
        obtain ⟨rfl, rfl⟩ := Prod.mk.inj heq
        obtain ⟨hinv, hothers⟩ := h.env t c s.shared x' hs.global hok henv
        rcases hothers with hrely | ⟨hlt, hrest⟩
        · exact ⟨hinv, h.stable t _ _ hthread (hrely t), fun u _ => .inl (hrely u)⟩
        · exact ⟨hinv, hrest t, fun u _ => .inr ⟨hlt, hrest u⟩⟩
    | some running =>
      obtain ⟨e, code⟩ := running
      simp only [Machine.advance] at ha
      split at ha
      · -- a program of an earlier epoch is dropped
        rename_i hne
        obtain ⟨rfl, rfl⟩ := Prod.mk.inj (Option.some.inj ha)
        rcases hthread with ⟨-, hrest⟩ | ⟨he, -⟩
        · exact ⟨hs.global, hrest, fun u _ => .inl (h.refl u _)⟩
        · exact absurd he hne
      · rename_i hepoch
        have hepoch : e = M.epoch s.shared := not_not.mp hepoch
        rcases hthread with ⟨hlt, -⟩ | ⟨-, hmeets⟩
        · exact absurd hepoch hlt.ne
        have hmeets := hmeets s.shared hs.global (h.refl t _)
        cases code with
        | ret a =>
          obtain ⟨rfl, rfl⟩ := Prod.mk.inj (Option.some.inj ha)
          obtain ⟨hinv, hrest, hothers⟩ := h.finish t s.shared (.ok a) hs.global hmeets
          exact ⟨hinv, hrest, fun u hu => .inl (hothers u hu)⟩
        | raise err =>
          obtain ⟨rfl, rfl⟩ := Prod.mk.inj (Option.some.inj ha)
          obtain ⟨hinv, hrest, hothers⟩ := h.finish t s.shared (.error err) hs.global hmeets
          exact ⟨hinv, hrest, fun u hu => .inl (hothers u hu)⟩
        | call o k' =>
          obtain ⟨⟨x', r⟩, hexec, heq⟩ := Option.map_eq_some_iff.mp ha
          obtain ⟨rfl, rfl⟩ := Prod.mk.inj heq
          obtain ⟨hinv, hguar, hk⟩ := hmeets c x' r hs.global (hok hepoch) hexec
          refine ⟨hinv, ?_, fun u hu => .inl (h.others t u _ _ (Ne.symm hu) hguar)⟩
          exact .inr ⟨hepoch.trans (h.epoch_guar t _ _ hguar).symm, hk⟩
  · intro t u x y k hR hu hL
    exact hL.others h (hR u hu)

/-- The same at the step of a call. -/
theorem SoundTo.step (h : SoundTo M inv cond okEnv rely guar rest ends) {x₀ : σ} (h0 : inv x₀)
    (hrest : ∀ t, rest t x₀) {s s' : Interleaving.State ι σ (Pc ω ρ ε α)} {a : ι × χ}
    (hr : Runs.Reachable M.next (OkStep M cond okEnv) ⟨x₀, fun _ => none⟩ s)
    (hok : OkStep M cond okEnv s a) {o : ω} (hpc : (s.pc a.1).call? (M.epoch s.shared) = some o)
    (hn : M.next s a = some s') : guar a.1 s.shared s'.shared := by
  obtain ⟨t, c⟩ := a
  have ha := (Interleaving.of_next hn).1
  have hs := h.holds h0 hrest hr
  change (s.pc t).call? (M.epoch s.shared) = some o at hpc
  have hthread := hs.thread t
  unfold OkStep at hok
  change match s.pc t with
    | none => _
    | some (e, .call o _) => _
    | _ => _ at hok
  generalize s.pc t = k at ha hpc hthread hok
  cases k with
  | none => cases hpc
  | some running =>
    obtain ⟨e, code⟩ := running
    cases code with
    | ret a => cases hpc
    | raise err => cases hpc
    | call o' k =>
      have hepoch : e = M.epoch s.shared := by
        simp only [Pc.call?] at hpc
        by_contra hne
        simp [hne] at hpc
      rcases hthread with ⟨hlt, -⟩ | ⟨-, hmeets⟩
      · exact absurd hepoch hlt.ne
      simp only [Machine.advance, hepoch, ne_eq, not_true_eq_false, if_false] at ha
      obtain ⟨⟨x', r⟩, hexec, heq⟩ := Option.map_eq_some_iff.mp ha
      obtain ⟨hx, -⟩ := Prod.mk.inj heq
      rw [← hx]
      exact (hmeets s.shared hs.global (h.refl t _) c x' r hs.global (hok hepoch) hexec).2.1

theorem Sound.holds (h : Sound M inv cond okEnv rely guar rest) {x₀ : σ} (h0 : inv x₀)
    (hrest : ∀ t, rest t x₀) {s : Interleaving.State ι σ (Pc ω ρ ε α)}
    (hr : Runs.Reachable M.next (OkStep M cond okEnv) ⟨x₀, fun _ => none⟩ s) :
    Interleaving.Holds inv (Running M inv cond rely guar rest) s := by
  obtain ⟨hglobal, hthread⟩ := h.to.holds h0 hrest hr
  exact ⟨hglobal, fun t => running_iff.mpr (hthread t)⟩

theorem Sound.step (h : Sound M inv cond okEnv rely guar rest) {x₀ : σ} (h0 : inv x₀)
    (hrest : ∀ t, rest t x₀) {s s' : Interleaving.State ι σ (Pc ω ρ ε α)} {a : ι × χ}
    (hr : Runs.Reachable M.next (OkStep M cond okEnv) ⟨x₀, fun _ => none⟩ s)
    (hok : OkStep M cond okEnv s a) {o : ω} (hpc : (s.pc a.1).call? (M.epoch s.shared) = some o)
    (hn : M.next s a = some s') : guar a.1 s.shared s'.shared :=
  h.to.step h0 hrest hr hok hpc hn

end Soundness

end Code
