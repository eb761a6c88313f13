import MlopsLite.Lib.Code

/-!
# Code — what a program has called

The executions of a program, each with the log of its calls and their
replies, whatever these are: the other threads may do anything between two
calls. The lemmas read an execution forwards, along the program.
-/

namespace Code

variable {ω : Type} {ρ : ω → Type} {ε α β : Type}

/-- A call and its reply. -/
abbrev Event (ω : Type) (ρ : ω → Type) := (o : ω) × ρ o

/-- The program can end so, after these calls. -/
inductive Ends : Code ω ρ ε α → List (Event ω ρ) → Except ε α → Prop
  | ret (a : α) : Ends (.ret a) [] (.ok a)
  | raise (e : ε) : Ends (.raise e) [] (.error e)
  | call {o : ω} {k : ρ o → Code ω ρ ε α} {r : ρ o} {l : List (Event ω ρ)} {out : Except ε α} :
      Ends (k r) l out → Ends (.call o k) (⟨o, r⟩ :: l) out

variable {t : Code ω ρ ε α} {f : α → Code ω ρ ε β} {l : List (Event ω ρ)}

theorem Ends.of_ret {a : α} {out : Except ε α} (h : (Code.ret a : Code ω ρ ε α).Ends l out) :
    l = [] ∧ out = .ok a := by
  cases h
  exact ⟨rfl, rfl⟩

theorem Ends.of_raise {e : ε} {out : Except ε α} (h : (Code.raise e : Code ω ρ ε α).Ends l out) :
    l = [] ∧ out = .error e := by
  cases h
  exact ⟨rfl, rfl⟩

/-- A call, and what follows. -/
theorem Ends.of_call {o : ω} {k : ρ o → Code ω ρ ε α} {out : Except ε α}
    (h : (Code.call o k).Ends l out) : ∃ r l', l = ⟨o, r⟩ :: l' ∧ (k r).Ends l' out := by
  cases h with
  | call h => exact ⟨_, _, rfl, h⟩

theorem Ends.of_bind {out : Except ε β} (h : (t >>= f).Ends l out) :
    (∃ e, out = .error e ∧ t.Ends l (.error e)) ∨
      ∃ a l₁ l₂, l = l₁ ++ l₂ ∧ t.Ends l₁ (.ok a) ∧ (f a).Ends l₂ out := by
  induction t generalizing l with
  | ret a => exact .inr ⟨a, [], l, rfl, .ret a, h⟩
  | raise e =>
    obtain ⟨rfl, rfl⟩ := h.of_raise
    exact .inl ⟨e, rfl, .raise e⟩
  | call o k ih =>
    obtain ⟨r, l', rfl, hk⟩ := h.of_call
    rcases ih r hk with ⟨e, rfl, he⟩ | ⟨a, l₁, l₂, rfl, ha, hf⟩
    · exact .inl ⟨e, rfl, .call he⟩
    · exact .inr ⟨a, ⟨o, r⟩ :: l₁, l₂, rfl, .call ha, hf⟩

theorem Ends.of_result {out : Except ε (Except ε α)} (h : t.result.Ends l out) :
    ∃ out', out = .ok out' ∧ t.Ends l out' := by
  induction t generalizing l with
  | ret a =>
    obtain ⟨rfl, rfl⟩ := h.of_ret
    exact ⟨.ok a, rfl, .ret a⟩
  | raise e =>
    obtain ⟨rfl, rfl⟩ := h.of_ret
    exact ⟨.error e, rfl, .raise e⟩
  | call o k ih =>
    obtain ⟨r, l', rfl, hk⟩ := h.of_call
    obtain ⟨out', rfl, hout⟩ := ih r hk
    exact ⟨out', rfl, .call hout⟩

/-- A `try`, and what follows. -/
theorem Ends.of_result_bind {f : Except ε α → Code ω ρ ε β} {out : Except ε β}
    (h : (t.result >>= f).Ends l out) :
    ∃ r l₁ l₂, l = l₁ ++ l₂ ∧ t.Ends l₁ r ∧ (f r).Ends l₂ out := by
  rcases h.of_bind with ⟨e, -, he⟩ | ⟨r, l₁, l₂, rfl, hr, hf⟩
  · obtain ⟨r, hr, -⟩ := he.of_result
    cases hr
  · obtain ⟨r', hr', hend⟩ := hr.of_result
    cases hr'
    exact ⟨r, l₁, l₂, rfl, hend, hf⟩

/-! ## Bounds -/

/-- Every call that a program can come to, and all that it can raise. -/
def Within (P : ω → Prop) (Q : ε → Prop) : Code ω ρ ε α → Prop
  | .ret _ => True
  | .raise e => Q e
  | .call o k => P o ∧ ∀ r, (k r).Within P Q

section

variable {P : ω → Prop} {Q : ε → Prop}

theorem within_bind (ht : t.Within P Q) (hf : ∀ a, (f a).Within P Q) : (t >>= f).Within P Q := by
  induction t with
  | ret a => exact hf a
  | raise e => exact ht
  | call o k ih => exact ⟨ht.1, fun r => ih r (ht.2 r)⟩

/-- What a `try` catches is what the program can raise. -/
theorem within_result {f : Except ε α → Code ω ρ ε β} (ht : t.Within P Q)
    (hok : ∀ a, (f (.ok a)).Within P Q) (herror : ∀ e, Q e → (f (.error e)).Within P Q) :
    (t.result >>= f).Within P Q := by
  induction t with
  | ret a => exact hok a
  | raise e => exact herror e ht
  | call o k ih => exact ⟨ht.1, fun r => ih r (ht.2 r)⟩

theorem within_op {o : ω} (h : P o) : (op o : Code ω ρ ε (ρ o)).Within P Q := ⟨h, fun _ => trivial⟩

/-- A program whose calls keep an assertion returns what some execution of it
returns. -/
theorem meets_of_within {σ χ : Type} {S : Spec σ χ ω ρ} {J : σ → Prop} {R : α → Prop} {x : σ}
    (ht : t.Within P Q) (hret : ∀ l a, t.Ends l (.ok a) → R a)
    (hcall : ∀ c x o x' r, P o → J x → S.inv x → S.cond c x o → S.exec c x o = some (x', r) →
      S.inv x' ∧ S.guar x x' ∧ J x')
    (hstable : ∀ x y, J x → S.rely x y → J y) (hx : J x) :
    t.Meets S (fun a y => R a ∧ J y) (fun e y => Q e ∧ J y) x := by
  induction t generalizing x with
  | ret a => exact ⟨hret [] a (.ret a), hx⟩
  | raise e => exact ⟨ht, hx⟩
  | call o k ih =>
    intro c x' r hinv hc he
    obtain ⟨hinv', hguar, hJ⟩ := hcall c x o x' r ht.1 hx hinv hc he
    refine ⟨hinv', hguar, fun y _ hr => ?_⟩
    exact ih r (ht.2 r) (fun l a hend => hret _ a (.call hend)) (hstable x' y hJ hr)

end

/-! ## Histories -/

/-- After the log `p` come these events, each as `R` wants it after what was
before. -/
def Guarded {E : Type} (R : List E → E → Prop) : List E → List E → Prop
  | _, [] => True
  | p, ev :: l => R p ev ∧ Guarded R (p ++ [ev]) l

section

variable {E : Type} {R : List E → E → Prop}

theorem guarded_append {p l₁ l₂ : List E} :
    Guarded R p (l₁ ++ l₂) ↔ Guarded R p l₁ ∧ Guarded R (p ++ l₁) l₂ := by
  induction l₁ generalizing p with
  | nil => simp [Guarded]
  | cons ev l₁ ih => simp [Guarded, ih, and_assoc]

theorem guarded_of_forall {p l : List E} (h : ∀ ev ∈ l, ∀ p, R p ev) : Guarded R p l := by
  induction l generalizing p with
  | nil => trivial
  | cons ev l ih => exact ⟨h ev (by simp) p, ih fun ev' hev => h ev' (by simp [hev])⟩

/-- Every event of a guarded log, after what is before it. -/
theorem Guarded.at {l p t : List E} {ev : E} (h : Guarded R [] l) (hl : l = p ++ ev :: t) :
    R p ev := by
  subst hl
  simpa using (guarded_append.mp h).2.1

end

end Code
