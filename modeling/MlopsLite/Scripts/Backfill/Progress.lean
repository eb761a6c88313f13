import MlopsLite.Scripts.Backfill.Run

/-!
# Progress — what a run makes of a database

A run takes offers, whatever fails, and one that ends without errors leaves none: an item
needs a cell of a table in front of its own, which no later item fills.
-/

namespace MlopsLite.Scripts.Backfill

open Filling

variable {ν τ : Type} [Zero ν] [DecidableEq ν]

/-- What some items offer. -/
def offersOf (d : Driver ν τ) (items : List (Item ν)) : Set (Offer ν τ) :=
  {o | ∃ i ∈ items, i.offer d = some o}

variable {d : Driver ν τ} {env : ℕ → Fate} {items items' : List (Item ν)} {i : Item ν}
  {w w' w'' : World ν τ} {s t : Store Cell (Content ν τ)} {c : Counts} {e e' n n' : ℕ}
  {done : Option (ℕ × ℕ)}

theorem offersOf_append_left (items items' : List (Item ν)) :
    offersOf d items ⊆ offersOf d (items ++ items') := by
  rintro o ⟨i, hi, ho⟩
  exact ⟨i, List.mem_append_left _ hi, ho⟩

theorem offersOf_append_right (items items' : List (Item ν)) :
    offersOf d items' ⊆ offersOf d (items ++ items') := by
  rintro o ⟨i, hi, ho⟩
  exact ⟨i, List.mem_append_right _ hi, ho⟩

/-- What is complete stays so: a cell that an item needs is in a table in front of its own. -/
theorem complete_of_grows (hcomplete : Complete Content.live (offersOf d items) s)
    (hrank : ∀ i ∈ items, ∀ j ∈ items', i.rank ≤ j.rank)
    (h : Grows Content.live (offersOf d items') s t) :
    Complete Content.live (offersOf d items) t := by
  rintro o ⟨i, hi, ho⟩ hmet
  have hneeds : ∀ n ∈ o.needs, t n = s n := by
    intro n hn
    refine Grows.frame ?_ h
    rintro o' ⟨j, hj, ho'⟩ hcell
    have hlow := (rank_of_offer ho).2 n hn
    have hhigh := (rank_of_offer ho').1
    have hle := hrank i hi j hj
    rw [hcell] at hhigh
    omega
  have hmet' : Met Content.live s o := by
    intro n hn
    obtain ⟨v, hv, hlive⟩ := hmet n hn
    exact ⟨v, by rw [← hneeds n hn, hv], hlive⟩
  obtain ⟨v, hv⟩ := Option.ne_none_iff_exists'.mp (hcomplete o ⟨i, hi, ho⟩ hmet')
  rw [Grows.below h _ _ hv]
  exact Option.some_ne_none v

/-- What some items make of a world. Where they come to their end, there is the number of
errors and of insertions. -/
structure Ran (d : Driver ν τ) (env : ℕ → Fate) (items : List (Item ν)) (w w' : World ν τ)
    (done : Option (ℕ × ℕ)) : Prop where
  grows : Grows Content.live (offersOf d items) w.db.cells w'.db.cells
  complete : ∀ e n, done = some (e, n) → (e = 0 ∨ ∀ k, env k = .fine) →
    Complete Content.live (offersOf d items) w'.db.cells
  quiet : ∀ e n, done = some (e, n) → n = 0 ∨
    ∃ s t, Grows Content.live (offersOf d items) w.db.cells s ∧
      Fills Content.live (offersOf d items) s t

theorem Ran.nil : Ran d env [] w w (some (0, 0)) where
  grows := .refl
  complete := by
    rintro _ _ - - o ⟨i, hi, -⟩
    cases hi
  quiet _ _ h := by
    cases h
    exact .inl rfl

theorem Ran.stop (h : Ran d env items w w' done) : Ran d env (items ++ items') w w' none where
  grows := h.grows.mono (offersOf_append_left items items')
  complete _ _ h := by cases h
  quiet _ _ h := by cases h

theorem Ran.append (h : Ran d env items w w' (some (e, n))) (h' : Ran d env items' w' w'' done)
    (hrank : ∀ i ∈ items, ∀ j ∈ items', i.rank ≤ j.rank) :
    Ran d env (items ++ items') w w'' (done.map fun p => (e + p.1, n + p.2)) where
  grows := (h.grows.mono (offersOf_append_left items items')).trans
    (h'.grows.mono (offersOf_append_right items items'))
  complete := by
    intro e₂ n₂ hdone hclean
    obtain ⟨⟨e', n'⟩, hdone', heq⟩ := Option.map_eq_some_iff.mp hdone
    cases heq
    rintro o ⟨i, hi, ho⟩ hmet
    rcases List.mem_append.mp hi with hi | hi
    · have hfirst := h.complete e n rfl (hclean.imp_left fun h => by omega)
      exact complete_of_grows hfirst hrank h'.grows o ⟨i, hi, ho⟩ hmet
    · exact h'.complete e' n' hdone' (hclean.imp_left fun h => by omega) o ⟨i, hi, ho⟩ hmet
  quiet := by
    intro e₂ n₂ hdone
    obtain ⟨⟨e', n'⟩, hdone', heq⟩ := Option.map_eq_some_iff.mp hdone
    cases heq
    rcases h.quiet e n rfl with hn | ⟨s, t, hgrows, hfills⟩
    · rcases h'.quiet e' n' hdone' with hn' | ⟨s, t, hgrows, hfills⟩
      · exact .inl (by dsimp only; omega)
      · refine .inr ⟨s, t, ?_, hfills.mono (offersOf_append_right items items')⟩
        exact (h.grows.mono (offersOf_append_left items items')).trans
          (hgrows.mono (offersOf_append_right items items'))
    · exact .inr ⟨s, t, hgrows.mono (offersOf_append_left items items'),
        hfills.mono (offersOf_append_left items items')⟩

/-! ## Items -/

variable {all : Set (Offer ν τ)} {s₀ : Store Cell (Content ν τ)}

theorem alive_of_clear (hclear : Clear Content.live all s₀)
    (hgrows : Grows Content.live all s₀ w.db.cells) (hsub : offersOf d [i] ⊆ all) :
    Alive w.db (i.offer d) := by
  intro o ho hmet v hv
  have hmem : o ∈ all := hsub ⟨i, List.mem_singleton_self i, ho⟩
  exact hclear.alive hgrows hmem (Grows.available hgrows hmet) hv

/-- How many errors and insertions come to the counts. -/
def Adds (c : Counts) (r : Except Stop Counts) (done : Option (ℕ × ℕ)) : Prop :=
  match r with
  | .ok c' => ∃ e n, done = some (e, n) ∧ c'.errors = c.errors + e ∧ c'.inserted = c.inserted + n
  | .error _ => done = none

theorem Adds.after {c c' : Counts} {r : Except Stop Counts} (h : Adds c' r done)
    (herrors : c'.errors = c.errors + e) (hinserted : c'.inserted = c.inserted + n) :
    Adds c r (done.map fun p => (e + p.1, n + p.2)) := by
  cases r with
  | error stop =>
    obtain rfl : done = none := h
    rfl
  | ok c'' =>
    obtain ⟨e', n', rfl, herrors', hinserted'⟩ := h
    exact ⟨e + e', n + n', rfl, by omega, by omega⟩

theorem Ran.same (hdb : w'.db = w.db) (h : ∀ e n, done = some (e, n) → n = 0 ∧
    ((e = 0 ∨ ∀ k, env k = .fine) → ∀ o ∈ i.offer d, Met Content.live w.db.cells o →
      w.db.cells o.cell ≠ none)) : Ran d env [i] w w' done where
  grows := by rw [hdb]
  complete := by
    intro e n hdone hclean
    rw [hdb]
    rintro o ⟨j, hj, ho⟩
    obtain rfl := List.mem_singleton.mp hj
    exact (h e n hdone).2 hclean o ho
  quiet e n hdone := .inl (h e n hdone).1

theorem Ran.filled {o : Offer ν τ} (ho : i.offer d = some o) (hempty : w.db.cells o.cell = none)
    (hmet : Met Content.live w.db.cells o)
    (hcells : w'.db.cells = Function.update w.db.cells o.cell (some o.value)) :
    Ran d env [i] w w' done := by
  have hfills : Fills Content.live (offersOf d [i]) w.db.cells w'.db.cells := by
    rw [hcells]
    exact .fill ⟨i, List.mem_singleton_self i, ho⟩ hempty hmet
  refine ⟨.single hfills, fun e n _ _ => ?_, fun e n _ => .inr ⟨_, _, .refl, hfills⟩⟩
  rintro o' ⟨j, hj, ho'⟩ -
  obtain rfl := List.mem_singleton.mp hj
  obtain rfl := Option.some.inj (ho.symm.trans ho')
  rw [hcells, Function.update_self]
  exact Option.some_ne_none _

theorem pass_ran (env : ℕ → Fate) (c : Counts) (hclear : Clear Content.live all s₀)
    (hgrows : Grows Content.live all s₀ w.db.cells) (hsub : offersOf d [i] ⊆ all) :
    ∃ done, Ran d env [i] w (pass d env i c w).2 done ∧ Adds c (pass d env i c w).1 done := by
  have hguards := guards i (alive_of_clear hclear hgrows hsub)
  -- a failing statement is an error, and not all of the environment is fine
  have hfailed : env w.clock ≠ .fine → ∀ e n, (some (1, 0) : Option (ℕ × ℕ)) = some (e, n) → n = 0 ∧
      ((e = 0 ∨ ∀ k, env k = .fine) → ∀ o ∈ i.offer d, Met Content.live w.db.cells o →
        w.db.cells o.cell ≠ none) := by
    intro hfate e n heq
    cases heq
    refine ⟨rfl, fun hclean => ?_⟩
    rcases hclean with hone | hfine
    · cases hone
    · exact absurd (hfine _) hfate
  have hone : Adds c (.ok c.scan.err) (some (1, 0)) := ⟨1, 0, rfl, rfl, rfl⟩
  unfold pass
  cases hfate : env w.clock with
  | killed => exact ⟨none, .same rfl (fun _ _ h => by cases h), rfl⟩
  | refused => exact ⟨some (1, 0), .same rfl (hfailed (by simp [hfate])), hone⟩
  | lost =>
    cases hstep : i.step d w.db with
    | none => exact ⟨some (1, 0), .same rfl (hfailed (by simp [hfate])), hone⟩
    | some r =>
      obtain ⟨kind, db⟩ := r
      cases kind with
      | inserted =>
        obtain ⟨o, ho, hempty, hmet, hcells⟩ := hguards.inserted db hstep
        exact ⟨some (1, 0), .filled ho hempty hmet hcells, hone⟩
      | skipped =>
        obtain ⟨rfl, -⟩ := hguards.skipped db hstep
        exact ⟨some (1, 0), .same rfl (hfailed (by simp [hfate])), hone⟩
  | fine =>
    cases hstep : i.step d w.db with
    | none =>
      refine ⟨some (1, 0), .same rfl fun e n heq => ?_, hone⟩
      cases heq
      exact ⟨rfl, fun _ => hguards.raised hstep⟩
    | some r =>
      obtain ⟨kind, db⟩ := r
      cases kind with
      | inserted =>
        obtain ⟨o, ho, hempty, hmet, hcells⟩ := hguards.inserted db hstep
        exact ⟨some (0, 1), .filled ho hempty hmet hcells, 0, 1, rfl, rfl, rfl⟩
      | skipped =>
        obtain ⟨rfl, hfilled⟩ := hguards.skipped db hstep
        refine ⟨some (0, 0), .same rfl fun e n heq => ?_, 0, 0, rfl, rfl, rfl⟩
        cases heq
        exact ⟨rfl, fun _ => hfilled⟩

theorem scan_ran (env : ℕ → Fate) (c : Counts) (hclear : Clear Content.live all s₀)
    (hgrows : Grows Content.live all s₀ w.db.cells) (hsub : offersOf d items ⊆ all)
    (hrank : items.Pairwise fun i j => i.rank ≤ j.rank) :
    ∃ done, Ran d env items w (scan d env items c w).2 done ∧
      Adds c (scan d env items c w).1 done := by
  induction items generalizing w c with
  | nil => exact ⟨some (0, 0), .nil, 0, 0, rfl, rfl, rfl⟩
  | cons i items ih =>
    have hfirst : offersOf d [i] ⊆ all := (offersOf_append_left [i] items).trans hsub
    have hrest : offersOf d items ⊆ all := (offersOf_append_right [i] items).trans hsub
    obtain ⟨hlow, hpairwise⟩ := List.pairwise_cons.mp hrank
    obtain ⟨done, hran, hadds⟩ := pass_ran env c hclear hgrows hfirst
    rw [scan, Raising.bind_apply]
    cases hpass : pass d env i c w with
    | mk r w' =>
      rw [hpass] at hran hadds
      cases r with
      | error stop =>
        obtain rfl : done = none := hadds
        exact ⟨none, hran.stop, rfl⟩
      | ok c' =>
        obtain ⟨e, n, rfl, herrors, hinserted⟩ := hadds
        have hgrows' : Grows Content.live all s₀ w'.db.cells :=
          hgrows.trans (hran.grows.mono hfirst)
        obtain ⟨done', hran', hadds'⟩ := ih c' hgrows' hrest hpairwise
        refine ⟨_, hran.append hran' (fun j hj k hk => ?_), ?_⟩
        · obtain rfl := List.mem_singleton.mp hj
          exact hlow k hk
        · exact hadds'.after herrors hinserted

/-! ## Tables -/

section

variable {ts : List (String × Option (List (Item ν)))}

/-- The items of some tables; a journal that cannot be folded has none. -/
def itemsOf (ts : List (String × Option (List (Item ν)))) : List (Item ν) :=
  ts.flatMap fun t => t.2.getD []

def Report.errors (r : Report) : ℕ := (r.map fun t => t.2.errors).sum

def Report.inserted (r : Report) : ℕ := (r.map fun t => t.2.inserted).sum

/-- How many errors and insertions a report has. -/
def Totals (r : Except Stop Report) (done : Option (ℕ × ℕ)) : Prop :=
  match r with
  | .ok r => done = some (r.errors, r.inserted)
  | .error _ => done = none

theorem backfill_ran (env : ℕ → Fate) (t : Option (List (Item ν)))
    (hclear : Clear Content.live all s₀) (hgrows : Grows Content.live all s₀ w.db.cells)
    (hsub : offersOf d (t.getD []) ⊆ all)
    (hrank : (t.getD []).Pairwise fun i j => i.rank ≤ j.rank) :
    ∃ done, Ran d env (t.getD []) w (backfill d env t w).2 done ∧
      Adds .zero (backfill d env t w).1 done := by
  cases t with
  | none => exact ⟨none, (Ran.nil.stop : Ran d env ([] ++ []) w w none), rfl⟩
  | some items => exact scan_ran env .zero hclear hgrows hsub hrank

theorem report_ran (env : ℕ → Fate) (hclear : Clear Content.live all s₀)
    (hgrows : Grows Content.live all s₀ w.db.cells) (hsub : offersOf d (itemsOf ts) ⊆ all)
    (hrank : (itemsOf ts).Pairwise fun i j => i.rank ≤ j.rank) :
    ∃ done, Ran d env (itemsOf ts) w (report (ts.map fun t => (t.1, backfill d env t.2)) w).2 done ∧
      Totals (report (ts.map fun t => (t.1, backfill d env t.2)) w).1 done := by
  induction ts generalizing w with
  | nil => exact ⟨some (0, 0), .nil, rfl⟩
  | cons t ts ih =>
    obtain ⟨table, items⟩ := t
    have hitems : itemsOf ((table, items) :: ts) = items.getD [] ++ itemsOf ts := by
      simp [itemsOf]
    rw [hitems] at hsub hrank ⊢
    obtain ⟨hfirst, hlater, hbetween⟩ := List.pairwise_append.mp hrank
    have hsub₁ := (offersOf_append_left (items.getD []) (itemsOf ts)).trans hsub
    have hsub₂ := (offersOf_append_right (items.getD []) (itemsOf ts)).trans hsub
    obtain ⟨done, hran, hadds⟩ := backfill_ran env items hclear hgrows hsub₁ hfirst
    rw [List.map_cons, report, Raising.bind_apply]
    cases hrun : backfill d env items w with
    | mk r w' =>
      rw [hrun] at hran hadds
      cases r with
      | error stop =>
        obtain rfl : done = none := hadds
        exact ⟨none, hran.stop, rfl⟩
      | ok c =>
        obtain ⟨e, n, rfl, herrors, hinserted⟩ := hadds
        obtain ⟨done', hran', htotals⟩ := ih (hgrows.trans (hran.grows.mono hsub₁)) hsub₂ hlater
        dsimp only
        rw [Raising.bind_apply]
        cases hreport : report (ts.map fun t => (t.1, backfill d env t.2)) w' with
        | mk r' w'' =>
          rw [hreport] at hran' htotals
          have happend := hran.append hran' hbetween
          cases r' with
          | error stop =>
            obtain rfl : done' = none := htotals
            exact ⟨none, happend, rfl⟩
          | ok others =>
            obtain rfl : done' = some (others.errors, others.inserted) := htotals
            refine ⟨some (e + others.errors, n + others.inserted), happend, ?_⟩
            have herrors : c.errors = e := by simpa [Counts.zero] using herrors
            have hinserted : c.inserted = n := by simpa [Counts.zero] using hinserted
            show some _ = some _
            rw [← herrors, ← hinserted]
            simp [Report.errors, Report.inserted]

/-! ### A run that nothing disturbs -/

theorem scan_of_fine (hfine : ∀ k, env k = .fine) (items : List (Item ν)) (c : Counts)
    (w : World ν τ) : ∃ c' w', scan d env items c w = (.ok c', w') := by
  induction items generalizing c w with
  | nil => exact ⟨c, w, rfl⟩
  | cons i items ih =>
    obtain ⟨c', w', hpass⟩ : ∃ c' w', pass d env i c w = (.ok c', w') := by
      unfold pass
      rw [hfine]
      dsimp only
      rcases i.step d w.db with - | ⟨- | -, db⟩
      · exact ⟨_, _, rfl⟩
      · exact ⟨_, _, rfl⟩
      · exact ⟨_, _, rfl⟩
    obtain ⟨c'', w'', hscan⟩ := ih c' w'
    exact ⟨c'', w'', by rw [scan, Raising.bind_apply, hpass]; exact hscan⟩

theorem report_of_fine (hfine : ∀ k, env k = .fine) (hfolds : ∀ t ∈ ts, t.2 ≠ none) :
    ∃ r w', report (ts.map fun t => (t.1, backfill d env t.2)) w = (.ok r, w') := by
  induction ts generalizing w with
  | nil => exact ⟨[], w, rfl⟩
  | cons t ts ih =>
    obtain ⟨table, items⟩ := t
    obtain ⟨items, rfl⟩ := Option.ne_none_iff_exists'.mp (hfolds _ List.mem_cons_self)
    obtain ⟨c, w', hscan⟩ := scan_of_fine (d := d) hfine items .zero w
    obtain ⟨r, w'', hreport⟩ := ih (w := w') fun t ht => hfolds t (List.mem_cons_of_mem _ ht)
    refine ⟨(table, c) :: r, w'', ?_⟩
    rw [List.map_cons, report, Raising.bind_apply, backfill, hscan]
    dsimp only
    rw [Raising.bind_apply, hreport]
    rfl

/-- A run that ends has folded the journal. -/
theorem folds_of_report {r : Report}
    (h : report (ts.map fun t => (t.1, backfill d env t.2)) w = (.ok r, w')) :
    ∀ t ∈ ts, t.2 ≠ none := by
  induction ts generalizing w r with
  | nil => simp
  | cons t ts ih =>
    obtain ⟨table, items⟩ := t
    rw [List.map_cons, report, Raising.bind_apply] at h
    cases items with
    | none => cases h
    | some items =>
      intro t ht
      rcases List.mem_cons.mp ht with rfl | ht
      · exact Option.some_ne_none _
      · cases hfirst : backfill d env (some items) w with
        | mk r' w₁ =>
          rw [hfirst] at h
          cases r' with
          | error stop => cases h
          | ok c =>
            dsimp only at h
            rw [Raising.bind_apply] at h
            cases hrest : report (ts.map fun t => (t.1, backfill d env t.2)) w₁ with
            | mk r'' w₂ =>
              rw [hrest] at h
              cases r'' with
              | error stop => cases h
              | ok others =>
                cases h
                exact ih hrest t ht

end

end MlopsLite.Scripts.Backfill
