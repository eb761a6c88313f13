import Mathlib

/-!
# Savepoints — transaction blocks in one database session

A session runs the statements of whoever sends them, in the blocks that are
open on it, innermost first; the outermost block is a transaction, the others
are savepoints. A block ends only when it is the innermost. What a statement
did belongs to the block it ran in, and so do the rows it locked.
-/

namespace Savepoints

variable {ω ε ρ : Type} [DecidableEq ω]

structure Block (ω ε ρ : Type) where
  owner : ω
  done : List ε
  rows : List (ω × ρ)

/-- `aborted` is who had a statement fail in the blocks; `failed` is the
connection's own failure. -/
structure Session (ω ε ρ : Type) where
  blocks : List (Block ω ε ρ)
  aborted : Option ω
  failed : Bool
  closed : Bool

namespace Session

variable (s : Session ω ε ρ) (o : ω)

def opened : Session ω ε ρ := ⟨[], none, false, false⟩

def live : Bool := !s.failed && !s.closed

/-- A block is entered: `BEGIN`, or a savepoint. -/
def enter : Session ω ε ρ := { s with blocks := ⟨o, [], []⟩ :: s.blocks }

/-- What a statement did, in the innermost block. -/
def record (e : ε) : Session ω ε ρ :=
  match s.blocks with
  | [] => s
  | b :: rest => { s with blocks := { b with done := b.done ++ [e] } :: rest }

/-- A row locked, in the innermost block. -/
def take (l : ω × ρ) : Session ω ε ρ :=
  match s.blocks with
  | [] => s
  | b :: rest => { s with blocks := { b with rows := l :: b.rows } :: rest }

/-- A statement of `o` fails. -/
def spoil : Session ω ε ρ :=
  match s.blocks with
  | [] => s
  | _ :: _ => { s with aborted := s.aborted.or (some o) }

/-- No block is open. -/
def ended : Session ω ε ρ := { s with blocks := [], aborted := none }

/-- The block of `o` ends well: what is committed, and the session. An aborted
transaction commits nothing; a savepoint is released into the block around it. -/
def commit : Option (List ε × Session ω ε ρ) :=
  match s.blocks with
  | [] => none
  | [b] =>
      if b.owner = o then
        some (if s.aborted.isNone then b.done else [], s.ended)
      else none
  | b :: c :: rest =>
      if b.owner = o ∧ s.aborted.isNone then
        some ([], { s with
          blocks := { c with done := c.done ++ b.done, rows := b.rows ++ c.rows } :: rest })
      else none

/-- The block of `o` ends with an error: what it did is undone. -/
def rollback : Option (Session ω ε ρ) :=
  match s.blocks with
  | [] => none
  | b :: rest => if b.owner = o then some { s with blocks := rest, aborted := none } else none

/-- The connection fails: the server undoes what is open. -/
def lose : Session ω ε ρ := { s with blocks := [], aborted := none, failed := true }

def close : Session ω ε ρ := { s with blocks := [], aborted := none, closed := true }

/-- The rows locked on the session. -/
def rows : List (ω × ρ) := s.blocks.flatMap Block.rows

end Session

/-- A session whose blocks are one owner's: none, or one. -/
structure Single (s : Session ω ε ρ) (owns : ε → ω → Prop) : Prop where
  single : ∀ b ∈ s.blocks, s.blocks = [b]
  done : ∀ b ∈ s.blocks, ∀ e ∈ b.done, owns e b.owner
  rows : ∀ b ∈ s.blocks, ∀ l ∈ b.rows, l.1 = b.owner
  dead : s.live = false → s.blocks = [] ∧ s.aborted = none
  aborted : ∀ o, s.aborted = some o → ∃ b ∈ s.blocks, b.owner = o

section

variable {s : Session ω ε ρ} {owns : ε → ω → Prop} {o : ω}

omit [DecidableEq ω] in
theorem Single.opened : Single (Session.opened : Session ω ε ρ) owns := by
  constructor <;> simp [Session.opened, Session.live]

omit [DecidableEq ω] in
theorem Single.lose : Single s.lose owns := by
  constructor <;> simp [Session.lose]

omit [DecidableEq ω] in
theorem Single.close : Single s.close owns := by
  constructor <;> simp [Session.close]

omit [DecidableEq ω] in
@[simp] theorem live_lose : s.lose.live = false := by simp [Session.lose, Session.live]

omit [DecidableEq ω] in
@[simp] theorem live_close : s.close.live = false := by simp [Session.close, Session.live]

omit [DecidableEq ω] in
/-- A session on which nobody else has a block: with its own owner's, or none. -/
theorem Single.cases (h : Single s owns) : s.blocks = [] ∧ s.aborted = none ∨
    ∃ b, s.blocks = [b] ∧ ∀ p, s.aborted = some p → p = b.owner := by
  cases hb : s.blocks with
  | nil =>
    refine .inl ⟨rfl, ?_⟩
    cases ha : s.aborted with
    | none => rfl
    | some p =>
      obtain ⟨b, hmem, -⟩ := h.aborted p ha
      simp [hb] at hmem
  | cons b rest =>
    have hone := h.single b (by simp [hb])
    refine .inr ⟨b, hb ▸ hone, fun p hp => ?_⟩
    obtain ⟨b', hmem, rfl⟩ := h.aborted p hp
    rw [hone] at hmem
    rw [List.mem_singleton.mp hmem]

omit [DecidableEq ω] in
theorem Single.enter (h : s.blocks = []) (ha : s.aborted = none) (hl : s.live = true) :
    Single (s.enter o) owns := by
  have hlive : (s.enter o).live = true := hl
  constructor
  · simp [Session.enter, h]
  · simp [Session.enter, h]
  · simp [Session.enter, h]
  · intro hdead
    rw [hlive] at hdead
    cases hdead
  · simp [Session.enter, ha]

omit [DecidableEq ω] in
theorem record_single {b : Block ω ε ρ} (hb : s.blocks = [b]) (e : ε) :
    s.record e = { s with blocks := [{ b with done := b.done ++ [e] }] } := by
  simp [Session.record, hb]

omit [DecidableEq ω] in
theorem take_single {b : Block ω ε ρ} (hb : s.blocks = [b]) (l : ω × ρ) :
    s.take l = { s with blocks := [{ b with rows := l :: b.rows }] } := by
  simp [Session.take, hb]

omit [DecidableEq ω] in
theorem spoil_nil (h : s.blocks = []) : s.spoil o = s := by simp [Session.spoil, h]

omit [DecidableEq ω] in
theorem spoil_single {b : Block ω ε ρ} (hb : s.blocks = [b]) :
    s.spoil o = { s with aborted := s.aborted.or (some o) } := by simp [Session.spoil, hb]

theorem commit_single {b : Block ω ε ρ} (hb : s.blocks = [b]) (ho : b.owner = o)
    (ha : s.aborted = none) :
    s.commit o = some (b.done, s.ended) := by
  simp [Session.commit, hb, ho, ha]

theorem rollback_single {b : Block ω ε ρ} (hb : s.blocks = [b]) (ho : b.owner = o) :
    s.rollback o = some s.ended := by
  simp [Session.rollback, Session.ended, hb, ho]

omit [DecidableEq ω] in
theorem Single.ended : Single s.ended owns := by
  constructor <;> simp [Session.ended]

omit [DecidableEq ω] in
theorem Single.record (h : Single s owns) {b : Block ω ε ρ} (hb : s.blocks = [b]) {e : ε}
    (he : owns e b.owner) : Single (s.record e) owns := by
  have hdead := h.dead
  have haborted := h.aborted
  have hdone := h.done b (by simp [hb])
  have hrows := h.rows b (by simp [hb])
  rw [record_single hb]
  constructor
  · simp
  · intro b' hb' e' he'
    obtain rfl := List.mem_singleton.mp hb'
    rcases List.mem_append.mp he' with hmem | hmem
    · exact hdone e' hmem
    · obtain rfl := List.mem_singleton.mp hmem
      exact he
  · intro b' hb' l hl
    obtain rfl := List.mem_singleton.mp hb'
    exact hrows l hl
  · intro hl
    have := (hdead hl).1
    simp [hb] at this
  · intro p hp
    obtain ⟨b', hmem, howner⟩ := haborted p hp
    obtain rfl : b' = b := by simpa [hb] using hmem
    exact ⟨_, List.mem_singleton.mpr rfl, howner⟩

omit [DecidableEq ω] in
theorem Single.take (h : Single s owns) {b : Block ω ε ρ} (hb : s.blocks = [b]) {l : ω × ρ}
    (hl : l.1 = b.owner) : Single (s.take l) owns := by
  have hdead := h.dead
  have haborted := h.aborted
  have hdone := h.done b (by simp [hb])
  have hrows := h.rows b (by simp [hb])
  rw [take_single hb]
  constructor
  · simp
  · intro b' hb' e he
    obtain rfl := List.mem_singleton.mp hb'
    exact hdone e he
  · intro b' hb' l' hl'
    obtain rfl := List.mem_singleton.mp hb'
    rcases List.mem_cons.mp hl' with rfl | hmem
    · exact hl
    · exact hrows l' hmem
  · intro hlive
    have := (hdead hlive).1
    simp [hb] at this
  · intro p hp
    obtain ⟨b', hmem, howner⟩ := haborted p hp
    obtain rfl : b' = b := by simpa [hb] using hmem
    exact ⟨_, List.mem_singleton.mpr rfl, howner⟩

omit [DecidableEq ω] in
theorem Single.spoil (h : Single s owns) {b : Block ω ε ρ} (hb : s.blocks = [b])
    (ho : b.owner = o) : Single (s.spoil o) owns := by
  have hdead := h.dead
  have haborted := h.aborted
  have hdone := h.done
  have hrows := h.rows
  rw [spoil_single hb]
  constructor
  · exact h.single
  · exact hdone
  · exact hrows
  · intro hlive
    have := (hdead hlive).1
    simp [hb] at this
  · intro p hp
    cases ha : s.aborted with
    | none =>
      have hp : some o = some p := by simpa [ha] using hp
      exact ⟨b, by simp [hb], ho.trans (Option.some_inj.mp hp)⟩
    | some q =>
      have hp : some q = some p := by simpa [ha] using hp
      exact haborted p (by rw [ha, hp])

end

end Savepoints
