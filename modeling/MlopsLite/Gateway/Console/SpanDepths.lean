import MlopsLite.Lib.Ancestry
import MlopsLite.Lib.Dict

/-!
# SpanDepths — how deep each span of a trace is

`depth_of` (`gateway/app/console/traces.py`) climbs from each span to its known parent,
remembers the depths it found and carries the ids of the path in `seen`: a parent that is
in `seen` is treated as if there were none. An id is not in `seen` yet when its own parent
is looked up, so the check misses the span that is its own parent.
-/

namespace MlopsLite.Gateway.SpanDepths

open Ancestry Relation

/-- What `depth_of` reads of a span. -/
structure Span (ι : Type) where
  spanId : ι
  parentSpanId : ι
deriving DecidableEq

section

variable {ι : Type} [DecidableEq ι] (truthy : ι → Bool)

def byId (spans : List (Span ι)) : Dict ι (Span ι) :=
  Dict.ofItems (spans.map fun s => (s.spanId, s))

/-- `frames` is how many calls Python has room for; with none left it raises. -/
def depth (by_id : Dict ι (Span ι)) :
    ℕ → ι → Finset ι → Dict ι ℕ → Option (ℕ × Dict ι ℕ)
  | 0, _, _, _ => none
  | frames + 1, span_id, seen, depths =>
    match depths.get? span_id with
    | some n => some (n, depths)
    | none =>
      match (by_id.get? span_id).map Span.parentSpanId with
      | none => some (0, depths.insert span_id 0)
      | some parent =>
        if truthy parent = false ∨ parent ∈ seen ∨ by_id.get? parent = none then
          some (0, depths.insert span_id 0)
        else
          match depth by_id frames parent (insert span_id seen) depths with
          | none => none
          | some (n, depths) => some (n + 1, depths.insert span_id (n + 1))

/-- The loop over the spans. -/
def climb (by_id : Dict ι (Span ι)) (frames : ℕ) (spans : List (Span ι)) : Option (Dict ι ℕ) :=
  spans.foldlM (fun depths s => (depth truthy by_id frames s.spanId ∅ depths).map Prod.snd)
    Dict.empty

def depthOf (frames : ℕ) (spans : List (Span ι)) : Option (Dict ι ℕ) :=
  climb truthy (byId spans) frames spans

/-- The known parent that a span names. -/
def parentOf (by_id : Dict ι (Span ι)) (s : Span ι) : Option ι :=
  if truthy s.parentSpanId = false ∨ by_id.get? s.parentSpanId = none then none
  else some s.parentSpanId

/-- The known parent of an id: its span is the one that `by_id` has. -/
def knownParent (by_id : Dict ι (Span ι)) (span_id : ι) : Option ι :=
  (by_id.get? span_id).bind (parentOf truthy by_id)

end

variable {ι : Type} [DecidableEq ι] {truthy : ι → Bool} {by_id : Dict ι (Span ι)} {frames n m : ℕ}
  {a p x : ι} {seen : Finset ι} {depths depths' : Dict ι ℕ} {spans spans' : List (Span ι)}
  {s t : Span ι}

/-! ## One call -/

theorem depth_of_memo (h : depths.get? a = some n) :
    depth truthy by_id (frames + 1) a seen depths = some (n, depths) := by
  rw [depth, h]

theorem depth_of_root (h : depths.get? a = none) (hp : knownParent truthy by_id a = none) :
    depth truthy by_id (frames + 1) a seen depths = some (0, depths.insert a 0) := by
  rw [depth, h]
  unfold knownParent at hp
  cases hs : by_id.get? a with
  | none => rfl
  | some s =>
    rw [hs] at hp
    rw [Option.bind_some, parentOf] at hp
    split at hp
    next hnone => exact if_pos (hnone.imp (fun h => h) Or.inr)
    · cases hp

theorem parent_of_knownParent (h : knownParent truthy by_id a = some p) :
    ∃ s, by_id.get? a = some s ∧ s.parentSpanId = p ∧ truthy p = true ∧ by_id.get? p ≠ none := by
  unfold knownParent at h
  obtain ⟨s, hs, hp⟩ := Option.bind_eq_some_iff.mp h
  unfold parentOf at hp
  split at hp
  · cases hp
  next hk =>
    obtain rfl := Option.some.inj hp
    obtain ⟨ht, hn⟩ := not_or.mp hk
    exact ⟨s, hs, rfl, by simpa using ht, hn⟩

theorem depth_of_seen (h : depths.get? a = none) (hp : knownParent truthy by_id a = some p)
    (hseen : p ∈ seen) :
    depth truthy by_id (frames + 1) a seen depths = some (0, depths.insert a 0) := by
  obtain ⟨s, hs, rfl, -, -⟩ := parent_of_knownParent hp
  rw [depth, h, hs]
  exact if_pos (Or.inr (Or.inl hseen))

theorem depth_of_parent (h : depths.get? a = none) (hp : knownParent truthy by_id a = some p)
    (hseen : p ∉ seen) :
    depth truthy by_id (frames + 1) a seen depths =
      (depth truthy by_id frames p (insert a seen) depths).map fun r =>
        (r.1 + 1, r.2.insert a (r.1 + 1)) := by
  obtain ⟨s, hs, rfl, ht, hk⟩ := parent_of_knownParent hp
  rw [depth, h, hs]
  simp only [Option.map_some]
  rw [if_neg (by simp [ht, hk, hseen])]
  cases depth truthy by_id frames s.parentSpanId (insert a seen) depths with
  | none => rfl
  | some r => rfl

/-! ## What a call leaves -/

/-- The depths found while the ids in `seen` wait for theirs. -/
structure Settled (truthy : ι → Bool) (by_id : Dict ι (Span ι)) (seen : Finset ι)
    (depths : Dict ι ℕ) : Prop where
  fresh : ∀ x ∈ seen, depths.get? x = none
  layered : Layered (knownParent truthy by_id) depths.get?
  closed : ∀ x m p, depths.get? x = some m → knownParent truthy by_id x = some p →
    (∃ k, depths.get? p = some k) ∨ p ∈ seen

theorem Settled.wait (h : Settled truthy by_id seen depths) (hfresh : depths.get? a = none) :
    Settled truthy by_id (insert a seen) depths := by
  refine ⟨fun x hx => ?_, h.layered, fun x m p hx hp => ?_⟩
  · rcases Finset.mem_insert.mp hx with rfl | hx
    · exact hfresh
    · exact h.fresh x hx
  · exact (h.closed x m p hx hp).imp_right (Finset.mem_insert_of_mem ·)

/-- An id that waited gets its depth. -/
theorem Settled.insert (h : Settled truthy by_id (insert a seen) depths) (ha : a ∉ seen)
    (hn : n = 0 ∧ (knownParent truthy by_id a = none ∨
        TransGen (Up (knownParent truthy by_id)) a a) ∨
      ∃ p m, knownParent truthy by_id a = some p ∧ depths.get? p = some m ∧ n = m + 1)
    (hclosed : ∀ p, knownParent truthy by_id a = some p →
      (∃ k, depths.get? p = some k) ∨ p ∈ seen) :
    Settled truthy by_id seen (depths.insert a n) := by
  have hfresh : depths.get? a = none := h.fresh a (Finset.mem_insert_self a seen)
  have hkept : ∀ p, (∃ k, depths.get? p = some k) → ∃ k, (depths.insert a n).get? p = some k := by
    rintro p ⟨k, hk⟩
    refine ⟨k, ?_⟩
    rw [Dict.get?_insert_ne, hk]
    rintro rfl
    rw [hfresh] at hk
    cases hk
  refine ⟨fun x hx => ?_, h.layered.extend hfresh (fun x => Dict.get?_insert _ _ _ _) hn,
    fun x m p hx hp => ?_⟩
  · rw [Dict.get?_insert_ne]
    · exact h.fresh x (Finset.mem_insert_of_mem hx)
    · rintro rfl
      exact ha hx
  · rw [Dict.get?_insert] at hx
    split at hx
    next heq =>
      rw [heq] at hp
      exact (hclosed p hp).imp_left (hkept p)
    next =>
      rcases h.closed x m p hx hp with hmemo | hseen
      · exact Or.inl (hkept p hmemo)
      · rcases Finset.mem_insert.mp hseen with rfl | hseen
        · exact Or.inl ⟨n, Dict.get?_insert_self _ _ _⟩
        · exact Or.inr hseen

/-- What a call answers, what it keeps and where its new depths come from. -/
structure Called (truthy : ι → Bool) (by_id : Dict ι (Span ι)) (a : ι) (depths : Dict ι ℕ)
    (n : ℕ) (depths' : Dict ι ℕ) : Prop where
  value : depths'.get? a = some n
  grows : ∀ x m, depths.get? x = some m → depths'.get? x = some m
  origin : ∀ x m, depths'.get? x = some m →
    (∃ k, depths.get? x = some k) ∨ ReflTransGen (Up (knownParent truthy by_id)) a x

theorem Called.insert (hfresh : depths.get? a = none) :
    Called truthy by_id a depths n (depths.insert a n) := by
  refine ⟨Dict.get?_insert_self _ _ _, fun x m hx => ?_, fun x m hx => ?_⟩
  · rw [Dict.get?_insert_ne, hx]
    rintro rfl
    rw [hfresh] at hx
    cases hx
  · rw [Dict.get?_insert] at hx
    split at hx
    next heq => exact Or.inr (heq ▸ ReflTransGen.refl)
    next => exact Or.inl ⟨m, hx⟩

theorem Called.up (h : Called truthy by_id p depths n depths')
    (hp : knownParent truthy by_id a = some p) (hfresh : depths'.get? a = none) (m : ℕ) :
    Called truthy by_id a depths m (depths'.insert a m) := by
  have hlast : Called truthy by_id a depths' m (depths'.insert a m) := Called.insert hfresh
  refine ⟨hlast.value, fun x k hx => hlast.grows x k (h.grows x k hx), fun x k hx => ?_⟩
  rcases hlast.origin x k hx with ⟨k', hk'⟩ | habove
  · exact (h.origin x k' hk').imp_right (ReflTransGen.head hp)
  · exact Or.inr habove

/-- A span that is its own parent is what the check on `seen` misses. -/
theorem called (hself : ∀ a, knownParent truthy by_id a ≠ some a)
    (h : depth truthy by_id frames a seen depths = some (n, depths'))
    (hs : Settled truthy by_id seen depths) (ha : a ∉ seen)
    (hbelow : ∀ x ∈ seen, TransGen (Up (knownParent truthy by_id)) x a) :
    Settled truthy by_id seen depths' ∧ Called truthy by_id a depths n depths' := by
  induction frames generalizing a seen n depths' with
  | zero => cases h
  | succ frames ih =>
    cases hmemo : depths.get? a with
    | some k =>
      rw [depth_of_memo hmemo] at h
      cases h
      exact ⟨hs, hmemo, fun _ _ hx => hx, fun x m hx => Or.inl ⟨m, hx⟩⟩
    | none =>
      cases hp : knownParent truthy by_id a with
      | none =>
        rw [depth_of_root hmemo hp] at h
        cases h
        refine ⟨(hs.wait hmemo).insert ha (Or.inl ⟨rfl, Or.inl hp⟩) fun q hq => ?_,
          Called.insert hmemo⟩
        rw [hp] at hq
        cases hq
      | some p =>
        by_cases hseen : p ∈ seen
        · rw [depth_of_seen hmemo hp hseen] at h
          cases h
          have hcycle : TransGen (Up (knownParent truthy by_id)) a a :=
            TransGen.head hp (hbelow p hseen)
          refine ⟨(hs.wait hmemo).insert ha (Or.inl ⟨rfl, Or.inr hcycle⟩) fun q hq => ?_,
            Called.insert hmemo⟩
          obtain rfl := Option.some.inj (hp.symm.trans hq)
          exact Or.inr hseen
        · rw [depth_of_parent hmemo hp hseen] at h
          obtain ⟨⟨k, d⟩, hcall, heq⟩ := Option.map_eq_some_iff.mp h
          cases heq
          have hne : p ∉ insert a seen := by
            rw [Finset.mem_insert, not_or]
            exact ⟨fun hpa => hself a (hpa ▸ hp), hseen⟩
          obtain ⟨hsettled, hcalled⟩ := ih hcall (hs.wait hmemo) hne (by
            intro x hx
            rcases Finset.mem_insert.mp hx with rfl | hx
            · exact TransGen.single hp
            · exact (hbelow x hx).tail hp)
          have hfresh : d.get? a = none := hsettled.fresh a (Finset.mem_insert_self a seen)
          refine ⟨hsettled.insert ha (Or.inr ⟨p, k, hp, hcalled.value, rfl⟩) fun q hq => ?_,
            hcalled.up hp hfresh (k + 1)⟩
          obtain rfl := Option.some.inj (hp.symm.trans hq)
          exact Or.inl ⟨k, hcalled.value⟩

/-! ## When a call raises -/

/-- A path of `frames` ids without a depth, and one more call at its end. -/
structure Long (truthy : ι → Bool) (by_id : Dict ι (Span ι)) (frames : ℕ) (fresh : ι → Prop)
    (a : ι) (rest : List ι) : Prop where
  length : rest.length = frames
  chain : (a :: rest).IsChain (Up (knownParent truthy by_id))
  nodup : (a :: rest).Nodup
  fresh : ∀ x ∈ (a :: rest).dropLast, fresh x

theorem depth_eq_none_iff (hself : ∀ a, knownParent truthy by_id a ≠ some a) (ha : a ∉ seen) :
    depth truthy by_id frames a seen depths = none ↔
      ∃ rest, Long truthy by_id frames (fun x => depths.get? x = none) a rest ∧
        ∀ x ∈ rest, x ∉ seen := by
  induction frames generalizing a seen with
  | zero =>
    refine iff_of_true rfl ⟨[], ⟨rfl, List.isChain_singleton a, List.nodup_singleton a, ?_⟩, ?_⟩
    · simp
    · simp
  | succ frames ih =>
    -- the memo is as it was at the first call until the last call has answered
    have hfirst : ∀ rest, Long truthy by_id (frames + 1) (fun x => depths.get? x = none) a rest →
        ∃ q rest', rest = q :: rest' ∧ depths.get? a = none ∧
          knownParent truthy by_id a = some q := by
      rintro rest ⟨hlen, hchain, -, hfresh⟩
      cases rest with
      | nil => cases hlen
      | cons q rest' =>
        exact ⟨q, rest', rfl, hfresh a (by simp), (List.isChain_cons_cons.mp hchain).1⟩
    cases hmemo : depths.get? a with
    | some k =>
      rw [depth_of_memo hmemo]
      refine iff_of_false (Option.some_ne_none _) ?_
      rintro ⟨rest, hlong, -⟩
      obtain ⟨-, -, -, hnone, -⟩ := hfirst rest hlong
      rw [hmemo] at hnone
      cases hnone
    | none =>
      cases hp : knownParent truthy by_id a with
      | none =>
        rw [depth_of_root hmemo hp]
        refine iff_of_false (Option.some_ne_none _) ?_
        rintro ⟨rest, hlong, -⟩
        obtain ⟨_, _, -, -, hq⟩ := hfirst rest hlong
        rw [hp] at hq
        cases hq
      | some p =>
        by_cases hseen : p ∈ seen
        · rw [depth_of_seen hmemo hp hseen]
          refine iff_of_false (Option.some_ne_none _) ?_
          rintro ⟨rest, hlong, hdisjoint⟩
          obtain ⟨q, rest', rfl, -, hq⟩ := hfirst rest hlong
          obtain rfl := Option.some.inj (hp.symm.trans hq)
          exact hdisjoint p (by simp) hseen
        · have hpa : p ≠ a := fun h => hself a (h ▸ hp)
          have hne : p ∉ insert a seen := by
            rw [Finset.mem_insert, not_or]
            exact ⟨hpa, hseen⟩
          rw [depth_of_parent hmemo hp hseen, Option.map_eq_none_iff, ih hne]
          constructor
          · rintro ⟨rest, ⟨hlen, hchain, hnodup, hfresh⟩, hdisjoint⟩
            have hmem : a ∉ p :: rest := by
              rw [List.mem_cons, not_or]
              exact ⟨hpa.symm, fun h => hdisjoint a h (Finset.mem_insert_self a seen)⟩
            refine ⟨p :: rest, ⟨by simp [hlen], List.isChain_cons_cons.mpr ⟨hp, hchain⟩,
              List.nodup_cons.mpr ⟨hmem, hnodup⟩, ?_⟩, ?_⟩
            · intro x hx
              rcases List.mem_cons.mp hx with rfl | hx
              · exact hmemo
              · exact hfresh x hx
            · intro x hx
              rcases List.mem_cons.mp hx with rfl | hx
              · exact hseen
              · exact fun h => hdisjoint x hx (Finset.mem_insert_of_mem h)
          · rintro ⟨rest, hlong, hdisjoint⟩
            obtain ⟨q, rest', rfl, -, hq⟩ := hfirst rest hlong
            obtain rfl := Option.some.inj (hp.symm.trans hq)
            obtain ⟨hlen, hchain, hnodup, hfresh⟩ := hlong
            refine ⟨rest', ⟨by simpa using hlen, (List.isChain_cons_cons.mp hchain).2,
              (List.nodup_cons.mp hnodup).2, fun x hx => hfresh x (List.mem_cons_of_mem a hx)⟩, ?_⟩
            intro x hx hmem
            rcases Finset.mem_insert.mp hmem with rfl | hmem
            · exact (List.nodup_cons.mp hnodup).1 (List.mem_cons_of_mem p hx)
            · exact hdisjoint x (List.mem_cons_of_mem p hx) hmem

/-! ## The loop -/

theorem climb_concat : climb truthy by_id frames (spans ++ [s]) =
    (climb truthy by_id frames spans).bind fun depths =>
      (depth truthy by_id frames s.spanId ∅ depths).map Prod.snd := by
  rw [climb, List.foldlM_append]
  exact congrArg _ (funext fun depths => by simp)

/-- The id is on the way up from one of the spans. -/
def Reached (truthy : ι → Bool) (by_id : Dict ι (Span ι)) (spans : List (Span ι)) (x : ι) : Prop :=
  ∃ s ∈ spans, ReflTransGen (Up (knownParent truthy by_id)) s.spanId x

theorem climb_settled (hself : ∀ a, knownParent truthy by_id a ≠ some a)
    (h : climb truthy by_id frames spans = some depths) :
    Settled truthy by_id ∅ depths ∧
      ∀ x, (∃ m, depths.get? x = some m) ↔ Reached truthy by_id spans x := by
  induction spans using List.reverseRecOn generalizing depths with
  | nil =>
    cases h
    refine ⟨⟨by simp, fun a n hn => ?_, fun x m p hx => ?_⟩, fun x => ?_⟩
    · cases hn
    · cases hx
    · simp [Reached]
  | append_singleton spans s ih =>
    rw [climb_concat] at h
    obtain ⟨d, hd, hcall⟩ := Option.bind_eq_some_iff.mp h
    obtain ⟨⟨n, d'⟩, hdepth, heq⟩ := Option.map_eq_some_iff.mp hcall
    cases heq
    obtain ⟨hsettled, hreached⟩ := ih hd
    obtain ⟨hsettled', hcalled⟩ := called hself hdepth hsettled (by simp) (by simp)
    -- with no id waiting, the ids that have a depth are closed under parents
    have hup : ∀ x y, ReflTransGen (Up (knownParent truthy by_id)) x y →
        (∃ m, d'.get? x = some m) → ∃ m, d'.get? y = some m := by
      intro x y hxy hx
      induction hxy with
      | refl => exact hx
      | tail _ hp ih =>
        obtain ⟨m, hm⟩ := ih
        exact (hsettled'.closed _ m _ hm hp).resolve_right (Finset.notMem_empty _)
    refine ⟨hsettled', fun x => ⟨?_, ?_⟩⟩
    · rintro ⟨m, hm⟩
      rcases hcalled.origin x m hm with hold | habove
      · obtain ⟨t, ht, htx⟩ := (hreached x).mp hold
        exact ⟨t, List.mem_append_left _ ht, htx⟩
      · exact ⟨s, by simp, habove⟩
    · rintro ⟨t, ht, htx⟩
      rcases List.mem_append.mp ht with ht | ht
      · obtain ⟨m, hm⟩ := (hreached x).mpr ⟨t, ht, htx⟩
        exact ⟨m, hcalled.grows x m hm⟩
      · obtain rfl := List.mem_singleton.mp ht
        exact hup _ x htx ⟨n, hcalled.value⟩

/-- Some span is at the foot of a path that has no depth yet and takes more calls than
there is room for. -/
def Overflows (truthy : ι → Bool) (by_id : Dict ι (Span ι)) (frames : ℕ) (spans : List (Span ι)) :
    Prop :=
  ∃ before s after rest, spans = before ++ s :: after ∧
    Long truthy by_id frames (fun x => ¬ Reached truthy by_id before x) s.spanId rest

theorem overflows_concat : Overflows truthy by_id frames (spans ++ [s]) ↔
    Overflows truthy by_id frames spans ∨
      ∃ rest, Long truthy by_id frames (fun x => ¬ Reached truthy by_id spans x) s.spanId rest := by
  constructor
  · rintro ⟨before, t, after, rest, heq, hlong⟩
    rcases List.eq_nil_or_concat after with rfl | ⟨after, u, rfl⟩
    · obtain ⟨rfl, hst⟩ := List.append_inj' heq rfl
      cases hst
      exact Or.inr ⟨rest, hlong⟩
    · rw [List.concat_eq_append, ← List.cons_append, ← List.append_assoc] at heq
      exact Or.inl ⟨before, t, after, rest, (List.append_inj' heq rfl).1, hlong⟩
  · rintro (⟨before, t, after, rest, rfl, hlong⟩ | ⟨rest, hlong⟩)
    · exact ⟨before, t, after ++ [s], rest, by simp, hlong⟩
    · exact ⟨spans, s, [], rest, rfl, hlong⟩

theorem climb_eq_none_iff (hself : ∀ a, knownParent truthy by_id a ≠ some a) :
    climb truthy by_id frames spans = none ↔ Overflows truthy by_id frames spans := by
  induction spans using List.reverseRecOn with
  | nil =>
    refine iff_of_false (Option.some_ne_none _) ?_
    rintro ⟨before, s, after, -, heq, -⟩
    exact absurd heq.symm (by simp)
  | append_singleton spans s ih =>
    rw [climb_concat, overflows_concat, ← ih]
    cases hd : climb truthy by_id frames spans with
    | none => simp
    | some d =>
      obtain ⟨-, hreached⟩ := climb_settled hself hd
      have hfresh : ∀ x, d.get? x = none ↔ ¬ Reached truthy by_id spans x := by
        intro x
        rw [← hreached x, ← Option.ne_none_iff_exists', not_not]
      rw [Option.bind_some, Option.map_eq_none_iff, depth_eq_none_iff hself (by simp)]
      simp [hfresh]

/-! ## A span that is its own parent -/

/-- Its inner call takes it for a root, the outer one then puts it below itself. -/
def SelfOne (truthy : ι → Bool) (by_id : Dict ι (Span ι)) (depths : Dict ι ℕ) : Prop :=
  ∀ x, knownParent truthy by_id x = some x → depths.get? x = none ∨ depths.get? x = some 1

theorem SelfOne.insert (h : SelfOne truthy by_id depths)
    (hn : knownParent truthy by_id a = some a → n = 1) :
    SelfOne truthy by_id (depths.insert a n) := by
  intro x hx
  rw [Dict.get?_insert]
  split
  next heq => exact Or.inr (congrArg some (hn (heq ▸ hx)))
  next => exact h x hx

theorem depth_selfOne (h : depth truthy by_id frames a seen depths = some (n, depths'))
    (hs : SelfOne truthy by_id depths) (ha : a ∉ seen) : SelfOne truthy by_id depths' := by
  induction frames generalizing a seen n depths' with
  | zero => cases h
  | succ frames ih =>
    cases hmemo : depths.get? a with
    | some k =>
      rw [depth_of_memo hmemo] at h
      cases h
      exact hs
    | none =>
      cases hp : knownParent truthy by_id a with
      | none =>
        rw [depth_of_root hmemo hp] at h
        cases h
        exact hs.insert fun hself => by rw [hp] at hself; cases hself
      | some p =>
        by_cases hseen : p ∈ seen
        · rw [depth_of_seen hmemo hp hseen] at h
          cases h
          refine hs.insert fun hself => absurd hseen ?_
          rw [hp] at hself
          cases hself
          exact ha
        · rw [depth_of_parent hmemo hp hseen] at h
          obtain ⟨⟨k, d⟩, hcall, heq⟩ := Option.map_eq_some_iff.mp h
          cases heq
          by_cases hpa : p = a
          · subst hpa
            cases frames with
            | zero => cases hcall
            | succ frames =>
              rw [depth_of_seen hmemo hp (Finset.mem_insert_self p seen)] at hcall
              cases hcall
              intro x hx
              rw [Dict.get?_insert]
              split
              next => exact Or.inr rfl
              next hne => rw [Dict.get?_insert_ne _ _ hne]; exact hs x hx
          · have hne : p ∉ insert a seen := by
              rw [Finset.mem_insert, not_or]
              exact ⟨hpa, hseen⟩
            refine (ih hcall hne).insert fun hself => absurd ?_ hpa
            rw [hp] at hself
            exact Option.some.inj hself

theorem climb_selfOne (h : climb truthy by_id frames spans = some depths) :
    SelfOne truthy by_id depths := by
  induction spans using List.reverseRecOn generalizing depths with
  | nil =>
    cases h
    exact fun _ _ => Or.inl rfl
  | append_singleton spans s ih =>
    rw [climb_concat] at h
    obtain ⟨d, hd, hcall⟩ := Option.bind_eq_some_iff.mp h
    obtain ⟨⟨n, d'⟩, hdepth, heq⟩ := Option.map_eq_some_iff.mp hcall
    cases heq
    exact depth_selfOne hdepth (ih hd) (Finset.notMem_empty _)

end MlopsLite.Gateway.SpanDepths
