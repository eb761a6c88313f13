import MlopsLite.Gateway.Console.SpanDepths

/-!
# SpanTree — when the depths of a trace are well defined

The span of an id is the one that `by_id` has: the last of those that share it. Every
depth is 0 or one more than the parent's unless a span is its own parent, or a path is
longer than the calls there is room for. Where the links have no cycle a depth can be the
number of ancestors, whatever the order of the list, only if spans of one id agree.
-/

namespace MlopsLite.Gateway.SpanDepths

open Ancestry Relation

variable {ι : Type} [DecidableEq ι] {truthy : ι → Bool} {frames n m : ℕ} {a p x : ι}
  {depths depths' : Dict ι ℕ} {spans spans' : List (Span ι)} {s t : Span ι}

/-! ## The span of an id -/

theorem byId_concat : byId (spans ++ [s]) = (byId spans).insert s.spanId s := by
  simp [byId, Dict.ofItems]

theorem mem_of_byId (h : (byId spans).get? a = some s) : s ∈ spans ∧ s.spanId = a := by
  induction spans using List.reverseRecOn with
  | nil => cases h
  | append_singleton spans t ih =>
    rw [byId_concat, Dict.get?_insert] at h
    split at h
    next heq =>
      cases h
      exact ⟨by simp, heq.symm⟩
    next => exact ⟨List.mem_append_left _ (ih h).1, (ih h).2⟩

theorem byId_eq_none_iff : (byId spans).get? a = none ↔ ∀ s ∈ spans, s.spanId ≠ a := by
  induction spans using List.reverseRecOn with
  | nil => exact iff_of_true rfl (by simp)
  | append_singleton spans t ih =>
    rw [byId_concat, Dict.get?_insert]
    split
    next heq => simp [heq]
    next hne =>
      rw [ih]
      simp only [List.mem_append, List.mem_singleton, or_imp, forall_and, forall_eq]
      exact ⟨fun h => ⟨h, Ne.symm hne⟩, fun h => h.1⟩

theorem exists_byId (h : s ∈ spans) : ∃ t, (byId spans).get? s.spanId = some t := by
  refine Option.ne_none_iff_exists'.mp fun hnone => ?_
  exact byId_eq_none_iff.mp hnone s h rfl

/-- A span names a known parent. -/
def Link (truthy : ι → Bool) (spans : List (Span ι)) (a p : ι) : Prop :=
  ∃ s ∈ spans, s.spanId = a ∧ parentOf truthy (byId spans) s = some p

/-- Spans of one id name one known parent, or none. -/
def Agree (truthy : ι → Bool) (spans : List (Span ι)) : Prop :=
  ∀ s ∈ spans, ∀ t ∈ spans, s.spanId = t.spanId →
    parentOf truthy (byId spans) s = parentOf truthy (byId spans) t

/-- No path of links takes more calls than there is room for. -/
def Short (truthy : ι → Bool) (frames : ℕ) (spans : List (Span ι)) : Prop :=
  ∀ s ∈ spans, ∀ rest, (s.spanId :: rest).IsChain (Link truthy spans) → rest.length < frames

theorem link_of_knownParent (h : knownParent truthy (byId spans) a = some p) :
    Link truthy spans a p := by
  obtain ⟨s, hs, hp⟩ := Option.bind_eq_some_iff.mp h
  obtain ⟨hmem, hid⟩ := mem_of_byId hs
  exact ⟨s, hmem, hid, hp⟩

theorem knownParent_eq_some_iff (hagree : Agree truthy spans) :
    knownParent truthy (byId spans) a = some p ↔ Link truthy spans a p := by
  refine ⟨link_of_knownParent, ?_⟩
  rintro ⟨s, hs, rfl, hp⟩
  obtain ⟨t, ht⟩ := exists_byId hs
  obtain ⟨hmem, hid⟩ := mem_of_byId ht
  rw [knownParent, ht, Option.bind_some, ← hp]
  exact hagree t hmem s hs hid

theorem mem_of_link (h : Link truthy spans a p) : ∃ s ∈ spans, s.spanId = p := by
  obtain ⟨s, -, -, hp⟩ := h
  unfold parentOf at hp
  split at hp
  · cases hp
  next hk =>
    cases hp
    by_contra hno
    push Not at hno
    exact hk (Or.inr (byId_eq_none_iff.mpr hno))

theorem ancestors_finite : (ancestors (Link truthy spans) a).Finite := by
  refine (List.finite_toSet (spans.map Span.spanId)).subset fun x hx => ?_
  obtain ⟨b, -, hbx⟩ := TransGen.tail'_iff.mp hx
  obtain ⟨s, hs, rfl⟩ := mem_of_link hbx
  exact List.mem_map_of_mem hs

/-! ## The order of the list -/

theorem parentOf_perm (h : spans'.Perm spans) :
    parentOf truthy (byId spans') s = parentOf truthy (byId spans) s := by
  have hknown : (byId spans').get? s.parentSpanId = none ↔
      (byId spans).get? s.parentSpanId = none := by
    rw [byId_eq_none_iff, byId_eq_none_iff]
    exact forall_congr' fun t => by rw [h.mem_iff]
  simp only [parentOf, hknown]

theorem link_perm (h : spans'.Perm spans) : Link truthy spans' = Link truthy spans := by
  funext a p
  simp only [Link, h.mem_iff, parentOf_perm h]

theorem Agree.perm (h : spans'.Perm spans) (hagree : Agree truthy spans) :
    Agree truthy spans' := by
  intro s hs t ht hst
  rw [parentOf_perm h, parentOf_perm h]
  exact hagree s (h.mem_iff.mp hs) t (h.mem_iff.mp ht) hst

theorem Short.perm (h : spans'.Perm spans) (hshort : Short truthy frames spans) :
    Short truthy frames spans' := by
  intro s hs rest hchain
  rw [link_perm h] at hchain
  exact hshort s (h.mem_iff.mp hs) rest hchain

omit [DecidableEq ι] in
theorem exists_perm_cons (h : s ∈ spans) : ∃ after, (s :: after).Perm spans := by
  obtain ⟨before, after, rfl⟩ := List.append_of_mem h
  exact ⟨before ++ after, List.perm_middle.symm⟩

omit [DecidableEq ι] in
theorem exists_perm_concat (h : s ∈ spans) : ∃ before, (before ++ [s]).Perm spans := by
  obtain ⟨before, hbefore⟩ := exists_perm_cons h
  exact ⟨before, (List.perm_append_singleton s before).trans hbefore⟩

/-! ## Traces whose links have no cycle -/

theorem not_self_of_acyclic (hr : Acyclic (Link truthy spans)) (a : ι) :
    knownParent truthy (byId spans) a ≠ some a :=
  fun h => hr a (TransGen.single (link_of_knownParent h))

theorem acyclic_up (hr : Acyclic (Link truthy spans)) :
    Acyclic (Up (knownParent truthy (byId spans))) :=
  hr.mono fun _ _ => link_of_knownParent

theorem reached_iff : Reached truthy (byId spans) spans x ↔ ∃ s ∈ spans, s.spanId = x := by
  constructor
  · rintro ⟨s, hs, hsx⟩
    rcases ReflTransGen.cases_tail hsx with heq | ⟨b, -, hbx⟩
    · exact ⟨s, hs, heq.symm⟩
    · exact mem_of_link (link_of_knownParent hbx)
  · rintro ⟨s, hs, rfl⟩
    exact ⟨s, hs, ReflTransGen.refl⟩

/-- With as many calls as spans no path is too long: its ids are known and distinct. -/
theorem not_overflows (h : spans.length ≤ frames) :
    ¬ Overflows truthy (byId spans) frames spans := by
  rintro ⟨before, s, after, rest, heq, hlong⟩
  have hs : s ∈ spans := by simp [heq]
  have hsub : s.spanId :: rest ⊆ spans.map Span.spanId := by
    intro x hx
    refine List.IsChain.induction (· ∈ spans.map Span.spanId) _ hlong.chain ?_ ?_ x hx
    · intro y z hyz _
      obtain ⟨t, ht, rfl⟩ := mem_of_link (link_of_knownParent hyz)
      exact List.mem_map_of_mem ht
    · exact fun _ => List.mem_map_of_mem hs
  have hle := (List.subperm_of_subset hlong.nodup hsub).length_le
  rw [List.length_cons, hlong.length, List.length_map] at hle
  omega

/-- The depths of a trace without a cycle. -/
structure Counted (truthy : ι → Bool) (spans : List (Span ι)) (depths : Dict ι ℕ) : Prop where
  known : ∀ a, (∃ n, depths.get? a = some n) ↔ ∃ s ∈ spans, s.spanId = a
  count : ∀ a n, depths.get? a = some n → n = (ancestors (Link truthy spans) a).ncard

theorem Counted.get?_eq (h : Counted truthy spans depths) (h' : Counted truthy spans depths') :
    depths'.get? a = depths.get? a := by
  cases hd : depths.get? a with
  | some n =>
    obtain ⟨m, hm⟩ := (h'.known a).mpr ((h.known a).mp ⟨n, hd⟩)
    rw [hm, h.count a n hd, h'.count a m hm]
  | none =>
    refine Option.eq_none_iff_forall_ne_some.mpr fun m hm => ?_
    obtain ⟨n, hn⟩ := (h.known a).mpr ((h'.known a).mp ⟨m, hm⟩)
    rw [hd] at hn
    cases hn

theorem Counted.perm (h : spans'.Perm spans) (hc : Counted truthy spans' depths) :
    Counted truthy spans depths := by
  refine ⟨fun a => ?_, fun a n hn => ?_⟩
  · rw [hc.known a]
    simp only [h.mem_iff]
  · rw [hc.count a n hn, link_perm h]

theorem depthOf_counted (hr : Acyclic (Link truthy spans)) (hagree : Agree truthy spans)
    (hshort : Short truthy frames spans) :
    ∃ depths, depthOf truthy frames spans = some depths ∧ Counted truthy spans depths := by
  have hself := not_self_of_acyclic hr
  have hlink : Up (knownParent truthy (byId spans)) = Link truthy spans := by
    funext a p
    exact propext (knownParent_eq_some_iff hagree)
  cases hd : depthOf truthy frames spans with
  | none =>
    obtain ⟨before, s, after, rest, rfl, hlong⟩ := (climb_eq_none_iff hself).mp hd
    have hlt := hshort s (by simp) rest (hlink ▸ hlong.chain)
    exact absurd hlong.length hlt.ne
  | some depths =>
    obtain ⟨hsettled, hreached⟩ := climb_settled hself hd
    refine ⟨depths, rfl, fun a => (hreached a).trans reached_iff, fun a n hn => ?_⟩
    rw [← hlink]
    exact (hsettled.layered.eq_ncard (acyclic_up hr) hn).2.symm

/-! ## Well defined depths -/

/-- Each id has a depth that is 0 or one more than its parent's; without a cycle it is the
number of ancestors, whatever the order of the list. -/
def WellDefined (truthy : ι → Bool) (frames : ℕ) (spans : List (Span ι)) : Prop :=
  ∃ depths, depthOf truthy frames spans = some depths ∧
    (∀ s ∈ spans, ∃ n, depths.get? s.spanId = some n ∧
      (n = 0 ∨ ∃ p m, knownParent truthy (byId spans) s.spanId = some p ∧
        depths.get? p = some m ∧ n = m + 1)) ∧
    (Acyclic (Link truthy spans) →
      (∀ s ∈ spans, depths.get? s.spanId = some (ancestors (Link truthy spans) s.spanId).ncard) ∧
      ∀ spans', spans'.Perm spans → ∃ depths', depthOf truthy frames spans' = some depths' ∧
        ∀ a, depths'.get? a = depths.get? a)

/-- When they are. -/
structure Plain (truthy : ι → Bool) (frames : ℕ) (spans : List (Span ι)) : Prop where
  notSelf : ∀ a, knownParent truthy (byId spans) a ≠ some a
  fits : ¬ Overflows truthy (byId spans) frames spans
  agree : Acyclic (Link truthy spans) → Agree truthy spans
  short : Acyclic (Link truthy spans) → Short truthy frames spans

theorem Plain.wellDefined (h : Plain truthy frames spans) : WellDefined truthy frames spans := by
  obtain ⟨depths, hd⟩ : ∃ depths, depthOf truthy frames spans = some depths :=
    Option.ne_none_iff_exists'.mp fun hnone => h.fits ((climb_eq_none_iff h.notSelf).mp hnone)
  obtain ⟨hsettled, hreached⟩ := climb_settled h.notSelf hd
  refine ⟨depths, hd, fun s hs => ?_, fun hr => ?_⟩
  · obtain ⟨n, hn⟩ := (hreached s.spanId).mpr (reached_iff.mpr ⟨s, hs, rfl⟩)
    exact ⟨n, hn, (hsettled.layered _ n hn).imp And.left id⟩
  · obtain ⟨d, hd', hcounted⟩ := depthOf_counted hr (h.agree hr) (h.short hr)
    obtain rfl := Option.some.inj (hd.symm.trans hd')
    refine ⟨fun s hs => ?_, fun spans' hperm => ?_⟩
    · obtain ⟨n, hn⟩ := (hcounted.known s.spanId).mpr ⟨s, hs, rfl⟩
      rw [hn, hcounted.count _ n hn]
    · obtain ⟨d', hd', hcounted'⟩ := depthOf_counted (by rwa [link_perm hperm])
        ((h.agree hr).perm hperm) ((h.short hr).perm hperm)
      exact ⟨d', hd', fun a => hcounted.get?_eq (hcounted'.perm hperm)⟩

/-! ### What well defined depths ask for -/

theorem WellDefined.not_self (h : WellDefined truthy frames spans) (a : ι) :
    knownParent truthy (byId spans) a ≠ some a := by
  intro hself
  obtain ⟨depths, hd, hlayered, -⟩ := h
  obtain ⟨s, hs, -⟩ := parent_of_knownParent hself
  obtain ⟨hmem, rfl⟩ := mem_of_byId hs
  obtain ⟨n, hn, hn0 | ⟨p, m, hp, hm, hnm⟩⟩ := hlayered s hmem
  · rcases climb_selfOne hd _ hself with hnone | hone
    · rw [hn] at hnone
      cases hnone
    · rw [hn, hn0] at hone
      cases hone
  · obtain rfl := Option.some.inj (hself.symm.trans hp)
    rw [hn] at hm
    have := Option.some.inj hm
    omega

/-- The list that ends in a span gives its id what that span names. -/
theorem count_of_last (hr : Acyclic (Link truthy spans)) (hs : s ∈ spans)
    (hcount : ∀ t ∈ spans,
      depths.get? t.spanId = some (ancestors (Link truthy spans) t.spanId).ncard)
    (horder : ∀ spans', spans'.Perm spans → ∃ depths', depthOf truthy frames spans' = some depths' ∧
      ∀ a, depths'.get? a = depths.get? a) :
    (parentOf truthy (byId spans) s = none ∧ ancestors (Link truthy spans) s.spanId = ∅) ∨
      ∃ p, parentOf truthy (byId spans) s = some p ∧
        (ancestors (Link truthy spans) s.spanId).ncard =
          (ancestors (Link truthy spans) p).ncard + 1 := by
  obtain ⟨before, hperm⟩ := exists_perm_concat hs
  obtain ⟨d, hd, hget⟩ := horder _ hperm
  have hr' : Acyclic (Link truthy (before ++ [s])) := by rwa [link_perm hperm]
  have hpar : knownParent truthy (byId (before ++ [s])) s.spanId =
      parentOf truthy (byId spans) s := by
    rw [knownParent, byId_concat, Dict.get?_insert_self, Option.bind_some, ← byId_concat,
      parentOf_perm hperm]
  obtain ⟨hsettled, -⟩ := climb_settled (not_self_of_acyclic hr') hd
  have hn : d.get? s.spanId = some (ancestors (Link truthy spans) s.spanId).ncard := by
    rw [hget, hcount s hs]
  rcases hsettled.layered _ _ hn with ⟨hzero, hroot | hcycle⟩ | ⟨p, m, hp, hm, hnm⟩
  · refine Or.inl ⟨by rw [← hpar, hroot], ?_⟩
    exact (Set.ncard_eq_zero ancestors_finite).mp hzero
  · exact absurd hcycle (acyclic_up hr' _)
  · rw [hpar] at hp
    obtain ⟨t, ht, rfl⟩ := mem_of_link ⟨s, hs, rfl, hp⟩
    rw [hget, hcount t ht] at hm
    exact Or.inr ⟨_, hp, by rw [hnm, ← Option.some.inj hm]⟩

theorem WellDefined.agree (h : WellDefined truthy frames spans) (hr : Acyclic (Link truthy spans)) :
    Agree truthy spans := by
  obtain ⟨depths, -, -, hacyclic⟩ := h
  obtain ⟨hcount, horder⟩ := hacyclic hr
  intro s hs t ht hst
  rcases count_of_last hr hs hcount horder with ⟨hp, hempty⟩ | ⟨p, hp, hcp⟩
  · cases hq : parentOf truthy (byId spans) t with
    | none => exact hp
    | some q =>
      have hmem : q ∈ ancestors (Link truthy spans) s.spanId :=
        TransGen.single ⟨t, ht, hst.symm, hq⟩
      rw [hempty] at hmem
      exact absurd hmem (Set.notMem_empty q)
  · rcases count_of_last hr ht hcount horder with ⟨-, hempty⟩ | ⟨q, hq, hcq⟩
    · have hmem : p ∈ ancestors (Link truthy spans) t.spanId :=
        TransGen.single ⟨s, hs, hst, hp⟩
      rw [hempty] at hmem
      exact absurd hmem (Set.notMem_empty p)
    · rw [hp, hq, parent_unique hr ancestors_finite ⟨s, hs, rfl, hp⟩ ⟨t, ht, hst.symm, hq⟩ hcp
        (by rw [hst, hcq])]

theorem WellDefined.short (h : WellDefined truthy frames spans) (hr : Acyclic (Link truthy spans)) :
    Short truthy frames spans := by
  have hagree := h.agree hr
  obtain ⟨depths, -, -, hacyclic⟩ := h
  obtain ⟨-, horder⟩ := hacyclic hr
  intro s hs rest hchain
  by_contra hlong
  -- the list that begins with the foot of the path
  obtain ⟨after, hperm⟩ := exists_perm_cons hs
  obtain ⟨d, hd, -⟩ := horder _ hperm
  have hr' : Acyclic (Link truthy (s :: after)) := by rwa [link_perm hperm]
  have hup : (s.spanId :: rest.take frames).IsChain
      (Up (knownParent truthy (byId (s :: after)))) := by
    refine (hchain.take (frames + 1)).imp fun x y hxy => ?_
    rw [← link_perm hperm] at hxy
    exact (knownParent_eq_some_iff (hagree.perm hperm)).mpr hxy
  have hover : Overflows truthy (byId (s :: after)) frames (s :: after) := by
    refine ⟨[], s, after, rest.take frames, rfl, ⟨?_, hup, (acyclic_up hr').nodup hup, ?_⟩⟩
    · rw [List.length_take]
      omega
    · simp [Reached]
  rw [depthOf, (climb_eq_none_iff (not_self_of_acyclic hr')).mpr hover] at hd
  cases hd

/-- Depths are well defined unless a span is its own parent, a path has more ids than there
are calls or, where no link is on a cycle, spans of one id name different parents. -/
theorem wellDefined_iff (truthy : ι → Bool) (frames : ℕ) (spans : List (Span ι)) :
    WellDefined truthy frames spans ↔ Plain truthy frames spans := by
  refine ⟨fun h => ⟨h.not_self, fun hover => ?_, h.agree, h.short⟩, Plain.wellDefined⟩
  have hnone := (climb_eq_none_iff h.not_self).mpr hover
  obtain ⟨depths, hd, -⟩ := h
  rw [depthOf, hnone] at hd
  cases hd

/-- A span that names itself gets depth 1, and so does its parent. -/
theorem self_not_wellDefined :
    ¬ WellDefined (fun s : String => s != "") 1000 [⟨"a", "a"⟩] :=
  fun h => h.not_self "a" (by decide)

example : (depthOf (fun s : String => s != "") 3 [⟨"a", "a"⟩, ⟨"b", "a"⟩]).map Dict.items =
    some [("a", 1), ("b", 2)] := by decide

end MlopsLite.Gateway.SpanDepths
