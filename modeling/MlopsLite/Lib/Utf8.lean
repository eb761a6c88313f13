import MlopsLite.Lib.UrlPath

/-!
# Utf8 — a text cut at a number of bytes

A cut may end inside a character. A decoder that ignores what is not UTF-8 then
gives the longest part of the text that fits.
-/

namespace Utf8

def encode (s : List Char) : List UInt8 := s.flatMap String.utf8EncodeChar

/-- Decode after skipping `k` bytes; what is not UTF-8 is left out. -/
def ignoring : ℕ → List UInt8 → List Char
  | _, [] => []
  | k + 1, _ :: bs => ignoring k bs
  | 0, b :: bs =>
      match (b :: bs).toByteArray.utf8DecodeChar? 0 with
      | some c => c :: ignoring (c.utf8Size - 1) bs
      | none => ignoring (UrlPath.badTail (b :: bs)) bs

/-- The longest part from the start of a text that has at most `n` bytes. -/
structure IsCut (n : ℕ) (s p : List Char) : Prop where
  start : p <+: s
  fits : (encode p).length ≤ n
  longest : ∀ q, q <+: s → (encode q).length ≤ n → q <+: p

theorem encode_cons (c : Char) (s : List Char) :
    encode (c :: s) = String.utf8EncodeChar c ++ encode s := List.flatMap_cons

theorem isCut_nil (n : ℕ) : IsCut n [] [] where
  start := List.prefix_rfl
  fits := Nat.zero_le n
  longest _ h _ := h

theorem IsCut.cons {n : ℕ} {c : Char} {s p : List Char} (h : IsCut n s p) :
    IsCut ((String.utf8EncodeChar c).length + n) (c :: s) (c :: p) where
  start := List.cons_prefix_cons.mpr ⟨rfl, h.start⟩
  fits := by
    rw [encode_cons, List.length_append]
    exact Nat.add_le_add_left h.fits _
  longest q hq hfits := by
    cases q with
    | nil => exact List.nil_prefix
    | cons d q =>
      obtain ⟨rfl, hrest⟩ := List.cons_prefix_cons.mp hq
      rw [encode_cons, List.length_append] at hfits
      exact List.cons_prefix_cons.mpr ⟨rfl, h.longest q hrest (Nat.add_le_add_iff_left.mp hfits)⟩

/-- A first character that does not fit. -/
theorem isCut_of_lt {n : ℕ} {c : Char} {s : List Char} (h : n < (String.utf8EncodeChar c).length) :
    IsCut n (c :: s) [] where
  start := List.nil_prefix
  fits := Nat.zero_le n
  longest q hq hfits := by
    cases q with
    | nil => exact List.nil_prefix
    | cons d q =>
      obtain ⟨rfl, -⟩ := List.cons_prefix_cons.mp hq
      rw [encode_cons, List.length_append] at hfits
      omega

/-- A text that fits is its own cut. -/
theorem isCut_self {n : ℕ} {s : List Char} (h : (encode s).length ≤ n) : IsCut n s s where
  start := List.prefix_rfl
  fits := h
  longest _ hq _ := hq

theorem IsCut.unique {n : ℕ} {s p p' : List Char} (h : IsCut n s p) (h' : IsCut n s p') : p = p' :=
  (h'.longest p h.start h.fits).eq_of_length_le (h.longest p' h'.start h'.fits).length_le

/-! ## The decoder -/

theorem ignoring_append {k : ℕ} (xs bs : List UInt8) (hk : xs.length = k) :
    ignoring k (xs ++ bs) = ignoring 0 bs := by
  induction xs generalizing k with
  | nil =>
    rw [← hk]
    rfl
  | cons x xs ih =>
    rw [← hk]
    exact ih rfl

theorem ignoring_utf8EncodeChar (c : Char) (rest : List UInt8) :
    ignoring 0 (String.utf8EncodeChar c ++ rest) = c :: ignoring 0 rest := by
  have hdecode := UrlPath.decode_utf8EncodeChar c rest
  have hlen := String.length_utf8EncodeChar c
  obtain ⟨b, bs, hbytes⟩ := List.exists_cons_of_ne_nil (UrlPath.utf8EncodeChar_ne_nil c)
  rw [hbytes, List.length_cons] at hlen
  rw [hbytes, List.cons_append] at hdecode ⊢
  rw [ignoring, hdecode]
  dsimp only
  rw [ignoring_append bs rest (by omega)]

theorem ignoring_encode (s : List Char) : ignoring 0 (encode s) = s := by
  induction s with
  | nil => rfl
  | cons c s ih => rw [encode_cons, ignoring_utf8EncodeChar, ih]

theorem encode_injective : Function.Injective encode :=
  Function.LeftInverse.injective ignoring_encode

/-- Where no character begins, nothing is decoded. -/
theorem ignoring_eq_nil {bs : List UInt8}
    (h : ∀ t, t <:+ bs → t.toByteArray.utf8DecodeChar? 0 = none) (k : ℕ) : ignoring k bs = [] := by
  induction bs generalizing k with
  | nil => cases k <;> rfl
  | cons b bs ih =>
    have hrest : ∀ k, ignoring k bs = [] := ih fun t ht => h t (ht.trans (List.suffix_cons b bs))
    cases k with
    | succ k => exact hrest k
    | zero =>
      rw [ignoring, h _ List.suffix_rfl]
      exact hrest _

/-- Only the first byte of a character can begin one. -/
theorem decode_eq_none_of_drop {c : Char} {i : ℕ} {t : List UInt8} (hi : 0 < i)
    (ht : t <+: (String.utf8EncodeChar c).drop i) : t.toByteArray.utf8DecodeChar? 0 = none := by
  by_contra hne
  obtain ⟨d, hd⟩ := Option.ne_none_iff_exists'.mp hne
  obtain ⟨rest, rfl⟩ := UrlPath.eq_append_of_decode hd
  obtain ⟨more, hmore⟩ := ht
  have hlen : 0 < (String.utf8EncodeChar d).length :=
    List.length_pos_iff.mpr (UrlPath.utf8EncodeChar_ne_nil d)
  have hbound : i < (String.utf8EncodeChar c).length := by
    have := congrArg List.length hmore
    rw [List.length_append, List.length_append, List.length_drop] at this
    omega
  have hfirst : (String.utf8EncodeChar d)[0].IsUTF8FirstByte :=
    UInt8.isUTF8FirstByte_getElem_utf8EncodeChar.mpr rfl
  have hsame : (String.utf8EncodeChar d)[0] = (String.utf8EncodeChar c)[i] := by
    have hhead := congrArg (fun l => l[0]?) hmore
    simp only [List.append_assoc, List.getElem?_append_left hlen, List.getElem?_drop,
      Nat.add_zero] at hhead
    rw [List.getElem?_eq_getElem hlen, List.getElem?_eq_getElem hbound] at hhead
    exact Option.some.inj hhead
  rw [hsame] at hfirst
  exact hi.ne' (UInt8.isUTF8FirstByte_getElem_utf8EncodeChar.mp hfirst)

/-- Part of a character is none. -/
theorem decode_eq_none_of_take {c : Char} {n : ℕ} (hn : n < (String.utf8EncodeChar c).length) :
    ((String.utf8EncodeChar c).take n).toByteArray.utf8DecodeChar? 0 = none := by
  by_contra hne
  obtain ⟨d, hd⟩ := Option.ne_none_iff_exists'.mp hne
  obtain ⟨rest, hrest⟩ := UrlPath.eq_append_of_decode hd
  have hwhole : String.utf8EncodeChar c =
      String.utf8EncodeChar d ++ (rest ++ (String.utf8EncodeChar c).drop n) := by
    rw [← List.append_assoc, ← hrest, List.take_append_drop]
  have hc := UrlPath.decode_utf8EncodeChar c []
  have hd' := UrlPath.decode_utf8EncodeChar d (rest ++ (String.utf8EncodeChar c).drop n)
  rw [List.append_nil, hwhole, hd'] at hc
  obtain rfl := Option.some.inj hc
  have := congrArg List.length hrest
  rw [List.length_take, List.length_append] at this
  omega

theorem ignoring_take_of_lt {c : Char} {n : ℕ} (hn : n < (String.utf8EncodeChar c).length) :
    ignoring 0 ((String.utf8EncodeChar c).take n) = [] := by
  refine ignoring_eq_nil (fun t ht => ?_) 0
  obtain ⟨front, hfront⟩ := ht
  cases front with
  | nil =>
    rw [List.nil_append] at hfront
    rw [hfront]
    exact decode_eq_none_of_take hn
  | cons b front =>
    refine decode_eq_none_of_drop (c := c) (i := (b :: front).length) (Nat.succ_pos _) ?_
    rw [← List.take_append_drop n (String.utf8EncodeChar c), ← hfront, List.append_assoc,
      List.drop_left]
    exact List.prefix_append ..

/-- What is left of a text cut at `n` bytes is the longest part of it that fits. -/
theorem isCut_ignoring_take (n : ℕ) (s : List Char) : IsCut n s (ignoring 0 ((encode s).take n)) := by
  induction s generalizing n with
  | nil =>
    have hnil : (encode []).take n = [] := List.take_nil
    rw [hnil]
    exact isCut_nil n
  | cons c s ih =>
    rw [encode_cons, List.take_append]
    by_cases hn : n < (String.utf8EncodeChar c).length
    · rw [Nat.sub_eq_zero_of_le hn.le, List.take_zero, List.append_nil, ignoring_take_of_lt hn]
      exact isCut_of_lt hn
    · obtain ⟨m, rfl⟩ := Nat.exists_eq_add_of_le (not_lt.mp hn)
      rw [List.take_of_length_le (Nat.le_add_right ..), Nat.add_sub_cancel_left,
        ignoring_utf8EncodeChar]
      exact (ih m).cons

end Utf8
