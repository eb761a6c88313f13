import MlopsLite.HostAgent.Frames

/-!
# StreamSse — the events of a stream in the console

`streamSse` (`ui/lib/sse.ts`) on the frames of the agent and of the gateway, however
their bytes are cut. A number of JavaScript is a double.
-/

namespace MlopsLite.Ui.StreamSse

open Utf16Json (Doc dumps parse)
open HostAgent.Frames

/-! ## The reader -/

/-- `TextDecoder`: the state of its UTF-8 decoder between two bytes. -/
structure Decoder where
  codePoint : ℕ
  needed : ℕ
  seen : ℕ
  lower : ℕ
  upper : ℕ
  deriving DecidableEq

def idle : Decoder := ⟨0, 0, 0, 0x80, 0xbf⟩

def replacement : Char := '\uFFFD'

namespace Decoder

/-- A byte at the beginning of a character. -/
def first (b : ℕ) : Decoder × List Char :=
  if b ≤ 0x7f then (idle, [Char.ofNat b])
  else if 0xc2 ≤ b ∧ b ≤ 0xdf then ({ idle with needed := 1, codePoint := b % 0x20 }, [])
  else if 0xe0 ≤ b ∧ b ≤ 0xef then
    ({ idle with
      needed := 2
      codePoint := b % 0x10
      lower := if b = 0xe0 then 0xa0 else 0x80
      upper := if b = 0xed then 0x9f else 0xbf }, [])
  else if 0xf0 ≤ b ∧ b ≤ 0xf4 then
    ({ idle with
      needed := 3
      codePoint := b % 0x8
      lower := if b = 0xf0 then 0x90 else 0x80
      upper := if b = 0xf4 then 0x8f else 0xbf }, [])
  else (idle, [replacement])

/-- One byte; one that does not continue a character is looked at again. -/
def step (d : Decoder) (b : ℕ) : Decoder × List Char :=
  if d.needed = 0 then first b
  else if b < d.lower ∨ d.upper < b then
    let (next, text) := first b
    (next, replacement :: text)
  else
    let codePoint := d.codePoint * 0x40 + b % 0x40
    if d.seen + 1 = d.needed then (idle, [Char.ofNat codePoint])
    else (⟨codePoint, d.needed, d.seen + 1, 0x80, 0xbf⟩, [])

/-- `decode(chunk, {stream: true})`. -/
def decode (d : Decoder) : List UInt8 → Decoder × List Char
  | [] => (d, [])
  | b :: bytes =>
      let (next, text) := d.step b.toNat
      let (last, rest) := next.decode bytes
      (last, text ++ rest)

end Decoder

/-- The frames that a blank line ends, and what is behind them. -/
def cut : List Char → List (List Char) × List Char
  | [] => ([], [])
  | '\n' :: '\n' :: t => ([] :: (cut t).1, (cut t).2)
  | c :: t =>
      match cut t with
      | ([], rest) => ([], c :: rest)
      | (f :: frames, rest) => ((c :: f) :: frames, rest)

/-- What `trim` takes away. -/
def isSpace (c : Char) : Bool :=
  let n := c.toNat
  decide (9 ≤ n ∧ n ≤ 13) || decide (n = 32) || decide (n = 0xa0) || decide (n = 0x1680) ||
    decide (0x2000 ≤ n ∧ n ≤ 0x200a) || decide (n = 0x2028) || decide (n = 0x2029) ||
    decide (n = 0x202f) || decide (n = 0x205f) || decide (n = 0x3000) || decide (n = 0xfeff)

def trim (s : List Char) : List Char := Texts.strip isSpace s

/-- The event of a line, if it has one. -/
def lineEvent (l : List Char) : Option (Doc Number) :=
  let s := trim l
  if "data:".toList.isPrefixOf s then
    let payload := trim (s.drop 5)
    if payload = [] ∨ payload = "[DONE]".toList then none else parse Doubles.read payload
  else none

def frameEvents (f : List Char) : List (Doc Number) :=
  (f.splitOnP (· = '\n')).filterMap lineEvent

/-- `begun` says that the decoder has had a character. -/
structure Reader where
  decoder : Decoder
  begun : Bool
  buf : List Char

/-- The first character of a stream is dropped if it is a byte-order mark. -/
def withoutBom (begun : Bool) (text : List Char) : List Char :=
  if !begun && text.head? = some '\uFEFF' then text.tail else text

/-- A chunk, and the events that it completes. -/
def Reader.feed (r : Reader) (chunk : List UInt8) : Reader × List (Doc Number) :=
  let (decoder, text) := r.decoder.decode chunk
  let (frames, buf) := cut (r.buf ++ withoutBom r.begun text)
  (⟨decoder, r.begun || !text.isEmpty, buf⟩, frames.flatMap frameEvents)

def Reader.run (r : Reader) : List (List UInt8) → List (Doc Number)
  | [] => []
  | chunk :: chunks => (r.feed chunk).2 ++ (r.feed chunk).1.run chunks

/-- `streamSse`, of the chunks of a response that is ok. -/
def streamSse (chunks : List (List UInt8)) : List (Doc Number) := (Reader.mk idle false []).run chunks

/-! ## Blank lines -/

theorem cut_blank (t : List Char) :
    cut ('\n' :: '\n' :: t) = ([] :: (cut t).1, (cut t).2) := by
  rw [cut]

/-- A character that is not the first of a blank line. -/
theorem cut_cons {c : Char} {t : List Char} (h : ¬ (c = '\n' ∧ t.head? = some '\n')) :
    cut (c :: t) =
      match cut t with
      | ([], rest) => ([], c :: rest)
      | (f :: frames, rest) => ((c :: f) :: frames, rest) := by
  rw [cut]
  rintro t rfl rfl
  exact h ⟨rfl, rfl⟩

theorem not_blank {c : Char} {t : List Char}
    (h : ∀ t', c = '\n' → t = '\n' :: t' → False) : ¬ (c = '\n' ∧ t.head? = some '\n') := by
  rintro ⟨rfl, hhead⟩
  obtain ⟨t', rfl⟩ := List.head?_eq_some_iff.mp hhead
  exact h t' rfl rfl

/-- Without a blank line the text is kept. -/
theorem cut_snd_of_nil {s : List Char} (h : (cut s).1 = []) : (cut s).2 = s := by
  induction s using cut.induct with
  | case1 => rfl
  | case2 t ih =>
    rw [cut_blank] at h
    cases h
  | case3 c t hne rest heq ih =>
    have hrest : rest = t := by
      rw [heq] at ih
      exact ih rfl
    rw [cut_cons (not_blank hne), heq, hrest]
  | case4 c t hne f frames rest heq ih =>
    rw [cut_cons (not_blank hne), heq] at h
    cases h

/-- A text can be cut as it comes. -/
theorem cut_append (s t : List Char) :
    cut (s ++ t) = ((cut s).1 ++ (cut ((cut s).2 ++ t)).1, (cut ((cut s).2 ++ t)).2) := by
  induction s using cut.induct with
  | case1 => rfl
  | case2 s ih => rw [cut_blank, List.cons_append, List.cons_append, cut_blank, ih, List.cons_append]
  | case3 c s hne rest heq ih =>
    have hnil : (cut (c :: s)).1 = [] := by
      rw [cut_cons (not_blank hne), heq]
    rw [hnil, cut_snd_of_nil hnil, List.nil_append]
  | case4 c s hne f frames rest heq ih =>
    have hfirst : ¬ (c = '\n' ∧ (s ++ t).head? = some '\n') := by
      rintro ⟨hc, hhead⟩
      cases s with
      | nil => cases heq
      | cons d s => exact not_blank hne ⟨hc, hhead⟩
    rw [List.cons_append, cut_cons hfirst, cut_cons (not_blank hne), ih, heq]
    rfl

theorem cut_snd (s : List Char) : (cut (cut s).2).1 = [] := by
  have happend := congrArg Prod.fst (cut_append s [])
  rw [List.append_nil, List.append_nil] at happend
  simpa using happend

theorem cut_frame {x : List Char} (hx : ∀ c ∈ x, c ≠ '\n') (t : List Char) :
    cut (x ++ '\n' :: '\n' :: t) = (x :: (cut t).1, (cut t).2) := by
  induction x with
  | nil => exact cut_blank t
  | cons c x ih =>
    have hc : ¬ (c = '\n' ∧ (x ++ '\n' :: '\n' :: t).head? = some '\n') :=
      fun h => hx c List.mem_cons_self h.1
    rw [List.cons_append, cut_cons hc, ih fun d hd => hx d (List.mem_cons_of_mem _ hd)]

/-- Part of a frame is kept. -/
theorem cut_part {x y : List Char} (hx : ∀ c ∈ x, c ≠ '\n') (hy : y <+: x ++ ['\n']) :
    cut y = ([], y) := by
  induction x generalizing y with
  | nil =>
    rw [List.nil_append] at hy
    rcases List.prefix_cons_iff.mp hy with rfl | ⟨t, rfl, ht⟩
    · rfl
    · rw [List.prefix_nil.mp ht]
      rfl
  | cons c x ih =>
    cases y with
    | nil => rfl
    | cons d y =>
      obtain ⟨rfl, hrest⟩ := List.cons_prefix_cons.mp hy
      have hc : ¬ (d = '\n' ∧ y.head? = some '\n') := fun h => hx d List.mem_cons_self h.1
      rw [cut_cons hc, ih (fun e he => hx e (List.mem_cons_of_mem _ he)) hrest]

/-! ## Bytes -/

def bytes (s : List Char) : List UInt8 := s.map fun c => UInt8.ofNat c.toNat

def Ascii (s : List Char) : Prop := ∀ c ∈ s, c.toNat < 0x80

theorem Ascii.append {s t : List Char} (hs : Ascii s) (ht : Ascii t) : Ascii (s ++ t) := by
  intro c hc
  rcases List.mem_append.mp hc with hc | hc
  · exact hs c hc
  · exact ht c hc

theorem ascii_newlines : Ascii ['\n', '\n'] := by
  intro c hc
  obtain rfl : c = '\n' := by simpa using hc
  decide

theorem encode_ascii {s : List Char} (h : Ascii s) : Utf8.encode s = bytes s := by
  induction s with
  | nil => rfl
  | cons c s ih =>
    have hc : c.toNat < 0x80 := h c List.mem_cons_self
    have hbyte : String.utf8EncodeChar c = [UInt8.ofNat c.toNat] := by
      have hb : UInt8.ofNat c.toNat < 0x80 := by
        rw [UInt8.lt_iff_toNat_lt, UInt8.toNat_ofNat']
        show c.toNat % 256 < 128
        omega
      have hback := UrlPath.utf8EncodeChar_ofNat hb
      have htoNat : (UInt8.ofNat c.toNat).toNat = c.toNat := by
        rw [UInt8.toNat_ofNat']
        show c.toNat % 256 = c.toNat
        omega
      rwa [htoNat, Char.ofNat_toNat] at hback
    rw [Utf8.encode_cons, hbyte, ih fun d hd => h d (List.mem_cons_of_mem _ hd)]
    rfl

theorem decode_bytes {s : List Char} (h : Ascii s) : idle.decode (bytes s) = (idle, s) := by
  induction s with
  | nil => rfl
  | cons c s ih =>
    have hc : c.toNat < 0x80 := h c List.mem_cons_self
    have htoNat : (UInt8.ofNat c.toNat).toNat = c.toNat := by
      rw [UInt8.toNat_ofNat']
      show c.toNat % 256 = c.toNat
      omega
    have hstep : idle.step (UInt8.ofNat c.toNat).toNat = (idle, [c]) := by
      have hneeded : idle.needed = 0 := rfl
      rw [htoNat, Decoder.step, if_pos hneeded, Decoder.first, if_pos (by omega),
        Char.ofNat_toNat]
    rw [bytes, List.map_cons, Decoder.decode, hstep]
    dsimp only
    rw [← bytes, ih fun d hd => h d (List.mem_cons_of_mem _ hd)]
    rfl

theorem withoutBom_ascii {s : List Char} (h : Ascii s) (begun : Bool) :
    withoutBom begun s = s := by
  have hhead : s.head? ≠ some '\uFEFF' := by
    intro heq
    exact absurd (h _ (List.mem_of_head? heq)) (by decide)
  simp [withoutBom, hhead]

/-- The reader makes of ASCII what it makes of the text as a whole. -/
theorem run_ascii {chunks : List (List UInt8)} {text buf : List Char} (begun : Bool)
    (h : chunks.flatten = bytes text) (htext : Ascii text) (hbuf : (cut buf).1 = []) :
    (Reader.mk idle begun buf).run chunks = (cut (buf ++ text)).1.flatMap frameEvents := by
  induction chunks generalizing text buf begun with
  | nil =>
    obtain rfl : text = [] := by simpa [bytes] using h.symm
    rw [List.append_nil, hbuf]
    rfl
  | cons chunk chunks ih =>
    rw [List.flatten_cons] at h
    obtain ⟨t₁, t₂, rfl, h₁, h₂⟩ := List.map_eq_append_iff.mp h.symm
    have ht₁ : Ascii t₁ := fun c hc => htext c (List.mem_append_left _ hc)
    have ht₂ : Ascii t₂ := fun c hc => htext c (List.mem_append_right _ hc)
    have hdecode : idle.decode chunk = (idle, t₁) := by
      rw [← h₁]
      exact decode_bytes ht₁
    have hfeed : (Reader.mk idle begun buf).feed chunk =
        (⟨idle, begun || !t₁.isEmpty, (cut (buf ++ t₁)).2⟩,
          (cut (buf ++ t₁)).1.flatMap frameEvents) := by
      rw [Reader.feed, hdecode]
      dsimp only
      rw [withoutBom_ascii ht₁]
    rw [Reader.run, hfeed, ih _ h₂.symm ht₂ (cut_snd _), ← List.append_assoc, cut_append (buf ++ t₁),
      List.flatMap_append]

/-! ## One frame -/

section

variable {repr} {P : PyNumber → Prop} {f : PyNumber → Number}
  (hP : ∀ n, P n → Utf16Json.Reads (write repr) Doubles.read f n)

include hP

theorem ascii_line {event : Event} (h : (Doc.obj event).WellFormed P) : Ascii (line repr event) :=
  fun c hc => (printable_line (fun n hn => (hP n hn).atoms) h c hc).2.trans (by decide)

theorem line_ne_newline {event : Event} (h : (Doc.obj event).WellFormed P) :
    ∀ c ∈ line repr event, c ≠ '\n' := by
  rintro c hc rfl
  exact absurd (printable_line (fun n hn => (hP n hn).atoms) h _ hc).1 (by decide)

/-- A line is the text of its event behind `data:`. -/
theorem lineEvent_line {event : Event} (h : (Doc.obj event).WellFormed P) :
    lineEvent (line repr event) = some ((Doc.obj event).map f) := by
  obtain ⟨t, ht⟩ := dumps_event repr event
  have hnot : ¬ (dumps [' '] (write repr) (.obj event) = [] ∨
      dumps [' '] (write repr) (.obj event) = "[DONE]".toList) := by
    rw [ht]
    rintro (h | h)
    · cases h
    · exact absurd (List.cons.inj h).1 (by decide)
  have hline : trim (line repr event) = line repr event :=
    strip_line (by decide) (by decide) event
  have hpayload : trim ((line repr event).drop 5) = dumps [' '] (write repr) (.obj event) :=
    strip_drop_line (by decide) (by decide) (by decide) event
  have hstarts : "data:".toList.isPrefixOf (line repr event) = true := rfl
  simp only [lineEvent, hline, hstarts, if_true, hpayload, if_neg hnot]
  exact Utf16Json.parse_dumps rfl hP h

theorem frameEvents_line {event : Event} (h : (Doc.obj event).WellFormed P) :
    frameEvents (line repr event) = [(Doc.obj event).map f] := by
  have hsplit : (line repr event).splitOnP (· = '\n') = [line repr event] :=
    List.splitOnP_eq_singleton fun c hc => by simpa using line_ne_newline hP h c hc
  rw [frameEvents, hsplit, List.filterMap_cons, lineEvent_line hP h]
  rfl

/-! ## The stream -/

theorem frame_eq {event : Event} (h : (Doc.obj event).WellFormed P) :
    frame repr event = bytes (line repr event ++ ['\n', '\n']) :=
  encode_ascii ((ascii_line hP h).append ascii_newlines)

theorem stream_eq {events : List Event} (h : ∀ event ∈ events, (Doc.obj event).WellFormed P) :
    stream repr events = bytes (text repr events) := by
  induction events with
  | nil => rfl
  | cons event events ih =>
    have hrest := ih fun e he => h e (List.mem_cons_of_mem _ he)
    rw [stream] at hrest ⊢
    rw [List.flatMap_cons, hrest, frame_eq hP (h event List.mem_cons_self)]
    exact List.map_append.symm

theorem ascii_text {events : List Event} (h : ∀ event ∈ events, (Doc.obj event).WellFormed P) :
    Ascii (text repr events) := by
  intro c hc
  obtain ⟨event, hevent, hc⟩ := List.mem_flatMap.mp hc
  exact (ascii_line hP (h event hevent)).append ascii_newlines c hc

/-- The frames of a part of the text are those that it has in full. -/
theorem cut_text {events : List Event} (h : ∀ event ∈ events, (Doc.obj event).WellFormed P)
    {part : List Char} (hpart : part <+: text repr events) :
    (cut part).1 = (arrived repr part.length events).map (line repr) := by
  induction events generalizing part with
  | nil =>
    obtain rfl : part = [] := List.prefix_nil.mp hpart
    rfl
  | cons event events ih =>
    have hline := line_ne_newline hP (h event List.mem_cons_self)
    have hlength : (frame repr event).length = (line repr event ++ ['\n', '\n']).length := by
      rw [frame_eq hP (h event List.mem_cons_self), bytes, List.length_map]
    rw [text, List.flatMap_cons, ← text] at hpart
    rw [arrived, hlength]
    by_cases hfits : (line repr event ++ ['\n', '\n']).length ≤ part.length
    · obtain ⟨more, rfl⟩ := List.prefix_of_prefix_length_le (List.prefix_append _ _) hpart hfits
      have hmore := (List.prefix_append_right_inj _).mp hpart
      have hcut : cut (line repr event ++ ['\n', '\n'] ++ more) =
          (line repr event :: (cut more).1, (cut more).2) := by
        rw [List.append_assoc]
        exact cut_frame hline more
      rw [if_pos hfits, hcut, List.map_cons, List.length_append, Nat.add_sub_cancel_left]
      rw [ih (fun e he => h e (List.mem_cons_of_mem _ he)) hmore]
    · have hshort : part <+: line repr event ++ ['\n'] := by
        have hwhole := List.prefix_of_prefix_length_le hpart (List.prefix_append _ _) (by omega)
        refine List.prefix_of_prefix_length_le hwhole ?_ ?_
        · exact ⟨['\n'], by simp⟩
        · simp only [List.length_append, List.length_cons, List.length_nil] at hfits ⊢
          omega
      rw [if_neg hfits, cut_part hline hshort]
      rfl

/-- The reader yields what arrived, with the numbers as `JSON.parse` has them. -/
theorem streamSse_eq {events : List Event} (h : ∀ event ∈ events, (Doc.obj event).WellFormed P)
    {chunks : List (List UInt8)} (hchunks : chunks.flatten <+: stream repr events) :
    streamSse chunks =
      (arrived repr chunks.flatten.length events).map fun event => (Doc.obj event).map f := by
  rw [stream_eq hP h] at hchunks
  obtain ⟨part, hpart, hbytes⟩ := List.prefix_map_iff.mp hchunks
  have hascii : Ascii part := fun c hc => ascii_text hP h c (hpart.subset hc)
  have hlength : chunks.flatten.length = part.length := by
    rw [hbytes, List.length_map]
  rw [streamSse, run_ascii false hbytes hascii rfl, List.nil_append, cut_text hP h hpart,
    hlength, List.flatMap_map]
  have hone : ∀ event ∈ arrived repr part.length events,
      frameEvents (line repr event) = [(Doc.obj event).map f] :=
    fun event hevent => frameEvents_line hP (h event (arrived_subset _ _ hevent))
  rw [List.flatMap_congr hone, ← List.map_eq_flatMap]

end

/-! ## Numbers -/

variable (repr : Repr)

/-- What `repr` promises of a float: a text of JSON that the float is next to. -/
def RoundTrips (repr : Repr) (x : {q : ℚ // Doubles.Exact q}) : Prop :=
  JsonTokens.isNumber (repr x) = true ∧
    Doubles.nearest (Doubles.decimal (repr x)) = .fin x.1

/-- A double holds the number. -/
def Held (repr : Repr) : PyNumber → Prop
  | .int z => Doubles.Exact z
  | .float x => RoundTrips repr x

theorem reads_nearest {n : PyNumber} (h : JsonTokens.isNumber (write repr n) = true) :
    Utf16Json.Reads (write repr) Doubles.read
      (fun n => Doubles.nearest (Doubles.decimal (write repr n))) n :=
  reads_of_isNumber h (by rw [Doubles.read, if_pos h])

theorem reads_of_held {n : PyNumber} (h : Held repr n) :
    Utf16Json.Reads (write repr) Doubles.read (fun n => .fin n.value) n := by
  have hread : JsonTokens.isNumber (write repr n) = true ∧
      Doubles.nearest (Doubles.decimal (write repr n)) = .fin n.value := by
    cases n with
    | int z =>
      refine ⟨isNumber_int z, ?_⟩
      rw [write, Doubles.decimal_ofInt]
      exact h
    | float x => exact h
  exact reads_of_isNumber hread.1 (by rw [Doubles.read, if_pos hread.1, hread.2])

/-- The events whose frames arrived are yielded, and nothing else. -/
theorem streamSse_yields (repr : Repr) {events : List Event}
    (h : ∀ event ∈ events, (Doc.obj event).WellFormed (Held repr)) {chunks : List (List UInt8)}
    (hchunks : chunks.flatten <+: stream repr events) :
    streamSse chunks = (arrived repr chunks.flatten.length events).map fun event =>
      (Doc.obj event).map fun n => .fin n.value :=
  streamSse_eq (fun _ hn => reads_of_held repr hn) h hchunks

/-- A text with half a surrogate pair, and a number. -/
def halves : Event :=
  [("text".toList.flatMap Utf16Json.units, .str [0x68, 0xd83d]),
    ("rate".toList.flatMap Utf16Json.units, .num (.float ⟨1 / 2, Doubles.exact_half⟩))]

/-- Two frames in two chunks, the second of them cut short. -/
theorem halves_yields :
    let s := stream reprHalf [halves, halves]
    streamSse [s.take 7, (s.drop 7).take 60] =
      (arrived reprHalf [s.take 7, (s.drop 7).take 60].flatten.length [halves, halves]).map
        fun event => (Doc.obj event).map fun n => .fin n.value := by
  intro s
  refine streamSse_yields reprHalf ?_ ?_
  · have hwell : (Doc.obj halves).WellFormed (Held reprHalf) := by
      refine .obj (by decide) ?_
      intro m hm
      simp only [halves, List.mem_cons, List.not_mem_nil, or_false] at hm
      rcases hm with rfl | rfl
      · exact .str _
      · exact .num ⟨by decide, by decide +kernel⟩
    simp [hwell]
  · rw [List.flatten_cons, List.flatten_cons, List.flatten_nil, List.append_nil, ← List.take_add]
    exact List.take_prefix _ _

/-- The least integer above zero that no double holds. -/
def odd : Event := [("n".toList.flatMap Utf16Json.units, .num (.int 9007199254740993))]

/-- It arrives as another number. -/
theorem odd_changed :
    streamSse [stream reprHalf [odd]] ≠
      (arrived reprHalf [stream reprHalf [odd]].flatten.length [odd]).map
        fun event => (Doc.obj event).map fun n => .fin n.value := by
  have hwell : (Doc.obj odd).WellFormed fun n => JsonTokens.isNumber (write reprHalf n) = true := by
    refine .obj (by decide) ?_
    intro m hm
    obtain rfl := List.mem_singleton.mp hm
    exact .num (isNumber_int _)
  have hwhole : [stream reprHalf [odd]].flatten <+: stream reprHalf [odd] := by simp
  have hyields := streamSse_eq (fun _ hn => reads_nearest reprHalf hn) (by simpa using hwell)
    hwhole
  have harrived : arrived reprHalf [stream reprHalf [odd]].flatten.length [odd] = [odd] := by
    simp [arrived, stream]
  have hmap : ∀ f : PyNumber → Number, (Doc.obj odd).map f =
      .obj [("n".toList.flatMap Utf16Json.units, .num (f (.int 9007199254740993)))] := fun _ => rfl
  have hread : Doubles.nearest (Doubles.decimal (write reprHalf (.int 9007199254740993))) =
      .fin 9007199254740992 := by
    rw [write, Doubles.decimal_ofInt]
    decide +kernel
  rw [hyields, harrived, List.map_singleton, List.map_singleton, hmap, hmap, hread]
  intro heq
  have hnumber : Number.fin 9007199254740992 = .fin (9007199254740993 : ℤ) := by
    injection heq with heq
    injection heq with heq
    injection heq with heq
    injection heq with _ heq
    injection heq
  exact absurd (Number.fin.inj hnumber) (by norm_num)

end MlopsLite.Ui.StreamSse
