import MlopsLite.Lib.Texts

/-!
# RequestBody — where a request's body ends

`_read_chunked` and `_declared_length` (`hostagent/main.py`): a chunked body
read against a limit, and the length a request declares. A stream is all that
comes on the connection.
-/

namespace MlopsLite.HostAgent.RequestBody

abbrev Byte := Fin 256

abbrev cr : Byte := 13

abbrev lf : Byte := 10

abbrev semicolon : Byte := 59

abbrev crlf : List Byte := [cr, lf]

/-- `bytes.isspace` of a byte. -/
def isBlank (b : Byte) : Bool := b ∈ ([9, 10, 11, 12, 13, 32] : List Byte)

/-- `_HEX_DIGITS`. -/
def isHex (b : Byte) : Bool :=
  decide (48 ≤ b ∧ b ≤ 57) || decide (65 ≤ b ∧ b ≤ 70) || decide (97 ≤ b ∧ b ≤ 102)

def hexDigit (b : Byte) : ℕ :=
  if b ≤ 57 then b.val - 48 else if b ≤ 70 then b.val - 55 else b.val - 87

/-- `int(token, 16)`. -/
def hexValue (token : List Byte) : ℕ := token.foldl (fun n b => 16 * n + hexDigit b) 0

/-- `rfile.readline(n)`, and what is left. -/
def readline : ℕ → List Byte → List Byte × List Byte
  | 0, s => ([], s)
  | _ + 1, [] => ([], [])
  | n + 1, b :: s => if b = lf then ([b], s) else ((b :: (readline n s).1), (readline n s).2)

/-- The token of a size line. -/
def tokenOf (line : List Byte) : List Byte :=
  Texts.strip isBlank ((Texts.strip isBlank line).takeWhile fun b => b ≠ semicolon)

/-- Before a size line: the bytes counted, the body so far, what is still to come. -/
structure Reader where
  total : ℕ
  buf : List Byte
  rest : List Byte

inductive Answer
  | body (bytes : List Byte)
  | tooLarge
  | malformed
  deriving DecidableEq

inductive Outcome
  | more (r : Reader)
  | done (a : Answer)

/-- One turn of the loop. -/
def step (limit : ℕ) (r : Reader) : Outcome :=
  let token := tokenOf (readline 64 r.rest).1
  let rest := (readline 64 r.rest).2
  if token ≠ [] ∧ token.all isHex = false then .done .malformed
  else if hexValue token = 0 then .done (.body r.buf)
  else if limit < r.total + hexValue token then .done .tooLarge
  else .more ⟨r.total + hexValue token, r.buf ++ rest.take (hexValue token),
    (readline 4 (rest.drop (hexValue token))).2⟩

def loop (limit : ℕ) : ℕ → Reader → Option Answer
  | 0, _ => none
  | fuel + 1, r =>
    match step limit r with
    | .more r' => loop limit fuel r'
    | .done a => some a

def readChunked (limit : ℕ) (stream : List Byte) : Option Answer :=
  loop limit (stream.length + 1) ⟨0, [], stream⟩

/-! ## What is asked -/

/-- The readers a run comes by. -/
inductive Reaches (limit : ℕ) (stream : List Byte) : Reader → Prop
  | start : Reaches limit stream ⟨0, [], stream⟩
  | step {r r' : Reader} : Reaches limit stream r → step limit r = .more r' →
      Reaches limit stream r'

/-- On any stream the loop ends, keeps to the limit, and knows a size line that
is not one. -/
structure Safe (limit : ℕ) (stream : List Byte) : Prop where
  ends : (readChunked limit stream).isSome = true
  bounded : ∀ r, Reaches limit stream r → r.buf.length ≤ limit
  malformed : ∀ r, Reaches limit stream r → tokenOf (readline 64 r.rest).1 ≠ [] →
    (tokenOf (readline 64 r.rest).1).all isHex = false →
    readChunked limit stream = some .malformed

/-- A size line: hexadecimal digits, and extensions after a semicolon. -/
structure SizeLine where
  hex : List Byte
  ext : List Byte
  hex_ne : hex ≠ []
  hex_all : ∀ b ∈ hex, isHex b = true
  ext_start : ext = [] ∨ ∃ blank rest, (∀ b ∈ blank, b = 32 ∨ b = 9) ∧ ext = blank ++ semicolon :: rest
  ext_line : ∀ b ∈ ext, b ≠ cr ∧ b ≠ lf

def SizeLine.bytes (l : SizeLine) : List Byte := l.hex ++ l.ext ++ crlf

def SizeLine.size (l : SizeLine) : ℕ := hexValue l.hex

/-- A chunked encoding but for the data of its chunks. -/
structure Framing where
  lines : List SizeLine
  positive : ∀ l ∈ lines, 0 < l.size
  last : SizeLine
  last_zero : last.size = 0
  trailers : List (List Byte)

namespace Framing

variable (f : Framing)

def Fills (data : List (List Byte)) : Prop :=
  List.Forall₂ (fun (l : SizeLine) (d : List Byte) => d.length = l.size) f.lines data

def chunks (lines : List SizeLine) (data : List (List Byte)) : List Byte :=
  (List.zipWith (fun (l : SizeLine) d => l.bytes ++ d ++ crlf) lines data).flatten

def bytes (data : List (List Byte)) : List Byte :=
  chunks f.lines data ++ (f.last.bytes ++ (f.trailers.flatMap (· ++ crlf) ++ crlf))

end Framing

/-- Every stream that begins with the framing, around whatever data, is decoded. -/
def Decodes (f : Framing) : Prop :=
  ∀ limit data tail, f.Fills data →
    readChunked limit (f.bytes data ++ tail) =
      some (if data.flatten.length ≤ limit then .body data.flatten else .tooLarge)

/-- The size line of every chunk is read whole. -/
def Fits (f : Framing) : Prop := ∀ l ∈ f.lines, l.bytes.length ≤ 64

/-! ## Lines -/

section

variable {limit n : ℕ} {r r' : Reader} {s t hex : List Byte} {l : SizeLine}

theorem isHex_plain : ∀ b : Byte, isHex b = true → isBlank b = false ∧ b ≠ semicolon ∧ b ≠ lf := by
  decide +kernel

theorem isBlank_plain : ∀ b : Byte, isBlank b = true → b ≠ semicolon := by
  decide +kernel

theorem readline_length (n : ℕ) (s : List Byte) :
    (readline n s).1.length + (readline n s).2.length = s.length := by
  induction n generalizing s with
  | zero => simp [readline]
  | succ n ih =>
    cases s with
    | nil => rfl
    | cons b s =>
      rw [readline]
      split
      · simp
        omega
      · have := ih s
        simp only [List.length_cons]
        omega

theorem readline_line (hs : ∀ b ∈ s, b ≠ lf) (hn : s.length < n) :
    readline n (s ++ lf :: t) = (s ++ [lf], t) := by
  induction n generalizing s with
  | zero => omega
  | succ n ih =>
    cases s with
    | nil => simp [readline]
    | cons b s =>
      have hrest := ih (fun c hc => hs c (List.mem_cons_of_mem _ hc)) (by simpa using hn)
      rw [List.cons_append, readline, if_neg (hs b List.mem_cons_self), hrest]
      rfl

theorem readline_long (hs : ∀ b ∈ s, b ≠ lf) : readline s.length (s ++ t) = (s, t) := by
  induction s with
  | nil => rfl
  | cons b s ih =>
    have hrest := ih fun c hc => hs c (List.mem_cons_of_mem _ hc)
    rw [List.length_cons, List.cons_append, readline, if_neg (hs b List.mem_cons_self), hrest]

/-! ## Tokens -/

/-- What may stand behind the digits of a size line. -/
def Behind (t : List Byte) : Prop :=
  ∃ blank rest, (∀ b ∈ blank, isBlank b = true) ∧ (t = blank ∨ t = blank ++ semicolon :: rest)

theorem Behind.take (h : Behind t) (n : ℕ) : Behind (t.take n) := by
  obtain ⟨blank, rest, hblank, rfl | rfl⟩ := h
  · exact ⟨t.take n, rest, fun b hb => hblank b (List.mem_of_mem_take hb), .inl rfl⟩
  · by_cases hn : n ≤ blank.length
    · refine ⟨blank.take n, rest, fun b hb => hblank b (List.mem_of_mem_take hb), .inl ?_⟩
      rw [List.take_append_of_le_length hn]
    · refine ⟨blank, rest.take (n - blank.length - 1), hblank, .inr ?_⟩
      have hpos : n - blank.length = n - blank.length - 1 + 1 := by omega
      rw [List.take_append, List.take_of_length_le (by omega), hpos, List.take_succ_cons]
      rfl

theorem tokenOf_append (hne : hex ≠ []) (hall : ∀ b ∈ hex, isHex b = true) (ht : Behind t) :
    tokenOf (hex ++ t) = hex := by
  have hhead : ∀ b ∈ hex.head?, isBlank b = false := fun b hb =>
    (isHex_plain b (hall b (List.mem_of_head? hb))).1
  have hlast : ∀ b ∈ hex.getLast?, isBlank b = false := fun b hb =>
    (isHex_plain b (hall b (List.mem_of_getLast? hb))).1
  have hsemi : ∀ b ∈ hex, decide (b ≠ semicolon) = true := fun b hb =>
    decide_eq_true (isHex_plain b (hall b hb)).2.1
  obtain ⟨blank, rest, hblank, rfl | rfl⟩ := ht
  · have htake : hex.takeWhile (fun b => b ≠ semicolon) = hex :=
      List.takeWhile_eq_self_iff.mpr hsemi
    rw [tokenOf, Texts.strip_append_of_all hhead hlast hne hblank, htake,
      Texts.strip_eq_self hhead hlast]
  · have hhead' : ∀ b ∈ (hex ++ blank).head?, isBlank b = false := by
      intro b hb
      rw [List.head?_append_of_ne_nil _ hne] at hb
      exact hhead b hb
    obtain ⟨rest', hstrip⟩ := Texts.strip_append_cons (t := rest) hhead' (show isBlank semicolon = false by decide)
    have hsemi' : ∀ b ∈ hex ++ blank, decide (b ≠ semicolon) = true := by
      intro b hb
      rcases List.mem_append.mp hb with hb | hb
      · exact hsemi b hb
      · exact decide_eq_true (isBlank_plain b (hblank b hb))
    rw [tokenOf, ← List.append_assoc, hstrip, Texts.takeWhile_append_cons hsemi' (by simp),
      Texts.strip_append_of_all hhead hlast hne hblank]

theorem SizeLine.behind (l : SizeLine) : Behind (l.ext ++ crlf) := by
  have hcrlf : ∀ b ∈ crlf, isBlank b = true := by simp [isBlank]
  rcases l.ext_start with hnil | ⟨blank, rest, hblank, hext⟩
  · exact ⟨crlf, [], hcrlf, .inl (by rw [hnil]; rfl)⟩
  · refine ⟨blank, rest ++ crlf, fun b hb => ?_, .inr (by rw [hext]; simp)⟩
    rcases hblank b hb with rfl | rfl <;> simp [isBlank]

theorem SizeLine.no_lf (l : SizeLine) : ∀ b ∈ l.hex ++ l.ext ++ [cr], b ≠ lf := by
  intro b hb
  rcases List.mem_append.mp hb with hb | hb
  · rcases List.mem_append.mp hb with hb | hb
    · exact (isHex_plain b (l.hex_all b hb)).2.2
    · exact (l.ext_line b hb).2
  · obtain rfl := List.mem_singleton.mp hb
    decide

theorem SizeLine.bytes_eq (l : SizeLine) : l.bytes = l.hex ++ l.ext ++ [cr] ++ [lf] := by
  simp [SizeLine.bytes]

theorem readline_bytes (h : l.bytes.length ≤ 64) : readline 64 (l.bytes ++ t) = (l.bytes, t) := by
  have hlt : (l.hex ++ l.ext ++ [cr]).length < 64 := by
    have hlen : l.bytes.length = (l.hex ++ l.ext ++ [cr]).length + 1 := by
      rw [l.bytes_eq, List.length_append]
      rfl
    omega
  rw [l.bytes_eq, List.append_assoc (l.hex ++ l.ext ++ [cr])]
  exact readline_line l.no_lf hlt

/-- A line that is longer is cut. -/
theorem readline_cut (h : 64 < l.bytes.length) :
    readline 64 (l.bytes ++ t) = (l.bytes.take 64, l.bytes.drop 64 ++ t) := by
  have hlen : (l.bytes.take 64).length = 64 := by simp; omega
  have hlf : ∀ b ∈ l.bytes.take 64, b ≠ lf := by
    intro b hb
    refine l.no_lf b ?_
    rw [l.bytes_eq] at h hb
    have hle : 64 ≤ (l.hex ++ l.ext ++ [cr]).length := by
      rw [List.length_append, List.length_singleton] at h
      omega
    rw [List.take_append_of_le_length hle] at hb
    exact List.mem_of_mem_take hb
  have hcut := readline_long (t := l.bytes.drop 64 ++ t) hlf
  rwa [hlen, ← List.append_assoc, List.take_append_drop] at hcut

theorem tokenOf_bytes : tokenOf l.bytes = l.hex := by
  rw [SizeLine.bytes, List.append_assoc]
  exact tokenOf_append l.hex_ne l.hex_all l.behind

theorem hexValue_append (s t : List Byte) :
    hexValue (s ++ t) = 16 ^ t.length * hexValue s + hexValue t := by
  have hfold : ∀ (t : List Byte) (n : ℕ), t.foldl (fun n b => 16 * n + hexDigit b) n =
      16 ^ t.length * n + t.foldl (fun n b => 16 * n + hexDigit b) 0 := by
    intro t
    induction t with
    | nil => simp
    | cons b t ih =>
      intro n
      rw [List.foldl_cons, ih, List.foldl_cons, ih (16 * 0 + hexDigit b), List.length_cons, pow_succ]
      ring
  rw [hexValue, List.foldl_append, hfold t]
  rfl

/-- Of a last chunk the beginning is enough. -/
theorem hexValue_take (h : hexValue s = 0) (n : ℕ) : hexValue (s.take n) = 0 := by
  rw [← List.take_append_drop n s, hexValue_append] at h
  have hzero := (Nat.add_eq_zero_iff.mp h).1
  exact (Nat.mul_eq_zero.mp hzero).resolve_left (by positivity)

/-! ## The loop -/

theorem step_cases (h : step limit r = .more r') : ∃ size, 0 < size ∧ r.total + size ≤ limit ∧
    r'.total = r.total + size ∧ r'.buf = r.buf ++ (readline 64 r.rest).2.take size ∧
    r'.rest.length < r.rest.length := by
  unfold step at h
  dsimp only at h
  split at h
  · cases h
  · split at h
    · cases h
    · rename_i hsize
      split at h
      · cases h
      · rename_i hfits
        cases h
        refine ⟨_, Nat.pos_of_ne_zero hsize, not_lt.mp hfits, rfl, rfl, ?_⟩
        have hline : (readline 64 r.rest).1 ≠ [] := by
          intro hnil
          rw [hnil] at hsize
          exact hsize rfl
        have hpos := List.length_pos_iff.mpr hline
        have htotal := readline_length 64 r.rest
        have hend := readline_length 4
          ((readline 64 r.rest).2.drop (hexValue (tokenOf (readline 64 r.rest).1)))
        rw [List.length_drop] at hend
        dsimp only
        omega

theorem loop_mono {fuel fuel' : ℕ} {a : Answer} (h : loop limit fuel r = some a) (hle : fuel ≤ fuel') :
    loop limit fuel' r = some a := by
  induction fuel generalizing fuel' r with
  | zero => cases h
  | succ fuel ih =>
    obtain ⟨fuel', rfl⟩ := Nat.exists_eq_add_of_le' (show 1 ≤ fuel' by omega)
    unfold loop at h ⊢
    split at h
    · exact ih h (by omega)
    · exact h

/-- Every turn takes something off the stream. -/
theorem loop_isSome {fuel : ℕ} (h : r.rest.length < fuel) : (loop limit fuel r).isSome = true := by
  induction fuel generalizing r with
  | zero => omega
  | succ fuel ih =>
    unfold loop
    split
    · rename_i r' hstep
      obtain ⟨-, -, -, -, -, hlt⟩ := step_cases hstep
      exact ih (by omega)
    · rfl

/-- What the loop answers from a reader on. -/
def answer (limit : ℕ) (r : Reader) : Option Answer := loop limit (r.rest.length + 1) r

theorem answer_done {a : Answer} (h : step limit r = .done a) : answer limit r = some a := by
  rw [answer, loop, h]

theorem answer_more (h : step limit r = .more r') : answer limit r = answer limit r' := by
  obtain ⟨-, -, -, -, -, hlt⟩ := step_cases h
  have hends : (loop limit (r'.rest.length + 1) r').isSome = true := loop_isSome (Nat.lt_succ_self _)
  obtain ⟨a, ha⟩ := Option.isSome_iff_exists.mp hends
  rw [answer, loop, h]
  show loop limit r.rest.length r' = loop limit (r'.rest.length + 1) r'
  rw [ha]
  exact loop_mono ha (by omega)

theorem Reaches.answer {stream : List Byte} (h : Reaches limit stream r) :
    readChunked limit stream = answer limit r := by
  induction h with
  | start => rfl
  | step _ hstep ih => rw [ih, answer_more hstep]

theorem Reaches.bounded {stream : List Byte} (h : Reaches limit stream r) :
    r.buf.length ≤ r.total ∧ r.total ≤ limit := by
  induction h with
  | start => exact ⟨le_rfl, Nat.zero_le _⟩
  | @step r r' _ hstep ih =>
    obtain ⟨size, -, hle, htotal, hbuf, -⟩ := step_cases hstep
    rw [hbuf, htotal, List.length_append]
    have htake := List.length_take_le size (readline 64 r.rest).2
    exact ⟨Nat.add_le_add ih.1 htake, hle⟩

theorem safe (limit : ℕ) (stream : List Byte) : Safe limit stream where
  ends := loop_isSome (Nat.lt_succ_self _)
  bounded _ hr := hr.bounded.1.trans hr.bounded.2
  malformed r hr hne hhex := by
    rw [hr.answer]
    refine answer_done ?_
    rw [step, if_pos ⟨hne, hhex⟩]

theorem step_body {bytes : List Byte} (h : step limit r = .done (.body bytes)) : bytes = r.buf := by
  unfold step at h
  dsimp only at h
  split at h
  · cases h
  · split at h
    · cases h
      rfl
    · split at h <;> cases h

/-- What is in the buffer stays at the front of the body. -/
theorem prefix_of_answer {bytes : List Byte} (h : answer limit r = some (.body bytes)) :
    r.buf <+: bytes := by
  have hloop : ∀ fuel (r : Reader), loop limit fuel r = some (.body bytes) → r.buf <+: bytes := by
    intro fuel
    induction fuel with
    | zero =>
      intro r h
      cases h
    | succ fuel ih =>
      intro r h
      unfold loop at h
      split at h
      · rename_i r' hstep
        obtain ⟨size, -, -, -, hbuf, -⟩ := step_cases hstep
        have hrest := ih r' h
        rw [hbuf] at hrest
        exact (List.prefix_append ..).trans hrest
      · rename_i a hstep
        cases h
        rw [step_body hstep]
  exact hloop _ r h

/-! ## Chunks -/

variable {total : ℕ} {buf d rest : List Byte}

theorem step_chunk (hfit : l.bytes.length ≤ 64) (hpos : 0 < l.size) (hd : d.length = l.size) :
    step limit ⟨total, buf, l.bytes ++ d ++ crlf ++ rest⟩ =
      if limit < total + d.length then .done .tooLarge
      else .more ⟨total + d.length, buf ++ d, rest⟩ := by
  have hhex : l.hex.all isHex = true := List.all_eq_true.mpr l.hex_all
  have hline : readline 64 (l.bytes ++ d ++ crlf ++ rest) = (l.bytes, d ++ crlf ++ rest) := by
    rw [List.append_assoc, List.append_assoc, readline_bytes hfit, List.append_assoc]
  have hvalue : hexValue l.hex = d.length := hd.symm
  have hne : d.length ≠ 0 := by omega
  have hdata : (d ++ crlf ++ rest).take d.length = d := by
    rw [List.append_assoc, List.take_left']
    rfl
  have hend : (readline 4 ((d ++ crlf ++ rest).drop d.length)).2 = rest := by
    rw [List.append_assoc, List.drop_left']
    · rfl
    · rfl
  simp only [step, hline, tokenOf_bytes, hhex, hvalue, hdata, hend, Bool.true_eq_false, and_false,
    if_false, if_neg hne]

theorem step_last (hzero : l.size = 0) :
    step limit ⟨total, buf, l.bytes ++ rest⟩ = .done (.body buf) := by
  obtain ⟨hex, t, hne, hall, hvalue, ht, hline⟩ : ∃ hex t, hex ≠ [] ∧ (∀ b ∈ hex, isHex b = true) ∧
      hexValue hex = 0 ∧ Behind t ∧ (readline 64 (l.bytes ++ rest)).1 = hex ++ t := by
    by_cases hfit : l.bytes.length ≤ 64
    · refine ⟨l.hex, l.ext ++ crlf, l.hex_ne, l.hex_all, hzero, l.behind, ?_⟩
      rw [readline_bytes hfit, SizeLine.bytes, List.append_assoc]
    · refine ⟨l.hex.take 64, (l.ext ++ crlf).take (64 - l.hex.length), ?_, ?_, hexValue_take hzero 64,
        l.behind.take _, ?_⟩
      · rw [Ne, List.take_eq_nil_iff]
        simp [l.hex_ne]
      · exact fun b hb => l.hex_all b (List.mem_of_mem_take hb)
      · rw [readline_cut (not_le.mp hfit), SizeLine.bytes, List.append_assoc, List.take_append]
  have htoken := tokenOf_append hne hall ht
  have hhex : hex.all isHex = true := List.all_eq_true.mpr hall
  simp only [step, hline, htoken, hhex, hvalue, Bool.true_eq_false, and_false, if_false, if_true]

theorem chunks_cons (l : SizeLine) (d : List Byte) (lines : List SizeLine) (data : List (List Byte)) :
    Framing.chunks (l :: lines) (d :: data) = l.bytes ++ d ++ crlf ++ Framing.chunks lines data := rfl

/-- Whole size lines bring the reader to what follows the chunks, or over the limit. -/
theorem answer_chunks {lines : List SizeLine} {data : List (List Byte)}
    (hfit : ∀ l ∈ lines, l.bytes.length ≤ 64) (hpos : ∀ l ∈ lines, 0 < l.size)
    (hdata : List.Forall₂ (fun (l : SizeLine) (d : List Byte) => d.length = l.size) lines data)
    (htotal : total ≤ limit) :
    answer limit ⟨total, buf, Framing.chunks lines data ++ rest⟩ =
      if total + data.flatten.length ≤ limit
      then answer limit ⟨total + data.flatten.length, buf ++ data.flatten, rest⟩
      else some .tooLarge := by
  induction hdata generalizing total buf with
  | nil => simp [Framing.chunks, htotal]
  | @cons l d lines data hd hdata ih =>
    have hstep : step limit ⟨total, buf, l.bytes ++ d ++ crlf ++ (Framing.chunks lines data ++ rest)⟩ =
        if limit < total + d.length then .done .tooLarge
        else .more ⟨total + d.length, buf ++ d, Framing.chunks lines data ++ rest⟩ :=
      step_chunk (hfit l List.mem_cons_self) (hpos l List.mem_cons_self) hd
    rw [chunks_cons, List.append_assoc (l.bytes ++ d ++ crlf), List.flatten_cons, List.length_append,
      ← Nat.add_assoc, ← List.append_assoc buf]
    by_cases hover : limit < total + d.length
    · rw [if_pos hover] at hstep
      rw [answer_done hstep, if_neg (by omega)]
    · rw [if_neg hover] at hstep
      rw [answer_more hstep]
      exact ih (fun l hl => hfit l (List.mem_cons_of_mem _ hl))
        (fun l hl => hpos l (List.mem_cons_of_mem _ hl)) (not_lt.mp hover)

theorem decodes_of_fits {f : Framing} (h : Fits f) : Decodes f := by
  intro limit data tail hfills
  show answer limit ⟨0, [], f.bytes data ++ tail⟩ = _
  rw [Framing.bytes, List.append_assoc, answer_chunks h f.positive hfills (Nat.zero_le limit),
    Nat.zero_add]
  split
  · rw [List.nil_append, List.append_assoc]
    exact answer_done (step_last f.last_zero)
  · rfl

/-! ## A line that is cut -/

theorem chunks_append {lines lines' : List SizeLine} {data data' : List (List Byte)}
    (h : lines.length = data.length) : Framing.chunks (lines ++ lines') (data ++ data') =
      Framing.chunks lines data ++ Framing.chunks lines' data' := by
  rw [Framing.chunks, List.zipWith_append h, List.flatten_append]
  rfl

/-- Behind a line that is cut the reader takes the rest of the line for data. -/
theorem answer_cut {body : List Byte} {b : Byte} (hlong : 64 < l.bytes.length)
    (hb : (l.bytes.drop 64).head? ≠ some b) :
    answer limit ⟨total, buf, l.bytes ++ rest⟩ ≠ some (.body (buf ++ b :: body)) := by
  intro h
  cases hstep : step limit ⟨total, buf, l.bytes ++ rest⟩ with
  | done a =>
    rw [answer_done hstep] at h
    cases h
    have hself := congrArg List.length (step_body hstep)
    simp at hself
  | more r' =>
    rw [answer_more hstep] at h
    obtain ⟨size, hpos, -, -, hbuf, -⟩ := step_cases hstep
    obtain ⟨c, cut, hcut⟩ : ∃ c cut, l.bytes.drop 64 = c :: cut := by
      refine List.exists_cons_of_ne_nil fun hnil => ?_
      have hlen := congrArg List.length hnil
      rw [List.length_drop, List.length_nil] at hlen
      omega
    have hfront := prefix_of_answer h
    obtain ⟨size, rfl⟩ := Nat.exists_eq_add_of_le' hpos
    rw [hbuf, readline_cut hlong, List.prefix_append_right_inj, hcut, List.cons_append,
      List.take_succ_cons, List.cons_prefix_cons] at hfront
    rw [hcut, hfront.1] at hb
    exact hb rfl

theorem fits_of_decodes {f : Framing} (h : Decodes f) : Fits f := by
  by_contra hnot
  obtain ⟨before, l, after, hlines, hbefore, hlong⟩ : ∃ before l after,
      f.lines = before ++ l :: after ∧ (∀ l ∈ before, l.bytes.length ≤ 64) ∧ 64 < l.bytes.length := by
    set fits : SizeLine → Bool := fun l => l.bytes.length ≤ 64
    obtain ⟨l, after, hafter⟩ : ∃ l after, f.lines.dropWhile fits = l :: after := by
      refine List.exists_cons_of_ne_nil fun hnil => hnot fun l hl => ?_
      simpa [fits] using List.dropWhile_eq_nil_iff.mp hnil l hl
    refine ⟨f.lines.takeWhile fits, l, after, ?_, fun l hl => ?_, ?_⟩
    · rw [← hafter, List.takeWhile_append_dropWhile]
    · simpa [fits] using List.mem_takeWhile_imp hl
    · have hhead := List.head?_dropWhile_not fits f.lines
      rw [hafter] at hhead
      simpa [fits] using hhead
  -- the data differ from what is left of the line
  obtain ⟨b, hb⟩ : ∃ b : Byte, (l.bytes.drop 64).head? ≠ some b := by
    cases (l.bytes.drop 64).head? with
    | none => exact ⟨0, by simp⟩
    | some c =>
      refine ⟨c + 1, fun heq => ?_⟩
      have hne : ∀ c : Byte, c ≠ c + 1 := by decide +kernel
      exact hne c (Option.some.inj heq)
  set fill : SizeLine → List Byte := fun l => List.replicate l.size b
  have hfills : ∀ lines : List SizeLine, List.Forall₂
      (fun (l : SizeLine) (d : List Byte) => d.length = l.size) lines (lines.map fill) := by
    intro lines
    rw [List.forall₂_map_right_iff, List.forall₂_same]
    exact fun l _ => List.length_replicate
  have hrun := h ((f.lines.map fill).flatten.length) (f.lines.map fill) [] (hfills f.lines)
  rw [if_pos le_rfl] at hrun
  have hpos : 0 < l.size := f.positive l (by simp [hlines])
  have hstart : answer (f.lines.map fill).flatten.length ⟨0, [], f.bytes (f.lines.map fill) ++ []⟩ =
      some (.body (f.lines.map fill).flatten) := hrun
  have hbody : (f.lines.map fill).flatten =
      (before.map fill).flatten ++ b :: (List.replicate (l.size - 1) b ++ (after.map fill).flatten) := by
    obtain ⟨size, hsize⟩ := Nat.exists_eq_add_of_le' hpos
    simp [hlines, fill, hsize, List.replicate_succ]
  have hbytes : Framing.chunks f.lines (f.lines.map fill) = Framing.chunks before (before.map fill) ++
      (l.bytes ++ fill l ++ crlf ++ Framing.chunks after (after.map fill)) := by
    rw [hlines, List.map_append, chunks_append (by simp)]
    rfl
  rw [Framing.bytes, hbytes, List.append_assoc, List.append_assoc, answer_chunks hbefore
    (fun l hl => f.positive l (by simp [hlines, hl])) (hfills before) (Nat.zero_le _), hbody,
    if_pos (by simp)] at hstart
  simp only [List.append_assoc, List.nil_append] at hstart
  exact answer_cut hlong hb hstart

/-- Every stream that begins with a framing is decoded exactly if the size line
of every chunk is at most 64 bytes; on any stream the loop ends, keeps to the
limit, and knows a size line that is not one. -/
theorem decodes_iff (f : Framing) : (Decodes f ↔ Fits f) ∧ ∀ limit stream, Safe limit stream :=
  ⟨⟨fits_of_decodes, decodes_of_fits⟩, safe⟩

/-- One chunk of one byte, with an extension of 65 bytes. -/
def wide : Framing where
  lines := [⟨[49], semicolon :: List.replicate 64 97, by simp, by decide +kernel,
    .inr ⟨[], List.replicate 64 97, by simp, rfl⟩, by decide +kernel⟩]
  positive := by
    intro l hl
    obtain rfl := List.mem_singleton.mp hl
    exact Nat.one_pos
  last := ⟨[48], [], by simp, by decide +kernel, .inl rfl, by simp⟩
  last_zero := rfl
  trailers := []

theorem wide_malformed : ¬ ∀ f, Decodes f := by
  intro h
  have hrun := h wide 8 [[120]] [] (.cons rfl .nil)
  have hanswer : readChunked 8 (wide.bytes [[120]] ++ []) = some .malformed := by decide +kernel
  rw [hanswer] at hrun
  cases hrun

end

/-! ## Declared lengths -/

/-- `sys.get_int_max_str_digits()`: past it `int` and `str` raise. -/
abbrev maxStrDigits : ℕ := 4300

/-- A limit is read by `int` from the environment, so `str` takes it too. -/
structure Limit where
  value : ℕ
  digits_le : (Nat.toDigits 10 value).length ≤ maxStrDigits

/-- A ValueError. -/
inductive Raised
  | digits
  deriving DecidableEq

/-- `int(digits)`. -/
def int (digits : List Char) : Except Raised ℕ :=
  if maxStrDigits < digits.length then .error .digits else .ok (Nat.ofDigitChars 10 digits 0)

/-- `str(n)`. -/
def str (n : ℕ) : Except Raised (List Char) :=
  if maxStrDigits < (Nat.toDigits 10 n).length then .error .digits else .ok (Nat.toDigits 10 n)

/-- `raw.isascii() and raw.isdigit()`. -/
def isDigits (raw : List Char) : Bool := !raw.isEmpty && raw.all fun c => '0' ≤ c ∧ c ≤ '9'

/-- `raw.lstrip("0") or "0"`. -/
def significant (raw : List Char) : List Char :=
  let digits := raw.dropWhile fun c => c = '0'
  if digits.isEmpty then ['0'] else digits

/-- What the headers come to: an answer, or a text that is still to be converted. -/
inductive Reading
  | answer (n : Option ℕ)
  | convert (digits : List Char)
  deriving DecidableEq

def reading (limit : ℕ) (declared : List (List Char)) : Except Raised Reading :=
  if declared.isEmpty then .ok (.answer (some 0))
  else
    match (declared.map (Texts.strip Texts.isSpace)).dedup with
    | [raw] =>
      if isDigits raw then do
        let width ← str limit
        if width.length < (significant raw).length then .ok (.answer (some (limit + 1)))
        else .ok (.convert (significant raw))
      else .ok (.answer none)
    | _ => .ok (.answer none)

def declaredLength (limit : ℕ) (declared : List (List Char)) : Except Raised (Option ℕ) := do
  match ← reading limit declared with
  | .answer n => .ok n
  | .convert digits => some <$> int digits

/-- All the values, stripped, are this one text of digits. -/
def Denotes (declared : List (List Char)) (digits : List Char) : Prop :=
  isDigits digits = true ∧ ∀ v ∈ declared, Texts.strip Texts.isSpace v = digits

structure Parsed (limit : Limit) (declared : List (List Char)) : Prop where
  total : ∃ n, declaredLength limit.value declared = .ok n
  absent : declared = [] → declaredLength limit.value declared = .ok (some 0)
  malformed : declared ≠ [] → (declaredLength limit.value declared = .ok none ↔
    ¬ ∃ digits, Denotes declared digits)
  counted : declared ≠ [] → ∀ digits, Denotes declared digits → ∃ v,
    declaredLength limit.value declared = .ok (some v) ∧
      (Nat.ofDigitChars 10 digits 0 ≤ limit.value → v = Nat.ofDigitChars 10 digits 0) ∧
      (limit.value < Nat.ofDigitChars 10 digits 0 → limit.value < v)
  converted : ∀ digits, reading limit.value declared = .ok (.convert digits) →
    digits.length ≤ (Nat.toDigits 10 limit.value).length

section

variable {limit : Limit} {raw cs : List Char} {c : Char}

theorem str_limit (limit : Limit) : str limit.value = .ok (Nat.toDigits 10 limit.value) :=
  if_neg (not_lt.mpr limit.digits_le)

theorem le_ofDigitChars (hc : '0' < c) : 10 ^ cs.length ≤ Nat.ofDigitChars 10 (c :: cs) 0 := by
  rw [Nat.ofDigitChars_cons, Nat.ofDigitChars_eq_ofDigitChars_zero]
  have hdigit : 1 ≤ c.toNat - '0'.toNat := by
    have hlt : '0'.toNat < c.toNat := hc
    omega
  calc 10 ^ cs.length = 10 ^ cs.length * 1 := (Nat.mul_one _).symm
    _ ≤ 10 ^ cs.length * (10 * 0 + (c.toNat - '0'.toNat)) := Nat.mul_le_mul_left _ (by omega)
    _ ≤ _ := Nat.le_add_right ..

/-- Leading zeros do not count. -/
theorem ofDigitChars_dropWhile (raw : List Char) :
    Nat.ofDigitChars 10 (raw.dropWhile fun c => c = '0') 0 = Nat.ofDigitChars 10 raw 0 := by
  induction raw with
  | nil => rfl
  | cons c cs ih =>
    rw [List.dropWhile_cons]
    split
    · rename_i hc
      obtain rfl : c = '0' := by simpa using hc
      rw [ih, Nat.ofDigitChars_cons]
      rfl
    · rfl

theorem ofDigitChars_significant (raw : List Char) :
    Nat.ofDigitChars 10 (significant raw) 0 = Nat.ofDigitChars 10 raw 0 := by
  rw [← ofDigitChars_dropWhile raw, significant]
  split
  · rename_i hnil
    rw [List.isEmpty_iff.mp hnil]
    rfl
  · rfl

/-- More digits than the limit has are more than the limit. -/
theorem limit_lt (hraw : isDigits raw = true)
    (hlen : (Nat.toDigits 10 limit.value).length < (significant raw).length) :
    limit.value < Nat.ofDigitChars 10 raw 0 := by
  have hpos : 0 < (Nat.toDigits 10 limit.value).length := Nat.length_toDigits_pos
  have hdigits : ∀ d ∈ raw, '0' ≤ d := by
    intro d hd
    have hall := List.all_eq_true.mp (Bool.and_eq_true_iff.mp hraw).2 d hd
    exact (of_decide_eq_true hall).1
  rw [← ofDigitChars_significant]
  have hlt : limit.value < 10 ^ (Nat.toDigits 10 limit.value).length :=
    (Nat.length_toDigits_le_iff (by omega) hpos).mp le_rfl
  cases hsig : raw.dropWhile fun c => c = '0' with
  | nil =>
    rw [significant, hsig] at hlen
    have hone : (if ([] : List Char).isEmpty then ['0'] else []).length = 1 := rfl
    omega
  | cons c cs =>
    have hkept : significant raw = c :: cs := by
      rw [significant, hsig]
      rfl
    have hc : c ∈ raw := (List.dropWhile_sublist _).mem (hsig ▸ List.mem_cons_self)
    have hne : c ≠ '0' := by
      have hhead := List.head?_dropWhile_not (fun c => decide (c = '0')) raw
      rw [hsig] at hhead
      simpa using hhead
    rw [hkept, List.length_cons] at hlen
    rw [hkept]
    calc limit.value < 10 ^ (Nat.toDigits 10 limit.value).length := hlt
      _ ≤ 10 ^ cs.length := Nat.pow_le_pow_right (by omega) (by omega)
      _ ≤ _ := le_ofDigitChars (lt_of_le_of_ne (hdigits c hc) hne.symm)

/-! ## One value -/

theorem dedup_of_denotes {declared : List (List Char)} (hne : declared ≠ [])
    (h : ∀ v ∈ declared, Texts.strip Texts.isSpace v = raw) :
    (declared.map (Texts.strip Texts.isSpace)).dedup = [raw] := by
  have hmap : declared.map (Texts.strip Texts.isSpace) = List.replicate declared.length raw := by
    rw [List.eq_replicate_iff]
    refine ⟨List.length_map .., fun v hv => ?_⟩
    obtain ⟨u, hu, rfl⟩ := List.mem_map.mp hv
    exact h u hu
  rw [hmap, List.replicate_dedup (List.length_pos_iff.mpr hne).ne']

theorem denotes_of_dedup {declared : List (List Char)}
    (h : (declared.map (Texts.strip Texts.isSpace)).dedup = [raw]) :
    ∀ v ∈ declared, Texts.strip Texts.isSpace v = raw := by
  intro v hv
  have hmem : Texts.strip Texts.isSpace v ∈ (declared.map (Texts.strip Texts.isSpace)).dedup :=
    List.mem_dedup.mpr (List.mem_map_of_mem hv)
  rw [h] at hmem
  exact List.mem_singleton.mp hmem

theorem reading_of_denotes {declared : List (List Char)} (hne : declared ≠ [])
    (h : Denotes declared raw) : reading limit.value declared =
      if (Nat.toDigits 10 limit.value).length < (significant raw).length
      then .ok (.answer (some (limit.value + 1))) else .ok (.convert (significant raw)) := by
  have hsome : declared.isEmpty = false := by simpa using hne
  simp only [reading, hsome, Bool.false_eq_true, if_false, dedup_of_denotes hne h.2, h.1, if_true,
    str_limit]
  rfl

theorem reading_of_not {declared : List (List Char)} (hne : declared ≠ [])
    (h : ¬ ∃ digits, Denotes declared digits) : reading limit.value declared = .ok (.answer none) := by
  have hsome : declared.isEmpty = false := by simpa using hne
  simp only [reading, hsome, Bool.false_eq_true, if_false]
  split
  · rename_i raw hraw
    have hnot : ¬ isDigits raw = true := fun hdigits => h ⟨raw, hdigits, denotes_of_dedup hraw⟩
    rw [if_neg hnot]
  · rfl

theorem declaredLength_of_denotes {declared : List (List Char)} (hne : declared ≠ [])
    (h : Denotes declared raw) : declaredLength limit.value declared =
      if (Nat.toDigits 10 limit.value).length < (significant raw).length
      then .ok (some (limit.value + 1)) else .ok (some (Nat.ofDigitChars 10 raw 0)) := by
  rw [declaredLength, reading_of_denotes hne h]
  split
  · rfl
  · rename_i hlen
    have hint : int (significant raw) = .ok (Nat.ofDigitChars 10 raw 0) := by
      have hle := limit.digits_le
      rw [int, if_neg (by omega), ofDigitChars_significant]
    show some <$> int (significant raw) = _
    rw [hint]
    rfl

/-- Declared lengths are parsed as they should. -/
theorem declaredLength_parsed (limit : Limit) (declared : List (List Char)) : Parsed limit declared := by
  have hnone : declared ≠ [] → ¬ (∃ digits, Denotes declared digits) →
      declaredLength limit.value declared = .ok none := by
    intro hne hnot
    rw [declaredLength, reading_of_not hne hnot]
    rfl
  have hcounted : declared ≠ [] → ∀ digits, Denotes declared digits → ∃ v,
      declaredLength limit.value declared = .ok (some v) ∧
        (Nat.ofDigitChars 10 digits 0 ≤ limit.value → v = Nat.ofDigitChars 10 digits 0) ∧
        (limit.value < Nat.ofDigitChars 10 digits 0 → limit.value < v) := by
    intro hne digits h
    rw [declaredLength_of_denotes hne h]
    split
    · rename_i hlen
      have hlt := limit_lt h.1 hlen
      exact ⟨_, rfl, fun hle => absurd hlt (not_lt.mpr hle), fun _ => Nat.lt_succ_self _⟩
    · exact ⟨_, rfl, fun _ => rfl, id⟩
  have habsent : declared = [] → declaredLength limit.value declared = .ok (some 0) := by
    rintro rfl
    rfl
  refine ⟨?_, habsent, fun hne => ⟨fun h hex => ?_, hnone hne⟩, hcounted, fun digits h => ?_⟩
  · by_cases hnil : declared = []
    · exact ⟨_, habsent hnil⟩
    · by_cases hex : ∃ digits, Denotes declared digits
      · obtain ⟨digits, h⟩ := hex
        obtain ⟨v, hv, -⟩ := hcounted hnil digits h
        exact ⟨_, hv⟩
      · exact ⟨_, hnone hnil hex⟩
  · obtain ⟨digits, hd⟩ := hex
    obtain ⟨v, hv, -⟩ := hcounted hne digits hd
    rw [hv] at h
    cases h
  · by_cases hnil : declared = []
    · subst hnil
      cases h
    · by_cases hex : ∃ digits, Denotes declared digits
      · obtain ⟨raw, hraw⟩ := hex
        rw [reading_of_denotes hnil hraw] at h
        split at h
        · cases h
        · rename_i hlen
          cases h
          exact not_lt.mp hlen
      · rw [reading_of_not hnil hex] at h
        cases h

end

end MlopsLite.HostAgent.RequestBody
