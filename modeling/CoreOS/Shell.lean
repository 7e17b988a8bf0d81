/-
The shell's line tokenizer (`user/shell.c`): words unquoted and expanded in place, in
the buffer the rest of the line is still to be read from.
-/
import CoreOS.Tty
import Mathlib.Data.List.Forall2

namespace CoreOS

open ByteMem

/-- The contents of a `char` array of `size` bytes: a NUL-terminated string. -/
structure CString (size : Nat) where
  bytes : List Byte
  noNul : 0 ∉ bytes
  fits : bytes.length < size

/-- `struct shell_var`. -/
structure ShellVar where
  used : Bool
  name : CString 32
  value : CString 128

/-- `shell_vars` and `last_status`. -/
structure Shell where
  vars : List ShellVar
  slots : vars.length = 16
  lastStatus : BitVec 32

def isBlank (b : Byte) : Bool := b = 0x20 || b = 0x09

def isQuote (b : Byte) : Bool := b = 0x27 || b = 0x22

/-! ## The code -/

/-- The string at `p` against a string elsewhere, up to the first difference or the NUL. -/
def streq (m : Mem) : Nat → List Byte → Bool
  | p, [] => m p = 0
  | p, c :: cs => m p = c && streq m (p + 1) cs

def strlcpyLocal (m : Mem) (dst : Nat) (src : List Byte) (dstLen : Nat) : Mem :=
  if dstLen ≠ 0 then
    let copy := if src.length < dstLen - 1 then src.length else dstLen - 1
    store (store m dst (src.take copy)) (dst + copy) [0]
  else m

def Shell.findVar (sh : Shell) (m : Mem) (name : Nat) : Option ShellVar :=
  sh.vars.find? fun v => v.used && streq m name v.name.bytes

def Shell.getVar (sh : Shell) (m : Mem) (name : Nat) : List Byte :=
  ((sh.findVar m name).map fun v => v.value.bytes).getD []

/-- The `digits` array, lowest digit first. -/
def statusDigits : Nat → Int → List Byte
  | 0, _ => []
  | d + 1, value =>
    if 0 < value then BitVec.ofNat 8 (0x30 + (value % 10).toNat) :: statusDigits d (value / 10) else []

/-- What `expand_token` writes for the status. At `INT_MIN` the negation is undefined
in C; it wraps here. -/
def statusText (status : BitVec 32) : List Byte :=
  if status = 0 then [0x30]
  else if status.toInt < 0 then 0x2d :: (statusDigits 12 (-status).toInt).reverse
  else (statusDigits 12 status.toInt).reverse

def Shell.expandToken (sh : Shell) (m : Mem) (token : Nat) : Mem :=
  if m token ≠ 0x24 then m
  else if streq m token [0x24, 0x3f] then strlcpyLocal m token (statusText sh.lastStatus) 128
  else strlcpyLocal m token (sh.getVar m (token + 1)) 128

def skipBlanks : Nat → Mem → Nat → Option Nat
  | 0, _, _ => none
  | fuel + 1, m, src => if isBlank (m src) then skipBlanks fuel m (src + 1) else some src

/-- The loop over one word: the memory, `src` and `dst` after it. -/
def lexLoop : Nat → Mem → Nat → Nat → Byte → Option (Mem × Nat × Nat)
  | 0, _, _, _, _ => none
  | fuel + 1, m, src, dst, quote =>
    if m src = 0 then some (m, src, dst)
    else if quote = 0 ∧ isBlank (m src) then some (m, src, dst)
    else if isQuote (m src) ∧ quote = 0 then lexLoop fuel m (src + 1) dst (m src)
    else if isQuote (m src) ∧ quote = m src then lexLoop fuel m (src + 1) dst 0
    else
      let src := if m src = 0x5c ∧ m (src + 1) ≠ 0 then src + 1 else src
      lexLoop fuel (store m dst [m src]) (src + 1) (dst + 1) quote

/-- A word from its first byte on: unquoted, terminated and expanded, and the byte after
it cleared. -/
def Shell.tokenizeWord (sh : Shell) (fuel : Nat) (m : Mem) (src : Nat) : Option (Mem × Nat) :=
  (lexLoop fuel m src src 0).map fun r =>
    let m := sh.expandToken (store r.1 r.2.2 [0]) src
    if m r.2.1 ≠ 0 then (store m r.2.1 [0], r.2.1 + 1) else (m, r.2.1)

/-- The rounds of `tokenize` with `room` entries of `argv` left: the entries stored, and
the memory. -/
def Shell.tokenizeLoop (sh : Shell) (fuel : Nat) : Nat → Mem → Nat → Option (List Nat × Mem)
  | 0, m, _ => some ([], m)
  | room + 1, m, src =>
    if m src = 0 then some ([], m)
    else (skipBlanks fuel m src).bind fun p =>
      if m p = 0 then some ([], m)
      else (sh.tokenizeWord fuel m p).bind fun w =>
        (sh.tokenizeLoop fuel room w.1 w.2).map fun r => (p :: r.1, r.2)

/-- The line is at address 0; `MAX_ARGS` is 16. -/
def Shell.tokenize (sh : Shell) (fuel : Nat) (m : Mem) : Option (List Nat × Mem) :=
  sh.tokenizeLoop fuel (16 - 1) m 0

/-! ## The words of a line -/

/-- A word without its quotes and escapes, and what follows it. -/
def lexWord : Byte → List Byte → List Byte × List Byte
  | _, [] => ([], [])
  | quote, c :: cs =>
    if quote = 0 ∧ isBlank c then ([], c :: cs)
    else if isQuote c ∧ quote = 0 then lexWord c cs
    else if isQuote c ∧ quote = c then lexWord 0 cs
    else if c = 0x5c then
      match cs with
      | [] => ([c], [])
      | d :: ds => (d :: (lexWord quote ds).1, (lexWord quote ds).2)
    else (c :: (lexWord quote cs).1, (lexWord quote cs).2)

/-- A word of the line: the bytes it takes up there, and its text. -/
structure RawWord where
  span : Nat
  text : List Byte
  deriving DecidableEq

def rawWords : Nat → List Byte → List RawWord
  | 0, _ => []
  | n + 1, line =>
    match line.dropWhile isBlank with
    | [] => []
    | c :: cs =>
      ⟨(c :: cs).length - (lexWord 0 (c :: cs)).2.length, (lexWord 0 (c :: cs)).1⟩ ::
        rawWords n (lexWord 0 (c :: cs)).2.tail

/-- The number in decimal. -/
def decimal (v : Int) : List Byte :=
  (if v < 0 then [0x2d] else []) ++ (Nat.toDigits 10 v.natAbs).map fun c => BitVec.ofNat 8 c.toNat

def Shell.value (sh : Shell) (name : List Byte) : List Byte :=
  ((sh.vars.find? fun v => v.used && decide (v.name.bytes = name)).map fun v => v.value.bytes).getD []

/-- A word's expansion, where `status` stands for the last status. -/
def Shell.expandWith (sh : Shell) (status word : List Byte) : List Byte :=
  if word.head? = some 0x24 then if word = [0x24, 0x3f] then status else sh.value word.tail else word

def Shell.expand (sh : Shell) (word : List Byte) : List Byte := sh.expandWith (decimal sh.lastStatus.toInt) word

/-- The words of the line, at most 15 of them, expanded. -/
def Shell.words (sh : Shell) (line : List Byte) : List (List Byte) :=
  (rawWords 15 line).map fun w => sh.expand w.text

/-- The string `w` is at `p`. -/
structure Str (m : Mem) (p : Nat) (w : List Byte) : Prop where
  noNul : 0 ∉ w
  reads : ∀ i, i ≤ w.length → m (p + i) = w.getD i 0

/-- `tokenize` returns, `argv` holds the words of the line in order, and no byte outside
the line's buffer has changed. -/
def Shell.Splits (sh : Shell) (m : Mem) (line : List Byte) : Prop :=
  ∃ fuel argv m', sh.tokenize fuel m = some (argv, m') ∧ List.Forall₂ (Str m') argv (sh.words line) ∧
    ∀ x, 256 ≤ x → m' x = m x

/-- Every word leaves room in its own span: the terminators of the text and of the
expansion fall inside it, for the last word just behind it at most. `- INT_MIN` is no
status to print. -/
def Shell.Fits (sh : Shell) : List RawWord → Prop
  | [] => True
  | w :: ws =>
    (sh.expand w.text).length ≤ w.span ∧ (w.text = [0x24, 0x3f] → sh.lastStatus ≠ BitVec.intMin 32) ∧
      (ws ≠ [] → w.text.length < w.span ∧ (sh.expand w.text).length < w.span) ∧ sh.Fits ws

/-! ## Strings in memory -/

namespace Str

variable {m m' : Mem} {p : Nat} {c : Byte} {w w' cs : List Byte}

theorem nil_iff : Str m p [] ↔ m p = 0 := by
  constructor
  · exact fun h => h.reads 0 (Nat.le_refl _)
  · intro h
    refine ⟨List.not_mem_nil, fun i hi => ?_⟩
    obtain rfl : i = 0 := by simpa using hi
    exact h

theorem cons_iff : Str m p (c :: cs) ↔ m p = c ∧ c ≠ 0 ∧ Str m (p + 1) cs := by
  constructor
  · intro h
    have hnul := h.noNul
    rw [List.mem_cons, not_or] at hnul
    refine ⟨h.reads 0 (Nat.zero_le _), fun hc => hnul.1 hc.symm, hnul.2, fun i hi => ?_⟩
    have := h.reads (i + 1) (by simpa using hi)
    rwa [show p + (i + 1) = p + 1 + i by omega] at this
  · rintro ⟨hp, hc, hcs⟩
    refine ⟨by simpa using ⟨fun h => hc h.symm, hcs.noNul⟩, fun i hi => ?_⟩
    cases i with
    | zero => exact hp
    | succ i =>
      have := hcs.reads i (by simpa using hi)
      rwa [show p + 1 + i = p + (i + 1) by omega] at this

theorem unique (h : Str m p w) (h' : Str m p w') : w = w' := by
  induction w generalizing p w' with
  | nil =>
    cases w' with
    | nil => rfl
    | cons c cs => exact absurd (nil_iff.mp h) (by rw [(cons_iff.mp h').1]; exact (cons_iff.mp h').2.1)
  | cons c cs ih =>
    obtain ⟨hp, hc, hcs⟩ := cons_iff.mp h
    cases w' with
    | nil => exact absurd (nil_iff.mp h') (by rwa [hp])
    | cons d ds =>
      obtain ⟨hp', _, hds⟩ := cons_iff.mp h'
      rw [← hp, ← hp', ih hcs hds]

theorem suffix (h : Str m p (w ++ w')) : Str m (p + w.length) w' := by
  induction w generalizing p with
  | nil => exact h
  | cons c cs ih =>
    have := ih (cons_iff.mp h).2.2
    rwa [show p + 1 + cs.length = p + (c :: cs).length by simp; omega] at this

theorem congr (h : Str m p w) (hm : ∀ x, p ≤ x → x ≤ p + w.length → m' x = m x) : Str m' p w :=
  ⟨h.noNul, fun i hi => (hm _ (by omega) (by omega)).trans (h.reads i hi)⟩

theorem streq_iff (hw : 0 ∉ w) : streq m p w = true ↔ Str m p w := by
  induction w generalizing p with
  | nil => simp [streq, nil_iff]
  | cons c cs ih =>
    rw [List.mem_cons, not_or] at hw
    have hc : c ≠ 0 := fun e => hw.1 e.symm
    rw [streq, cons_iff, Bool.and_eq_true, decide_eq_true_iff, ih hw.2, and_iff_right hc]

theorem streq_eq (h : Str m p w) (hw : 0 ∉ w') : streq m p w' = decide (w' = w) := by
  rw [Bool.eq_iff_iff, streq_iff hw, decide_eq_true_iff]
  exact ⟨fun h' => h'.unique h, fun e => e ▸ h⟩

theorem of_store (hw : 0 ∉ w) : Str (store m p (w ++ [0])) p w := by
  refine ⟨hw, fun i hi => ?_⟩
  simp only [store, if_pos (Nat.le_add_right p i), Nat.add_sub_cancel_left]
  by_cases hlt : i < w.length
  · rw [List.getD_append _ _ _ _ hlt]
    simp [hlt]
  · obtain rfl : i = w.length := by omega
    simp

theorem store_eq (h : Str m p w) : store m p (w ++ [0]) = m := by
  funext x
  by_cases hx : p ≤ x ∧ x ≤ p + w.length
  · obtain ⟨i, rfl⟩ : ∃ i, x = p + i := ⟨x - p, by omega⟩
    exact ((of_store h.noNul).reads i (by omega)).trans (h.reads i (by omega)).symm
  · exact store_out (by simp only [List.length_append, List.length_singleton]; omega)

/-- A string cut off after `n` bytes. -/
theorem of_stores {n : Nat} (hw : 0 ∉ w) :
    Str (store (store m p (w ++ [0])) (p + n) [0]) p (w.take n) := by
  refine ⟨fun h => hw (List.mem_of_mem_take h), fun i hi => ?_⟩
  rw [List.length_take] at hi
  by_cases hn : i < n
  · rw [store_out (.inl (by omega)), (of_store hw).reads i (by omega)]
    simp [List.getD_eq_getElem?_getD, hn]
  · obtain rfl : i = n := by omega
    simp [store, List.getD_eq_getElem?_getD]

/-- Behind two strings written over each other nothing changes. -/
theorem over_out {x : Nat} (h : x < p ∨ p + w.length < x) (h' : x < p ∨ p + w'.length < x) :
    store (store m p (w ++ [0])) p (w' ++ [0]) x = m x := by
  rw [store_out (by rw [List.length_append, List.length_singleton]; omega),
    store_out (by rw [List.length_append, List.length_singleton]; omega)]

theorem over_end {n : Nat} (hw : 0 ∉ w) (hw' : 0 ∉ w') (hle : w.length ≤ n) (hle' : w'.length ≤ n)
    (h : ¬(w.length < n ∧ w'.length < n)) : store (store m p (w ++ [0])) p (w' ++ [0]) (p + n) = 0 := by
  rcases Nat.lt_or_eq_of_le hle' with hlt | rfl
  · obtain rfl : w.length = n := by omega
    rw [store_out (.inr (by rw [List.length_append, List.length_singleton]; omega))]
    exact ((of_store hw).reads _ (Nat.le_refl _)).trans (by simp)
  · exact ((of_store hw').reads _ (Nat.le_refl _)).trans (by simp)

end Str

theorem store_nul {m : Mem} {x : Nat} (h : m x = 0) : store m x [0] = m := by
  funext y
  by_cases hy : y = x
  · rw [hy, h]
    simp [store]
  · exact store_out (by rw [List.length_singleton]; omega)

/-! ## What one round does -/

theorem isBlank_zero : isBlank 0 = false := by decide

theorem skipBlanks_str {fuel : Nat} {m : Mem} {src : Nat} {line : List Byte} (h : Str m src line) :
    (skipBlanks fuel m src = none ∧ fuel ≤ line.length) ∨
      skipBlanks fuel m src = some (src + (line.takeWhile isBlank).length) := by
  induction fuel generalizing src line with
  | zero => exact .inl ⟨rfl, Nat.zero_le _⟩
  | succ fuel ih =>
    cases line with
    | nil => exact .inr (by rw [skipBlanks, Str.nil_iff.mp h, isBlank_zero]; rfl)
    | cons c cs =>
      obtain ⟨hc, -, hcs⟩ := Str.cons_iff.mp h
      rw [skipBlanks, hc]
      by_cases hb : isBlank c = true
      · simp only [hb, if_true, List.takeWhile_cons, List.length_cons]
        obtain ⟨hnone, hle⟩ | hsome := ih hcs
        · exact .inl ⟨hnone, by omega⟩
        · exact .inr (by rw [hsome]; congr 1; omega)
      · exact .inr (by simp [hb])

/-- What is read of a word, quotes and escapes with it, and what follows it. -/
theorem lexWord_raw (quote : Byte) (line : List Byte) :
    ∃ raw, line = raw ++ (lexWord quote line).2 ∧ (lexWord quote line).1.Sublist raw := by
  fun_induction lexWord quote line with
  | case1 => exact ⟨[], rfl, .slnil⟩
  | case2 => exact ⟨[], rfl, .slnil⟩
  | case3 _ c _ _ _ ih | case4 _ c _ _ _ _ ih | case7 _ c _ _ _ _ _ ih =>
    obtain ⟨raw, hraw, hsub⟩ := ih
    exact ⟨c :: raw, by rw [List.cons_append, ← hraw], by first | exact hsub.cons _ | exact hsub.cons_cons _⟩
  | case5 => exact ⟨_, (List.append_nil _).symm, .refl _⟩
  | case6 _ d _ _ _ _ ih =>
    obtain ⟨raw, hraw, hsub⟩ := ih
    exact ⟨0x5c :: d :: raw, by rw [List.cons_append, List.cons_append, ← hraw], (hsub.cons_cons _).cons _⟩

theorem lexWord_cons {quote c : Byte} {cs : List Byte} : lexWord quote (c :: cs) =
    if quote = 0 ∧ isBlank c then ([], c :: cs)
    else if isQuote c ∧ quote = 0 then lexWord c cs
    else if isQuote c ∧ quote = c then lexWord 0 cs
    else if c = 0x5c ∧ cs ≠ [] then (cs.take 1 ++ (lexWord quote cs.tail).1, (lexWord quote cs.tail).2)
    else (c :: (lexWord quote cs).1, (lexWord quote cs).2) := by
  rw [lexWord.eq_def]
  cases cs <;> by_cases hc : c = 0x5c <;> simp [hc, lexWord]

/-- The word in `line` is read to its end, its text from `dst` on. -/
def Lexed (fuel : Nat) (m : Mem) (src dst : Nat) (quote : Byte) (line : List Byte) : Prop :=
  (lexLoop fuel m src dst quote = none ∧ fuel ≤ line.length) ∨
    lexLoop fuel m src dst quote = some (store m dst (lexWord quote line).1,
      src + (line.length - (lexWord quote line).2.length), dst + (lexWord quote line).1.length)

/-- A turn that reads `pre` and copies `out`. -/
theorem Lexed.turn {fuel : Nat} {m : Mem} {src dst : Nat} {quote q : Byte} {rest : List Byte}
    (pre out : List Byte) (hpre : 0 < pre.length)
    (hword : lexWord quote (pre ++ rest) = (out ++ (lexWord q rest).1, (lexWord q rest).2))
    (hloop : lexLoop (fuel + 1) m src dst quote =
      lexLoop fuel (store m dst out) (src + pre.length) (dst + out.length) q)
    (ih : Lexed fuel (store m dst out) (src + pre.length) (dst + out.length) q rest) :
    Lexed (fuel + 1) m src dst quote (pre ++ rest) := by
  obtain ⟨raw, hraw, -⟩ := lexWord_raw q rest
  have hlen := congrArg List.length hraw
  simp only [List.length_append] at hlen
  simp only [Lexed, hloop, hword, List.length_append] at ih ⊢
  obtain ⟨hnone, hle⟩ | hsome := ih
  · exact .inl ⟨hnone, by omega⟩
  · refine .inr ?_
    rw [hsome, store_append, Nat.add_assoc, Nat.add_assoc]
    congr 3
    omega

theorem lexLoop_str {fuel : Nat} {m : Mem} {src dst : Nat} {quote : Byte} {line : List Byte} (h : Str m src line)
    (hdst : dst ≤ src) : Lexed fuel m src dst quote line := by
  induction fuel generalizing m src dst quote line with
  | zero => exact .inl ⟨rfl, Nat.zero_le _⟩
  | succ fuel ih =>
    cases line with
    | nil => exact .inr (by rw [lexLoop, if_pos (Str.nil_iff.mp h), lexWord, store_nil]; rfl)
    | cons c cs =>
      obtain ⟨hc, hne, hcs⟩ := Str.cons_iff.mp h
      have hskip : ∀ {q : Byte}, Lexed fuel (store m dst []) (src + [c].length) (dst + ([] : List Byte).length) q cs := by
        intro q
        rw [store_nil]
        exact ih hcs (Nat.le_succ_of_le hdst)
      have hcopy : ∀ {d : Byte} {n : Nat} {rest : List Byte}, Str m (src + n) rest → 0 < n →
          Lexed fuel (store m dst [d]) (src + n) (dst + [d].length) quote rest := by
        intro d n rest hrest hn
        refine ih (hrest.congr fun x hx _ => store_out ?_) ?_
        all_goals simp only [List.length_singleton]; omega
      by_cases hblank : quote = 0 ∧ isBlank c
      · refine .inr ?_
        rw [lexLoop, hc, if_neg hne, if_pos hblank, lexWord_cons, if_pos hblank, store_nil, Nat.sub_self]
        rfl
      by_cases hopen : isQuote c ∧ quote = 0
      · refine Lexed.turn [c] [] Nat.one_pos ?_ ?_ (hskip (q := c))
        · rw [List.singleton_append, lexWord_cons, if_neg hblank, if_pos hopen]
          rfl
        · rw [lexLoop, hc, if_neg hne, if_neg hblank, if_pos hopen, store_nil]
          rfl
      by_cases hclose : isQuote c ∧ quote = c
      · refine Lexed.turn [c] [] Nat.one_pos ?_ ?_ (hskip (q := 0))
        · rw [List.singleton_append, lexWord_cons, if_neg hblank, if_neg hopen, if_pos hclose]
          rfl
        · rw [lexLoop, hc, if_neg hne, if_neg hblank, if_neg hopen, if_pos hclose, store_nil]
          rfl
      have hend : m (src + 1) ≠ 0 ↔ cs ≠ [] := by
        cases cs with
        | nil => simpa using Str.nil_iff.mp hcs
        | cons d ds =>
          obtain ⟨hd, hd0, -⟩ := Str.cons_iff.mp hcs
          simpa [hd] using hd0
      by_cases hescape : c = 0x5c ∧ cs ≠ []
      · cases cs with
        | nil => exact absurd rfl hescape.2
        | cons d ds =>
          obtain ⟨hd, -, hds⟩ := Str.cons_iff.mp hcs
          refine Lexed.turn [c, d] [d] Nat.two_pos ?_ ?_ (hcopy hds Nat.two_pos)
          · rw [List.cons_append, List.singleton_append, lexWord_cons, if_neg hblank, if_neg hopen, if_neg hclose,
              if_pos hescape]
            rfl
          · rw [lexLoop, hc, if_neg hne, if_neg hblank, if_neg hopen, if_neg hclose, 
              if_pos ⟨hescape.1, hend.mpr hescape.2⟩, ← hd]
            rfl
      · refine Lexed.turn [c] [c] Nat.one_pos ?_ ?_ (hcopy hcs Nat.one_pos)
        · rw [List.singleton_append, lexWord_cons, if_neg hblank, if_neg hopen, if_neg hclose, if_neg hescape]
          rfl
        · rw [lexLoop, hc, if_neg hne, if_neg hblank, if_neg hopen, if_neg hclose, 
            if_neg fun e => hescape ⟨e.1, hend.mp e.2⟩]
          dsimp only
          rw [hc]
          rfl

theorem lexLoop_frame {fuel : Nat} {m : Mem} {src dst : Nat} {quote : Byte} {r : Mem × Nat × Nat}
    (h : lexLoop fuel m src dst quote = some r) : src ≤ r.2.1 ∧ dst ≤ r.2.2 ∧ ∀ x, x < dst → r.1 x = m x := by
  induction fuel generalizing m src dst quote with
  | zero => cases h
  | succ fuel ih =>
    rw [lexLoop] at h
    split at h
    · cases h
      exact ⟨Nat.le_refl _, Nat.le_refl _, fun _ _ => rfl⟩
    split at h
    · cases h
      exact ⟨Nat.le_refl _, Nat.le_refl _, fun _ _ => rfl⟩
    split at h
    · obtain ⟨h1, h2⟩ := ih h
      exact ⟨by omega, h2⟩
    split at h
    · obtain ⟨h1, h2⟩ := ih h
      exact ⟨by omega, h2⟩
    · dsimp only at h
      obtain ⟨h1, h2, h3⟩ := ih h
      refine ⟨by split at h1 <;> omega, by omega, fun x hx => ?_⟩
      rw [h3 x (by omega), store_out (.inl hx)]

namespace Shell

variable {sh : Shell} {m m' : Mem} {p s : Nat} {word line : List Byte}

/-- What the code writes for a word. -/
def written (sh : Shell) (word : List Byte) : List Byte := sh.expandWith (statusText sh.lastStatus) word

theorem statusDigits_noNul {d : Nat} {v : Int} : 0 ∉ statusDigits d v := by
  induction d generalizing v with
  | zero => exact List.not_mem_nil
  | succ d ih =>
    rw [statusDigits]
    split
    · rw [List.mem_cons, not_or]
      refine ⟨fun h => ?_, ih⟩
      have h1 := congrArg BitVec.toNat h
      rw [BitVec.toNat_ofNat, Nat.mod_eq_of_lt (by omega)] at h1
      change 0 = 48 + _ at h1
      omega
    · exact List.not_mem_nil

theorem statusDigits_length {d : Nat} {v : Int} : (statusDigits d v).length ≤ d := by
  induction d generalizing v with
  | zero => exact Nat.le_refl _
  | succ d ih =>
    rw [statusDigits]
    split
    · exact Nat.succ_le_succ ih
    · exact Nat.zero_le _

/-- The status as a string for an array of 16 bytes. -/
def statusString (status : BitVec 32) : CString 16 where
  bytes := statusText status
  noNul := by
    unfold statusText
    split
    · decide
    · split
      · rw [List.mem_cons, List.mem_reverse, not_or]
        exact ⟨by decide, statusDigits_noNul⟩
      · rw [List.mem_reverse]
        exact statusDigits_noNul
  fits := by
    unfold statusText
    split
    · decide
    · split
      · rw [List.length_cons, List.length_reverse]
        exact Nat.lt_of_le_of_lt (Nat.succ_le_succ statusDigits_length) (by decide)
      · rw [List.length_reverse]
        exact Nat.lt_of_le_of_lt statusDigits_length (by decide)

theorem statusDigits_eq {d n : Nat} (hn : n < 10 ^ d) (hpos : 0 < n) :
    (statusDigits d n).reverse = (Nat.toDigits 10 n).map fun c => BitVec.ofNat 8 c.toNat := by
  have hdigit : ∀ k < 10, BitVec.ofNat 8 (0x30 + k) = BitVec.ofNat 8 (Nat.digitChar k).toNat := by decide
  induction d generalizing n with
  | zero => omega
  | succ d ih =>
    rw [statusDigits, if_pos (by omega), List.reverse_cons]
    rw [show ((n : Int) % 10).toNat = n % 10 by omega, hdigit _ (Nat.mod_lt _ (by decide))]
    by_cases hlt : n < 10
    · have hzero : statusDigits d ((n : Int) / 10) = [] := by
        rw [show (n : Int) / 10 = 0 by omega]
        cases d <;> rfl
      rw [hzero, Nat.toDigits_of_lt_base hlt, Nat.mod_eq_of_lt hlt]
      rfl
    · have hdiv := ih (n := n / 10) (by omega) (by omega)
      rw [show (n : Int) / 10 = ((n / 10 : Nat) : Int) by omega, hdiv, 
        Nat.toDigits_of_base_le (by decide) (Nat.le_of_not_lt hlt),
        List.map_append]
      rfl

/-- The status is printed right unless it cannot be negated. -/
theorem statusText_eq {status : BitVec 32} (h : status ≠ BitVec.intMin 32) : statusText status = decimal status.toInt := by
  have hlow := BitVec.le_toInt status
  have hhigh := @BitVec.toInt_lt 32 status
  unfold statusText decimal
  by_cases hzero : status = 0
  · rw [if_pos hzero, hzero]
    decide
  rw [if_neg hzero]
  have hne : status.toInt ≠ 0 := fun e => hzero (BitVec.eq_of_toInt_eq e)
  by_cases hneg : status.toInt < 0
  · rw [if_pos hneg, if_pos hneg, BitVec.toInt_neg_of_ne_intMin h,
      show -status.toInt = (status.toInt.natAbs : Int) by omega, statusDigits_eq (by omega) (by omega)]
    rfl
  · rw [if_neg hneg, if_neg hneg]
    have hdigits := @statusDigits_eq 12 status.toInt.natAbs (by omega) (by omega)
    rwa [show (status.toInt.natAbs : Int) = status.toInt by omega] at hdigits

/-- `INT_MIN`, its negation wrapped, is printed as a bare sign. -/
theorem statusText_ne {n : Nat} :
    decimal (BitVec.intMin 32).toInt ≠ (statusText (BitVec.intMin 32)).take n := by
  intro h
  have hlen := congrArg List.length h
  rw [show statusText (BitVec.intMin 32) = [0x2d] by decide, List.length_take] at hlen
  have : 2 ≤ (decimal (BitVec.intMin 32).toInt).length := by decide
  simp only [List.length_singleton] at hlen
  omega

theorem value_string (name : List Byte) : ∃ v : CString 128, sh.value name = v.bytes := by
  unfold value
  cases sh.vars.find? fun v => v.used && decide (v.name.bytes = name) with
  | none => exact ⟨⟨[], List.not_mem_nil, by decide⟩, rfl⟩
  | some v => exact ⟨v.value, rfl⟩

theorem written_noNul (h : 0 ∉ word) : 0 ∉ sh.written word := by
  unfold written expandWith
  split
  · split
    · exact (statusString _).noNul
    · obtain ⟨v, hv⟩ := sh.value_string word.tail
      rw [hv]
      exact v.noNul
  · exact h

theorem strlcpyLocal_eq {src : List Byte} {n : Nat} (h : src.length < n) :
    strlcpyLocal m p src n = store m p (src ++ [0]) := by
  have hcopy : (if src.length < n - 1 then src.length else n - 1) = src.length := by
    split <;> omega
  rw [strlcpyLocal, if_pos (by omega)]
  simp only [hcopy, List.take_length, store_append]

theorem getVar_eq (h : Str m p word) : sh.getVar m p = sh.value word := by
  simp only [getVar, findVar, value, h.streq_eq (ShellVar.name _).noNul]

theorem expandToken_eq (h : Str m p word) : sh.expandToken m p = store m p (sh.written word ++ [0]) := by
  have hstatus : streq m p [0x24, 0x3f] = decide ([0x24, 0x3f] = word) := h.streq_eq (by decide)
  cases word with
  | nil =>
    rw [expandToken, if_pos (by rw [Str.nil_iff.mp h]; decide)]
    exact h.store_eq.symm
  | cons c cs =>
    obtain ⟨hc, -, hcs⟩ := Str.cons_iff.mp h
    rw [expandToken, hc, hstatus, written, expandWith, List.head?_cons]
    by_cases hdollar : c = 0x24
    · subst hdollar
      rw [if_neg (not_not.mpr rfl), if_pos (rfl : some (0x24 : Byte) = some 0x24)]
      by_cases hquery : (0x24 : Byte) :: cs = [0x24, 0x3f]
      · rw [if_pos (decide_eq_true hquery.symm), if_pos hquery]
        exact strlcpyLocal_eq (Nat.lt_trans (statusString _).fits (by decide))
      · obtain ⟨v, hv⟩ := sh.value_string cs
        rw [if_neg fun e => hquery (of_decide_eq_true e).symm, if_neg hquery, getVar_eq hcs, List.tail_cons, hv,
          strlcpyLocal_eq v.fits]
    · rw [if_pos hdollar, if_neg (by simpa using hdollar), h.store_eq]

theorem expandToken_low {x : Nat} (hx : x < p) : sh.expandToken m p x = m x := by
  have hcopy : ∀ {src n}, strlcpyLocal m p src n x = m x := by
    intro src n
    unfold strlcpyLocal
    split
    · rw [store_out (.inl (by omega)), store_out (.inl hx)]
    · rfl
  unfold expandToken
  split
  · rfl
  · split
    · exact hcopy
    · exact hcopy

theorem written_eq (h : word = [0x24, 0x3f] → sh.lastStatus ≠ BitVec.intMin 32) : sh.written word = sh.expand word := by
  unfold written expand expandWith
  by_cases hword : word = [0x24, 0x3f]
  · rw [if_pos hword, if_pos hword, statusText_eq (h hword)]
  · rw [if_neg hword, if_neg hword]

/-- A word read from `p` on: what is in memory then, and where the next round starts. -/
structure WordDone (sh : Shell) (m : Mem) (p : Nat) (w : RawWord) (rest : List Byte) (m' : Mem) (s : Nat) : Prop where
  reads : Str m' p ((sh.written w.text).take w.span)
  low : ∀ x, x < p → m' x = m x
  high : (sh.written w.text).length ≤ w.span → ∀ x, p + w.span < x → m' x = m x
  next : m' s = 0 ∨ p + w.span < s
  stops : (sh.written w.text).length ≤ w.span →
    ¬(w.text.length < w.span ∧ (sh.written w.text).length < w.span) → m' s = 0
  goes : w.text.length < w.span → (sh.written w.text).length < w.span →
    Str m' s rest.tail ∧ p + w.span ≤ s ∧ s + rest.tail.length = p + w.span + rest.length

/-- A word of `n` bytes with text and expansion written over it, and the byte after it
cleared. -/
theorem WordDone.of_stores {text rest : List Byte} {n : Nat} (hnul : 0 ∉ text) (hspan : text.length ≤ n)
    (hrest : Str m (p + n) rest) (hm : store (store m p (text ++ [0])) p (sh.written text ++ [0]) = m') :
    sh.WordDone m p ⟨n, text⟩ rest (store m' (p + n) [0]) (if m' (p + n) = 0 then p + n else p + n + 1) := by
  have hwritten : 0 ∉ sh.written text := written_noNul hnul
  have hcleared : store m' (p + n) [0] (p + n) = 0 := by simp [store]
  have hout : ∀ x, x ≠ p + n → store m' (p + n) [0] x = m' x :=
    fun x hx => store_out (by rw [List.length_singleton]; omega)
  have hover : ∀ x, x < p ∨ p + text.length < x → x < p ∨ p + (sh.written text).length < x → m' x = m x :=
    fun x h1 h2 => hm ▸ Str.over_out h1 h2
  have hhigh : (sh.written text).length ≤ n → ∀ x, p + n < x → store m' (p + n) [0] x = m x := fun hle x hx => by
    rw [hout x (by omega), hover x (.inr (by omega)) (.inr (by omega))]
  refine ⟨hm ▸ Str.of_stores hwritten, fun x hx => ?_, hhigh, ?_, fun hle hno => ?_, fun h1 h2 => ?_⟩
  · rw [hout x (by omega), hover x (.inl hx) (.inl hx)]
  · split
    · exact .inl hcleared
    · exact .inr (Nat.lt_succ_self _)
  · have hzero : m' (p + n) = 0 := hm ▸ Str.over_end hnul hwritten hspan hle hno
    rw [if_pos hzero, hcleared]
  · dsimp only at h1 h2 ⊢
    have hbyte : m' (p + n) = m (p + n) := hover _ (.inr (by omega)) (.inr (by omega))
    cases rest with
    | nil =>
      rw [if_pos (hbyte.trans (Str.nil_iff.mp hrest))]
      exact ⟨Str.nil_iff.mpr hcleared, Nat.le_refl _, rfl⟩
    | cons b bs =>
      obtain ⟨hb, hne, hbs⟩ := Str.cons_iff.mp hrest
      rw [if_neg (by rwa [hbyte, hb])]
      exact ⟨hbs.congr fun x hx _ => hhigh (Nat.le_of_lt h2) x hx, Nat.le_succ _,
        by rw [List.tail_cons, List.length_cons]; omega⟩

theorem tokenizeWord_str {fuel : Nat} (h : Str m p line) :
    (sh.tokenizeWord fuel m p = none ∧ fuel ≤ line.length) ∨
      ∃ m' s, sh.tokenizeWord fuel m p = some (m', s) ∧
        sh.WordDone m p ⟨line.length - (lexWord 0 line).2.length, (lexWord 0 line).1⟩ (lexWord 0 line).2 m' s := by
  obtain ⟨raw, hraw, hsub⟩ := lexWord_raw 0 line
  have hlen := congrArg List.length hraw
  rw [List.length_append] at hlen
  obtain ⟨hnone, hle⟩ | hsome := @lexLoop_str fuel m p p 0 line h (Nat.le_refl p)
  · exact .inl ⟨by rw [tokenizeWord, hnone]; rfl, hle⟩
  have hrest : Str m (p + raw.length) (lexWord 0 line).2 := Str.suffix (hraw ▸ h)
  have hnul : 0 ∉ (lexWord 0 line).1 :=
    fun hmem => h.noNul (hraw ▸ List.mem_append_left _ (hsub.subset hmem))
  rw [show line.length - (lexWord 0 line).2.length = raw.length by omega] at hsome ⊢
  refine .inr ⟨_, _, ?_, .of_stores hnul hsub.length_le hrest rfl⟩
  rw [tokenizeWord, hsome]
  simp only [Option.map_some, store_append, expandToken_eq (Str.of_store hnul)]
  generalize store (store m p ((lexWord 0 line).1 ++ [0])) p (sh.written (lexWord 0 line).1 ++ [0]) = m'
  -- the byte after the word may be NUL already
  by_cases hzero : m' (p + raw.length) = 0
  · rw [if_neg (not_not.mpr hzero), if_pos hzero, store_nul hzero]
  · rw [if_pos hzero, if_neg hzero]

theorem tokenizeWord_low {fuel : Nat} {w : Mem × Nat} (h : sh.tokenizeWord fuel m p = some w) :
    p ≤ w.2 ∧ ∀ x, x < p → w.1 x = m x := by
  obtain ⟨r, hr, rfl⟩ := Option.map_eq_some_iff.mp h
  obtain ⟨hsrc, hdst, hlow⟩ := lexLoop_frame hr
  have htoken : ∀ x, x < p → sh.expandToken (store r.1 r.2.2 [0]) p x = m x := fun x hx => by
    rw [expandToken_low hx, store_out (.inl (by omega)), hlow x hx]
  dsimp only
  split
  · exact ⟨Nat.le_succ_of_le hsrc, fun x hx => (store_out (.inl (by omega))).trans (htoken x hx)⟩
  · exact ⟨hsrc, htoken⟩

theorem skipBlanks_le {fuel src : Nat} (h : skipBlanks fuel m src = some p) : src ≤ p := by
  induction fuel generalizing src with
  | zero => cases h
  | succ fuel ih =>
    rw [skipBlanks] at h
    split at h
    · exact Nat.le_of_succ_le (ih h)
    · cases h
      exact Nat.le_refl _

/-- Whatever is in memory, the rounds to come leave what is before them alone. -/
theorem tokenizeLoop_low {fuel room src : Nat} {r : List Nat × Mem} (h : sh.tokenizeLoop fuel room m src = some r) :
    ∀ x, x < src → r.2 x = m x := by
  induction room generalizing m src r with
  | zero =>
    cases h
    exact fun _ _ => rfl
  | succ room ih =>
    rw [tokenizeLoop] at h
    split at h
    · cases h
      exact fun _ _ => rfl
    obtain ⟨p, hp, h⟩ := Option.bind_eq_some_iff.mp h
    split at h
    · cases h
      exact fun _ _ => rfl
    obtain ⟨w, hw, h⟩ := Option.bind_eq_some_iff.mp h
    obtain ⟨r', hr', rfl⟩ := Option.map_eq_some_iff.mp h
    obtain ⟨hle, hlow⟩ := tokenizeWord_low hw
    have := skipBlanks_le hp
    exact fun x hx => (ih hr' x (by omega)).trans (hlow x (by omega))

theorem tokenizeLoop_nul {fuel room : Nat} (h : m s = 0) : sh.tokenizeLoop fuel room m s = some ([], m) := by
  cases room with
  | zero => rfl
  | succ room => rw [tokenizeLoop, if_pos h]

theorem rawWords_nil {n : Nat} (h : line.dropWhile isBlank = []) : rawWords n line = [] := by
  cases n with
  | zero => rfl
  | succ n => rw [rawWords, h]

theorem rawWords_succ {n : Nat} (h : line.dropWhile isBlank = word) (hne : word ≠ []) : rawWords (n + 1) line =
    ⟨word.length - (lexWord 0 word).2.length, (lexWord 0 word).1⟩ :: rawWords n (lexWord 0 word).2.tail := by
  cases word with
  | nil => exact absurd rfl hne
  | cons c cs => rw [rawWords, h]

/-- One round: the line is at its end, or a word is done. -/
theorem tokenizeLoop_round {src : Nat} (fuel room : Nat) (h : Str m src line) :
    (sh.tokenizeLoop fuel (room + 1) m src = none ∧ fuel ≤ line.length) ∨
      (rawWords (room + 1) line = [] ∧ sh.tokenizeLoop fuel (room + 1) m src = some ([], m)) ∨
      ∃ p w rest m' s, rawWords (room + 1) line = w :: rawWords room rest.tail ∧
        src ≤ p ∧ p + w.span + rest.length = src + line.length ∧ sh.WordDone m p w rest m' s ∧
        sh.tokenizeLoop fuel (room + 1) m src = (sh.tokenizeLoop fuel room m' s).map fun r => (p :: r.1, r.2) := by
  have hsplit := List.takeWhile_append_dropWhile (p := isBlank) (l := line)
  have hlen := congrArg List.length hsplit
  rw [List.length_append] at hlen
  have hword : Str m (src + (line.takeWhile isBlank).length) (line.dropWhile isBlank) :=
    Str.suffix (by rw [hsplit]; exact h)
  by_cases hend : m src = 0
  · obtain rfl : [] = line := (Str.nil_iff.mpr hend).unique h
    exact .inr (.inl ⟨rawWords_nil rfl, tokenizeLoop_nul hend⟩)
  rw [tokenizeLoop, if_neg hend]
  obtain ⟨hnone, hle⟩ | hskip := @skipBlanks_str fuel m src line h
  · exact .inl ⟨by rw [hnone]; rfl, hle⟩
  rw [hskip, Option.bind_some]
  generalize hstart : src + (line.takeWhile isBlank).length = p at *
  generalize hdrop : line.dropWhile isBlank = word at *
  by_cases hp : m p = 0
  · obtain rfl : [] = word := (Str.nil_iff.mpr hp).unique hword
    exact .inr (.inl ⟨rawWords_nil hdrop, by rw [if_pos hp]⟩)
  rw [if_neg hp]
  have hne : word ≠ [] := fun e => hp (Str.nil_iff.mp (e ▸ hword))
  obtain ⟨hnone, hle⟩ | ⟨m', s, hsome, hdone⟩ := @tokenizeWord_str sh m p word fuel hword
  · exact .inl ⟨by rw [hnone]; rfl, by omega⟩
  · obtain ⟨raw, hraw, -⟩ := lexWord_raw 0 word
    have hrest := congrArg List.length hraw
    rw [List.length_append] at hrest
    exact .inr (.inr ⟨p, _, _, m', s, rawWords_succ hdrop hne, by omega, by dsimp only; omega, hdone,
      by rw [hsome]; rfl⟩)

/-- Where every word fits, the words come out in order and only the line is written. -/
theorem tokenizeLoop_fits {fuel room src : Nat} (h : Str m src line) (hbuf : src + line.length < 256)
    (hfuel : line.length < fuel) (hfits : sh.Fits (rawWords room line)) :
    ∃ args m', sh.tokenizeLoop fuel room m src = some (args, m') ∧
      List.Forall₂ (Str m') args ((rawWords room line).map fun w => sh.expand w.text) ∧
      ∀ x, x < src ∨ 256 ≤ x → m' x = m x := by
  induction room generalizing m src line with
  | zero => exact ⟨[], m, rfl, .nil, fun _ _ => rfl⟩
  | succ room ih =>
    obtain ⟨-, hle⟩ | ⟨hnil, hloop⟩ | ⟨p, w, rest, m', s, hraw, hsrc, hlen, hdone, hloop⟩ := sh.tokenizeLoop_round fuel room h
    · omega
    · exact ⟨[], m, hloop, by rw [hnil]; exact .nil, fun _ _ => rfl⟩
    rw [hraw] at hfits ⊢
    obtain ⟨hle, hstatus, hmore, hrest⟩ := hfits
    have hreads := hdone.reads
    have hhigh := hdone.high
    have hstops := hdone.stops
    have hgoes := hdone.goes
    rw [written_eq hstatus] at hreads hhigh hstops hgoes
    rw [List.take_of_length_le hle] at hreads
    by_cases hgo : w.text.length < w.span ∧ (sh.expand w.text).length < w.span
    · obtain ⟨hstr, hs, htail⟩ := hgoes hgo.1 hgo.2
      obtain ⟨args, m'', hargs, hall, hframe⟩ := ih hstr (by omega) (by omega) hrest
      refine ⟨p :: args, m'', by rw [hloop, hargs]; rfl, .cons (hreads.congr fun x _ hx => ?_) hall, fun x hx => ?_⟩
      · exact hframe x (.inl (by omega))
      · rw [hframe x (by omega)]
        rcases hx with hx | hx
        · exact hdone.low x (by omega)
        · exact hhigh hle x (by omega)
    · -- the next round finds a NUL, and there was no further word
      have hlast : rawWords room rest.tail = [] := by
        by_contra hne
        exact hgo (hmore hne)
      rw [hlast]
      refine ⟨[p], m', by rw [hloop, tokenizeLoop_nul (hstops hle hgo)]; rfl, .cons hreads .nil, fun x hx => ?_⟩
      rcases hx with hx | hx
      · exact hdone.low x (by omega)
      · exact hhigh hle x (by omega)

/-- Words that come out right have fitted. -/
theorem fits_of_tokenizeLoop {fuel room src : Nat} {args : List Nat} (h : Str m src line)
    (hrun : sh.tokenizeLoop fuel room m src = some (args, m'))
    (hall : List.Forall₂ (Str m') args ((rawWords room line).map fun w => sh.expand w.text)) :
    sh.Fits (rawWords room line) := by
  induction room generalizing m src line args with
  | zero => trivial
  | succ room ih =>
    obtain ⟨hnone, -⟩ | ⟨hnil, -⟩ | ⟨p, w, rest, m1, s, hraw, hsrc, hlen, hdone, hloop⟩ := sh.tokenizeLoop_round fuel room h
    · rw [hnone] at hrun
      cases hrun
    · rw [hnil]
      trivial
    rw [hraw] at hall ⊢
    rw [hloop] at hrun
    obtain ⟨r, hr, hpair⟩ := Option.map_eq_some_iff.mp hrun
    cases hpair
    obtain ⟨hword, hall⟩ := List.forall₂_cons.mp hall
    have hstop : m1 s = 0 → r = ([], m1) := fun hs => by
      rw [tokenizeLoop_nul hs] at hr
      exact (Option.some.inj hr).symm
    -- later rounds write behind the word only
    have hkept : Str r.2 p ((sh.written w.text).take w.span) := by
      rcases hdone.next with hs | hs
      · rw [hstop hs]
        exact hdone.reads
      · refine hdone.reads.congr fun x _ hx => tokenizeLoop_low hr x ?_
        rw [List.length_take] at hx
        omega
    have htext : sh.expand w.text = (sh.written w.text).take w.span := hword.unique hkept
    have hstatus : w.text = [0x24, 0x3f] → sh.lastStatus ≠ BitVec.intMin 32 := by
      intro hquery hmin
      rw [hquery] at htext
      change decimal sh.lastStatus.toInt = (statusText sh.lastStatus).take w.span at htext
      rw [hmin] at htext
      exact statusText_ne htext
    have hle : (sh.expand w.text).length ≤ w.span := by
      rw [htext, List.length_take]
      exact Nat.min_le_left _ _
    have hstops := hdone.stops
    have hgoes := hdone.goes
    rw [written_eq hstatus] at hstops hgoes
    by_cases hgo : w.text.length < w.span ∧ (sh.expand w.text).length < w.span
    · exact ⟨hle, hstatus, fun _ => hgo, ih (hgoes hgo.1 hgo.2).1 hr hall⟩
    · have hend := hstop (hstops hle hgo)
      rw [hend] at hall
      have hlast : rawWords room rest.tail = [] := List.map_eq_nil_iff.mp (List.forall₂_nil_left_iff.mp hall)
      rw [hlast]
      exact ⟨hle, hstatus, fun hne => absurd rfl hne, trivial⟩

end Shell

/-- **The tokenizer splits exactly the lines whose words fit.** For every set of shell
variables, every status and every line shorter than the buffer, `argv` holds the words in
order and nothing outside the buffer is written if, and only if, each word leaves room
for its terminators in its own span. -/
theorem tokenize_splits_iff (sh : Shell) (m : Mem) (line : List Byte) (h : Str m 0 line) (hlen : line.length < 256) :
    sh.Splits m line ↔ sh.Fits (rawWords 15 line) := by
  constructor
  · rintro ⟨fuel, argv, m', hrun, hall, -⟩
    exact Shell.fits_of_tokenizeLoop h hrun hall
  · intro hfits
    obtain ⟨argv, m', hrun, hall, hframe⟩ := Shell.tokenizeLoop_fits h (by omega) (Nat.lt_succ_self _) hfits
    exact ⟨line.length + 1, argv, m', hrun, hall, fun x hx => hframe x (.inr hx)⟩

/-- A shell without variables. -/
def bareShell : Shell where
  vars := List.replicate 16 ⟨false, ⟨[], List.not_mem_nil, by decide⟩, ⟨[], List.not_mem_nil, by decide⟩⟩
  slots := List.length_replicate
  lastStatus := 0

/-- A buffer with the line at its start. -/
def bufferOf (line : List Byte) : Mem := store (fun _ => 0) 0 (line ++ [0])

/-- `'a' 'b'` -/
theorem tokenize_splits_iff_quoted :
    bareShell.Splits (bufferOf [0x27, 0x61, 0x27, 0x20, 0x27, 0x62, 0x27]) [0x27, 0x61, 0x27, 0x20, 0x27, 0x62, 0x27] :=
  (tokenize_splits_iff bareShell _ _ (Str.of_store (by decide)) (by decide)).mpr
    ⟨by decide, fun h => absurd h (by decide), fun _ => ⟨by decide, by decide⟩, by decide,
      fun h => absurd h (by decide), fun h => absurd rfl h, trivial⟩

/-- `a b` is one word to the tokenizer: the terminator of `a` takes the place of the
blank, and the loop ends there. -/
theorem second_word_lost :
    (bareShell.tokenize 8 (bufferOf [0x61, 0x20, 0x62])).map Prod.fst = some [0] ∧
      bareShell.words [0x61, 0x20, 0x62] = [[0x61], [0x62]] ∧
      ¬bareShell.Splits (bufferOf [0x61, 0x20, 0x62]) [0x61, 0x20, 0x62] := by
  refine ⟨by decide, by decide, fun h => ?_⟩
  obtain ⟨fuel, argv, m', hrun, hall, -⟩ := h
  have hfits := Shell.fits_of_tokenizeLoop (Str.of_store (by decide)) hrun hall
  exact absurd (hfits.2.2.1 (by decide)).1 (by decide)

/-! ## The line from the terminal -/

/-- The loop of `read_line` with room for `room` more bytes; `none` where a read waits. -/
def readLine : Nat → Nat → Tty → Option (List Byte × Tty)
  | _, 0, t => some ([], t)
  | 0, _, _ => none
  | fuel + 1, room + 1, t =>
    match t.read 1 with
    | (.wait, _) => none
    | (.bytes [], t) => some ([], t)
    | (.bytes (c :: _), t) =>
      if c = newline then some ([], t)
      else if c = 0x0d then readLine fuel (room + 1) t
      else (readLine fuel room t).map fun r => (c :: r.1, r.2)

theorem Tty.read_one {t : Tty} {c : Byte} {cs : List Byte} (h : t.IndicesOK) (hu : t.unread = c :: cs) :
    ∃ t', t.read 1 = (.bytes [c], t') ∧ t'.IndicesOK ∧ t'.unread = cs := by
  rcases read_cases 1 h with ⟨bytes, t', hr, hb, hok, hrest, -⟩ | ⟨-, hnil, -⟩
  · obtain rfl : bytes = [c] := by
      rw [hb, hu, firstLine]
      split <;> rfl
    rw [hu] at hrest
    exact ⟨t', hr, hok, (List.cons.inj hrest).2.symm⟩
  · cases hu.symm.trans hnil

/-- **A typed line reaches the shell.** `read_line` returns it as far as the buffer has
room, and leaves the rest of it, with its end, for the next call. -/
theorem read_line_takes_typed (room : Nat) (t : Tty) (line rest : List Byte) (h : t.IndicesOK)
    (hline : ∀ b ∈ line, isPrintable b) (hu : t.unread = line ++ newline :: rest) :
    ∃ t', readLine room room t = some (line.take room, t') ∧ t'.IndicesOK ∧
      t'.unread = if line.length < room then rest else line.drop room ++ newline :: rest := by
  induction room generalizing line t with
  | zero => exact ⟨t, by cases line <;> rfl, h, hu⟩
  | succ room ih =>
    cases line with
    | nil =>
      obtain ⟨t', hr, hok, hu'⟩ := Tty.read_one h hu
      exact ⟨t', by simp [readLine, hr], hok, hu'⟩
    | cons c line =>
      obtain ⟨t1, hr, hok1, hu1⟩ := Tty.read_one h hu
      obtain ⟨t', ht, hok, hu'⟩ := ih t1 line hok1 (fun b hb => hline b (.tail _ hb)) hu1
      -- a printable byte is neither a line end nor a carriage return
      have hc := hline c (.head _)
      have hne : c ≠ newline ∧ c ≠ 0x0d#8 := by constructor <;> rintro rfl <;> cases hc
      exact ⟨t', by simp [readLine, hr, hne, ht], hok, by simpa using hu'⟩

theorem read_line_takes_typed_h :
    ∃ t', readLine 255 255 ((Tty.new.inputChar 0x68).2.inputChar 0x0d).2 = some ([0x68], t') ∧ t'.unread = [] := by
  obtain ⟨t', h, -, hu⟩ := read_line_takes_typed 255 ((Tty.new.inputChar 0x68).2.inputChar 0x0d).2 [0x68] []
    ⟨by decide, by decide⟩ (by decide) (by decide)
  exact ⟨t', h, hu⟩

end CoreOS
