import GammaOS.User.Stdlib
import Mathlib.Data.List.Forall2
import Mathlib.Data.Set.Defs

namespace GammaOS.User

open Function Foundation ByteMemory

/-- A call through which characters come to the screen: `puts` gets an address, and
finds the string in the memory of that moment. -/
inductive Sent
  | putch (c : UInt8)
  | puts (m : ByteMemory) (str : ℕ)

/-- `printf` in front of a turn of its loop. Of the arguments behind `fmt`, `taken`
are used up, and `malloc` has been called `mallocs` times. -/
structure Printf where
  p : ℕ
  taken : ℕ
  mallocs : ℕ
  charsWritten : ℕ
  sent : List Sent
  mem : ByteMemory

namespace Printf

def reads (s : Printf) : List ℕ := if s.mem s.p = 37 then [s.p, s.p + 1] else [s.p]

def putch (s : Printf) : Printf :=
  { s with
    p := s.p + 1
    charsWritten := u32 (s.charsWritten + 1)
    sent := s.sent ++ [.putch (s.mem s.p)] }

def puts (s : Printf) (str : ℕ) : Printf :=
  { s with
    p := s.p + 2
    taken := s.taken + 1
    charsWritten := u32 (s.charsWritten + 1)
    sent := s.sent ++ [.puts s.mem str] }

def putInt (s : Printf) (val : ℕ × ByteMemory) : Printf :=
  { s with mallocs := s.mallocs + 1, mem := val.2 }.puts val.1

def skip (s : Printf) : Printf := { s with p := s.p + 2 }

@[simp] theorem skip_p (s : Printf) : s.skip.p = s.p + 2 := rfl

variable (malloc : ℕ → Malloc) (stack : ℕ → ℕ)

/-- A turn of the loop: none when it ends. The words of `stack` are the arguments,
and `malloc` has an answer for each call. -/
def step (s : Printf) : Option Printf :=
  if s.mem s.p = 0 then none
  else if s.mem s.p ≠ 37 then some s.putch
  else if s.mem (s.p + 1) = 105 then
    some (s.putInt (itoa (malloc s.mallocs) (toInt32 (stack s.taken)) s.mem))
  else if s.mem (s.p + 1) = 115 then some (s.puts (stack s.taken))
  else some s.skip

/-- The block that the turn stores in and sends: none when it asks for no block. -/
def block (s : Printf) : Option ℕ :=
  if s.mem s.p = 37 ∧ s.mem (s.p + 1) = 105 then some (malloc s.mallocs 15 s.mem).1 else none

structure Inside (last : ℕ) (s : Printf) : Prop where
  reads : ∀ a ∈ s.reads, a ≤ last
  block : s.block malloc ≠ some 0

def run : ℕ → Printf → Option Printf
  | 0, s => some s
  | n + 1, s => (s.step malloc stack).bind (run n)

def start (fmt : ℕ) (m : ByteMemory) : Printf := ⟨fmt, 0, 0, 0, [], m⟩

inductive Ends (last : ℕ) : Printf → Printf → Prop
  | done {s : Printf} (h : s.step malloc stack = none) (hin : s.Inside malloc last) : Ends last s s
  | next {s t u : Printf} (h : s.step malloc stack = some t) (hin : s.Inside malloc last)
    (ht : Ends last t u) : Ends last s u

inductive Strays (last : ℕ) : Printf → Prop
  | here {s : Printf} (h : ¬ s.Inside malloc last) : Strays last s
  | next {s t : Printf} (h : s.step malloc stack = some t) (ht : Strays last t) : Strays last s

variable {malloc stack} {last : ℕ} {s t : Printf}

theorem Ends.run (h : Ends malloc stack last s t) :
    ∃ k, Printf.run malloc stack k s = some t ∧ t.step malloc stack = none := by
  induction h with
  | done h _ => exact ⟨0, rfl, h⟩
  | next h _ _ ih =>
    obtain ⟨k, hk, hend⟩ := ih
    exact ⟨k + 1, by rw [Printf.run, h, Option.bind_some, hk], hend⟩

theorem Ends.inside (h : Ends malloc stack last s t) {k : ℕ} {u : Printf}
    (hu : Printf.run malloc stack k s = some u) : u.Inside malloc last := by
  induction h generalizing k with
  | done h hr =>
    cases k with
    | zero => exact Option.some.inj hu ▸ hr
    | succ k =>
      rw [Printf.run, h] at hu
      cases hu
  | next h hr _ ih =>
    cases k with
    | zero => exact Option.some.inj hu ▸ hr
    | succ k =>
      rw [Printf.run, h, Option.bind_some] at hu
      exact ih hu

theorem Ends.unique {u : Printf} {k : ℕ} (h : Ends malloc stack last s t)
    (hu : Printf.run malloc stack k s = some u) (hend : u.step malloc stack = none) : u = t := by
  induction h generalizing k with
  | done h hr =>
    cases k with
    | zero => exact (Option.some.inj hu).symm
    | succ k =>
      rw [Printf.run, h] at hu
      cases hu
  | next h _ _ ih =>
    cases k with
    | zero =>
      obtain rfl := Option.some.inj hu
      rw [h] at hend
      cases hend
    | succ k =>
      rw [Printf.run, h, Option.bind_some] at hu
      exact ih hu

theorem Strays.run (h : Strays malloc stack last s) :
    ∃ k t, Printf.run malloc stack k s = some t ∧ ¬ t.Inside malloc last := by
  induction h with
  | here h => exact ⟨0, _, rfl, h⟩
  | next h _ ih =>
    obtain ⟨k, t, hk, hr⟩ := ih
    exact ⟨k + 1, t, by rw [Printf.run, h, Option.bind_some, hk], hr⟩

end Printf

/-- The parts of a format. A `%` is `cut` when no character is behind it. -/
inductive Piece
  | char (c : UInt8)
  | int
  | str
  | dropped
  | cut
deriving DecidableEq

def conversion (d : UInt8) : Piece := if d = 105 then .int else if d = 115 then .str else .dropped

def pieces : List UInt8 → List Piece
  | [] => []
  | [c] => if c = 37 then [.cut] else [.char c]
  | c :: d :: fmt => if c = 37 then conversion d :: pieces fmt else .char c :: pieces (d :: fmt)

inductive Arg
  | int (z : ℤ)
  | str (text : List UInt8)

def Arg.text (conv : ℤ → List UInt8) : Arg → List UInt8
  | int z => conv z
  | str text => text

/-- The text of a format, in the parts that are written one by one. -/
def texts (conv : ℤ → List UInt8) : List Piece → List Arg → List (List UInt8)
  | [], _ => []
  | .char c :: ps, args => [c] :: texts conv ps args
  | .dropped :: ps, args => texts conv ps args
  | .cut :: ps, args => texts conv ps args
  | .int :: ps, args => args.head?.elim [] (Arg.text conv) :: texts conv ps args.tail
  | .str :: ps, args => args.head?.elim [] (Arg.text conv) :: texts conv ps args.tail

def formatted (conv : ℤ → List UInt8) (ps : List Piece) (args : List Arg) : List UInt8 :=
  (texts conv ps args).flatten

structure Held (used : Set ℕ) (m : ByteMemory) (a : ℕ) (str : List UInt8) : Prop where
  string : IsString m a str
  used : ∀ i ≤ str.length, a + i ∈ used

inductive Matching (used : Set ℕ) (m : ByteMemory) (stack : ℕ → ℕ) :
    ℕ → List Piece → List Arg → Prop
  | nil {i : ℕ} : Matching used m stack i [] []
  | char {i : ℕ} {c : UInt8} {ps : List Piece} {args : List Arg}
    (h : Matching used m stack i ps args) : Matching used m stack i (.char c :: ps) args
  | dropped {i : ℕ} {ps : List Piece} {args : List Arg}
    (h : Matching used m stack i ps args) : Matching used m stack i (.dropped :: ps) args
  | cut {i : ℕ} {ps : List Piece} {args : List Arg}
    (h : Matching used m stack i ps args) : Matching used m stack i (.cut :: ps) args
  | int {i : ℕ} {ps : List Piece} {args : List Arg}
    (h : Matching used m stack (i + 1) ps args) :
    Matching used m stack i (.int :: ps) (.int (toInt32 (stack i)) :: args)
  | str {i : ℕ} {text : List UInt8} {ps : List Piece} {args : List Arg}
    (ht : Held used m (stack i) text) (h : Matching used m stack (i + 1) ps args) :
    Matching used m stack i (.str :: ps) (.str text :: args)

/-- The answers of `malloc` are `blocks`, with null for a request that it refuses.
A block that it grants is zeroed, and apart from what is in use. -/
structure SafeMalloc (malloc : ℕ → Malloc) (blocks : ℕ → ℕ) (used : Set ℕ) : Prop where
  answer : ∀ k m, (malloc k 15 m).1 = blocks k
  zeroed : ∀ k m, blocks k ≠ 0 → Zeroed (malloc k) 15 m
  kept : ∀ k m, blocks k ≠ 0 → ∀ i ∈ used, (malloc k 15 m).2 i = m i
  apart : ∀ k, blocks k ≠ 0 → ∀ i ∈ used, i < blocks k ∨ blocks k + 15 ≤ i

def Granted (blocks : ℕ → ℕ) (ps : List Piece) (k : ℕ) : Prop :=
  ∀ i < ps.count .int, blocks (k + i) ≠ 0

instance {blocks : ℕ → ℕ} {ps : List Piece} {k : ℕ} : Decidable (Granted blocks ps k) :=
  inferInstanceAs (Decidable (∀ i < ps.count .int, blocks (k + i) ≠ 0))

def Sent.Is : Sent → List UInt8 → Prop
  | putch c, text => text = [c]
  | puts m str, text => IsString m str text

def Sends (sent : List Sent) (text : List UInt8) : Prop :=
  ∃ ts, List.Forall₂ Sent.Is sent ts ∧ ts.flatten = text

section Run

variable {malloc : ℕ → Malloc} {blocks stack : ℕ → ℕ} {used : Set ℕ} {m m' : ByteMemory} {a i last : ℕ}
  {text fmt : List UInt8} {args : List Arg} {ps : List Piece} {s t : Printf} {z : ℤ}
  {conv : ℤ → List UInt8}

theorem Held.congr (h : Held used m a text) (hm : ∀ i ∈ used, m' i = m i) : Held used m' a text :=
  ⟨h.string.congr (fun i hi ↦ hm _ (h.used i hi)), h.used⟩

theorem Held.tail {c : UInt8} (h : Held used m a (c :: text)) :
    m a = c ∧ c ≠ 0 ∧ Held used m (a + 1) text := by
  obtain ⟨hc, hne, htail⟩ := h.string.tail
  refine ⟨hc, hne, htail, fun i hi ↦ ?_⟩
  rw [Nat.add_right_comm, Nat.add_assoc]
  exact h.used (i + 1) (Nat.succ_le_succ hi)

theorem toInt32_lt (n : ℕ) : toInt32 n < 2 ^ 31 := by
  have h := u32_lt n
  unfold toInt32
  split <;> omega

theorem SafeMalloc.itoa {k : ℕ} (h : SafeMalloc malloc blocks used) (hk : blocks k ≠ 0)
    (m : ByteMemory) (n : ℕ) :
    IsString (itoa (malloc k) (toInt32 n) m).2 (itoa (malloc k) (toInt32 n) m).1
        (itoaText (toInt32 n)) ∧
      ∀ i ∈ used, (User.itoa (malloc k) (toInt32 n) m).2 i = m i := by
  obtain ⟨hstr, hout⟩ := itoa_run (toInt32_lt n) (h.zeroed k m hk)
  rw [h.answer] at hout
  exact ⟨hstr, fun i hi ↦ (hout i (h.apart k hk i hi)).trans (h.kept k m hk i hi)⟩

theorem granted_of_ne {q : Piece} {k : ℕ} (hq : q ≠ .int) :
    Granted blocks (q :: ps) k ↔ Granted blocks ps k := by
  rw [Granted, Granted, List.count_cons_of_ne hq]

theorem granted_int {k : ℕ} :
    Granted blocks (.int :: ps) k ↔ blocks k ≠ 0 ∧ Granted blocks ps (k + 1) := by
  rw [Granted, Granted, List.count_cons_self]
  constructor
  · intro h
    refine ⟨h 0 (Nat.succ_pos _), fun i hi ↦ ?_⟩
    rw [Nat.add_assoc, Nat.add_comm 1]
    exact h (i + 1) (Nat.succ_lt_succ hi)
  · rintro ⟨h0, h⟩ i hi
    cases i with
    | zero => exact h0
    | succ i =>
      have hi' := h i (Nat.lt_of_succ_lt_succ hi)
      rwa [Nat.add_assoc, Nat.add_comm 1] at hi'

theorem pieces_char {c : UInt8} (hc : c ≠ 37) : pieces (c :: fmt) = .char c :: pieces fmt := by
  cases fmt with
  | nil => simp only [pieces, if_neg hc]
  | cons d fmt => rw [pieces, if_neg hc]

theorem pieces_conversion (d : UInt8) : pieces (37 :: d :: fmt) = conversion d :: pieces fmt := by
  rw [pieces, if_pos rfl]

structure Printed (ps : List Piece) (args : List Arg) (s t : Printf) : Prop where
  taken : t.taken = s.taken + args.length
  charsWritten : u32 t.charsWritten = u32 (s.charsWritten + (texts itoaText ps args).length)
  sent : ∀ ts, List.Forall₂ Sent.Is s.sent ts →
    List.Forall₂ Sent.Is t.sent (ts ++ texts itoaText ps args)

theorem Printed.nil (s : Printf) : Printed [] [] s s :=
  ⟨rfl, rfl, fun ts h ↦ by rwa [texts, List.append_nil]⟩

theorem Printed.cons {u : Printf} {q : Piece} {args' : List Arg} {e : Sent}
    (h : Printed ps args u t) (htexts : texts itoaText (q :: ps) args' = text :: texts itoaText ps args)
    (htaken : u.taken + args.length = s.taken + args'.length)
    (hwritten : u.charsWritten = u32 (s.charsWritten + 1)) (hsent : u.sent = s.sent ++ [e])
    (he : e.Is text) : Printed (q :: ps) args' s t where
  taken := h.taken.trans htaken
  charsWritten := by
    rw [h.charsWritten, hwritten, htexts, List.length_cons]
    unfold u32
    omega
  sent ts hts := by
    have hone : List.Forall₂ Sent.Is [e] [text] := .cons he .nil
    have hall := h.sent (ts ++ [text]) (hsent ▸ List.rel_append hts hone)
    rwa [htexts, ← List.singleton_append, ← List.append_assoc]

section Inside

theorem inside_char (h : s.mem s.p ≠ 37) (hp : s.p ≤ last) : s.Inside malloc last where
  reads := by
    rw [Printf.reads, if_neg h]
    simpa using hp
  block := by simp [Printf.block, h]

theorem reads_conversion (hp : s.p + 1 ≤ last) : ∀ a ∈ s.reads, a ≤ last := by
  rw [Printf.reads]
  split
  · simp only [List.mem_cons, List.not_mem_nil, or_false]
    omega
  · simp only [List.mem_singleton]
    omega

theorem inside_conversion (hd : s.mem (s.p + 1) ≠ 105) (hp : s.p + 1 ≤ last) :
    s.Inside malloc last where
  reads := reads_conversion hp
  block := by simp [Printf.block, hd]

theorem SafeMalloc.block (hm : SafeMalloc malloc blocks used) (h37 : s.mem s.p = 37)
    (hd : s.mem (s.p + 1) = 105) : s.block malloc = some (blocks s.mallocs) := by
  simp [Printf.block, h37, hd, hm.answer]

theorem SafeMalloc.inside (hm : SafeMalloc malloc blocks used) (h37 : s.mem s.p = 37)
    (hd : s.mem (s.p + 1) = 105) (hp : s.p + 1 ≤ last) (hb : blocks s.mallocs ≠ 0) :
    s.Inside malloc last where
  reads := reads_conversion hp
  block := by simpa [hm.block h37 hd] using hb

end Inside

/-- What holds of every format, when it holds of an empty rest and of a refused
block, and the turns keep it. -/
structure Turns (malloc : ℕ → Malloc) (blocks stack : ℕ → ℕ) (last : ℕ)
    (P : List Piece → List Arg → Printf → Prop) : Prop where
  nil : ∀ s, s.mem s.p = 0 → s.p = last → P [] [] s
  cut : ∀ s, s.mem s.p = 37 → s.mem (s.p + 1) = 0 → s.p + 1 = last → P [.cut] [] s
  char : ∀ s ps args, s.mem s.p ≠ 0 → s.mem s.p ≠ 37 → s.p ≤ last → P ps args s.putch →
    P (.char (s.mem s.p) :: ps) args s
  refused : ∀ s ps args, s.mem s.p = 37 → s.mem (s.p + 1) = 105 → blocks s.mallocs = 0 →
    P (.int :: ps) args s
  int : ∀ s ps args, s.mem s.p = 37 → s.mem (s.p + 1) = 105 → s.p + 1 ≤ last →
    blocks s.mallocs ≠ 0 →
    IsString (itoa (malloc s.mallocs) (toInt32 (stack s.taken)) s.mem).2
      (itoa (malloc s.mallocs) (toInt32 (stack s.taken)) s.mem).1
      (itoaText (toInt32 (stack s.taken))) →
    P ps args (s.putInt (itoa (malloc s.mallocs) (toInt32 (stack s.taken)) s.mem)) →
    P (.int :: ps) (.int (toInt32 (stack s.taken)) :: args) s
  str : ∀ s ps args text, s.mem s.p = 37 → s.mem (s.p + 1) = 115 → s.p + 1 ≤ last →
    IsString s.mem (stack s.taken) text → P ps args (s.puts (stack s.taken)) →
    P (.str :: ps) (.str text :: args) s
  dropped : ∀ s ps args, s.mem s.p = 37 → s.mem (s.p + 1) ≠ 105 → s.mem (s.p + 1) ≠ 115 →
    s.p + 1 ≤ last → P ps args s.skip → P (.dropped :: ps) args s

theorem Turns.format {P : List Piece → List Arg → Printf → Prop}
    (h : Turns malloc blocks stack last P) (hm : SafeMalloc malloc blocks used)
    (hs : Held used s.mem s.p fmt) (hmem : ∀ i ∈ used, s.mem i = m i)
    (hargs : Matching used m stack s.taken (pieces fmt) args) (hlast : s.p + fmt.length = last) :
    P (pieces fmt) args s := by
  induction hn : fmt.length using Nat.strongRecOn generalizing fmt s args with
  | _ n ih =>
    cases fmt with
    | nil =>
      cases hargs
      exact h.nil s hs.string.zero hlast
    | cons c fmt =>
      obtain ⟨hc, h0, htail⟩ := hs.tail
      rw [List.length_cons] at hn hlast
      by_cases h37 : c = 37
      · subst h37
        cases fmt with
        | nil =>
          cases hargs with
          | cut hargs =>
            cases hargs
            exact h.cut s hc htail.string.zero hlast
        | cons d fmt =>
          obtain ⟨hd, -, htail⟩ := htail.tail
          rw [List.length_cons] at hn hlast
          have hnext : s.p + 2 + fmt.length = last := by omega
          rw [pieces_conversion] at hargs ⊢
          unfold conversion at hargs ⊢
          by_cases hi : d = 105
          · rw [if_pos hi] at hargs ⊢
            by_cases hb : blocks s.mallocs = 0
            · exact h.refused s _ _ hc (hd.trans hi) hb
            cases hargs with
            | int hargs =>
              obtain ⟨htext, hkept⟩ := hm.itoa hb s.mem (stack s.taken)
              refine h.int s _ _ hc (hd.trans hi) (by omega) hb htext
                (ih fmt.length (by omega) (htail.congr hkept) ?_ hargs hnext rfl)
              exact fun i hi ↦ (hkept i hi).trans (hmem i hi)
          · rw [if_neg hi] at hargs ⊢
            by_cases hs : d = 115
            · rw [if_pos hs] at hargs ⊢
              cases hargs with
              | str htext hargs =>
                exact h.str s _ _ _ hc (hd.trans hs) (by omega) (htext.congr hmem).string
                  (ih fmt.length (by omega) htail hmem hargs hnext rfl)
            · rw [if_neg hs] at hargs ⊢
              cases hargs with
              | dropped hargs =>
                exact h.dropped s _ _ hc (by rwa [hd]) (by rwa [hd]) (by omega)
                  (ih fmt.length (by omega) htail hmem hargs hnext rfl)
      · rw [pieces_char h37] at hargs ⊢
        have hnext : s.p + 1 + fmt.length = last := by omega
        cases hargs with
        | char hargs =>
          rw [← hc] at h0 h37 ⊢
          exact h.char s _ _ h0 h37 (by omega)
            (ih fmt.length (by omega) htail hmem hargs hnext rfl)

theorem step_of_percent (h : s.mem s.p = 37) : s.step malloc stack =
    if s.mem (s.p + 1) = 105 then
      some (s.putInt (itoa (malloc s.mallocs) (toInt32 (stack s.taken)) s.mem))
    else if s.mem (s.p + 1) = 115 then some (s.puts (stack s.taken))
    else some s.skip := by
  rw [Printf.step, if_neg (by rw [h]; decide), if_neg (not_not_intro h)]

def Prints (malloc : ℕ → Malloc) (stack : ℕ → ℕ) (last : ℕ) (ps : List Piece) (args : List Arg)
    (s : Printf) : Prop :=
  ∃ t, Printf.Ends malloc stack last s t ∧ Printed ps args s t

/-- Without a cut conversion and a refused block `printf` stays inside. -/
theorem prints_turns (hm : SafeMalloc malloc blocks used) :
    Turns malloc blocks stack last (fun ps args s ↦ .cut ∉ ps → Granted blocks ps s.mallocs →
      Prints malloc stack last ps args s) where
  nil s h hp _ _ := by
    refine ⟨s, .done ?_ (inside_char ?_ (Nat.le_of_eq hp)), .nil s⟩
    · rw [Printf.step, if_pos h]
    · rw [h]
      decide
  cut _ _ _ _ hcut := absurd List.mem_cons_self hcut
  char s ps args h0 h37 hp h hcut hg := by
    obtain ⟨t, hends, hprinted⟩ := h (fun h ↦ hcut (List.mem_cons_of_mem _ h))
      ((granted_of_ne (by simp)).mp hg)
    refine ⟨t, .next ?_ (inside_char h37 hp) hends, hprinted.cons rfl rfl rfl rfl rfl⟩
    rw [Printf.step, if_neg h0, if_pos h37]
  refused _ _ _ _ _ hb _ hg := absurd hb (granted_int.mp hg).1
  int s ps args h37 hd hp hb htext h hcut hg := by
    obtain ⟨t, hends, hprinted⟩ := h (fun h ↦ hcut (List.mem_cons_of_mem _ h)) (granted_int.mp hg).2
    refine ⟨t, .next ?_ (hm.inside h37 hd hp hb) hends,
      hprinted.cons rfl (Nat.add_right_comm _ _ _) rfl rfl htext⟩
    rw [step_of_percent h37, if_pos hd]
  str s ps args text h37 hd hp htext h hcut hg := by
    obtain ⟨t, hends, hprinted⟩ := h (fun h ↦ hcut (List.mem_cons_of_mem _ h))
      ((granted_of_ne (by simp)).mp hg)
    have hi : s.mem (s.p + 1) ≠ 105 := by simp [hd]
    refine ⟨t, .next ?_ (inside_conversion hi hp) hends,
      hprinted.cons rfl (Nat.add_right_comm _ _ _) rfl rfl htext⟩
    rw [step_of_percent h37, if_neg hi, if_pos hd]
  dropped s ps args h37 hi hs hp h hcut hg := by
    obtain ⟨t, hends, hprinted⟩ := h (fun h ↦ hcut (List.mem_cons_of_mem _ h))
      ((granted_of_ne (by simp)).mp hg)
    refine ⟨t, .next ?_ (inside_conversion hi hp) hends, hprinted.taken, hprinted.charsWritten,
      hprinted.sent⟩
    rw [step_of_percent h37, if_neg hi, if_neg hs]

theorem strays_turns (hm : SafeMalloc malloc blocks used) : Turns malloc blocks stack last
    (fun ps _ s ↦ .cut ∈ ps ∨ ¬ Granted blocks ps s.mallocs →
      Printf.Strays malloc stack last s) where
  nil _ _ _ h := by simp [Granted] at h
  cut s h37 hend hp _ := by
    refine .next (t := s.skip) ?_ (.here (fun hin ↦ ?_))
    · rw [step_of_percent h37, if_neg (by rw [hend]; decide), if_neg (by rw [hend]; decide)]
    · have hread : s.p + 2 ∈ s.skip.reads := by
        rw [Printf.reads, Printf.skip_p]
        split <;> exact List.mem_cons_self
      have hle := hin.reads _ hread
      omega
  char s ps args h0 h37 hp h hwrong := by
    refine .next ?_ (h (hwrong.imp (List.mem_of_ne_of_mem (by simp)) (mt (granted_of_ne (by simp)).mpr)))
    rw [Printf.step, if_neg h0, if_pos h37]
  refused s ps args h37 hd hb _ := .here (fun hin ↦ hin.block (by rw [hm.block h37 hd, hb]))
  int s ps args h37 hd hp hb htext h hwrong := by
    refine .next ?_ (h (hwrong.imp (List.mem_of_ne_of_mem (by simp))
      (mt (fun hg ↦ granted_int.mpr ⟨hb, hg⟩))))
    rw [step_of_percent h37, if_pos hd]
  str s ps args text h37 hd hp htext h hwrong := by
    refine .next ?_ (h (hwrong.imp (List.mem_of_ne_of_mem (by simp)) (mt (granted_of_ne (by simp)).mpr)))
    rw [step_of_percent h37, if_neg (by rw [hd]; decide), if_pos hd]
  dropped s ps args h37 hi hs hp h hwrong := by
    refine .next ?_ (h (hwrong.imp (List.mem_of_ne_of_mem (by simp)) (mt (granted_of_ne (by simp)).mpr)))
    rw [step_of_percent h37, if_neg hi, if_neg hs]

end Run

end GammaOS.User
