import GammaOS.User.CallStubs
import GammaOS.User.Gshell

namespace GammaOS.User

open Function Foundation ByteMemory X86 Kernel Relation

def waitCode (here : ℕ) : List Op :=
  [.movImm .eax 1,
   .int,
   .cmp .eax 0,
   .je here,
   .base .ret]

def getchCode (wait : ℕ) : List Op :=
  [.base (.push (.reg .ebp)),
   .base (.mov .ebp (.reg .esp)),
   .base (.call wait),
   .base (.pop .ebp),
   .base .ret]

/-- `gets`, from `here` on, with its loop three instructions behind. -/
def getsCode (here getch : ℕ) : List Op :=
  [.base (.push (.reg .ebp)),
   .base (.mov .ebp (.reg .esp)),
   .base (.mov .ebx (.mem .ebp 8)),
   .base (.call getch),
   .store .ebx .eax,
   .base (.add .ebx 1),
   .cmp .eax 10,
   .jne (here + 3),
   .base (.mov .eax (.mem .ebp 8)),
   .base (.pop .ebp),
   .base .ret]

structure GetsPlaced (code : List Op) (wait getch pos : ℕ) : Prop where
  placed_wait : Placed code wait (waitCode wait)
  placed_getch : Placed code getch (getchCode wait)
  placed_gets : Placed code pos (getsCode pos getch)

/-- The kernel answers the calls of GETCH from the one with number `k` on with the keys. -/
def Answers (w : World) (k : ℕ) (keys : List UInt8) : Prop :=
  ∀ i (h : i < keys.length) s, s.top 0 = 1 → (w.outer (k + i) s).gpr .eax = getchWord keys[i]

variable {w : World} {temp floor low high k wait getch pos ret ebx : ℕ} {line : Line}
  {kept : Set ℕ} {u s t x : Machine}
  {m : ByteMemory} {ws : List ℕ} {ch : UInt8} {keys rest typed : List UInt8}

theorem Answers.head (h : Answers w k (ch :: keys)) (hs : s.top 0 = 1) :
    (w.outer k s).gpr .eax = getchWord ch := h 0 (Nat.zero_lt_succ _) s hs

theorem Answers.tail (h : Answers w k (ch :: keys)) : Answers w (k + 1) keys := by
  intro i hi s hs
  have hi' := h (i + 1) (Nat.succ_lt_succ hi) s hs
  have hk : k + (i + 1) = k + 1 + i := by omega
  rwa [hk] at hi'

/-- A key has been waited for from `x` on: it is in `eax`, and the stack has the words `ws`. -/
structure KeyCame (w : World) (kept : Set ℕ) (low high : ℕ) (ws : List ℕ) (ret : ℕ) (ch : UInt8)
    (rest : List UInt8) (x : Machine) (d : ℕ × Machine) : Prop where
  answers : Answers w d.1 rest
  eax : d.2.gpr .eax = getchWord ch
  gpr : ∀ q, q ≠ .eax → q ≠ .esp → d.2.gpr q = x.gpr q
  eip : d.2.eip = ret
  kept : ∀ i ∈ kept, (i < low ∨ high ≤ i) → d.2.mem i = x.mem i
  pushed : Pushed d.2.mem low high ws d.2
  bounded : d.2.Bounded

theorem KeyCame.of_same {d : ℕ × Machine} (h : KeyCame w kept low high ws ret ch rest t d)
    (hgpr : ∀ q, q ≠ .eax → q ≠ .esp → t.gpr q = x.gpr q)
    (hmem : ∀ i ∈ kept, (i < low ∨ high ≤ i) → t.mem i = x.mem i) :
    KeyCame w kept low high ws ret ch rest x d :=
  { h with
    gpr := fun q h1 h2 ↦ (h.gpr q h1 h2).trans (hgpr q h1 h2)
    kept := fun i hi hout ↦ (h.kept i hi hout).trans (hmem i hi hout) }

theorem wait_leads (hs : Serves w temp floor kept) (hat : Placed w.code wait (waitCode wait))
    (hstack : ∀ i, low ≤ i → i < high → i ∈ kept) (hkeys : keys.dropWhile (· = 0) = ch :: rest)
    (hans : Answers w k keys) (hb : x.Bounded) (heip : x.eip = wait)
    (h : Pushed m low high (ret :: ws) x) :
    Leads w (k, x) (KeyCame w kept low high ws ret ch rest x) := by
  induction keys generalizing k x m with
  | nil => cases hkeys
  | cons c keys ih =>
    refine .movImm (hat.get (i := 0) heip rfl) h (by decide) (fun t₁ ht₁ heax₁ hmem₁ h₁ ↦ ?_)
    have heip₁ : t₁.eip = wait + 1 := by rw [ht₁.eip, heip]
    refine systemCall_leads hs (ht₁.bounded hb) (hat.get (i := 1) heip₁ rfl) h₁ hstack
      (fun s t₂ hcalled hgpr₂ heip₂ heax₂ hmem₂ h₂ hb₂ ↦ ?_)
    have heip₂ : t₂.eip = wait + 2 := by rw [heip₂, heip₁]
    have hkey : t₂.gpr .eax = getchWord c :=
      heax₂.trans (hans.head (hcalled.number.trans heax₁))
    refine .cmp (hat.get (i := 2) heip₂ rfl) hb₂ (by decide) (fun t₃ ht₃ hmem₃ hflag ↦ ?_)
    have heip₃ : t₃.eip = wait + 3 := by rw [ht₃.eip, heip₂]
    refine .je (hat.get (i := 3) heip₃ rfl) (fun t₄ ht₄ hmem₄ ↦ ?_)
    have heip₄ := ht₄.eip
    rw [hflag, hkey] at heip₄
    have hgpr₄ : ∀ q, t₄.gpr q = t₂.gpr q := fun q ↦
      (ht₄.gpr q List.not_mem_nil).trans (ht₃.gpr q List.not_mem_nil)
    have hmem₄' : t₄.mem = t₂.mem := hmem₄.trans hmem₃
    have h₄ := h₂.congr (hgpr₄ .esp) hmem₄'
    have hb₄ := ht₄.bounded (ht₃.bounded hb₂)
    have hsame : ∀ q, q ≠ .eax → q ≠ .esp → t₄.gpr q = x.gpr q := fun q h1 _ ↦ by
      rw [hgpr₄, hgpr₂ q h1, ht₁.gpr q (by simpa using h1)]
    have hkept : ∀ i ∈ kept, (i < low ∨ high ≤ i) → t₄.mem i = x.mem i := fun i hi _ ↦ by
      rw [hmem₄', hmem₂ i hi, hmem₁]
    by_cases hc : c = 0
    · rw [decide_eq_true ((getchWord_facts c).1.mpr hc), if_pos rfl] at heip₄
      rw [List.dropWhile_cons_of_pos (by simpa using hc)] at hkeys
      exact (ih hkeys hans.tail hb₄ heip₄ h₄).mono (fun d hd ↦ hd.of_same hsame hkept)
    · rw [decide_eq_false (mt (getchWord_facts c).1.mp hc), if_neg (by decide), heip₃] at heip₄
      rw [List.dropWhile_cons_of_neg (by simpa using hc)] at hkeys
      obtain ⟨rfl, rfl⟩ := List.cons_eq_cons.mp hkeys
      refine .back (hat.get (i := 4) heip₄ rfl) h₄ (fun t₅ ht₅ hmem₅ h₅ ↦ .done ?_)
      exact KeyCame.of_same ⟨hans.tail, by rw [ht₅.gpr _ (by decide), hgpr₄, hkey],
        fun q _ h2 ↦ ht₅.gpr q (by simpa using h2), ht₅.eip, fun i _ _ ↦ by rw [hmem₅],
        hmem₅ ▸ hmem₄' ▸ h₅, ht₅.bounded hb₄⟩ hsame hkept

theorem getch_leads (hs : Serves w temp floor kept) (hwait : Placed w.code wait (waitCode wait))
    (hat : Placed w.code getch (getchCode wait)) (hstack : ∀ i, low ≤ i → i < high → i ∈ kept)
    (hkeys : keys.dropWhile (· = 0) = ch :: rest) (hans : Answers w k keys) (hb : x.Bounded)
    (heip : x.eip = getch) (h : Pushed m low high (ret :: ws) x) (hroom : low + 8 ≤ x.gpr .esp) :
    Leads w (k, x) (KeyCame w kept low high ws ret ch rest x) := by
  refine .push (hat.get (i := 0) heip rfl) h (by omega) rfl (hb.gpr .ebp) (fun t₁ ht₁ h₁ ↦ ?_)
  have heip₁ : t₁.eip = getch + 1 := by rw [ht₁.eip, heip]
  have hesp₁ : t₁.gpr .esp + 4 = x.gpr .esp := by
    have hend := h.esp
    have hend₁ := h₁.esp
    rw [List.length_cons] at hend hend₁
    rw [List.length_cons] at hend₁
    omega
  refine .mov (hat.get (i := 1) heip₁ rfl) h₁ (by decide) rfl (fun t₂ ht₂ hebp hmem₂ h₂ ↦ ?_)
  have heip₂ : t₂.eip = getch + 2 := by rw [ht₂.eip, heip₁]
  have hesp₂ : t₂.gpr .esp = t₁.gpr .esp := ht₂.gpr .esp (by decide)
  refine .call (hat.get (i := 2) heip₂ rfl) h₂ (by omega) (fun t₃ ht₃ h₃ ↦ ?_)
  have hb₃ := ht₃.bounded (ht₂.bounded (ht₁.bounded hb))
  refine (wait_leads hs hwait hstack hkeys hans hb₃ ht₃.eip h₃).trans ?_
  rintro ⟨k', t₄⟩ hcame
  have heip₄ : t₄.eip = getch + 3 := by rw [hcame.eip, heip₂]
  refine .pop (hat.get (i := 3) heip₄ rfl) hcame.pushed (by decide) (fun t₅ ht₅ hebp₅ hmem₅ h₅ ↦ ?_)
  have heip₅ : t₅.eip = getch + 4 := by rw [ht₅.eip, heip₄]
  refine .back (hat.get (i := 4) heip₅ rfl) h₅ (fun t₆ ht₆ hmem₆ h₆ ↦ .done ?_)
  have hmem : t₆.mem = t₄.mem := hmem₆.trans hmem₅
  refine ⟨hcame.answers, ?_, fun q h1 h2 ↦ ?_, ht₆.eip, fun i hi hout ↦ ?_, hmem ▸ h₆,
    ht₆.bounded (ht₅.bounded hcame.bounded)⟩
  · rw [ht₆.gpr _ (by decide), ht₅.gpr _ (by decide), hcame.eax]
  · rw [ht₆.gpr q (by simpa using h2)]
    by_cases h3 : q = .ebp
    · rw [h3]
      exact hebp₅
    · rw [ht₅.gpr q (by simp [h2, h3]), hcame.gpr q h1 h2, ht₃.gpr q (by simpa using h2),
        ht₂.gpr q (by simpa using h3), ht₁.gpr q (by simpa using h2)]
  · rw [hmem, hcame.kept i hi hout, h₃.off i hout, h.off i hout]

theorem getsLoop_firstKey (h : getsLoop keys ebx m = some line) :
    ∃ ch rest, keys.dropWhile (· = 0) = ch :: rest ∧ ch ≠ 0 ∧ rest.length < keys.length ∧
      getsLoop (ch :: rest) ebx m = some line := by
  induction keys with
  | nil => cases h
  | cons c keys ih =>
    by_cases hc : c = 0
    · subst hc
      rw [getsLoop_zero] at h
      obtain ⟨ch, rest, hkeys, hne, hlt, hline⟩ := ih h
      refine ⟨ch, rest, ?_, hne, Nat.lt_succ_of_lt hlt, hline⟩
      rwa [List.dropWhile_cons_of_pos (by decide)]
    · exact ⟨c, keys, List.dropWhile_cons_of_neg (by simpa using hc), hc, Nat.lt_succ_self _, h⟩

/-- The loop of `gets` in front of a call of `getch`: the memory that the kernel keeps is
`mem`, off the stack. -/
structure AtLoop (kept : Set ℕ) (low high : ℕ) (ws : List ℕ) (pos ebx : ℕ) (mem : ByteMemory)
    (x : Machine) : Prop where
  bounded : x.Bounded
  eip : x.eip = pos
  ebx : x.gpr .ebx = ebx
  pushed : ∃ m, Pushed m low high ws x
  mem : ∀ i ∈ kept, (i < low ∨ high ≤ i) → x.mem i = mem i

theorem store32_agree {m' : ByteMemory} {a v i : ℕ} (h : m' i = m i) :
    m'.store32 a v i = m.store32 a v i := by
  unfold store32
  rw [h]

theorem gets_turn (hs : Serves w temp floor kept) (hp : GetsPlaced w.code wait getch pos)
    (hstack : ∀ i, low ≤ i → i < high → i ∈ kept) (hroom : low + 12 + 4 * ws.length ≤ high)
    (hkeys : keys.dropWhile (· = 0) = ch :: rest) (hans : Answers w k keys)
    (hx : AtLoop kept low high ws (pos + 3) ebx m x) (hout : ebx + 4 ≤ low ∨ high ≤ ebx) :
    Leads w (k, x) (fun d ↦ Answers w d.1 rest ∧
      AtLoop kept low high ws (if ch = 10 then pos + 8 else pos + 3) (u32 (ebx + 1))
        (m.store32 ebx (getchWord ch)) d.2 ∧
      ∀ q, q ≠ .eax → q ≠ .esp → q ≠ .ebx → d.2.gpr q = x.gpr q) := by
  obtain ⟨m₀, h₀⟩ := hx.pushed
  have hend := h₀.esp
  have hat := hp.placed_gets
  refine .call (hat.get (i := 3) hx.eip rfl) h₀ (by omega) (fun t₁ ht₁ h₁ ↦ ?_)
  have hend₁ := h₁.esp
  rw [List.length_cons] at hend₁
  refine (getch_leads hs hp.placed_wait hp.placed_getch hstack hkeys hans (ht₁.bounded hx.bounded)
    ht₁.eip h₁ (by omega)).trans ?_
  rintro ⟨k', t₂⟩ hcame
  have heip₂ : t₂.eip = pos + 4 := by rw [hcame.eip, hx.eip]
  have hebx₂ : t₂.gpr .ebx = ebx := by
    rw [hcame.gpr _ (by decide) (by decide), ht₁.gpr _ (by decide), hx.ebx]
  refine .store (hat.get (i := 4) heip₂ rfl) hcame.pushed (by rwa [hebx₂])
    (fun t₃ ht₃ hmem₃ h₃ ↦ ?_)
  have heip₃ : t₃.eip = pos + 5 := by rw [ht₃.eip, heip₂]
  rw [hebx₂, hcame.eax] at hmem₃
  refine .add (hat.get (i := 5) heip₃ rfl) h₃ (by decide) (fun t₄ ht₄ hebx₄ hmem₄ h₄ ↦ ?_)
  have heip₄ : t₄.eip = pos + 6 := by rw [ht₄.eip, heip₃]
  have hb₄ := ht₄.bounded (ht₃.bounded hcame.bounded)
  refine .cmp (hat.get (i := 6) heip₄ rfl) hb₄ (by decide) (fun t₅ ht₅ hmem₅ hflag ↦ ?_)
  have heip₅ : t₅.eip = pos + 7 := by rw [ht₅.eip, heip₄]
  refine .jne (hat.get (i := 7) heip₅ rfl) (fun t₆ ht₆ hmem₆ ↦ .done ?_)
  have hgpr₆ : ∀ q, t₆.gpr q = t₄.gpr q := fun q ↦
    (ht₆.gpr q List.not_mem_nil).trans (ht₅.gpr q List.not_mem_nil)
  have hmem : t₆.mem = t₃.mem := hmem₆.trans (hmem₅.trans hmem₄)
  have heax : t₄.gpr .eax = getchWord ch := by
    rw [ht₄.gpr _ (by decide), ht₃.gpr _ List.not_mem_nil, hcame.eax]
  refine ⟨hcame.answers, ⟨ht₆.bounded (ht₅.bounded hb₄), ?_, ?_, ⟨_, h₄.congr (hgpr₆ .esp)
    (hmem₆.trans hmem₅)⟩, fun i hi hoff ↦ ?_⟩, fun q h1 h2 h3 ↦ ?_⟩
  · rw [ht₆.eip, hflag, heax, heip₅]
    by_cases hc : ch = 10
    · rw [decide_eq_true ((getchWord_facts ch).2.1.mpr hc), if_pos rfl, if_pos hc]
    · rw [decide_eq_false (mt (getchWord_facts ch).2.1.mp hc), if_neg (by decide), if_neg hc]
  · rw [hgpr₆, hebx₄, ht₃.gpr _ List.not_mem_nil, hebx₂]
    unfold wrap u32
    rfl
  · rw [hmem, hmem₃]
    refine store32_agree ?_
    rw [hcame.kept i hi hoff, h₁.off i hoff, ← h₀.off i hoff, hx.mem i hi hoff]
  · rw [hgpr₆, ht₄.gpr q (by simpa using h3), ht₃.gpr q List.not_mem_nil, hcame.gpr q h1 h2,
      ht₁.gpr q (by simpa using h2)]

theorem gets_loop (hs : Serves w temp floor kept) (hp : GetsPlaced w.code wait getch pos)
    (hstack : ∀ i, low ≤ i → i < high → i ∈ kept) (hroom : low + 12 + 4 * ws.length ≤ high)
    (hline : getsLoop keys ebx m = some line) (hans : Answers w k keys)
    (hx : AtLoop kept low high ws (pos + 3) ebx m x)
    (hout : ∀ a ∈ line.stores, a + 4 ≤ low ∨ high ≤ a) :
    Leads w (k, x) (fun d ↦
      AtLoop kept low high ws (pos + 8) (u32 (ebx + line.stores.length)) line.mem d.2 ∧
      ∀ q, q ≠ .eax → q ≠ .esp → q ≠ .ebx → d.2.gpr q = x.gpr q) := by
  induction hn : keys.length using Nat.strong_induction_on generalizing keys k x m ebx line with
  | _ n ih =>
    obtain ⟨ch, rest, hkeys, hne, hlt, hline⟩ := getsLoop_firstKey hline
    by_cases hc : ch = 10
    · subst hc
      rw [getsLoop_enter] at hline
      cases hline
      refine (gets_turn hs hp hstack hroom hkeys hans hx (hout ebx List.mem_cons_self)).mono ?_
      rintro d ⟨-, hd, hgpr⟩
      rw [if_pos rfl, (getchWord_facts 10).2.1.mpr rfl] at hd
      exact ⟨hd, hgpr⟩
    · rw [getsLoop_char hne hc] at hline
      obtain ⟨line', hline', rfl⟩ := Option.map_eq_some_iff.mp hline
      refine (gets_turn hs hp hstack hroom hkeys hans hx (hout ebx List.mem_cons_self)).trans ?_
      rintro ⟨k', t⟩ ⟨hans', ht, hgpr⟩
      rw [if_neg hc] at ht
      refine (ih rest.length (hn ▸ hlt) hline' hans' ht
        (fun a ha ↦ hout a (List.mem_cons_of_mem _ ha)) rfl).mono ?_
      rintro d ⟨hd, hgpr'⟩
      refine ⟨?_, fun q h1 h2 h3 ↦ (hgpr' q h1 h2 h3).trans (hgpr q h1 h2 h3)⟩
      have hebx : u32 (u32 (ebx + 1) + line'.stores.length) =
          u32 (ebx + (line'.stores.length + 1)) := by
        unfold u32
        omega
      rw [hebx] at hd
      exact hd

theorem getsLoop_outside {i : ℕ} (h : getsLoop keys ebx m = some line)
    (hi : ∀ a ∈ line.stores, i < a ∨ a + 4 ≤ i) : line.mem i = m i := by
  induction keys generalizing ebx m line with
  | nil => cases h
  | cons ch keys ih =>
    by_cases h0 : ch = 0
    · rw [h0, getsLoop_zero] at h
      exact ih h hi
    · by_cases h10 : ch = 10
      · rw [h10, getsLoop_enter] at h
        cases h
        exact store32_outside (hi ebx List.mem_cons_self)
      · rw [getsLoop_char h0 h10] at h
        obtain ⟨line', hline', rfl⟩ := Option.map_eq_some_iff.mp h
        exact (ih hline' (fun a ha ↦ hi a (List.mem_cons_of_mem _ ha))).trans
          (store32_outside (hi ebx List.mem_cons_self))

/-- `gets` does to the memory what its loop does, and leaves `ebx` behind the line. -/
theorem gets_refines (hs : Serves w temp floor kept) (hp : GetsPlaced w.code wait getch pos)
    (heip : u.eip = pos) (hu : Entered kept 16 ret u) (harg : u.mem.load32 (u.gpr .esp + 4) = ebx)
    (hline : getsLoop keys ebx u.mem = some line) (hans : Answers w k keys)
    (hout : ∀ a ∈ line.stores, a + 4 ≤ u.gpr .esp - 16 ∨ u.gpr .esp + 8 ≤ a) :
    Leads w (k, u) (fun d ↦ Back kept 16 ret ebx line.mem u d.2 ∧
      d.2.gpr .ebx = u32 (ebx + line.stores.length) ∧
      ∀ q, q ≠ .eax → q ≠ .esp → q ≠ .ebx → d.2.gpr q = u.gpr q) := by
  have hat := hp.placed_gets
  have hroom := hu.room
  have hlt := hu.esp_lt
  have h₀ := Pushed.start (s := u) (u.gpr .esp - 16) rfl (by omega) (by omega)
  refine .push (v := u.gpr .ebp) (hat.get (i := 0) heip rfl) h₀ (by omega) rfl (hu.bounded.gpr .ebp)
    (fun t₁ ht₁ h₁ ↦ ?_)
  have hesp₁ : t₁.gpr .esp + 4 = u.gpr .esp := h₁.esp
  have heip₁ : t₁.eip = pos + 1 := by rw [ht₁.eip, heip]
  refine .mov (v := t₁.gpr .esp) (hat.get (i := 1) heip₁ rfl) h₁ (by decide) rfl
    (fun t₂ ht₂ hebp₂ hmem₂ h₂ ↦ ?_)
  have heip₂ : t₂.eip = pos + 2 := by rw [ht₂.eip, heip₁]
  have hval : Source.value t₂ (.mem .ebp 8) = ebx := by
    rw [Source.value, show t₂.gpr .ebp + 8 = u.gpr .esp + 4 by omega, wrap_of_lt (by omega),
      h₂.load (by omega), harg]
  refine .mov (hat.get (i := 2) heip₂ rfl) h₂ (by decide) hval (fun t₃ ht₃ hebx₃ hmem₃ h₃ ↦ ?_)
  have hloop : AtLoop kept (u.gpr .esp - 16) (u.gpr .esp) [u.gpr .ebp] (pos + 3) ebx u.mem t₃ :=
    ⟨ht₃.bounded (ht₂.bounded (ht₁.bounded hu.bounded)), by rw [ht₃.eip, heip₂], hebx₃, ⟨_, h₃⟩,
      fun i _ hoff ↦ h₃.off i hoff⟩
  refine (gets_loop hs hp (fun i h₁ h₂ ↦ hu.stack i (by omega) (by omega))
    (by simp only [List.length_cons, List.length_nil]; omega) hline hans hloop
    (fun a ha ↦ (hout a ha).imp_right (fun h ↦ by omega))).trans ?_
  rintro ⟨k', t₄⟩ ⟨hend, hgpr₄⟩
  obtain ⟨m₀, h₄⟩ := hend.pushed
  have hebp₄ : t₄.gpr .ebp = t₁.gpr .esp := by
    rw [hgpr₄ .ebp (by decide) (by decide) (by decide), ht₃.gpr .ebp (by decide), hebp₂]
  -- The return address and the argument are behind the words that were pushed.
  have hframe : ∀ i, u.gpr .esp ≤ i → i < u.gpr .esp + 8 → t₄.mem i = u.mem i := by
    intro i h₁ h₂
    rw [hend.mem i (hu.stack i (by omega) h₂) (.inr h₁)]
    exact getsLoop_outside hline (fun a ha ↦ by have := hout a ha; omega)
  have hval₄ : Source.value t₄ (.mem .ebp 8) = ebx := by
    rw [Source.value, show t₄.gpr .ebp + 8 = u.gpr .esp + 4 by omega, wrap_of_lt (by omega), ← harg]
    exact load32_congr (fun i h₁ h₂ ↦ hframe i (by omega) (by omega))
  refine .mov (hat.get (i := 8) hend.eip rfl) h₄ (by decide) hval₄ (fun t₅ ht₅ heax₅ hmem₅ h₅ ↦ ?_)
  have heip₅ : t₅.eip = pos + 9 := by rw [ht₅.eip, hend.eip]
  refine .pop (hat.get (i := 9) heip₅ rfl) h₅ (by decide) (fun t₆ ht₆ hebp₆ hmem₆ h₆ ↦ ?_)
  have heip₆ : t₆.eip = pos + 10 := by rw [ht₆.eip, heip₅]
  have hesp₆ : t₆.gpr .esp = u.gpr .esp := h₆.esp
  have hmem : t₆.mem = t₄.mem := hmem₆.trans hmem₅
  have hret : t₆.mem.load32 (t₆.gpr .esp) = ret := by
    rw [hesp₆, ← hu.ret, hmem]
    exact load32_congr (fun i h₁ h₂ ↦ hframe i h₁ (by omega))
  refine .ret (hat.get (i := 10) heip₆ rfl) hret (by omega) (fun t₇ ht₇ hesp₇ hmem₇ ↦ .done ?_)
  refine ⟨⟨ht₇.bounded (ht₆.bounded (ht₅.bounded hend.bounded)), ht₇.eip, by rw [hesp₇, hesp₆], ?_,
    fun i hi hoff ↦ ?_⟩, ?_, fun q h1 h2 h3 ↦ ?_⟩
  · rw [ht₇.gpr _ (by decide), ht₆.gpr _ (by decide), heax₅]
  · rw [hmem₇, hmem, hend.mem i hi (by omega)]
  · rw [ht₇.gpr _ (by decide), ht₆.gpr _ (by decide), ht₅.gpr _ (by decide), hend.ebx]
  · rw [ht₇.gpr q (by simpa using h2)]
    by_cases h4 : q = .ebp
    · rw [h4, hebp₆]
    · rw [ht₆.gpr q (by simp [h2, h4]), ht₅.gpr q (by simpa using h1), hgpr₄ q h1 h2 h3,
        ht₃.gpr q (by simpa using h3), ht₂.gpr q (by simpa using h4), ht₁.gpr q (by simpa using h2)]

/-- `gets` comes back with the line that is typed, Enter and a zero behind it, however
often it has to wait for a key. It stores two more bytes, and does not restore `ebx`. -/
theorem gets_reads_line (hs : Serves w temp floor kept) (hp : GetsPlaced w.code wait getch pos)
    (heip : u.eip = pos) (hu : Entered kept 16 ret u) {buf : ℕ}
    (harg : u.mem.load32 (u.gpr .esp + 4) = buf) (hkeys : Types keys typed) (h10 : 10 ∉ typed)
    (hans : Answers w k keys) (hbuf : buf + typed.length + 4 ≤ 2 ^ 32)
    (hout : buf + typed.length + 4 ≤ u.gpr .esp - 16 ∨ u.gpr .esp + 8 ≤ buf) :
    Leads w (k, u) (fun d ↦
      Back kept 16 ret buf (u.mem.writeBytes buf (typed ++ [10, 0, 0, 0])) u d.2 ∧
      d.2.gpr .ebx = buf + typed.length + 1 ∧
      ∀ q, q ≠ .eax → q ≠ .esp → q ≠ .ebx → d.2.gpr q = u.gpr q) := by
  obtain ⟨line, hline, hstores, hmem⟩ := getsLoop_run (m := u.mem) hkeys h10
    (show buf < 2 ^ 32 by omega)
  have hoff : ∀ a ∈ line.stores, a + 4 ≤ u.gpr .esp - 16 ∨ u.gpr .esp + 8 ≤ a := by
    intro a ha
    rw [hstores] at ha
    obtain ⟨i, hi, rfl⟩ := List.mem_map.mp ha
    have hlt := List.mem_range.mp hi
    rw [u32_of_lt (by omega)]
    omega
  have hlen : line.stores.length = typed.length + 1 := by
    rw [hstores, List.length_map, List.length_range]
  have hrun := gets_refines hs hp heip hu harg hline hans hoff
  rwa [hmem hbuf, hlen, u32_of_lt (by omega)] at hrun

def lineLibrary : List Op := waitCode 9 ++ (getchCode 9 ++ getsCode 19 14)

def lineKeys : List UInt8 := [0, 97, 0, 10]

def keyAnswer (k : ℕ) (s : Machine) : ℕ := if s.top 0 = 1 then getchWord (lineKeys.getD k 0) else 0

theorem lineLibrary_fits : ∀ op ∈ lineLibrary, op.Fits := by
  simp [lineLibrary, waitCode, getchCode, getsCode, Op.Fits, Instr.Fits]

def lineWorld : World := servingWorld lineLibrary lineLibrary_fits (by decide) keyAnswer

theorem lineWorld_placed : GetsPlaced lineWorld.code 9 14 19 where
  placed_wait := .of_append (isr0x80Code 0x500000) (getchCode 9 ++ getsCode 19 14) rfl
  placed_getch := .of_append (isr0x80Code 0x500000 ++ waitCode 9) (getsCode 19 14) rfl
  placed_gets := .of_append (isr0x80Code 0x500000 ++ (waitCode 9 ++ getchCode 9)) [] rfl

theorem lineWorld_answers : Answers lineWorld 0 lineKeys := by
  intro i hi s hs
  have hans : keyAnswer (0 + i) s = getchWord lineKeys[i] := by
    rw [keyAnswer, if_pos hs, Nat.zero_add, List.getD_eq_getElem _ _ hi]
  show update s.gpr .eax (wrap (keyAnswer (0 + i) s)) .eax = _
  have hlt : getchWord lineKeys[i] < 2 ^ 32 := by
    unfold getchWord ofInt32
    omega
  rw [update_self, hans, wrap_of_lt hlt]

theorem gets_reads_line_short : ∃ d, ReflTransGen lineWorld.Step (0, calling 19 0x1400000) d ∧
    d.2.eip = 0x400010 ∧ d.2.gpr .eax = 0x1400000 ∧ d.2.gpr .ebx = 0x1400002 ∧
    d.2.mem 0x1400000 = 97 := by
  have hline : Types lineKeys [97] := by decide
  have harg := calling_arg 19 0x1400000 (by decide)
  obtain ⟨d, hd, hback, hebx, -⟩ := gets_reads_line (k := 0)
    (servingWorld_serves lineLibrary_fits (by decide) keyAnswer) lineWorld_placed rfl
    (calling_entered (by decide) (by decide)) harg hline (by decide) lineWorld_answers
    (by decide) (.inr (by decide))
  refine ⟨d, hd, hback.eip, hback.eax, hebx, ?_⟩
  rw [hback.mem _ (Set.mem_Ici.mpr (by decide)) (.inr (by decide))]
  exact writeBytes_inside (i := 0) (by decide)

end GammaOS.User
