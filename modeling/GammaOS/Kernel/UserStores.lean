import GammaOS.Kernel.Isolation
import GammaOS.Paging.PageWalk

namespace GammaOS.Kernel

open Function Foundation Foundation.Program Memory Paging Fs Loader

section Source

variable {σ δ : Type}

def StoresThrough (entry : ℕ) : Prop := entry &&& pagePresent ≠ 0 ∧ WritableByUser entry

instance (entry : ℕ) : Decidable (StoresThrough entry) := by
  unfold StoresThrough WritableByUser
  infer_instance

/-- The physical address that the processor finds for a store of user mode at `v`
with the directory at `directory` loaded, none for a page fault. -/
def storeWalk (m : ByteMemory) (directory v : ℕ) : Option ℕ :=
  let dirEntry := m.load32 (directory + 4 * (v / 2 ^ 22))
  let entry := m.load32 (tableOf m directory (v / 2 ^ 22) + 4 * (v % 2 ^ 22 / pageSize))
  if StoresThrough dirEntry ∧ StoresThrough entry then
    some ((entry &&& 0xfffff000) + v % pageSize)
  else none

def KernelState.stored (s : KernelState σ δ) (pa : ℕ) (b : UInt8) : KernelState σ δ :=
  s.setArena { s.arena with mem := update s.arena.mem pa b }

/-- User mode stores a byte, through the page directory that is loaded. -/
def userStore (v : ℕ) (b : UInt8) : KernelM σ δ Unit := fun s ↦
  match storeWalk s.arena.mem (s.arena.mem.load32 s.currentPageDirectory) v with
  | none => .error .dangling
  | some pa => .ok ((), s.stored pa b)

end Source

section Walk

variable {σ δ : Type} {s s' : KernelState σ δ} {m : ByteMemory} {S : Space} {v pa : ℕ} {b : UInt8}

theorem userStore_eq_ok {u : Unit} : userStore v b s = .ok (u, s') ↔
    ∃ pa, storeWalk s.arena.mem (s.arena.mem.load32 s.currentPageDirectory) v = some pa ∧
      s' = s.stored pa b := by
  unfold userStore
  constructor
  · intro h
    split at h
    · cases h
    · cases h
      exact ⟨_, ‹_›, rfl⟩
  · rintro ⟨pa, hpa, rfl⟩
    rw [hpa]

theorem storeWalk_entry (h : Holds m S) (hv : v < 2 ^ 32)
    (hpa : storeWalk m S.directory v = some pa) :
    WritableByUser (entries m S (v / pageSize * pageSize)) ∧
      pa = (entries m S (v / pageSize * pageSize) &&& 0xfffff000) + v % pageSize := by
  unfold storeWalk at hpa
  rw [h.table_eq _ (dirIndex_lt hv)] at hpa
  rw [entries, Space.slot_page, Space.slot]
  obtain ⟨⟨-, -, hw⟩, heq⟩ := Option.ite_none_right_eq_some.mp hpa
  exact ⟨hw, (Option.some.inj heq).symm⟩

theorem stored_other {a : ℕ} (h : a ≠ pa) : (s.stored pa b).arena.mem a = s.arena.mem a :=
  update_of_ne h _ _

end Walk

variable {σ : Type} [Allocator σ] {rule : PageRule} {s s' : KernelState σ Fat16Files}
  {hold : ℕ → Holding} {p v pa : ℕ} {b : UInt8} {x y : Process} {t : Task} {g : Holding}
  {bs : List (ℕ × ℕ)} {block : ℕ × ℕ}

theorem InBlock.mem_blockRun {page i : ℕ} (hb : block.1 % pageSize = 0) (h : InBlock block page)
    (h₁ : page ≤ i) (h₂ : i < page + pageSize) : pageOf i ∈ blockRun block.1 block.2 := by
  obtain ⟨hle, hend⟩ := h
  refine Run.mem_mk.mpr ?_
  unfold pageOf
  unfold pageSize at *
  omega

def PageRule.Inside (rule : PageRule) : Prop :=
  ∀ bs v entry, rule.Ok bs v entry → ownPageRule.Ok bs v entry

theorem InControl.writable_inBlock (h : InControl rule s hold) (hrule : rule.Inside)
    (hl : LiveProcess s p x t (hold p)) (hv : v < 2 ^ 32) (hva : v % pageSize = 0)
    (hw : WritableByUser (entries s.arena.mem (hold p).space v)) :
    ∃ block ∈ x.userBlocks (hold p).own,
      InBlock block (entries s.arena.mem (hold p).space v &&& 0xfffff000) :=
  hrule _ _ _ (h.pages p x hl.at_process v hv hva) hw

theorem LiveProcess.userBlock_owned (hl : LiveProcess s p x t g) (hb : block ∈ x.userBlocks g.own) :
    block.1 % pageSize = 0 ∧ blockRun block.1 block.2 ∈ x.owned p g := by
  rcases List.mem_cons.mp hb with rfl | hb
  · have hmem : (x.stack, processMaxProcessStackSize) ∈ x.blocks p :=
      List.mem_cons_of_mem _ List.mem_cons_self
    exact ⟨(hl.block _ hmem).aligned, Process.block_owned hmem⟩
  · rcases List.mem_cons.mp hb with rfl | hb
    · have hmem : x.data.buffer ∈ x.blocks p :=
        List.mem_cons_of_mem _ (List.mem_cons_of_mem _ (List.mem_cons_of_mem _ x.data.buffer_mem))
      exact ⟨(hl.block _ hmem).aligned, Process.block_owned hmem⟩
    · exact ⟨(hl.held.block block hb).aligned, Process.own_owned hb⟩

theorem LiveProcess.userBlock_tables (hl : LiveProcess s p x t g) (hap : x.TablesApart g.space)
    (hb : block ∈ x.userBlocks g.own) :
    ∀ r ∈ g.space.runs, (blockRun block.1 block.2).Apart r := by
  rcases List.mem_cons.mp hb with rfl | hb
  · exact hap _ List.mem_cons_self
  · rcases List.mem_cons.mp hb with rfl | hb
    · exact hap _ (List.mem_cons_of_mem _ List.mem_cons_self)
    · exact fun r hr ↦ hl.held.off block hb r (List.mem_append_right _ hr)

/-- What holds whenever user mode runs: the kernel is in control, the loaded page
directory is the one of the current process, and no process may write where its
tables are. -/
structure UserSafe (rule : PageRule) (s : KernelState σ Fat16Files) (hold : ℕ → Holding) : Prop
    extends InControl rule s hold where
  agrees : ∃ x t, Agrees s x t
  tables : ∀ p x, s.processes p = some x → x.TablesApart (hold p).space

namespace UserSafe

variable {e : Entry}

theorem writable_apart (h : UserSafe rule s hold) (hrule : rule.Inside)
    (hl : LiveProcess s p x t (hold p)) (hv : v < 2 ^ 32) (hva : v % pageSize = 0)
    (hw : WritableByUser (entries s.arena.mem (hold p).space v)) {i : ℕ}
    (h₁ : entries s.arena.mem (hold p).space v &&& 0xfffff000 ≤ i)
    (h₂ : i < (entries s.arena.mem (hold p).space v &&& 0xfffff000) + pageSize) :
    (∀ r ∈ (hold p).space.runs, pageOf i ∉ r) ∧
      ∀ q y, q ≠ p → s.processes q = some y → ∀ r ∈ y.owned q (hold q), pageOf i ∉ r := by
  obtain ⟨block, hb, hin⟩ := h.writable_inBlock hrule hl hv hva hw
  obtain ⟨hal, howned⟩ := hl.userBlock_owned hb
  have hmem := hin.mem_blockRun hal h₁ h₂
  refine ⟨fun r hr hi ↦ ?_, fun q y hq hy r hr hi ↦ ?_⟩
  · exact hl.userBlock_tables (h.tables p x hl.at_process) hb r hr _ hmem hi
  · exact h.apart hl.at_process hy (Ne.symm hq) _ howned r hr _ hmem hi

/-- A store of user mode hits a page of the current process, and no other. -/
theorem store_hits (h : UserSafe rule s hold) (hrule : rule.Inside) (hv : v < 2 ^ 32) {u : Unit}
    (hr : userStore v b s = .ok (u, s')) : ∃ pa, s' = s.stored pa b ∧
      (∀ q y, s.processes q = some y → ∀ r ∈ (hold q).space.runs, pageOf pa ∉ r) ∧
      ∀ q y, q ≠ s.currentProcess → s.processes q = some y →
        ∀ r ∈ y.owned q (hold q), pageOf pa ∉ r := by
  obtain ⟨pa, hwalk, rfl⟩ := userStore_eq_ok.mp hr
  obtain ⟨x, t, ha⟩ := h.agrees
  obtain ⟨u, hl⟩ := h.live _ x ha.live
  cases ha.at_task.symm.trans hl.at_task
  have hdir : s.arena.mem.load32 s.currentPageDirectory =
      (hold s.currentProcess).space.directory := by
    rw [ha.loaded, ← hl.space, hl.holds.pd_eq, hl.holds.directory_eq]
  rw [hdir] at hwalk
  obtain ⟨hw, hpa⟩ := storeWalk_entry hl.holds hv hwalk
  have hlt : v / pageSize * pageSize < 2 ^ 32 :=
    Nat.lt_of_le_of_lt (Nat.div_mul_le_self v _) hv
  obtain ⟨htables, hothers⟩ := h.writable_apart hrule hl hlt (Nat.mul_mod_left _ _) hw
    (i := pa) (hpa ▸ Nat.le_add_right _ _)
    (hpa ▸ Nat.add_lt_add_left (Nat.mod_lt v (by decide)) _)
  refine ⟨pa, rfl, fun q y hy r hr ↦ ?_, hothers⟩
  by_cases hq : q = s.currentProcess
  · subst hq
    exact htables r hr
  · exact hothers q y hq hy r (Process.space_owned hr)

end UserSafe

section Stored

theorem LiveProcess.stored (h : LiveProcess s p x t g) (hoff : ∀ r ∈ g.space.runs, pageOf pa ∉ r) :
    LiveProcess (s.stored pa b) p x t g ∧
      ∀ v < 2 ^ 32, entries (s.stored pa b).arena.mem g.space v = entries s.arena.mem g.space v := by
  have hsame : ∀ r ∈ g.space.runs, ∀ i, pageOf i ∈ r →
      (s.stored pa b).arena.mem i = s.arena.mem i :=
    fun r hr i hi ↦ stored_other (fun he ↦ hoff r hr (he ▸ hi))
  obtain ⟨hh, he⟩ := h.holds.frame hsame
  refine ⟨{ h with holds := hh, block := fun c hc ↦ ?_, held := ?_ }, he⟩
  · exact (h.block c hc).keep (h.block c hc).live
  · exact ⟨h.held.live, fun c hc ↦ (h.held.block c hc).keep (h.held.block c hc).live, h.held.off,
      h.held.bases⟩

theorem InControl.stored (h : InControl rule s hold)
    (hoff : ∀ q y, s.processes q = some y → ∀ r ∈ (hold q).space.runs, pageOf pa ∉ r) :
    InControl rule (s.stored pa b) hold where
  mounted := KernelInv.mounted_congr h.mounted rfl
  live p x hx := by
    obtain ⟨t, ht⟩ := h.live p x hx
    exact ⟨t, (ht.stored (hoff p x hx)).1⟩
  ledger := h.ledger.restrict (fun p r hr ↦ hr) h.ledger.live
  listed := h.listed
  slots := h.slots
  pages p x hx v hv hva := by
    obtain ⟨t, ht⟩ := h.live p x hx
    rw [(ht.stored (hoff p x hx)).2 v hv]
    exact h.pages p x hx v hv hva
  current := h.current
  gshell := h.gshell

theorem Evolves.stored (hoff : ∀ q y, q ≠ s.currentProcess → s.processes q = some y →
    ∀ r ∈ y.owned q (hold q), pageOf pa ∉ r) : Evolves hold hold s (s.stored pa b) where
  aside p x _ hp _ hl := ⟨rfl, rfl, fun r hr ↦ ⟨hl.owned_live r hr, fun _ hi ↦
    stored_other (fun he ↦ hoff p x hp hl.at_process r hr (he ▸ hi))⟩⟩
  held _ _ _ := rfl
  origin _ y hy := Or.inl ⟨y, hy, rfl, rfl⟩

end Stored

namespace UserSafe

variable {e : Entry} {iframe : Reg} {handler : Option (KernelM σ Fat16Files Unit)}

theorem evolved {hold' : ℕ → Holding} (h : UserSafe rule s hold) (h' : InControl rule s' hold')
    (hev : Evolves hold hold' s s') (ha : ∃ x t, Agrees s' x t) : UserSafe rule s' hold' where
  toInControl := h'
  agrees := ha
  tables p y hy := by
    rcases hev.origin p y hy with ⟨x, hx, hblocks, hspace⟩ | hnew
    · rw [Process.TablesApart, hblocks, hspace]
      exact h.tables p x hx
    · exact hnew

theorem entry [LawfulAllocator σ] (h : UserSafe rule s hold) (hw : e.Words)
    (hok : e.Allowed rule s) (hr : e.run s = .ok ((), s')) :
    ∃ hold', UserSafe rule s' hold' ∧ Evolves hold hold' s s' := by
  obtain ⟨hold', h', hev, ha⟩ := h.entry_evolves hw hok hr
  exact ⟨hold', h.evolved h' hev ha, hev⟩

theorem interrupt [LawfulAllocator σ] (h : UserSafe rule s hold)
    (hcalm : ∀ f ∈ handler, ∀ s s', f s = .ok ((), s') → Calm hold s s')
    (hr : interruptHandler handler iframe s = .ok ((), s')) :
    UserSafe rule s' hold ∧ Evolves hold hold s s' := by
  obtain ⟨h', hev, ha⟩ := h.toInControl.interrupt hcalm hr
  exact ⟨h.evolved h' hev ha, hev⟩

theorem store (h : UserSafe rule s hold) (hrule : rule.Inside) (hv : v < 2 ^ 32)
    (hr : userStore v b s = .ok ((), s')) :
    UserSafe rule s' hold ∧ Evolves hold hold s s' := by
  obtain ⟨pa, rfl, htables, hothers⟩ := h.store_hits hrule hv hr
  obtain ⟨x, t, ha⟩ := h.agrees
  obtain ⟨u, hl⟩ := h.live _ x ha.live
  cases ha.at_task.symm.trans hl.at_task
  have hev : Evolves hold hold s (s.stored pa b) := .stored hothers
  refine ⟨h.evolved (h.stored htables) hev ⟨x, t, { ha with loaded := ?_ }⟩, hev⟩
  have hpd : (s.stored pa b).arena.mem.load32 t.taskSpace = s.arena.mem.load32 t.taskSpace := by
    have hsame := (hl.stored (b := b) (htables _ x ha.live)).1.holds.pd_eq
    rw [← hl.space, hsame, hl.holds.pd_eq]
  exact ha.loaded.trans hpd.symm

end UserSafe

end GammaOS.Kernel
