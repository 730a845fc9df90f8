import GammaOS.Fs.ParserMemory

namespace GammaOS.Fs

open Foundation Foundation.Program Memory ByteMemory

def printPath (drive : UInt8) (us : List (List UInt8)) : List UInt8 :=
  drive :: 58 :: slash :: joinUnits us

structure Parsed (m : ByteMemory) (path : ℕ) (drive : UInt8) (us : List (List UInt8)) : Prop where
  ne_zero : path ≠ 0
  drive : m path = drive
  units : ∃ units, UnitList m (m.load32 (path + 4)) units ∧ units.map UnitStr.str = us

variable {m : ByteMemory} {drive : UInt8} {u : List UInt8} {us : List (List UInt8)} {p a path : ℕ}
  {rest : List UnitStr}

theorem PathAt.parsed (h : PathAt m ⟨p, drive, some ⟨a, u⟩, rest⟩)
    (hrest : rest.map UnitStr.str = us) :
    Parsed m p drive (u :: us) :=
  ⟨h.ne_zero, h.drive, ⟨a, u⟩ :: rest, ⟨h.head, h.first, h.buffer _ rfl, h.rest⟩, by
    rw [List.map_cons, hrest]⟩

theorem parseDrive_print (hd : 65 ≤ drive ∧ drive ≤ 90) (us : List (List UInt8)) :
    parseDrive (printPath drive us) = some drive :=
  if_pos ⟨hd.1, hd.2, Nat.le_add_left 3 _⟩

/-- Parsing the text of a path gives its drive and its units, and leaves the
text as it was. The text lies where the heap allocates nothing. -/
theorem parsePath_print {σ : Type} [Allocator σ] [LawfulAllocator σ] [RoomyAllocator σ] {s : Arena σ}
    {R : Region σ} (hd : 65 ≤ drive ∧ drive ≤ 90) (hus : ∀ v ∈ u :: us, PathUnit v)
    (hlen : (printPath drive (u :: us)).length ≤ fsMaxPathLength)
    (hstr : IsString s.mem path (printPath drive (u :: us))) (hR : R.safe s.heap)
    (hpages : ∀ i ≤ (printPath drive (u :: us)).length, R.pages (pageOf (path + i)))
    (hroom : s.HasRoom (3 * us.length + 6)) :
    ∃ p s', InMemory.parsePath path s = .ok (p, s') ∧ Parsed s'.mem p drive (u :: us) ∧
      ∀ i ≤ (printPath drive (u :: us)).length, s'.mem (path + i) = s.mem (path + i) := by
  have hunits := pathUnits_join (fun v hv ↦ ⟨(hus v hv).ne_nil, (hus v hv).no_slash⟩)
  obtain ⟨_, t, ht, ⟨p, a, rest, rfl, hrest⟩, -⟩ := parsePath_total (fun _ ↦ 0)
    (parseDrive_print hd _) hlen hunits (fun v hv ↦ Or.inl (hus v hv).short) 0 s
    (hroom.mono (by omega))
  obtain ⟨s', hrun, -, hkeep, hpath⟩ := parsePath_refines hR hpages hstr rfl ht (by
    rintro q ⟨⟩ v hv
    refine (hus v.str ?_).short
    rcases List.mem_cons.mp hv with rfl | hv
    · exact List.mem_cons_self
    · rw [← hrest]
      exact List.mem_cons_of_mem _ (List.mem_map_of_mem hv))
  exact ⟨p, s', hrun, (hpath _ rfl).parsed hrest, fun i hi ↦ hkeep.bytes R hR _ (hpages i hi) id⟩

def shellText : List UInt8 := printPath 67 [[98, 105, 110], [115, 104]]

def textArena : Arena (KHeap false) :=
  ⟨KHeap.init (fun _ ↦ 0), writeBytes (fun _ ↦ 0) 0x1000 (shellText ++ [0])⟩

theorem parsePath_print_shell : ∃ p s', InMemory.parsePath 0x1000 textArena = .ok (p, s') ∧
    Parsed s'.mem p 67 [[98, 105, 110], [115, 104]] ∧
    ∀ i ≤ shellText.length, s'.mem (0x1000 + i) = textArena.mem (0x1000 + i) := by
  have hstr : IsString textArena.mem 0x1000 shellText := IsString.written _ _ (by decide)
  refine parsePath_print (R := KHeap.outside false) (by decide) (fun v hv ↦ ?_) (by decide) hstr
    trivial
    (fun i hi ↦ Or.inl ?_) (RoomyAllocator.room_mono _ _ _ (by decide) (KHeap.init_room _))
  · rcases List.mem_cons.mp hv with rfl | hv
    · exact ⟨by decide, by decide, by decide⟩
    · cases List.mem_singleton.mp hv
      exact ⟨by decide, by decide, by decide⟩
  · have hi' : i ≤ 9 := hi
    unfold pageOf pageSize kernelHeapBase
    omega

end GammaOS.Fs
