import GammaOS.Fs.PathPrint
import GammaOS.Fs.PathRoom

namespace GammaOS.Fs

open Foundation Foundation.Program Memory

/-- A drive letter, a colon and a slash, then at least one unit, with a slash
between the units and perhaps one behind the last. -/
def PathGrammar (w : List UInt8) : Prop :=
  ∃ drive us, (65 ≤ drive ∧ drive ≤ 90) ∧ us ≠ [] ∧ (∀ u ∈ us, PathUnit u) ∧
    (w = printPath drive us ∨ w = printPath drive us ++ [slash])

/-- The parser accepts the text exactly when it has the grammar, and it returns
units that can be followed without a check. It returns for every text with a
drive, without a panic and without the use of a refused request. -/
structure ParserExact {whole : Bool} (alien : ByteMemory) (w : List UInt8)
    (s : Arena (KHeap whole)) : Prop where
  accepts : (∃ q s', parsePath alien w s = .ok (some q, s')) ↔ PathGrammar w
  followed : ∀ q s', parsePath alien w s = .ok (some q, s') →
    ∃ u, q.first = some u ∧ ∀ v ∈ u :: q.rest, v.addr ≠ 0 ∧ PathUnit v.str
  returns : parseDrive w ≠ none → ∃ o s', parsePath alien w s = .ok (o, s')

variable {w : List UInt8} {q : Path} {alien : ByteMemory} {whole : Bool} {s : Arena (KHeap whole)}

theorem PathGrammar.parts (h : PathGrammar w) :
    parseDrive w ≠ none ∧ pathUnits (w.drop 3) ≠ [] ∧ ∀ u ∈ pathUnits (w.drop 3), PathUnit u := by
  obtain ⟨drive, us, hd, hne, hus, rfl | rfl⟩ := h
  · have hunits : pathUnits ((printPath drive us).drop 3) = us :=
      pathUnits_join (fun u hu ↦ ⟨(hus u hu).ne_nil, (hus u hu).no_slash⟩)
    rw [parseDrive_print hd, hunits]
    exact ⟨nofun, hne, hus⟩
  · have hunits : pathUnits ((printPath drive us ++ [slash]).drop 3) = us :=
      pathUnits_join_slash hne (fun u hu ↦ (hus u hu).no_slash)
    have hdrive : parseDrive (printPath drive us ++ [slash]) = some drive :=
      if_pos ⟨hd.1, hd.2, Nat.le_add_left 3 _⟩
    rw [hdrive, hunits]
    exact ⟨nofun, hne, hus⟩

theorem pathGrammar_iff : PathGrammar w ↔
    (65 ≤ w.headD 0 ∧ w.headD 0 ≤ 90) ∧ (w.drop 1).take 2 = [58, slash] ∧ pathUnits (w.drop 3) ≠ [] ∧
      ∀ u ∈ pathUnits (w.drop 3), u ≠ [] ∧ u.length < fsMaxPathUnitLength := by
  constructor
  · intro h
    obtain ⟨-, hne, hus⟩ := h.parts
    have hunits : ∀ u ∈ pathUnits (w.drop 3), u ≠ [] ∧ u.length < fsMaxPathUnitLength :=
      fun u hu ↦ ⟨(hus u hu).ne_nil, (hus u hu).short⟩
    obtain ⟨drive, us, hd, -, -, rfl | rfl⟩ := h
    · exact ⟨hd, rfl, hne, hunits⟩
    · exact ⟨hd, rfl, hne, hunits⟩
  · rintro ⟨hd, hsep, hne, hus⟩
    rcases w with _ | ⟨drive, _ | ⟨c₁, _ | ⟨c₂, r⟩⟩⟩
    · cases hsep
    · cases hsep
    · cases hsep
    · cases hsep
      have hunits : ∀ u ∈ pathUnits r, PathUnit u :=
        fun u hu ↦ ⟨(hus u hu).1, pathUnits_no_slash r u hu, (hus u hu).2⟩
      refine ⟨drive, pathUnits r, hd, hne, hunits, ?_⟩
      have hsplit : ∀ l, (drive :: 58 :: slash :: r = drive :: 58 :: slash :: l) ↔ r = l := by
        simp only [List.cons.injEq, true_and, implies_true]
      exact (or_congr (hsplit _) (hsplit _)).mpr (join_pathUnits r)

instance : Decidable (PathGrammar w) := decidable_of_iff _ pathGrammar_iff.symm

/-- `C:/bin/sh` and `C:/bin/` are paths, `C:/` and `C:/bin//sh` are not. -/
example : PathGrammar shellText ∧ PathGrammar [67, 58, 47, 98, 105, 110, 47] ∧
    ¬ PathGrammar [67, 58, 47] ∧ ¬ PathGrammar [67, 58, 47, 98, 105, 110, 47, 47, 115, 104] := by
  decide

theorem ParsedFrom.followed (h : ParsedFrom alien w q) (hne : w.drop 3 ≠ [])
    (hus : ∀ u ∈ pathUnits (w.drop 3), PathUnit u) :
    ∃ u, q.first = some u ∧ ∀ v ∈ u :: q.rest, v.addr ≠ 0 ∧ PathUnit v.str := by
  obtain ⟨u, hu⟩ := Option.ne_none_iff_exists'.mp (mt h.first.mp hne)
  refine ⟨u, hu, fun v hv ↦ ?_⟩
  have hmem : v ∈ q.first.toList ++ q.rest := by
    rw [hu]
    exact hv
  refine ⟨(h.held v hmem).1, hus _ ?_⟩
  rw [← h.units]
  exact List.mem_map_of_mem hmem

theorem parsePath_some (hd : parseDrive w ≠ none) {o : Option Path} {s' : Arena (KHeap whole)}
    (h : parsePath alien w s = .ok (o, s')) : ∃ q, o = some q ∧ ParsedFrom alien w q :=
  (parsePath_returns h).resolve_left (fun hnone ↦ hd hnone.2)

theorem parsePath_accepts {d : UInt8} (hd : parseDrive w = some d)
    (hlen : w.length ≤ fsMaxPathLength)
    (hshort : ∀ u ∈ pathUnits (w.drop 3), u.length ≤ fsMaxPathUnitLength)
    (hroom : parseNeeds (pathUnits (w.drop 3)).length ≤ s.freeCount) :
    ∃ q s', parsePath (fun _ ↦ 0) w s = .ok (some q, s') ∧ ParsedFrom (fun _ ↦ 0) w q := by
  rcases parsePath_room (fun _ ↦ 0) hd hlen hroom with ⟨q, s', hrun⟩ | ⟨-, hfits⟩
  · obtain ⟨_, ⟨⟩, hq⟩ := parsePath_some (hd ▸ nofun) hrun
    exact ⟨q, s', hrun, hq⟩
  · refine absurd (fun u hu ↦ ?_) hfits
    exact (Nat.lt_or_eq_of_le (hshort u hu)).imp_right (fun he ↦ ⟨he, fun _ ↦ rfl⟩)

/-- The parser is exact on the texts without a drive, and on its grammar where
the heap has the blocks that it asks for. -/
theorem parserExact_iff (hlen : w.length ≤ fsMaxPathLength) :
    ParserExact alien w s ↔ parseDrive w = none ∨
      (PathGrammar w ∧ parseNeeds (pathUnits (w.drop 3)).length ≤ s.freeCount) := by
  constructor
  · intro h
    by_cases hd : parseDrive w = none
    · exact Or.inl hd
    · obtain ⟨o, s', hrun⟩ := h.returns hd
      obtain ⟨q, rfl, -⟩ := parsePath_some hd hrun
      exact Or.inr ⟨h.accepts.mp ⟨q, s', hrun⟩, (parsePath_count hrun).1⟩
  · rintro (hd | ⟨hgrammar, hroom⟩)
    · have hno : ∀ q s', parsePath alien w s ≠ .ok (some q, s') := by
        intro q s' hrun
        obtain ⟨hnone, -⟩ | ⟨_, ⟨⟩, hq⟩ := parsePath_returns hrun
        · cases hnone
        · cases hd.symm.trans hq.drive
      exact ⟨iff_of_false (fun ⟨q, s', hrun⟩ ↦ hno q s' hrun) (fun hg ↦ hg.parts.1 hd),
        fun q s' hrun ↦ absurd hrun (hno q s'), fun hne ↦ absurd hd hne⟩
    · obtain ⟨hd, hne, hus⟩ := hgrammar.parts
      obtain ⟨d, hdrive⟩ := Option.ne_none_iff_exists'.mp hd
      obtain ⟨q, s', hrun⟩ := (parsePath_room alien hdrive hlen hroom).resolve_right
        (fun h ↦ h.2 (fun u hu ↦ Or.inl (hus u hu).short))
      refine ⟨iff_of_true ⟨q, s', hrun⟩ hgrammar, fun q s' hrun ↦ ?_, fun _ ↦ ⟨_, s', hrun⟩⟩
      obtain ⟨_, ⟨⟩, hq⟩ := parsePath_some hd hrun
      exact hq.followed (mt pathUnits_eq_nil.mpr hne) hus

theorem parserExact_iff_shell : ParserExact (fun _ ↦ 0) shellText (freshArena false) :=
  (parserExact_iff (by decide)).mpr
    (Or.inr ⟨by decide, (freshArena_room false (by decide)).freeCount⟩)

/-- `A:/` is accepted, with a null pointer in the place of its first unit. -/
theorem bare_drive_accepted :
    (∃ q s', parsePath (fun _ ↦ 0) [65, 58, 47] (freshArena false) = .ok (some q, s') ∧
      q.first = none) ∧ ¬ ParserExact (fun _ ↦ 0) [65, 58, 47] (freshArena false) := by
  have hd : parseDrive [65, 58, 47] = some 65 := rfl
  obtain ⟨q, s', hrun, hq⟩ := parsePath_accepts hd (by decide) nofun
    (freshArena_room false (by decide)).freeCount
  have hfirst : q.first = none := hq.first.mpr rfl
  refine ⟨⟨q, s', hrun, hfirst⟩, fun h ↦ ?_⟩
  obtain ⟨u, hu, -⟩ := h.followed q s' hrun
  cases hfirst.symm.trans hu

end GammaOS.Fs
