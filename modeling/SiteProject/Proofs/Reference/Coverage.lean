import SiteProject.Proofs.Path.Way
import SiteProject.Proofs.Reference.Names
import SiteProject.Proofs.Reference.Placement

namespace SiteProject.Reference

open Solution (Reference)

variable {folder : Path} {siteFolder : Text} {d d' : MemoryDisk}

/-- The disk after one binary is copied. One that is not there is left out. -/
def copyOne (folder : Path) (d : MemoryDisk) (r : Reference × Path) : MemoryDisk :=
  if d.hasPath r.2 then (d.copyFile r.2 ((copiesFolder folder).joinText r.1.dll)).2 else d

/-- The disk after binaries are copied in their order. -/
def copyEach (folder : Path) (d : MemoryDisk) (rs : List (Reference × Path)) : MemoryDisk :=
  rs.foldl (copyOne folder) d

/-- What became of a binary that was to be copied on a disk. -/
structure Attempted (folder : Path) (d : MemoryDisk) (r : Reference × Path) (p : Placed) : Prop where
  missing : p.fallback = some .missing ↔ d.hasPath r.2 = false
  copyFailed : p.fallback = some .copyFailed ↔ d.hasPath r.2 = true ∧
    ∃ f, (d.copyFile r.2 ((copiesFolder folder).joinText r.1.dll)).1 = .error f
  copied : p.fallback = none ↔ d.hasPath r.2 = true ∧
    (d.copyFile r.2 ((copiesFolder folder).joinText r.1.dll)).1 = .ok ()

theorem attempted_placeCopy (d : MemoryDisk) (r : Reference × Path) :
    ∃ p, ((placeCopy (m := StateM MemoryDisk) folder siteFolder r.1 r.2).run d).run =
        (p, copyOne folder d r) ∧ Attempted folder d r p := by
  unfold placeCopy copyOne
  by_cases h : d.hasPath r.2 = true
  · rcases hc : d.copyFile r.2 ((copiesFolder folder).joinText r.1.dll) with ⟨c, d₁⟩
    have hrun : (((Disk.copyFile r.2 ((copiesFolder folder).joinText r.1.dll) :
        ExceptT DiskFailure (StateM MemoryDisk) Unit).run).run d).run = (c, d₁) := hc
    simp only [StateT.run_bind, Id.run_bind, MemoryDisk.run_exists?, h, hrun, Bool.not_true,
      Bool.false_eq_true, if_false, if_true]
    cases c with
    | ok u =>
      refine ⟨_, rfl, ?_, ?_, ?_⟩
      · simp [h]
      · simp [hc]
      · simp [h, hc]
    | error f =>
      refine ⟨_, rfl, ?_, ?_, ?_⟩
      · simp [h]
      · simp [h, hc]
      · simp [hc]
  · have h : d.hasPath r.2 = false := by simpa using h
    simp only [StateT.run_bind, Id.run_bind, MemoryDisk.run_exists?, h, Bool.not_false, if_true,
      Bool.false_eq_true, if_false]
    refine ⟨_, rfl, ?_, ?_, ?_⟩
    · simp [h]
    · simp [h]
    · simp [h]

/-- References are placed one after the other, each on the disk that those before it left. -/
theorem exists_placeEach {f : Reference → Path → StateM MemoryDisk Placed}
    {next : MemoryDisk → Reference × Path → MemoryDisk}
    {R : MemoryDisk → Reference × Path → Placed → Prop}
    (step : ∀ d r, ∃ p, ((f r.1 r.2).run d).run = (p, next d r) ∧ R d r p)
    (d : MemoryDisk) (rs : List (Reference × Path)) :
    ∃ ps, ((placeEach f rs).run d).run = (ps, rs.foldl next d) ∧ ps.length = rs.length ∧
      ∀ i r p, rs[i]? = some r → ps[i]? = some p → R ((rs.take i).foldl next d) r p := by
  induction rs generalizing d with
  | nil => exact ⟨[], rfl, rfl, by simp⟩
  | cons r rs ih =>
    obtain ⟨p, hp, hr⟩ := step d r
    obtain ⟨ps, hps, hl, hrs⟩ := ih (next d r)
    refine ⟨p :: ps, ?_, by simp [hl], ?_⟩
    · simp only [placeEach, StateT.run_bind, Id.run_bind, hp, hps]
      rfl
    · intro i q q' hq hq'
      cases i with
      | zero =>
        obtain rfl := Option.some.inj hq
        obtain rfl := Option.some.inj hq'
        exact hr
      | succ i => exact hrs i q q' hq hq'

theorem run_placeLink (d : MemoryDisk) (r : Reference × Path) :
    ∃ p, ((placeLink (m := StateM MemoryDisk) folder siteFolder r.1 r.2).run d).run = (p, d) ∧
      p.fallback = none := by
  unfold placeLink
  cases h : d.hasPath r.2 with
  | true =>
    simp only [StateT.run_bind, Id.run_bind, MemoryDisk.run_exists?, h, if_true]
    exact ⟨_, rfl, rfl⟩
  | false =>
    simp only [StateT.run_bind, Id.run_bind, MemoryDisk.run_exists?, h, if_false, Bool.false_eq_true]
    exact ⟨_, rfl, rfl⟩

theorem binHint_ne_nil (siteFolder dll : Text) : binHint siteFolder dll ≠ [] := by
  have hwords : ∀ ws : List Text, Text.join ['\\'] ("Bin".toList :: dll :: ws) ≠ [] := by
    intro ws
    rw [Text.join_cons (by simp)]
    simp
  unfold binHint Declared.join
  dsimp only
  split
  · exact hwords []
  · rw [Text.join_cons (by simp)]
    simp

theorem Fits.hint_ne_nil {mode : Placement} {r : Reference × Path} {p : Placed}
    (h : Fits mode folder siteFolder d d' r p) : p.hint ≠ [] := by
  cases mode with
  | link =>
    cases hp : d.hasPath r.2 with
    | true =>
      rw [h.found rfl hp]
      exact Declared.relative_ne_nil _ _
    | false =>
      rw [h.missing rfl hp]
      exact binHint_ne_nil _ _
  | copy =>
    cases hp : p.fallback with
    | none =>
      rw [(h.copied rfl hp).1]
      exact Declared.relative_ne_nil _ _
    | some why =>
      rw [h.failed rfl (by simp [hp])]
      exact binHint_ne_nil _ _

/-- There is a placement for each reference that has a path, and a hint for each of their binaries. -/
structure Covers (references : List Reference) (resolved : List Path) (ps : List Placed) : Prop where
  length : ps.length = min references.length resolved.length
  names (dll : Text) : dll ∈ (Hints.ofPlaced ps).pairs.map Prod.fst ↔
    ∃ r ∈ references.zip resolved, r.1.dll = dll
  nodup : ((Hints.ofPlaced ps).pairs.map Prod.fst).Nodup
  hint_ne_nil : ∀ p ∈ (Hints.ofPlaced ps).pairs, p.2 ≠ []

theorem covers_of_fits {mode : Placement} {references : List Reference} {resolved : List Path}
    {ps : List Placed} (h : List.Forall₂ (Fits mode folder siteFolder d d') (references.zip resolved) ps) :
    Covers references resolved ps where
  length := by rw [← h.length_eq, List.length_zip]
  names dll := by
    have hdll : ps.map Placed.dll = (references.zip resolved).map (·.1.dll) := by
      rw [← List.forall₂_eq_eq_eq, List.forall₂_map_left_iff, List.forall₂_map_right_iff]
      exact h.flip.imp fun _ _ hr => hr.dll
    rw [Hints.ofPlaced, Hints.mem_names_foldl, hdll]
    simp
  nodup := Hints.nodup_names_of_ordered (Hints.ordered_foldl List.Pairwise.nil)
  hint_ne_nil q hq := by
    rcases Hints.mem_pairs_foldl hq with hq | ⟨p, hp, rfl⟩
    · cases hq
    · obtain ⟨n, hn, rfl⟩ := List.mem_iff_getElem.1 hp
      exact ((List.forall₂_iff_get.1 h).2 n (h.length_eq ▸ hn) hn).hint_ne_nil

/-- Each binary is copied in its turn, on the disk that those before it left. -/
theorem attempted_of_placeAll {rs : List (Reference × Path)} {ps : List Placed}
    (h : Succeeds (placeAll .copy folder siteFolder rs) d ps d') :
    d' = copyEach folder (d.addFolder (copiesFolder folder)) rs ∧
      ∀ (i : Nat) r p, rs[i]? = some r → ps[i]? = some p →
        Attempted folder (copyEach folder (d.addFolder (copiesFolder folder)) (rs.take i)) r p := by
  rw [placeAll, succeeds_bind] at h
  obtain ⟨u, d₁, hm, h⟩ := h
  obtain rfl := MemoryDisk.eq_addFolder_of_makeFolders hm
  obtain ⟨qs, hqs, -, hall⟩ := exists_placeEach (f := placeCopy folder siteFolder)
    attempted_placeCopy (d.addFolder (copiesFolder folder)) rs
  obtain ⟨rfl, rfl⟩ := Prod.mk.inj (hqs.symm.trans (succeeds_lift.1 h))
  exact ⟨rfl, hall⟩

/-- Placing by links always succeeds and changes nothing. Placing by copies fails exactly where the folder of
the copies cannot be made, and then nothing is changed; else each binary is copied in its turn, on the disk
that those before it left. In both modes every reference with a path is placed. -/
theorem covers_of_placeAll (folder : Path) (siteFolder : Text) (references : List Reference)
    (resolved : List Path) (d : MemoryDisk) :
    (∃ ps, Ends (placeAll .link folder siteFolder (references.zip resolved)) d (.ok ps) d ∧
      Covers references resolved ps ∧ ∀ p ∈ ps, p.fallback = none) ∧
    ∀ r d', Ends (placeAll .copy folder siteFolder (references.zip resolved)) d r d' →
      ((∃ f, r = .error f) ↔ ∃ f, Ends (Disk.makeFolders (copiesFolder folder)) d (.error f) d') ∧
      ((∃ f, r = .error f) → d' = d) ∧
      ∀ ps, r = .ok ps → Covers references resolved ps ∧
        d' = copyEach folder (d.addFolder (copiesFolder folder)) (references.zip resolved) ∧
        ∀ (i : Nat) x path p, references[i]? = some x → resolved[i]? = some path → ps[i]? = some p →
          Attempted folder (copyEach folder (d.addFolder (copiesFolder folder))
            ((references.zip resolved).take i)) (x, path) p := by
  constructor
  · obtain ⟨ps, hps, hl, hall⟩ := exists_placeEach (f := placeLink folder siteFolder) run_placeLink d
      (references.zip resolved)
    rw [List.foldl_fixed] at hps
    have hends : Ends (placeAll .link folder siteFolder (references.zip resolved)) d (.ok ps) d :=
      ends_lift.2 ⟨ps, hps, rfl⟩
    refine ⟨ps, hends, covers_of_fits (fits_of_placeAll hends).1, ?_⟩
    intro p hp
    obtain ⟨i, hi, rfl⟩ := List.mem_iff_getElem.1 hp
    exact hall i _ _ (List.getElem?_eq_getElem (hl ▸ hi)) (List.getElem?_eq_getElem hi)
  · intro r d' h
    have hplace := h
    rw [placeAll, ends_bind] at h
    rcases h with ⟨f, hm, rfl⟩ | ⟨u, d₁, hm, h⟩
    · have hd : d' = d := by
        rcases MemoryDisk.ends_makeFolders.1 hm with ⟨_, -, -, hd⟩ | ⟨-, he, -⟩
        · exact hd
        · cases he
      refine ⟨⟨fun _ => ⟨f, hm⟩, fun _ => ⟨f, rfl⟩⟩, fun _ => hd, ?_⟩
      intro ps he
      cases he
    · obtain ⟨ps, -, rfl⟩ := ends_lift.1 h
      refine ⟨?_, ?_, ?_⟩
      · constructor
        · rintro ⟨f, he⟩
          cases he
        · rintro ⟨f, hf⟩
          cases (Prod.mk.inj (hm.symm.trans hf)).1
      · rintro ⟨f, he⟩
        cases he
      · intro ps' he
        obtain rfl := Except.ok.inj he
        obtain ⟨hd, hall⟩ := attempted_of_placeAll hplace
        refine ⟨covers_of_fits (fits_of_placeAll hplace).1, hd, ?_⟩
        intro i x path p hx hpath hp
        exact hall i (x, path) p (List.getElem?_zip_eq_some.2 ⟨hx, hpath⟩) hp

/-- The second binary is at the place of the first one's copy; there is a path too many. -/
def chained : List Reference :=
  [⟨"B1".toList, "Tools.dll".toList⟩, ⟨"C1".toList, "Data.dll".toList⟩,
   ⟨"D1".toList, "Tools.dll".toList⟩, ⟨"E1".toList, "Web.dll".toList⟩]

def chainedPaths : List Path :=
  [⟨"/work/lib/Tools.dll".toList⟩, ⟨"/work/out/refs/Tools.dll".toList⟩,
   ⟨"/work/gone/Tools.dll".toList⟩, ⟨"/work/lib/Tools.dll".toList⟩, ⟨"/work/lib/Web.dll".toList⟩]

def chainedDisk : MemoryDisk where
  files := [(⟨"/work/lib/Tools.dll".toList⟩, "tools".toList)]
  faults := [⟨.copy, ⟨"/work/out/refs/Web.dll".toList⟩, .denied⟩]

/-- Only the copy that was made before makes the second binary be there. -/
theorem chained_copies_cover :
    chainedDisk.hasPath ⟨"/work/out/refs/Tools.dll".toList⟩ = false ∧
      ∃ ps d', Ends (placeAll .copy ⟨"/work/out".toList⟩ "..\\web".toList (chained.zip chainedPaths))
          chainedDisk (.ok ps) d' ∧
        ps.map (·.fallback) = [none, none, some .missing, some .copyFailed] ∧
        Covers chained chainedPaths ps ∧
        d' = copyEach ⟨"/work/out".toList⟩ (chainedDisk.addFolder ⟨"/work/out/refs".toList⟩)
          (chained.zip chainedPaths) := by
  have hrun : succeedsWith
      (placeAll .copy ⟨"/work/out".toList⟩ "..\\web".toList (chained.zip chainedPaths)) chainedDisk
      (fun ps _ => ps.map (·.fallback) = [none, none, some .missing, some .copyFailed]) = true := by
    decide +kernel
  obtain ⟨ps, d', h, hc⟩ := exists_succeeds hrun
  obtain ⟨hcovers, hd, -⟩ := ((covers_of_placeAll _ _ chained chainedPaths chainedDisk).2 _ _ h).2.2 ps rfl
  exact ⟨by decide +kernel, ps, d', h, of_decide_eq_true hc, hcovers, hd⟩

end SiteProject.Reference
