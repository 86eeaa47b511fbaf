import SiteProject.Proofs.Conversion.Hints

namespace SiteProject

/-- The last of the elements with one key. -/
theorem exists_last {α β : Type} [DecidableEq β] (key : α → β) {l : List α} {a : α} (h : a ∈ l) :
    ∃ before b after, l = before ++ b :: after ∧ key b = key a ∧ ∀ c ∈ after, key c ≠ key a := by
  have hsome : (l.reverse.find? fun b => key b = key a).isSome = true := by
    rw [List.find?_isSome]
    exact ⟨a, List.mem_reverse.2 h, by simp⟩
  obtain ⟨b, hb⟩ := Option.isSome_iff_exists.1 hsome
  obtain ⟨hkey, after, before, hl, hafter⟩ := List.find?_eq_some_iff_append.1 hb
  refine ⟨before.reverse, b, after.reverse, ?_, by simpa using hkey, ?_⟩
  · rw [← List.reverse_reverse l, hl]
    simp
  · intro c hc
    simpa using hafter c (List.mem_reverse.1 hc)

/-- The hint of a binary that is copied: its copy, or the site's `Bin` folder if it falls back. -/
def Reference.copyHint (folder : Path) (siteFolder dll : Text) : Option Reference.Fallback → Text
  | none => Declared.relative folder ((Reference.copiesFolder folder).joinText dll)
  | some _ => Reference.binHint siteFolder dll

namespace Conversion

open Reference (Placed Resolution Hints Fits copiesFolder copyHint)

variable {folder : Path} {siteFolder : Text} {d d' : MemoryDisk} {rs : List Solution.Reference}
  {xs : List Resolution} {ps : List Placed}

theorem copyHint_of_fits {r : Solution.Reference} {resolved : Path} {p : Placed}
    (h : Fits .copy folder siteFolder d d' (r, resolved) p) :
    p.hint = copyHint folder siteFolder r.dll p.fallback := by
  cases hp : p.fallback with
  | none => exact (h.copied rfl hp).1
  | some why => exact h.failed rfl (by simp [hp])

/-- All references that name one binary have the hint of the last of them. -/
theorem hint_of_last
    (hf : List.Forall₂ (Fits .copy folder siteFolder d d') (rs.zip (xs.map (·.resolved))) ps)
    {before after : List Dependency} {x y : Dependency}
    (hx : dependencies rs xs ps = before ++ x :: after)
    (hl : ∀ z ∈ after, z.reference.dll ≠ x.reference.dll) (hy : y ∈ dependencies rs xs ps)
    (hxy : y.reference.dll = x.reference.dll) :
    y.hint = copyHint folder siteFolder x.reference.dll x.fallback := by
  have hdll : ∀ r p, Fits .copy folder siteFolder d d' r p → p.dll = r.1.dll := fun _ _ h => h.dll
  have hmem : x ∈ dependencies rs xs ps := by simp [hx]
  have hshared : y.hint = x.hint := by
    have hx := get?_of_mem_dependencies hf hdll hmem
    have hy := get?_of_mem_dependencies hf hdll hy
    rw [hxy] at hy
    exact Option.some.inj (hy.symm.trans hx)
  obtain ⟨p, hfit, -, hhint, hfallback⟩ := exists_placed_of_last hf hdll hx hl
  calc y.hint
    _ = p.hint := hshared.trans hhint
    _ = copyHint folder siteFolder x.reference.dll p.fallback := copyHint_of_fits hfit
    _ = copyHint folder siteFolder x.reference.dll x.fallback := by rw [hfallback]

/-- In copy mode each reference that does not fall back has its copy. References that name one binary share
the hint of the last of them, so the hint is that of the copy where neither a reference nor a later one of
its name falls back. -/
theorem hints_of_copies (hlength : xs.length = rs.length)
    (h : Succeeds (Reference.placeAll .copy folder siteFolder (rs.zip (xs.map (·.resolved)))) d ps d') :
    (dependencies rs xs ps).map (·.reference) = rs ∧
      (∀ x ∈ dependencies rs xs ps,
        (Hints.ofPlaced ps).get? x.reference.dll = some x.hint ∧
          (x.fallback = none →
            d'.hasFile ((copiesFolder folder).joinText x.reference.dll) = true)) ∧
      (∀ before x after, dependencies rs xs ps = before ++ x :: after →
        (∀ y ∈ after, y.reference.dll ≠ x.reference.dll) →
          ∀ y ∈ dependencies rs xs ps, y.reference.dll = x.reference.dll →
            y.hint = copyHint folder siteFolder x.reference.dll x.fallback) ∧
      ∀ before x after, dependencies rs xs ps = before ++ x :: after → x.fallback = none →
        (∀ y ∈ after, y.reference.dll = x.reference.dll → y.fallback = none) →
          x.hint = copyHint folder siteFolder x.reference.dll none := by
  obtain ⟨hf, -⟩ := Reference.fits_of_placeAll h
  have hdll : ∀ r p, Fits .copy folder siteFolder d d' r p → p.dll = r.1.dll := fun _ _ h => h.dll
  have hplaced : ps.length = rs.length := by
    rw [← hf.length_eq, List.length_zip, List.length_map, hlength, Nat.min_self]
  refine ⟨map_reference_dependencies hlength hplaced, ?_, ?_, ?_⟩
  · intro x hx
    refine ⟨get?_of_mem_dependencies hf hdll hx, ?_⟩
    obtain ⟨t, ht, rfl⟩ := List.mem_map.1 hx
    exact fun hn => ((of_mem_zip hf ht).1.copied rfl hn).2
  · intro before x after hx hl y hy hxy
    exact hint_of_last hf hx hl hy hxy
  · intro before x after hx hn hlater
    -- the last of the references of this name is the one at hand or a later one
    obtain ⟨front, z, back, hz, hzx, hback⟩ :=
      exists_last (fun y : Dependency => y.reference.dll) (List.mem_cons_self (a := x) (l := after))
    have hsplit : dependencies rs xs ps = (before ++ front) ++ z :: back := by
      rw [hx, hz, List.append_assoc]
    have hcopied : z.fallback = none := by
      have hmem : z ∈ x :: after := by simp [hz]
      rcases List.mem_cons.1 hmem with rfl | hmem
      · exact hn
      · exact hlater z hmem hzx
    have hlast : ∀ y ∈ back, y.reference.dll ≠ z.reference.dll := by
      intro y hy
      rw [hzx]
      exact hback y hy
    have hhint := hint_of_last hf hsplit hlast (y := x) (by simp [hx]) hzx.symm
    rw [hhint, hcopied, hzx]

/-- One binary that is named twice, on its own and as that of a library. -/
def twins : List Solution.Reference :=
  [⟨"C1".toList, "Data.dll".toList⟩, ⟨"B1".toList, "Data.dll".toList⟩]

def twinResolutions : List Resolution :=
  [{ library := none
     resolved := ⟨"/work/web/Bin/Data.dll".toList⟩
     provenance := .siteBinGuess
     projectFile := .noLibrary },
   { library := some "lib\\Data.csproj".toList
     resolved := ⟨"/work/lib/bin/Debug/Data.dll".toList⟩
     provenance := .conventionalBin
     projectFile := .missing }]

/-- Only the library's binary is there. -/
def diskWithTwin : MemoryDisk where
  files := [(⟨"/work/lib/bin/Debug/Data.dll".toList⟩, "data".toList)]

def shopFolder : Path := ⟨"/work/tools/_intellisense/Shop".toList⟩

/-- The way from the folder of the project to the site. -/
def shopSite : Text := "..\\..\\..\\web".toList

/-- The first reference falls back, and has the hint of the copy for the second one. -/
theorem twins_share_hint :
    twinResolutions.length = twins.length ∧
      ∃ ps d', Succeeds (Reference.placeAll .copy shopFolder shopSite
          (twins.zip (twinResolutions.map (·.resolved)))) diskWithTwin ps d' ∧
        (dependencies twins twinResolutions ps).map (fun x => (x.hint, x.fallback)) =
          [("refs\\Data.dll".toList, some .missing), ("refs\\Data.dll".toList, none)] ∧
        ∀ before x after, dependencies twins twinResolutions ps = before ++ x :: after →
          (∀ y ∈ after, y.reference.dll ≠ x.reference.dll) →
            ∀ y ∈ dependencies twins twinResolutions ps, y.reference.dll = x.reference.dll →
              y.hint = copyHint shopFolder shopSite x.reference.dll x.fallback := by
  have hrun : succeedsWith (Reference.placeAll .copy shopFolder shopSite
      (twins.zip (twinResolutions.map (·.resolved)))) diskWithTwin (fun ps _ =>
        (dependencies twins twinResolutions ps).map (fun x => (x.hint, x.fallback)) =
          [("refs\\Data.dll".toList, some .missing), ("refs\\Data.dll".toList, none)]) = true := by
    decide +kernel
  obtain ⟨ps, d', h, hc⟩ := exists_succeeds hrun
  obtain ⟨-, -, hlast, -⟩ := hints_of_copies rfl h
  exact ⟨rfl, ps, d', h, of_decide_eq_true hc, hlast⟩

/-- In the other order the binary is copied for the first reference, and the hint leads elsewhere. -/
theorem later_fallback_takes_hint :
    ∃ ps d', Succeeds (Reference.placeAll .copy shopFolder shopSite
        (twins.reverse.zip (twinResolutions.reverse.map (·.resolved)))) diskWithTwin ps d' ∧
      ∃ x ∈ dependencies twins.reverse twinResolutions.reverse ps, x.fallback = none ∧
        d'.hasFile ((copiesFolder shopFolder).joinText x.reference.dll) = true ∧
        (Hints.ofPlaced ps).get? x.reference.dll = some x.hint ∧
        x.hint ≠ Declared.relative shopFolder ((copiesFolder shopFolder).joinText x.reference.dll) := by
  have hrun : succeedsWith (Reference.placeAll .copy shopFolder shopSite
      (twins.reverse.zip (twinResolutions.reverse.map (·.resolved)))) diskWithTwin (fun ps d' =>
        ∃ x ∈ dependencies twins.reverse twinResolutions.reverse ps, x.fallback = none ∧
          d'.hasFile ((copiesFolder shopFolder).joinText x.reference.dll) = true ∧
          (Hints.ofPlaced ps).get? x.reference.dll = some x.hint ∧
          x.hint ≠ Declared.relative shopFolder ((copiesFolder shopFolder).joinText x.reference.dll)) =
      true := by
    decide +kernel
  obtain ⟨ps, d', h, hc⟩ := exists_succeeds hrun
  exact ⟨ps, d', h, of_decide_eq_true hc⟩

end Conversion
end SiteProject
