import SiteProject.Proofs.Conversion.Effects
import SiteProject.Proofs.Conversion.Rerun
import SiteProject.Proofs.Reference.Coverage

namespace SiteProject

namespace MemoryDisk

theorem alike_copyFile (d : MemoryDisk) {folder target : Path} (source : Path)
    (h : folder.holds target = true) : Alike folder d (d.copyFile source target).2 := by
  unfold copyFile guarded
  split
  · exact .refl folder d
  · split
    · next t _ => exact alike_change d (c := .file target t) h
    · exact .refl folder d

end MemoryDisk

namespace Reference

open MemoryDisk (Alike)

variable {folder : Path}

theorem alike_copyOne (d : MemoryDisk) {r : Solution.Reference × Path}
    (h : folder.holds ((copiesFolder folder).joinText r.1.dll) = true) :
    Alike folder d (copyOne folder d r) := by
  unfold copyOne
  split
  · exact MemoryDisk.alike_copyFile d r.2 h
  · exact .refl folder d

theorem alike_copyEach (d : MemoryDisk) {rs : List (Solution.Reference × Path)}
    (h : ∀ r ∈ rs, folder.holds ((copiesFolder folder).joinText r.1.dll) = true) :
    Alike folder d (copyEach folder d rs) := by
  induction rs generalizing d with
  | nil => exact .refl folder d
  | cons r rs ih =>
    have hone := alike_copyOne d (h r List.mem_cons_self)
    exact hone.trans (ih (copyOne folder d r) fun r hr => h r (List.mem_cons_of_mem _ hr))

end Reference

namespace Conversion

open SiteProject.Part (IsName)
open Reference (Fallback Placed Resolution)

variable {i : Inspection} {o : Options} {d d' : MemoryDisk} {r : Report}

/-- The reference, the resolution and the placement that a dependency is made of. -/
theorem exists_index_of_mem_dependencies {rs : List Solution.Reference} {xs : List Resolution}
    {ps : List Placed} {x : Dependency} (h : x ∈ dependencies rs xs ps) :
    ∃ (n : Nat) (p : Placed), rs[n]? = some x.reference ∧ xs[n]? = some x.resolution ∧
      ps[n]? = some p ∧ x.fallback = p.fallback := by
  obtain ⟨t, ht, rfl⟩ := List.mem_map.1 h
  obtain ⟨n, hn⟩ := List.mem_iff_getElem?.1 ht
  obtain ⟨hrx, hp⟩ := List.getElem?_zip_eq_some.1 hn
  obtain ⟨hr, hx⟩ := List.getElem?_zip_eq_some.1 hrx
  exact ⟨n, t.2, hr, hx, hp, rfl⟩

theorem countP_fallback (xs : List Dependency) :
    xs.countP (·.fallback.isSome) = xs.countP (·.fallback = some Fallback.missing) +
      xs.countP (·.fallback = some Fallback.copyFailed) := by
  induction xs with
  | nil => rfl
  | cons x xs ih =>
    simp only [List.countP_cons, ih]
    rcases hx : x.fallback with _ | why
    · simp
    · cases why <;> simp <;> omega

/-- A copy that is made for a conversion that succeeds is in the folder of its project. -/
theorem Converted.holds_copy {index : Nat} {resolutions : List Resolution} {d₁ d₂ : MemoryDisk}
    {placed : List Placed} (hc : Converted i o index d r resolutions d₁ placed d₂ d')
    {x : Solution.Reference} (hx : IsName x.dll) :
    r.folder.holds ((Reference.copiesFolder r.folder).joinText x.dll) = true := by
  rw [hc.folder]
  exact holds_copyOf i o r.site hx

/-- The two looks at a binary see the same. -/
theorem isGuess_iff_of_converted {index : Nat} {resolutions : List Resolution} {d₁ d₂ : MemoryDisk}
    {placed : List Placed} (hc : Converted i o index d r resolutions d₁ placed d₂ d')
    (hm : r.placement = .copy) (hn : ∀ x ∈ r.site.references, IsName x.dll)
    (hb : ∀ x ∈ r.site.references, ∀ p, Reference.Probed d.view i.folder
      (Reference.siteFolder i.folder r.site) i.libraries x p → p.apart r.folder = true)
    {x : Dependency} (hx : x ∈ r.dependencies) : x.isGuess = true ↔ x.fallback = some .missing := by
  have hplace := hc.place
  rw [hm] at hplace
  obtain ⟨-, hall⟩ := Reference.attempted_of_placeAll hplace
  obtain ⟨xs, hxs, hf⟩ := Reference.exists_resolves d.views_view i.folder
    (Reference.siteFolder i.folder r.site) i.libraries r.site.references
  obtain ⟨rfl, rfl⟩ := Prod.mk.inj (hc.resolve.symm.trans hxs)
  rw [hc.dependencies] at hx
  obtain ⟨n, p, hr, hres, hp, hfallback⟩ := exists_index_of_mem_dependencies hx
  have hresolves : Reference.Resolves d₁.view i.folder (Reference.siteFolder i.folder r.site)
      i.libraries x.reference x.resolution := by
    apply (List.forall₂_iff_zip.1 hf).2
    exact List.mem_of_getElem? (List.getElem?_zip_eq_some.2 ⟨hr, hres⟩)
  have hapart : x.resolution.resolved.apart r.folder = true :=
    hb _ (List.mem_of_getElem? hr) _ hresolves.probed
  have hpath : (resolutions.map (·.resolved))[n]? = some x.resolution.resolved := by
    rw [List.getElem?_map, hres, Option.map_some]
  have hattempted := hall n (x.reference, x.resolution.resolved) p
    (List.getElem?_zip_eq_some.2 ⟨hr, hpath⟩) hp
  -- up to then, folders were made and binaries copied, all in the folder of the project
  have hfolder : MemoryDisk.Alike r.folder d₁ (d₁.addFolder r.folder) :=
    MemoryDisk.alike_change d₁ (c := .folder r.folder) (Path.holds_refl r.folder)
  have hcopies : MemoryDisk.Alike r.folder (d₁.addFolder r.folder)
      ((d₁.addFolder r.folder).addFolder (Reference.copiesFolder r.folder)) := by
    apply MemoryDisk.alike_change _ (c := .folder (Reference.copiesFolder r.folder))
    rw [hc.folder]
    exact holds_copies i o r.site
  have hbefore := Reference.alike_copyEach
    ((d₁.addFolder r.folder).addFolder (Reference.copiesFolder r.folder))
    fun q (hq : q ∈ (r.site.references.zip (resolutions.map (·.resolved))).take n) =>
      hc.holds_copy (hn _ (List.of_mem_zip (List.mem_of_mem_take hq)).1)
  have hpresent := ((hfolder.trans hcopies).trans hbefore).hasPath _ hapart
  calc x.isGuess = true
    _ ↔ d₁.hasPath x.resolution.resolved = false := hresolves.isGuess_iff
    _ ↔ p.fallback = some .missing := by rw [hattempted.missing, hpresent]
    _ ↔ x.fallback = some .missing := by rw [hfallback]

/-- In copy mode a binary is guessed exactly where it is missing when it is to be copied, if the paths that
are asked for are beside the folder of the project. So the guesses are the missing binaries, and the other
fallbacks are copies that failed. -/
theorem guesses_of_convert (h : Succeeds (convert i o) d r d') (hm : r.placement = .copy)
    (hn : ∀ x ∈ r.site.references, IsName x.dll)
    (hb : ∀ x ∈ r.site.references, ∀ p, Reference.Probed d.view i.folder
      (Reference.siteFolder i.folder r.site) i.libraries x p → p.apart r.folder = true) :
    (∀ x ∈ r.dependencies, x.isGuess = true ↔ x.fallback = some .missing) ∧
      r.guessCount = r.dependencies.countP (·.fallback = some Fallback.missing) ∧
      r.fallbackCount =
        r.guessCount + r.dependencies.countP (·.fallback = some Fallback.copyFailed) := by
  obtain ⟨-, resolutions, d₁, placed, d₂, hc⟩ := converted_of_convert h
  have hguess : ∀ x ∈ r.dependencies, x.isGuess = true ↔ x.fallback = some .missing :=
    fun x hx => isGuess_iff_of_converted hc hm hn hb hx
  have hcount : r.guessCount = r.dependencies.countP (·.fallback = some Fallback.missing) := by
    apply List.countP_congr
    intro x hx
    rw [hguess x hx, decide_eq_true_iff]
  refine ⟨hguess, hcount, ?_⟩
  rw [hcount]
  exact countP_fallback r.dependencies

/-- One binary is guessed and missing; the copy of the other one fails for both references to it. -/
theorem site_with_binaries_guesses :
    ∃ r d', Succeeds (convert siteWithBinaries ⟨siteWithBinaries.solution, 1, defaultOutput, .copy⟩)
        diskRefusingCopy r d' ∧
      r.dependencies.map (fun x => (x.isGuess, x.fallback)) =
        [(true, some .missing), (false, some .copyFailed), (false, some .copyFailed)] ∧
      r.guessCount = 1 ∧ r.fallbackCount = 3 ∧
      ∀ x ∈ r.dependencies, x.isGuess = true ↔ x.fallback = some .missing := by
  have hrun : succeedsWith
      (convert siteWithBinaries ⟨siteWithBinaries.solution, 1, defaultOutput, .copy⟩) diskRefusingCopy
      (fun r _ => r.placement = .copy ∧ (∀ x ∈ r.site.references, IsName x.dll) ∧
        (∀ x ∈ r.site.references, ∀ p ∈ Reference.lookups diskRefusingCopy.view siteWithBinaries.folder
          (Reference.siteFolder siteWithBinaries.folder r.site) siteWithBinaries.libraries x,
          p.apart r.folder = true) ∧
        r.dependencies.map (fun x => (x.isGuess, x.fallback)) =
          [(true, some .missing), (false, some .copyFailed), (false, some .copyFailed)] ∧
        r.guessCount = 1 ∧ r.fallbackCount = 3) = true := by
    decide +kernel
  obtain ⟨r, d', h, hc⟩ := exists_succeeds hrun
  obtain ⟨hm, hn, hlookups, hplaced, hguess, hfallback⟩ := of_decide_eq_true hc
  have hagree := guesses_of_convert h hm hn fun x hx p hp => hlookups x hx p hp.mem_lookups
  exact ⟨r, d', h, hplaced, hguess, hfallback, hagree.1⟩

end Conversion
end SiteProject
