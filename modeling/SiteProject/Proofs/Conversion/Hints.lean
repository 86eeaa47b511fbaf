import Mathlib.Data.List.Forall2
import SiteProject.Proofs.Conversion.FolderName
import SiteProject.Proofs.Conversion.Run
import SiteProject.Proofs.Descriptor.HintPaths
import SiteProject.Proofs.Reference.Hints
import SiteProject.Proofs.Reference.Placement
import SiteProject.Proofs.Reference.Resolution

namespace SiteProject.Conversion

open SiteProject.Part (IsName)
open Reference (Placed Resolution)

section Dependencies

variable {rs : List Solution.Reference} {xs : List Resolution} {ps : List Placed}

theorem map_reference_dependencies (hx : xs.length = rs.length) (hp : ps.length = rs.length) :
    (dependencies rs xs ps).map (·.reference) = rs := by
  have h₁ : ((rs.zip xs).zip ps).map Prod.fst = rs.zip xs :=
    List.map_fst_zip (by simp [hx, hp])
  have h₂ : (rs.zip xs).map Prod.fst = rs := List.map_fst_zip (by simp [hx])
  calc (dependencies rs xs ps).map (·.reference)
    _ = (((rs.zip xs).zip ps).map Prod.fst).map Prod.fst := by
      rw [dependencies, List.map_map, List.map_map]
      rfl
    _ = rs := by rw [h₁, h₂]

variable {R : Solution.Reference × Path → Placed → Prop}

theorem of_mem_zip (hf : List.Forall₂ R (rs.zip (xs.map (·.resolved))) ps)
    {t : (Solution.Reference × Resolution) × Placed} (ht : t ∈ (rs.zip xs).zip ps) :
    R (t.1.1, t.1.2.resolved) t.2 ∧ t.1.2 ∈ xs ∧ t.2 ∈ ps := by
  rw [List.zip_map_right, List.forall₂_map_left_iff] at hf
  have hr := (List.forall₂_iff_zip.1 hf).2 ht
  have hm := List.of_mem_zip ht
  exact ⟨hr, (List.of_mem_zip hm.1).2, hm.2⟩

theorem map_snd_of_forall₂ (hf : List.Forall₂ R (rs.zip (xs.map (·.resolved))) ps) :
    ((rs.zip xs).zip ps).map Prod.snd = ps := by
  have hl := hf.length_eq
  rw [List.length_zip, List.length_map, ← List.length_zip] at hl
  exact List.map_snd_zip (Nat.le_of_eq hl.symm)

/-- The last dependency on a binary has the hint of its own placement. -/
theorem exists_placed_of_last (hf : List.Forall₂ R (rs.zip (xs.map (·.resolved))) ps)
    (hdll : ∀ r p, R r p → p.dll = r.1.dll) {before after : List Dependency} {x : Dependency}
    (h : dependencies rs xs ps = before ++ x :: after)
    (hl : ∀ y ∈ after, y.reference.dll ≠ x.reference.dll) :
    ∃ p, R (x.reference, x.resolution.resolved) p ∧ x.resolution ∈ xs ∧ x.hint = p.hint ∧
      x.fallback = p.fallback := by
  obtain ⟨ts, us, hz, -, hu⟩ := List.map_eq_append_iff.1 h
  obtain ⟨t, us, rfl, rfl, rfl⟩ := List.map_eq_cons_iff.1 hu
  have hmem : ∀ u ∈ t :: us, u ∈ (rs.zip xs).zip ps := by
    intro u hm
    rw [hz]
    exact List.mem_append_right ts hm
  obtain ⟨hr, hx, -⟩ := of_mem_zip hf (hmem t (by simp))
  have hp : ps = ts.map Prod.snd ++ t.2 :: us.map Prod.snd := by
    rw [← map_snd_of_forall₂ hf, hz, List.map_append, List.map_cons]
  have hlast : ∀ p ∈ us.map Prod.snd, p.dll ≠ t.2.dll := by
    intro p hm
    obtain ⟨u, hu, rfl⟩ := List.mem_map.1 hm
    have hru := (of_mem_zip hf (hmem u (by simp [hu]))).1
    rw [hdll _ _ hru, hdll _ _ hr]
    exact hl _ (List.mem_map_of_mem hu)
  have hg := Reference.get?_ofPlaced (ts.map Prod.snd) hlast
  rw [← hp, hdll _ _ hr] at hg
  exact ⟨t.2, hr, hx, by simp [hg], rfl⟩

/-- The hint of a dependency is looked up by the name of its binary. -/
theorem get?_of_mem_dependencies (hf : List.Forall₂ R (rs.zip (xs.map (·.resolved))) ps)
    (hdll : ∀ r p, R r p → p.dll = r.1.dll) {x : Dependency} (hx : x ∈ dependencies rs xs ps) :
    (Reference.Hints.ofPlaced ps).get? x.reference.dll = some x.hint := by
  obtain ⟨t, ht, rfl⟩ := List.mem_map.1 hx
  obtain ⟨hr, -, hp⟩ := of_mem_zip hf ht
  have hs := Reference.isSome_get?_ofPlaced hp
  rw [hdll _ _ hr] at hs
  obtain ⟨hint, hh⟩ := Option.isSome_iff_exists.1 hs
  simp [hh]

end Dependencies

section Run

variable {i : Inspection} {o : Options} {d d' : MemoryDisk} {r : Report}

/-- Where a hint leads from the folder of the project. -/
def Report.place (r : Report) (hint : Text) : Path :=
  (r.folder.join (Declared.toNative hint)).normalize

/-- The hint of a dependency leads to its binary, for a site in a folder and between the first and the
last state of the disk. Binaries are placed right after the folder of the project is made, and links are
asked for then. -/
structure Designates (d d' : MemoryDisk) (site : Path) (r : Report) (x : Dependency) : Prop where
  found : r.placement = .link → (d.addFolder r.folder).hasPath x.resolution.resolved = true →
    r.place x.hint = x.resolution.resolved.normalize
  missing : r.placement = .link → (d.addFolder r.folder).hasPath x.resolution.resolved = false →
    r.place x.hint = Reference.binary site ["Bin"] x.reference.dll
  copied : r.placement = .copy → x.fallback = none →
    r.place x.hint = (Reference.copiesFolder r.folder).joinText x.reference.dll ∧
      d'.hasFile (r.place x.hint) = true
  failed : r.placement = .copy → x.fallback ≠ none →
    r.place x.hint = Reference.binary site ["Bin"] x.reference.dll

/-- The lines of the descriptor for a dependency. -/
def Dependency.lines (x : Dependency) : Text :=
  Descriptor.referenceLines x.reference.assemblyName x.hint

theorem rooted_projectFolder {folder : Path} (hf : folder.isAbsolute = true) (output : Path)
    (name : Text) : (projectFolder folder output name).Rooted := by
  apply Path.rooted_normalize
  apply Path.isAbsolute_joinText
  exact Path.isAbsolute_join_of_isAbsolute hf output

theorem rooted_siteFolder {folder : Path} (hf : folder.isAbsolute = true) (s : Solution.Site) :
    (Reference.siteFolder folder s).Rooted := by
  apply Path.rooted_normalize
  exact Path.isAbsolute_join_of_isAbsolute hf _

/-- What is placed as its mode says leads to the binary. -/
theorem designates_of_fits {site : Path} {x : Dependency} {p : Placed} {d₁ d₂ : MemoryDisk}
    (hfit : Reference.Fits r.placement r.folder (Declared.relative r.folder site) d₁ d₂
      (x.reference, x.resolution.resolved) p)
    (hd₁ : d₁ = d.addFolder r.folder) (hk : d₂.Keeps d') (hhint : x.hint = p.hint)
    (hfallback : x.fallback = p.fallback) (hfolder : r.folder.Rooted) (hsite : site.Rooted)
    (hfb : r.folder.Avoids '\\') (hsb : site.Avoids '\\')
    (hres : x.resolution.resolved.isAbsolute = true) (hrb : x.resolution.resolved.Avoids '\\')
    (hdll : IsName x.reference.dll) (hdb : '\\' ∉ x.reference.dll) :
    Designates d d' site r x := by
  have hbin : p.hint = Reference.binHint (Declared.relative r.folder site) x.reference.dll →
      r.place x.hint = Reference.binary site ["Bin"] x.reference.dll := by
    intro h
    rw [Report.place, hhint, h]
    exact Reference.normalize_join_binHint hfolder.isAbsolute hsite hsb hdll hdb
  have hcopies : (Reference.copiesFolder r.folder).Rooted := hfolder.joinText (by decide)
  have htarget : ((Reference.copiesFolder r.folder).joinText x.reference.dll).Rooted :=
    hcopies.joinText hdll
  have htb : ((Reference.copiesFolder r.folder).joinText x.reference.dll).Avoids '\\' := by
    have hb : (Reference.copiesFolder r.folder).Avoids '\\' := hfb.join (by decide) (by decide) (by decide)
    exact hb.join (by decide) (by decide) hdb
  subst hd₁
  exact {
    found := fun hm hp => by
      rw [Report.place, hhint, hfit.found hm hp]
      exact Declared.normalize_join_relative hfolder.isAbsolute hres hrb
    missing := fun hm hp => hbin (hfit.missing hm hp)
    copied := fun hm hn => by
      obtain ⟨hh, hfile⟩ := hfit.copied hm (hfallback ▸ hn)
      have hplace : r.place x.hint =
          (Reference.copiesFolder r.folder).joinText x.reference.dll := by
        rw [Report.place, hhint, hh,
          Declared.normalize_join_relative hfolder.isAbsolute htarget.isAbsolute htb]
        exact htarget.normalize_eq
      rw [hplace]
      exact ⟨rfl, hk _ hfile⟩
    failed := fun hm hn => hbin (hfit.failed hm (hfallback ▸ hn)) }

/-- The hints of a conversion: one for each binary, which is the hint of the last reference to it and
leads to the binary, and which all its references have, in the report and in the text of the descriptor. No
hint stands there apart from the lines of the references. -/
theorem hints_of_convert (h : Succeeds (convert i o) d r d') (hi : i.folder.isAbsolute = true)
    (hf : r.folder.Avoids '\\') (hs : (Reference.siteFolder i.folder r.site).Avoids '\\')
    (hr : ∀ x ∈ r.dependencies, x.resolution.resolved.Avoids '\\')
    (hd : ∀ x ∈ r.site.references, IsName x.dll ∧ '\\' ∉ x.dll) :
    r.dependencies.map (·.reference) = r.site.references ∧
      (∀ before x after, r.dependencies = before ++ x :: after →
        (∀ y ∈ after, y.reference.dll ≠ x.reference.dll) →
          Designates d d' (Reference.siteFolder i.folder r.site) r x) ∧
      (∀ x ∈ r.dependencies, ∀ y ∈ r.dependencies,
        x.reference.dll = y.reference.dll → x.hint = y.hint) ∧
      ∃ hints before after,
        d'.file? r.descriptor = some (Descriptor.text r.site
          (Declared.relative r.folder (Reference.siteFolder i.folder r.site)) hints) ∧
        Descriptor.text r.site (Declared.relative r.folder (Reference.siteFolder i.folder r.site)) hints =
          before ++ r.dependencies.flatMap Dependency.lines ++ after ∧
        Text.contains "<HintPath>".toList before = false ∧
        Text.contains "<HintPath>".toList after = false := by
  obtain ⟨-, resolutions, d₁, placed, d₂, hc⟩ := converted_of_convert h
  have hsite := rooted_siteFolder hi r.site
  have hfolder : r.folder.Rooted := by
    rw [hc.folder]
    exact rooted_projectFolder hi o.output r.site.name
  obtain ⟨xs, hxs, hlength, habs⟩ := Reference.run_resolveAll (d := d) hi hsite.isAbsolute i.libraries
    r.site.references
  obtain ⟨rfl, rfl⟩ := Prod.mk.inj (hc.resolve.symm.trans hxs)
  obtain ⟨hfits, -⟩ := Reference.fits_of_placeAll hc.place
  have hdll : ∀ q p, Reference.Fits r.placement r.folder
      (Declared.relative r.folder (Reference.siteFolder i.folder r.site)) (d₁.addFolder r.folder) d₂
        q p → p.dll = q.1.dll := fun q p hq => hq.dll
  have hplaced : placed.length = r.site.references.length := by
    rw [← hfits.length_eq, List.length_zip, List.length_map, hlength, Nat.min_self]
  have hreferences : r.dependencies.map (·.reference) = r.site.references := by
    rw [hc.dependencies]
    exact map_reference_dependencies hlength hplaced
  have hhint : ∀ x ∈ r.dependencies,
      (Reference.Hints.ofPlaced placed).get? x.reference.dll = some x.hint := by
    intro x hx
    rw [hc.dependencies] at hx
    exact get?_of_mem_dependencies hfits hdll hx
  have hlines : (r.site.references.flatMap fun q => Descriptor.referenceLines q.assemblyName
      (((Reference.Hints.ofPlaced placed).get? q.dll).getD (Reference.binHint (Declared.trimSeparators
        (Declared.relative r.folder (Reference.siteFolder i.folder r.site))) q.dll))) =
      r.dependencies.flatMap Dependency.lines := by
    rw [← hreferences, List.flatMap_map]
    refine List.flatMap_congr fun x hx => ?_
    rw [hhint x hx, Option.getD_some, Dependency.lines]
  obtain ⟨before, after, htext, hapart⟩ := Descriptor.exists_text_eq r.site
    (Declared.relative r.folder (Reference.siteFolder i.folder r.site)) (Reference.Hints.ofPlaced placed)
  rw [hlines] at htext
  refine ⟨hreferences, ?_, ?_, Reference.Hints.ofPlaced placed, before, after, ?_, htext, hapart⟩
  · intro before x after hx hlast
    have hmem : x ∈ r.dependencies := by
      rw [hx]
      simp
    have hplain := hd x.reference (hreferences ▸ List.mem_map_of_mem hmem)
    obtain ⟨p, hfit, hres, hp, hfallback⟩ :=
      exists_placed_of_last hfits hdll (hc.dependencies ▸ hx) hlast
    have hk : d₂.Keeps d' := by
      rw [hc.write]
      exact (MemoryDisk.keeps_put _ _ _).trans (MemoryDisk.keeps_put _ _ _)
    exact designates_of_fits hfit rfl hk hp hfallback hfolder hsite hf hs (habs _ hres) (hr x hmem)
      hplain.1 hplain.2
  · intro x hx y hy hxy
    have hx := hhint x hx
    have hy := hhint y hy
    rw [hxy] at hx
    exact Option.some.inj (hx.symm.trans hy)
  · rw [hc.write, MemoryDisk.file?_put, MemoryDisk.file?_put, hc.rerooted, hc.descriptor,
      same_descriptorPath]
    simp [Path.same]

/-- One binary is of a library that was not built; two references name another, which is in the site's
`Bin` folder. -/
def siteWithBinaries : Inspection where
  solution := ⟨"/work/all.sln".toList⟩
  folder := ⟨"/work".toList⟩
  content := []
  sites :=
    [{ name := "Shop".toList
       guid := "A1".toList
       physicalPath := "web".toList
       framework := "v4.8".toList
       references := [⟨"B1".toList, "Tools.dll".toList⟩, ⟨"C1".toList, "Data.dll".toList⟩,
        ⟨"D1".toList, "Data.dll".toList⟩] }]
  libraries := [{ guid := "B1".toList, name := "Tools".toList, path := "lib\\Tools.csproj".toList }]

def diskWithBinary : MemoryDisk where
  files := [(⟨"/work/web/Bin/Data.dll".toList⟩, "data".toList)]

theorem site_with_binaries_has_hints :
    ∃ r d', Succeeds (convert siteWithBinaries ⟨siteWithBinaries.solution, 1, defaultOutput, .copy⟩)
        diskWithBinary r d' ∧
      r.dependencies.map (·.hint) =
        ["..\\..\\..\\web\\Bin\\Tools.dll".toList, "refs\\Data.dll".toList,
          "refs\\Data.dll".toList] ∧
      ∀ before x after, r.dependencies = before ++ x :: after →
        (∀ y ∈ after, y.reference.dll ≠ x.reference.dll) →
          Designates diskWithBinary d' (Reference.siteFolder siteWithBinaries.folder r.site) r x := by
  have hrun : succeedsWith
      (convert siteWithBinaries ⟨siteWithBinaries.solution, 1, defaultOutput, .copy⟩) diskWithBinary
      (fun r _ => r.folder.Avoids '\\' ∧
        (Reference.siteFolder siteWithBinaries.folder r.site).Avoids '\\' ∧
        (∀ x ∈ r.dependencies, x.resolution.resolved.Avoids '\\') ∧
        (∀ x ∈ r.site.references, IsName x.dll ∧ '\\' ∉ x.dll) ∧
        r.dependencies.map (·.hint) =
          ["..\\..\\..\\web\\Bin\\Tools.dll".toList, "refs\\Data.dll".toList,
            "refs\\Data.dll".toList]) = true := by
    decide +kernel
  obtain ⟨r, d', h, hc⟩ := exists_succeeds hrun
  obtain ⟨hf, hs, hr, hd, hhints⟩ := of_decide_eq_true hc
  exact ⟨r, d', h, hhints, (hints_of_convert h (by decide) hf hs hr hd).2.1⟩

end Run
end SiteProject.Conversion
