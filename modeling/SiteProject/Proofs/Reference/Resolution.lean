import SiteProject.Proofs.Path.Rooted
import SiteProject.Proofs.Reference.Best

namespace SiteProject.Reference

open Solution (Reference)

variable {v : DiskView} {folder siteFolder : Path} {ls : List Solution.Library}

theorem isAbsolute_binary (hf : folder.isAbsolute = true) (ss : List String) (dll : Text) :
    (binary folder ss dll).isAbsolute = true := by
  apply Path.isAbsolute_joinText
  induction ss generalizing folder with
  | nil => exact hf
  | cons s ss ih => exact ih (Path.isAbsolute_joinText hf s.toList)

theorem isAbsolute_outputPlaces (hf : folder.isAbsolute = true) {dll : Text}
    {info : Library.Metadata} {b : Library.Build} {p : Provenance} {c : Path × Provenance}
    (hc : c ∈ outputPlaces folder dll info b p) : c.1.isAbsolute = true := by
  obtain ⟨out, -, hc⟩ := List.mem_flatMap.1 hc
  obtain ⟨name, -, rfl⟩ := List.mem_map.1 hc
  apply Path.isAbsolute_joinText
  exact Path.isAbsolute_normalize (Path.isAbsolute_join_of_isAbsolute hf (Declared.toNative out))

theorem isAbsolute_places (hf : folder.isAbsolute = true) {dll : Text} {info : Library.Metadata}
    {c : Path × Provenance} (hc : c ∈ places folder dll info) : c.1.isAbsolute = true := by
  rw [places, List.mem_append, List.mem_append] at hc
  rcases hc with (hc | hc) | hc
  · exact isAbsolute_outputPlaces hf hc
  · exact isAbsolute_outputPlaces hf hc
  · obtain ⟨ss, -, rfl⟩ := List.mem_map.1 hc
    exact isAbsolute_binary hf ss dll

theorem isAbsolute_libraryFolder (hf : folder.isAbsolute = true) (l : Solution.Library) :
    (libraryFolder folder l).isAbsolute = true := by
  have hp : (projectPath folder l).isAbsolute = true :=
    Path.isAbsolute_normalize (Path.isAbsolute_join_of_isAbsolute hf _)
  unfold libraryFolder
  cases h : (projectPath folder l).parent? with
  | none => exact hf
  | some q => exact Path.isAbsolute_of_parent? hp h

theorem Resolves.isAbsolute {r : Reference} {x : Resolution} (hf : folder.isAbsolute = true)
    (hs : siteFolder.isAbsolute = true) (h : Resolves v folder siteFolder ls r x) :
    x.resolved.isAbsolute = true := by
  cases h with
  | inSite hl => exact isAbsolute_binary hs ["Bin"] r.dll
  | @inLibrary _ _ l _ _ _ _ _ _ _ hc =>
    have hl := isAbsolute_libraryFolder hf l
    cases hc with
    | found hp _ _ => exact isAbsolute_places hl (hp ▸ List.mem_append_right _ List.mem_cons_self)
    | guess _ => exact isAbsolute_binary hl _ _

/-- Resolving looks at the disk only and gives an absolute path for each reference. -/
theorem run_resolveAll {d : MemoryDisk} (hf : folder.isAbsolute = true)
    (hs : siteFolder.isAbsolute = true) (ls : List Solution.Library) (rs : List Reference) :
    ∃ xs, ((resolveAll (m := StateM MemoryDisk) folder siteFolder ls rs).run d).run = (xs, d) ∧
      xs.length = rs.length ∧ ∀ x ∈ xs, x.resolved.isAbsolute = true := by
  obtain ⟨xs, hxs, hr⟩ := exists_resolves d.views_view folder siteFolder ls rs
  refine ⟨xs, hxs, hr.length_eq.symm, ?_⟩
  intro x hx
  obtain ⟨n, hn, rfl⟩ := List.mem_iff_getElem.1 hx
  have hget := (List.forall₂_iff_get.1 hr).2 n (hr.length_eq ▸ hn) hn
  exact hget.isAbsolute hf hs

end SiteProject.Reference
