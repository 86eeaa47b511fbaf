import SiteProject.Proofs.Reference.Hints
import SiteProject.Proofs.Solution.Properties

namespace SiteProject

namespace Declared

open SiteProject.Path (steps)

variable {t : Text}

/-- The path leads to the root and names nothing below it. -/
def OnlySeparators (t : Text) : Prop := t ≠ [] ∧ ∀ c ∈ t, isSeparator c = true

theorem OnlySeparators.trimSeparators_eq (h : OnlySeparators t) : trimSeparators t = [] := by
  rw [trimSeparators, Text.dropTail, List.reverse_eq_nil_iff, List.dropWhile_eq_nil_iff]
  exact fun c hc => h.2 c (List.mem_reverse.1 hc)

/-- The separator that a path starts with is kept if anything else is in the path. -/
theorem head?_trimSeparators (h : ¬ OnlySeparators t) : (trimSeparators t).head? = t.head? := by
  obtain ⟨u, ht, hu⟩ := Text.dropTail_append isSeparator t
  change t = trimSeparators t ++ u at ht
  cases hs : trimSeparators t with
  | nil =>
    rw [hs, List.nil_append] at ht
    rw [← ht] at hu
    have hnil : t = [] := not_not.1 fun hne => h ⟨hne, hu⟩
    rw [hnil]
  | cons c s =>
    rw [ht, hs]
    rfl

/-- Without the separators at its end a path leads to the same place, if anything else is in it. -/
theorem normalize_join_trimSeparators (folder : Path) (h : ¬ OnlySeparators t) :
    (folder.join (toNative (trimSeparators t))).normalize = (folder.join (toNative t)).normalize := by
  apply Path.normalize_join_congr
  · rw [isAbsolute_toNative, isAbsolute_toNative, head?_trimSeparators h]
  · exact steps_toNative_dropTail (fun _ => id) t

theorem normalize_join_nil (folder : Path) : (folder.join (toNative [])).normalize = folder.normalize := by
  have hsteps : steps (toNative []).text = [] := rfl
  rw [Path.normalize_join folder (by decide), hsteps, List.append_nil,
    Part.settle_of_settled (Path.settled_settle_parts folder), Path.normalize]

theorem OnlySeparators.normalize_join (h : OnlySeparators t) (folder : Path) :
    (folder.join (toNative t)).normalize = ⟨['/']⟩ := by
  have hroot : (toNative t).isAbsolute = (toNative ['/']).isAbsolute := by
    obtain ⟨c, s, rfl⟩ := List.exists_cons_of_ne_nil h.1
    rw [isAbsolute_toNative]
    exact h.2 c List.mem_cons_self
  have hsteps : steps (toNative t).text = steps (toNative ['/']).text := steps_toNative_of_forall h.2
  rw [Path.normalize_join_congr folder hroot hsteps, Path.join, if_pos (by decide)]
  decide

end Declared

namespace Reference

open Declared (OnlySeparators)
open Solution (Entry Site entries sites)
open Solution.Properties (FirstNonEmpty)

/-- The path that an entry gives for its site. -/
def Given (e : Entry) (t : Text) : Prop :=
  FirstNonEmpty [(Solution.Properties.ofEntryText e.text).debugPhysicalPath,
    (Solution.Properties.ofEntryText e.text).releasePhysicalPath, some e.header.path] t

/-- Where a site lies, by the path that is given for it. -/
structure Lies (folder : Path) (s : Site) (t : Text) : Prop where
  there : ¬ OnlySeparators t → siteFolder folder s = (folder.join (Declared.toNative t)).normalize
  beside : OnlySeparators t →
    siteFolder folder s = folder.normalize ∧ (folder.join (Declared.toNative t)).normalize = ⟨['/']⟩

theorem exists_lies (folder : Path) (e : Entry) : ∃ t, Given e t ∧ Lies folder (Site.ofEntry e) t := by
  obtain ⟨t, hgiven, hpath⟩ := (Solution.Properties.chosen_ofEntry e).physicalPath
  refine ⟨t, hgiven, fun h => ?_, fun h => ⟨?_, h.normalize_join folder⟩⟩
  · rw [siteFolder, hpath]
    exact Declared.normalize_join_trimSeparators folder h
  · rw [siteFolder, hpath, h.trimSeparators_eq]
    exact Declared.normalize_join_nil folder

/-- Each site lies where the path that is given for it leads from the folder of the solution, unless that path
is nothing but separators. Such a path leads to the root, and the site is taken to lie in the folder of the
solution. -/
theorem folder_of_sites (folder : Path) (es : List Entry) :
    List.Forall₂ (fun e s => ∃ t, Given e t ∧ Lies folder s t)
      (es.filter fun e => e.kind? == some .site) (sites es) := by
  rw [sites, List.forall₂_map_right_iff, List.forall₂_same]
  exact fun e _ => exists_lies folder e

/-- A site at the root. -/
def rootedSite : Text :=
  "Project(\"\x7bE24C65DC-7377-472B-9ABA-BC803B73C61A\x7d\") = \"Shop\", \"\\\", \"\x7bA1\x7d\"\nEndProject\n".toList

def rootedEntry : Entry where
  header := ⟨true, Solution.Kind.site.typeGuid, true, [' '], [' '], "Shop".toList, [' '], ['\\'], [' '],
    "A1".toList⟩
  body := ['\n']

/-- A site at the root is taken to lie in the folder of the solution. -/
theorem rooted_site_is_moved :
    Path.isAbsolute ⟨"/work".toList⟩ = true ∧
      ¬ List.Forall₂ (fun e s => ∀ t, Given e t → siteFolder ⟨"/work".toList⟩ s =
          ((Path.mk "/work".toList).join (Declared.toNative t)).normalize)
        ((entries rootedSite).filter fun e => e.kind? == some .site) (sites (entries rootedSite)) := by
  have hentries : entries rootedSite = [rootedEntry] := by decide +kernel
  have hsite : [rootedEntry].filter (fun e => e.kind? == some .site) = [rootedEntry] := by decide
  have hgiven : Given rootedEntry ['\\'] :=
    .skip (.inl (by decide +kernel)) (.skip (.inl (by decide +kernel)) (.here (by simp [rootedEntry])))
  have hfolder : siteFolder ⟨"/work".toList⟩ (Site.ofEntry rootedEntry) = ⟨"/work".toList⟩ := by
    decide +kernel
  refine ⟨by decide, fun hall => ?_⟩
  rw [hentries, sites, hsite] at hall
  have h := (List.forall₂_cons.1 hall).1 ['\\'] hgiven
  rw [hfolder] at h
  exact absurd h (by decide)

end Reference
end SiteProject
