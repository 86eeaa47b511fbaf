import SiteProject.Proofs.Disk.Replay
import SiteProject.Proofs.Reference.Best
import SiteProject.Reference.Placement

namespace SiteProject.Reference

open MemoryDisk (Repeats Alike)
open Solution (Reference)

variable {v w : DiskView} {folder siteFolder : Path} {ls : List Solution.Library} {r : Reference}

/-- The paths that are asked for to find a binary: its places up to the first that exists. -/
inductive Probed (v : DiskView) (folder siteFolder : Path) (ls : List Solution.Library)
    (r : Reference) : Path → Prop
  | inSite (hl : library? ls r = none) :
      Probed v folder siteFolder ls r (binary siteFolder ["Bin"] r.dll)
  | inLibrary {l : Solution.Library} {info : Library.Metadata} {state : ProjectFile}
      {before after : List (Path × Provenance)} {c : Path × Provenance} (hl : library? ls r = some l)
      (hs : Says v (projectPath folder l) info state)
      (he : places (libraryFolder folder l) r.dll info = before ++ c :: after)
      (hb : ∀ b ∈ before, v.present b.1 = false) : Probed v folder siteFolder ls r c.1

theorem library?_eq_none (hl : ∀ l ∈ ls, Text.sameLetters l.guid r.targetGuid = false) :
    library? ls r = none :=
  List.find?_eq_none.2 fun l hm => by simp [hl l hm]

theorem Resolves.probed {x : Resolution} (h : Resolves v folder siteFolder ls r x) :
    Probed v folder siteFolder ls r x.resolved := by
  cases h with
  | inSite hl => exact .inSite (library?_eq_none hl)
  | inLibrary he hl hb hs hc =>
    have hl := library?_eq_some he hl hb
    cases hc with
    | found hp _ hbefore => exact .inLibrary hl hs hp hbefore
    | guess hn =>
      -- the guess is one of the usual places, where nothing was found
      obtain ⟨before, after, hp⟩ := List.append_of_mem (guess_mem_places _ _ _)
      exact .inLibrary hl hs hp fun b hm => hn b (by simp [hp, hm])

/-- What a library's project file says, computed. -/
def metadata (v : DiskView) (file : Path) : Library.Metadata :=
  if v.present file then
    match v.text file with
    | .error _ => {}
    | .ok t => (Library.Metadata.parse? t).getD {}
  else {}

theorem Says.eq_metadata {file : Path} {info : Library.Metadata} {state : ProjectFile}
    (h : Says v file info state) : info = metadata v file := by
  cases h with
  | missing hp => simp [metadata, hp]
  | refused hp ht => simp [metadata, hp, ht]
  | malformed hp ht hx => simp [metadata, hp, ht, hx]
  | read hp ht hx => simp [metadata, hp, ht, hx]

/-- All places of a binary, those that are not asked for too. -/
def lookups (v : DiskView) (folder siteFolder : Path) (ls : List Solution.Library) (r : Reference) :
    List Path :=
  match library? ls r with
  | none => [binary siteFolder ["Bin"] r.dll]
  | some l =>
    (places (libraryFolder folder l) r.dll (metadata v (projectPath folder l))).map Prod.fst

theorem Probed.mem_lookups {p : Path} (h : Probed v folder siteFolder ls r p) :
    p ∈ lookups v folder siteFolder ls r := by
  cases h with
  | inSite hl => simp [lookups, hl]
  | inLibrary hl hs he _ =>
    rw [hs.eq_metadata] at he
    simp [lookups, hl, he]

theorem Says.congr {file : Path} {info : Library.Metadata} {state : ProjectFile}
    (h : Says v file info state) (hp : w.present file = v.present file)
    (ht : w.text file = v.text file) : Says w file info state := by
  cases h with
  | missing hm => exact .missing (hp.trans hm)
  | refused hm hf => exact .refused (hp.trans hm) (ht.trans hf)
  | malformed hm hf hx => exact .malformed (hp.trans hm) (ht.trans hf) hx
  | read hm hf hx => exact .read (hp.trans hm) (ht.trans hf) hx

/-- A resolution depends on the project file and on the paths that are asked for. -/
theorem Resolves.congr {x : Resolution} (h : Resolves v folder siteFolder ls r x)
    (hfile : ∀ l, library? ls r = some l →
      w.present (projectPath folder l) = v.present (projectPath folder l) ∧
        w.text (projectPath folder l) = v.text (projectPath folder l))
    (hp : ∀ p, Probed v folder siteFolder ls r p → w.present p = v.present p) :
    Resolves w folder siteFolder ls r x := by
  cases h with
  | inSite hl =>
    rw [← hp _ (.inSite (library?_eq_none hl))]
    exact .inSite hl
  | inLibrary he hl hb hs hc =>
    have hlib := library?_eq_some he hl hb
    obtain ⟨hpresent, htext⟩ := hfile _ hlib
    refine .inLibrary he hl hb (hs.congr hpresent htext) ?_
    exact hc.congr fun before b after hplaces hbefore => hp _ (.inLibrary hlib hs hplaces hbefore)

theorem Resolves.unique {x y : Resolution} (hx : Resolves v folder siteFolder ls r x)
    (hy : Resolves v folder siteFolder ls r y) : x = y := by
  cases hx with
  | inSite hl =>
    cases hy with
    | inSite => rfl
    | inLibrary he hk hb =>
      have hsome := library?_eq_some he hk hb
      rw [library?_eq_none hl] at hsome
      simp at hsome
  | inLibrary he hl hb hs hc =>
    have hsome := library?_eq_some he hl hb
    cases hy with
    | inSite hn =>
      rw [library?_eq_none hn] at hsome
      simp at hsome
    | inLibrary he' hl' hb' hs' hc' =>
      obtain rfl := Option.some.inj (hsome.symm.trans (library?_eq_some he' hl' hb'))
      obtain ⟨rfl, rfl⟩ := hs.unique hs'
      rw [hc.eq_find?, ← hc'.eq_find?]

section Repeats

variable {target : Path} {d : MemoryDisk}

theorem view_present_eq {e : MemoryDisk} {p : Path} (h : Alike target d e)
    (hp : p.apart target = true) : e.view.present p = d.view.present p :=
  h.hasPath p hp

theorem view_text_eq {e : MemoryDisk} {p : Path} (h : Alike target d e)
    (hp : p.apart target = true) : e.view.text p = d.view.text p := by
  have hrun := MemoryDisk.repeats_readText (d := d) hp
  obtain ⟨a, cs, -, hrun⟩ := hrun
  have hd := Prod.ext_iff.1 (hrun d (.refl target d))
  have he := Prod.ext_iff.1 (hrun e h)
  exact he.1.trans hd.1.symm

theorem repeats_resolve (hfile : ∀ l ∈ ls, (projectPath folder l).apart target = true)
    (hp : ∀ p, Probed d.view folder siteFolder ls r p → p.apart target = true) :
    Repeats target (resolve (m := StateM MemoryDisk) folder siteFolder ls r) d := by
  obtain ⟨x, -, hx⟩ := resolves_of_resolve d.views_view folder siteFolder ls r
  apply MemoryDisk.repeats_of_run x
  intro e he
  obtain ⟨y, hrun, hy⟩ := resolves_of_resolve e.views_view folder siteFolder ls r
  have hxe : Resolves e.view folder siteFolder ls r x := by
    apply hx.congr
    · intro l hl
      have hl := hfile l (List.mem_of_find?_eq_some hl)
      exact ⟨view_present_eq he hl, view_text_eq he hl⟩
    · intro p h
      exact view_present_eq he (hp p h)
  rw [hxe.unique hy]
  exact hrun

theorem repeats_resolveAll {rs : List Reference}
    (hfile : ∀ l ∈ ls, (projectPath folder l).apart target = true)
    (hp : ∀ r ∈ rs, ∀ p, Probed d.view folder siteFolder ls r p → p.apart target = true) :
    Repeats target (resolveAll (m := StateM MemoryDisk) folder siteFolder ls rs) d := by
  induction rs with
  | nil => exact MemoryDisk.repeats_pure []
  | cons r rs ih =>
    rw [resolveAll]
    apply MemoryDisk.repeats_bind (repeats_resolve hfile (hp r List.mem_cons_self))
    intro x d' hx
    obtain ⟨_, hd, -⟩ := resolves_of_resolve d.views_view folder siteFolder ls r
    obtain rfl : d = d' := congrArg Prod.snd (hd.symm.trans hx)
    apply MemoryDisk.repeats_bind (ih fun r hr => hp r (List.mem_cons_of_mem _ hr))
    intro xs _ _
    exact MemoryDisk.repeats_pure (x :: xs)

variable {siteText : Text} {resolved : Path}

theorem repeats_placeLink (hr : resolved.apart target = true) :
    Repeats target (placeLink (m := StateM MemoryDisk) target siteText r resolved) d := by
  unfold placeLink
  apply MemoryDisk.repeats_bind (MemoryDisk.repeats_exists? hr)
  intro b d' _
  cases b with
  | false => exact MemoryDisk.repeats_pure _
  | true => exact MemoryDisk.repeats_pure _

theorem repeats_placeCopy (hr : resolved.apart target = true)
    (ht : target.holds ((copiesFolder target).joinText r.dll) = true) :
    Repeats target (placeCopy (m := StateM MemoryDisk) target siteText r resolved) d := by
  unfold placeCopy
  apply MemoryDisk.repeats_bind (MemoryDisk.repeats_exists? hr)
  intro b d' _
  cases b with
  | false => exact MemoryDisk.repeats_pure _
  | true =>
    apply MemoryDisk.repeats_bind (MemoryDisk.repeats_copyFile hr ht)
    intro c _ _
    cases c with
    | ok u => exact MemoryDisk.repeats_pure _
    | error f => exact MemoryDisk.repeats_pure _

theorem repeats_placeEach {f : Reference → Path → StateM MemoryDisk Placed}
    {rs : List (Reference × Path)} (h : ∀ r ∈ rs, ∀ d, Repeats target (f r.1 r.2) d) :
    Repeats target (placeEach f rs) d := by
  induction rs generalizing d with
  | nil => exact MemoryDisk.repeats_pure []
  | cons r rs ih =>
    rw [placeEach]
    apply MemoryDisk.repeats_bind (h r List.mem_cons_self d)
    intro p d' _
    apply MemoryDisk.repeats_bind (ih fun r hr => h r (List.mem_cons_of_mem _ hr))
    intro ps _ _
    exact MemoryDisk.repeats_pure (p :: ps)

theorem repeats_placeAll {mode : Placement} {rs : List (Reference × Path)}
    (hr : ∀ r ∈ rs, r.2.apart target = true)
    (hf : target.holds (copiesFolder target) = true)
    (ht : ∀ r ∈ rs, target.holds ((copiesFolder target).joinText r.1.dll) = true) :
    Repeats target (placeAll (m := StateM MemoryDisk) mode target siteText rs).run d := by
  cases mode with
  | link =>
    apply MemoryDisk.repeats_run_lift
    apply repeats_placeEach
    intro r hm _
    exact repeats_placeLink (hr r hm)
  | copy =>
    apply MemoryDisk.repeats_run_bind (MemoryDisk.repeats_makeFolders hf)
    intro _ _ _
    apply MemoryDisk.repeats_run_lift
    apply repeats_placeEach
    intro r hm _
    exact repeats_placeCopy (hr r hm) (ht r hm)

end Repeats
end SiteProject.Reference
