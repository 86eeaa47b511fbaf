import SiteProject.Proofs.Disk.Parallel
import SiteProject.Reference.Placement
import SiteProject.Reference.Resolution

namespace SiteProject.Reference

open Solution (Reference)

variable {σ τ : Type} {R : σ → τ → Prop} {allowed : Act → Prop}

theorem parallel_placeEach {f : Reference → Path → StateM σ Placed}
    {g : Reference → Path → StateM τ Placed} {rs : List (Reference × Path)}
    (h : ∀ r ∈ rs, Parallel R (f r.1 r.2) (g r.1 r.2)) :
    Parallel R (placeEach f rs) (placeEach g rs) := by
  induction rs with
  | nil => exact parallel_pure []
  | cons r rs ih =>
    have hrs : ∀ q ∈ rs, Parallel R (f q.1 q.2) (g q.1 q.2) := fun q hq => h q (by simp [hq])
    rw [placeEach, placeEach]
    apply parallel_bind (h r (by simp))
    intro p
    apply parallel_bind (ih hrs)
    intro ps
    exact parallel_pure (p :: ps)

variable [Disk (StateM σ)] [Disk (StateM τ)] (h : Agree allowed R)

include h

theorem parallel_firstExisting (last : Path × Provenance) (cs : List (Path × Provenance)) :
    Parallel R (firstExisting (m := StateM σ) last cs) (firstExisting (m := StateM τ) last cs) := by
  induction cs with
  | nil => exact parallel_pure last
  | cons c cs ih =>
    rw [firstExisting, firstExisting]
    apply parallel_bind (h.exists? c.1)
    intro b
    cases b with
    | true => exact parallel_pure c
    | false => exact ih

theorem parallel_readProject (file : Path) :
    Parallel R (readProject (m := StateM σ) file) (readProject (m := StateM τ) file) := by
  unfold readProject
  apply parallel_bind (h.exists? file)
  intro b
  cases b with
  | false => exact parallel_pure _
  | true =>
    apply parallel_bind (h.readText file)
    intro r
    cases r with
    | error f => exact parallel_pure _
    | ok t =>
      dsimp only
      split
      · exact parallel_pure _
      · exact parallel_pure _

theorem parallel_resolve (folder siteFolder : Path) (ls : List Solution.Library) (r : Reference) :
    Parallel R (resolve (m := StateM σ) folder siteFolder ls r)
      (resolve (m := StateM τ) folder siteFolder ls r) := by
  unfold resolve
  split
  · apply parallel_bind (parallel_firstExisting h _ _)
    intro c
    exact parallel_pure _
  · next l _ =>
    apply parallel_bind (parallel_readProject h (projectPath folder l))
    intro p
    apply parallel_bind (parallel_firstExisting h _ _)
    intro c
    exact parallel_pure _

theorem parallel_resolveAll (folder siteFolder : Path) (ls : List Solution.Library)
    (rs : List Reference) :
    Parallel R (resolveAll (m := StateM σ) folder siteFolder ls rs)
      (resolveAll (m := StateM τ) folder siteFolder ls rs) := by
  induction rs with
  | nil => exact parallel_pure []
  | cons r rs ih =>
    rw [resolveAll, resolveAll]
    apply parallel_bind (parallel_resolve h folder siteFolder ls r)
    intro x
    apply parallel_bind ih
    intro xs
    exact parallel_pure (x :: xs)

variable {folder : Path} {siteFolder : Text}

theorem parallel_placeLink (r : Reference) (resolved : Path) :
    Parallel R (placeLink (m := StateM σ) folder siteFolder r resolved)
      (placeLink (m := StateM τ) folder siteFolder r resolved) := by
  unfold placeLink
  apply parallel_bind (h.exists? resolved)
  intro b
  cases b with
  | false => exact parallel_pure _
  | true => exact parallel_pure _

theorem parallel_placeCopy {r : Reference}
    (hr : allowed (.copied ((copiesFolder folder).joinText r.dll))) (resolved : Path) :
    Parallel R (placeCopy (m := StateM σ) folder siteFolder r resolved)
      (placeCopy (m := StateM τ) folder siteFolder r resolved) := by
  unfold placeCopy
  apply parallel_bind (h.exists? resolved)
  intro b
  cases b with
  | false => exact parallel_pure _
  | true =>
    apply parallel_bind (h.copyFile resolved _ hr)
    intro c
    cases c with
    | ok u => exact parallel_pure _
    | error f => exact parallel_pure _

variable (siteFolder) in
theorem parallel_placeAll {mode : Placement} {rs : List (Reference × Path)}
    (hf : mode = .copy → allowed (.made (copiesFolder folder)))
    (hr : mode = .copy → ∀ r ∈ rs, allowed (.copied ((copiesFolder folder).joinText r.1.dll))) :
    Parallel R (placeAll (m := StateM σ) mode folder siteFolder rs).run
      (placeAll (m := StateM τ) mode folder siteFolder rs).run := by
  cases mode with
  | link =>
    apply parallel_run_lift
    apply parallel_placeEach
    intro r _
    exact parallel_placeLink h r.1 r.2
  | copy =>
    apply parallel_run_bind (h.makeFolders _ (hf rfl))
    intro u
    apply parallel_run_lift
    apply parallel_placeEach
    intro r hm
    exact parallel_placeCopy h (hr rfl r hm) r.2

end SiteProject.Reference
