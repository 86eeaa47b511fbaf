import Mathlib.Data.List.Forall2
import SiteProject.Proofs.Disk.Run
import SiteProject.Reference.Placement

namespace SiteProject.Reference

open Solution (Reference)

variable {folder : Path} {siteFolder : Text} {d d' : MemoryDisk}

/-- What the hint of a reference with a resolved path is, between two states of the disk. -/
structure Fits (mode : Placement) (folder : Path) (siteFolder : Text) (d d' : MemoryDisk)
    (r : Reference × Path) (p : Placed) : Prop where
  dll : p.dll = r.1.dll
  found : mode = .link → d.hasPath r.2 = true → p.hint = Declared.relative folder r.2
  missing : mode = .link → d.hasPath r.2 = false → p.hint = binHint siteFolder r.1.dll
  copied : mode = .copy → p.fallback = none →
    p.hint = Declared.relative folder ((copiesFolder folder).joinText r.1.dll) ∧
      d'.hasFile ((copiesFolder folder).joinText r.1.dll) = true
  failed : mode = .copy → p.fallback ≠ none → p.hint = binHint siteFolder r.1.dll

theorem fits_placeLink (r : Reference × Path) :
    ∃ p, ((placeLink (m := StateM MemoryDisk) folder siteFolder r.1 r.2).run d).run = (p, d) ∧
      Fits .link folder siteFolder d d r p := by
  unfold placeLink
  by_cases h : d.hasPath r.2 = true
  · simp only [StateT.run_bind, Id.run_bind, MemoryDisk.run_exists?, h, if_true]
    exact ⟨_, rfl, rfl, fun _ _ => rfl, fun _ hn => absurd h (by simp [hn]), by simp, by simp⟩
  · simp only [StateT.run_bind, Id.run_bind, MemoryDisk.run_exists?, h, if_false, Bool.false_eq_true]
    exact ⟨_, rfl, rfl, fun _ hp => absurd hp h, fun _ _ => rfl, by simp, by simp⟩

theorem fits_placeCopy (d₀ : MemoryDisk) (r : Reference × Path) :
    ∃ p d', ((placeCopy (m := StateM MemoryDisk) folder siteFolder r.1 r.2).run d).run = (p, d') ∧
      Fits .copy folder siteFolder d₀ d' r p ∧ d.Keeps d' := by
  unfold placeCopy
  by_cases h : d.hasPath r.2 = true
  · obtain ⟨c, d₁, hc, hk, hf⟩ := MemoryDisk.run_copyFile r.2 ((copiesFolder folder).joinText r.1.dll) d
    simp only [StateT.run_bind, Id.run_bind, MemoryDisk.run_exists?, h, Bool.not_true, if_false,
      Bool.false_eq_true, hc]
    cases c with
    | ok u => exact ⟨_, d₁, rfl, ⟨rfl, by simp, by simp, fun _ _ => ⟨rfl, hf rfl⟩, by simp⟩, hk⟩
    | error e => exact ⟨_, d₁, rfl, ⟨rfl, by simp, by simp, by simp, fun _ _ => rfl⟩, hk⟩
  · simp only [StateT.run_bind, Id.run_bind, MemoryDisk.run_exists?, h, Bool.not_false, if_true]
    exact ⟨_, d, rfl, ⟨rfl, by simp, by simp, by simp, fun _ _ => rfl⟩, MemoryDisk.Keeps.refl d⟩

/-- What holds of each placement when it is made and as more files are made holds of all of them in
the end. -/
theorem fits_placeEach {f : Reference → Path → StateM MemoryDisk Placed}
    {R : MemoryDisk → Reference × Path → Placed → Prop} {I : MemoryDisk → Prop}
    (step : ∀ d r, I d → ∃ p d', ((f r.1 r.2).run d).run = (p, d') ∧ R d' r p ∧ d.Keeps d' ∧ I d')
    (mono : ∀ d d' r p, d.Keeps d' → R d r p → R d' r p) (rs : List (Reference × Path))
    (hd : I d) :
    ∃ ps d', ((placeEach f rs).run d).run = (ps, d') ∧ List.Forall₂ (R d') rs ps ∧ d.Keeps d' := by
  induction rs generalizing d with
  | nil => exact ⟨[], d, rfl, .nil, MemoryDisk.Keeps.refl d⟩
  | cons r rs ih =>
    obtain ⟨p, d₁, hp, hr, hk, hi⟩ := step d r hd
    obtain ⟨ps, d₂, hps, hrs, hks⟩ := ih hi
    refine ⟨p :: ps, d₂, ?_, .cons (mono _ _ _ _ hks hr) hrs, hk.trans hks⟩
    simp only [placeEach, StateT.run_bind, Id.run_bind, hp, hps]
    rfl

theorem Fits.mono {mode : Placement} {d₁ d₂ : MemoryDisk} {r : Reference × Path} {p : Placed}
    (hk : d₁.Keeps d₂) (h : Fits mode folder siteFolder d d₁ r p) :
    Fits mode folder siteFolder d d₂ r p :=
  { h with copied := fun hm hf => ⟨(h.copied hm hf).1, hk _ (h.copied hm hf).2⟩ }

/-- Each placement does what its mode says, whatever the other placements of the run do: files stay, and a
copy that fails only turns its own hint to the site's `Bin` folder. -/
theorem fits_of_placeAll {mode : Placement} {rs : List (Reference × Path)} {ps : List Placed}
    (h : Succeeds (placeAll mode folder siteFolder rs) d ps d') :
    List.Forall₂ (Fits mode folder siteFolder d d') rs ps ∧ d.Keeps d' := by
  cases mode with
  | link =>
    have step : ∀ d₁ r, d₁ = d → ∃ p d₂,
        ((placeLink (m := StateM MemoryDisk) folder siteFolder r.1 r.2).run d₁).run = (p, d₂) ∧
          Fits .link folder siteFolder d d₂ r p ∧ d₁.Keeps d₂ ∧ d₂ = d := by
      rintro d₁ r rfl
      obtain ⟨p, hp, hr⟩ := fits_placeLink r
      exact ⟨p, d₁, hp, hr, MemoryDisk.Keeps.refl d₁, rfl⟩
    obtain ⟨qs, d₁, hq, hf, hk⟩ := fits_placeEach step (fun _ _ _ _ hk hr => hr.mono hk) rs rfl
    rw [placeAll, succeeds_lift, hq] at h
    obtain ⟨rfl, rfl⟩ := Prod.mk.inj h
    exact ⟨hf, hk⟩
  | copy =>
    have step : ∀ d₁ r, True → ∃ p d₂,
        ((placeCopy (m := StateM MemoryDisk) folder siteFolder r.1 r.2).run d₁).run = (p, d₂) ∧
          Fits .copy folder siteFolder d d₂ r p ∧ d₁.Keeps d₂ ∧ True := by
      intro d₁ r _
      obtain ⟨p, d₂, hp, hr, hk⟩ := fits_placeCopy d r
      exact ⟨p, d₂, hp, hr, hk, trivial⟩
    rw [placeAll, succeeds_bind] at h
    obtain ⟨u, d₁, hm, h⟩ := h
    have hd := MemoryDisk.eq_addFolder_of_makeFolders hm
    obtain ⟨qs, d₂, hq, hf, hk⟩ := fits_placeEach step (fun _ _ _ _ hk hr => hr.mono hk) rs trivial
    rw [succeeds_lift, hq] at h
    obtain ⟨rfl, rfl⟩ := Prod.mk.inj h
    rw [hd] at hk
    exact ⟨hf, (d.keeps_addFolder _).trans hk⟩

end SiteProject.Reference
