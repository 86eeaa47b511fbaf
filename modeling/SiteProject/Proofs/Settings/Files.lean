import SiteProject.Proofs.Disk.View
import SiteProject.Settings.Layers

namespace SiteProject

/-- What a disk answers to a program that also asks which paths are files. -/
structure FileView extends DiskView where
  isFile : Path → Bool

/-- In a state, a disk gives the answers of a view, and asking leaves the state. -/
structure Shows {σ : Type} [Disk (StateM σ)] (s : σ) (v : FileView) : Prop
    extends Views s v.toDiskView where
  isFile? (p : Path) : ((Disk.isFile? p : StateM σ Bool).run s).run = (v.isFile p, s)

def Tree.fileView (t : Tree) : FileView := { t.view with isFile := t.isFile? }

theorem Tree.shows_fileView (t : Tree) : Shows t t.fileView := { t.views_view with isFile? := fun _ => rfl }

namespace Settings

/-- What has become of a settings file. -/
inductive Found
  | absent
  | loaded (layer : Layer) (warnings : List Warning)
  | broken (f : Failure)

namespace Found

/-- What is set by a file; one that is not loaded sets nothing. -/
def layer : Found → Layer
  | loaded l _ => l
  | _ => {}

def warnings : Found → List Warning
  | loaded _ ws => ws
  | _ => []

/-- A broken file as a failure. -/
def result : Found → Except Failure (Layer × List Warning)
  | broken f => .error f
  | found => .ok (found.layer, found.warnings)

end Found

variable {v : FileView}

/-- A file that is asked for, if there is a path for it, is not there, or it is there and holds settings,
or it cannot be read or holds something else. -/
inductive Stands (v : FileView) (file? : Option Path) : Found → Prop
  | absent (h : ∀ p, file? = some p → v.isFile p = false) : Stands v file? .absent
  | unreadable {p : Path} {f : DiskFailure} (hp : file? = some p) (hf : v.isFile p = true)
      (ht : v.text p = .error f) : Stands v file? (.broken (.other f.cause))
  | malformed {p : Path} {t : Text} (hp : file? = some p) (hf : v.isFile p = true)
      (ht : v.text p = .ok t) (hr : read? t = none) :
      Stands v file? (.broken (.badSettings p "<toml error>".toList))
  | loaded {p : Path} {t : Text} {r : Reading} (hp : file? = some p) (hf : v.isFile p = true)
      (ht : v.text p = .ok t) (hr : read? t = some r) :
      Stands v file? (.loaded r.layer (r.unknown.map (warning p t)))

/-- A file stands in one way, whatever the disk holds. -/
theorem exists_stands (v : FileView) (file? : Option Path) :
    ∃ found, Stands v file? found ∧ ∀ found', Stands v file? found' → found' = found := by
  have hone {found found' : Found} (h : Stands v file? found) (h' : Stands v file? found') :
      found' = found := by
    cases h <;> cases h' <;> simp_all
  suffices hex : ∃ found, Stands v file? found by
    obtain ⟨found, h⟩ := hex
    exact ⟨found, h, fun _ => hone h⟩
  cases file? with
  | none => exact ⟨_, .absent nofun⟩
  | some p =>
    cases hf : v.isFile p with
    | false => exact ⟨_, .absent fun q hq => Option.some.inj hq ▸ hf⟩
    | true =>
      cases ht : v.text p with
      | error f => exact ⟨_, .unreadable rfl hf ht⟩
      | ok t =>
        cases hr : read? t with
        | none => exact ⟨_, .malformed rfl hf ht hr⟩
        | some r => exact ⟨_, .loaded rfl hf ht hr⟩

section Run

variable {σ : Type} [Disk (StateM σ)] {s : σ}

theorem ends_load_of_error (hv : Shows s v) {p : Path} {f : DiskFailure} (ht : v.text p = .error f) :
    Ends (load p : ExceptT Failure (StateM σ) _) s (.error (.other f.cause)) s := by
  refine ends_bind.2 (.inl ⟨_, ends_adapt.2 ⟨_, hv.readText p, ?_⟩, rfl⟩)
  rw [ht]
  rfl

theorem ends_load_of_ok (hv : Shows s v) {p : Path} {t : Text} (ht : v.text p = .ok t) :
    Ends (load p : ExceptT Failure (StateM σ) _) s
      (match read? t with
        | none => .error (.badSettings p "<toml error>".toList)
        | some r => .ok (r.layer, r.unknown.map (warning p t))) s := by
  refine ends_bind.2 (.inr ⟨t, s, ends_adapt.2 ⟨_, hv.readText p, ?_⟩, ?_⟩)
  · rw [ht]
    rfl
  · cases read? t with
    | none => exact ends_throw.2 ⟨rfl, rfl⟩
    | some r => exact ends_pure.2 ⟨rfl, rfl⟩

/-- A file that is there is loaded, or it is broken. -/
theorem Stands.ends_load (hv : Shows s v) {p : Path} {found : Found} (h : Stands v (some p) found)
    (hf : v.isFile p = true) : Ends (load p : ExceptT Failure (StateM σ) _) s found.result s := by
  cases h with
  | absent h => simp [h p rfl] at hf
  | unreadable hp _ ht =>
    obtain rfl := Option.some.inj hp
    exact ends_load_of_error hv ht
  | malformed hp _ ht hr =>
    obtain rfl := Option.some.inj hp
    have hload := ends_load_of_ok hv ht
    rw [hr] at hload
    exact hload
  | loaded hp _ ht hr =>
    obtain rfl := Option.some.inj hp
    have hload := ends_load_of_ok hv ht
    rw [hr] at hload
    exact hload

theorem Stands.eq_absent {file? : Option Path} {found : Found} (h : Stands v file? found)
    (hn : ∀ p, file? = some p → v.isFile p = false) : found = .absent := by
  cases h with
  | absent => rfl
  | unreadable hp hf _ => simp [hn _ hp] at hf
  | malformed hp hf _ _ => simp [hn _ hp] at hf
  | loaded hp hf _ _ => simp [hn _ hp] at hf

/-- A broken file of the user counts as none. -/
theorem run_loadUser (hv : Shows s v) {env : Environment} {found : Found}
    (h : Stands v (userFile? env) found) :
    ((loadUser env : StateM σ _).run s).run = ((found.layer, found.warnings), s) := by
  unfold loadUser
  cases hu : userFile? env with
  | none =>
    obtain rfl := h.eq_absent (by simp [hu])
    rfl
  | some p =>
    rw [hu] at h
    cases hf : v.isFile p with
    | false =>
      obtain rfl := h.eq_absent (by simp [hf])
      simp [hv.isFile?, hf, Found.layer, Found.warnings]
    | true =>
      have hload := h.ends_load hv hf
      rw [Ends] at hload
      simp only [StateT.run_bind, Id.run_bind, hv.isFile?, hf, Bool.not_true, Bool.false_eq_true, if_false,
        hload]
      cases found <;> rfl

/-- A broken file beside the solution is a failure. -/
theorem ends_loadProject (hv : Shows s v) {folder : Option Path} {found : Found}
    (h : Stands v (folder.map projectFile) found) :
    Ends (loadProject folder : ExceptT Failure (StateM σ) _) s found.result s := by
  unfold loadProject
  cases hp : folder.map projectFile with
  | none =>
    obtain rfl := h.eq_absent (by simp [hp])
    exact ends_pure.2 ⟨rfl, rfl⟩
  | some p =>
    rw [hp] at h
    refine ends_bind.2 (.inr ⟨v.isFile p, s, ends_lift.2 ⟨_, hv.isFile? p, rfl⟩, ?_⟩)
    cases hf : v.isFile p with
    | false =>
      obtain rfl := h.eq_absent (by simp [hf])
      exact ends_pure.2 ⟨rfl, rfl⟩
    | true => exact h.ends_load hv hf

end Run

end Settings
end SiteProject
