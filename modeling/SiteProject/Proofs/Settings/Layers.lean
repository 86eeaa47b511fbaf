import SiteProject.Proofs.Settings.Files
import SiteProject.Proofs.Text.Trim

namespace SiteProject.Settings

/-- The value that the last of the layers gives that gives one; it stays as it was where none does. -/
inductive LastSet {α : Type} (key : Layer → Option α) (ls : List Layer) (start : α) : α → Prop
  | set (before after : List Layer) {l : Layer} {a : α} (he : ls = before ++ l :: after)
      (hl : key l = some a) (ha : ∀ k ∈ after, key k = none) : LastSet key ls start a
  | kept (hn : ∀ l ∈ ls, key l = none) : LastSet key ls start start

/-- Each key on its own has the value of the last layer that sets it. -/
structure Overlaid (start : Settings) (ls : List Layer) (s : Settings) : Prop where
  output : LastSet Layer.output ls start.output s.output
  placement : LastSet Layer.placement ls start.placement s.placement
  color : LastSet Layer.color ls start.color s.color

theorem lastSet_cons {α : Type} {key : Layer → Option α} {l : Layer} {ls : List Layer} {start a : α}
    (h : LastSet key ls ((key l).getD start) a) : LastSet key (l :: ls) start a := by
  cases h with
  | set before after he hl ha => exact .set (l :: before) after (by rw [he]; rfl) hl ha
  | kept hn =>
    cases hl : key l with
    | none => exact .kept (List.forall_mem_cons.2 ⟨hl, hn⟩)
    | some a => exact .set [] ls rfl hl hn

/-- A key that each layer overrides by itself is overridden by the last layer that sets it. -/
theorem lastSet_foldl {α : Type} {key : Layer → Option α} {value : Settings → α}
    (happly : ∀ s l, value (s.apply l) = (key l).getD (value s)) (start : Settings) (ls : List Layer) :
    LastSet key ls (value start) (value (ls.foldl apply start)) := by
  induction ls generalizing start with
  | nil => exact .kept (by simp)
  | cons l ls ih =>
    have ih := ih (start.apply l)
    rw [happly] at ih
    exact lastSet_cons ih

theorem overlaid_foldl (start : Settings) (ls : List Layer) :
    Overlaid start ls (ls.foldl apply start) where
  output := lastSet_foldl (fun _ _ => rfl) start ls
  placement := lastSet_foldl (fun _ _ => rfl) start ls
  color := lastSet_foldl (fun _ _ => rfl) start ls

/-- What the environment sets: a folder that is not blank, as it is written, and names that mean
something. -/
structure FromEnvironment (env : Environment) (l : Layer) : Prop where
  output (p : Path) : l.output = some p ↔
    ∃ t, env.get? "SLN2CSPROJ_OUT_DIR" = some t ∧ (∃ c ∈ t, Text.isBlank c = false) ∧ p = ⟨t⟩
  placement (p : Placement) : l.placement = some p ↔
    ∃ t, env.get? "SLN2CSPROJ_MODE" = some t ∧ Placement.parse? t = some p
  color (c : ColorChoice) : l.color = some c ↔
    ∃ t, env.get? "SLN2CSPROJ_COLOR" = some t ∧ ColorChoice.parse? t = some c

theorem fromEnvironment_ofEnvironment (env : Environment) : FromEnvironment env (ofEnvironment env) where
  output p := by
    simp only [ofEnvironment, Option.map_eq_some_iff, Option.filter_eq_some_iff, bne_iff_ne,
      Text.trim_ne_nil_iff]
    constructor
    · rintro ⟨t, ⟨ht, hc⟩, rfl⟩
      exact ⟨t, ht, hc, rfl⟩
    · rintro ⟨t, ht, hc, rfl⟩
      exact ⟨t, ⟨ht, hc⟩, rfl⟩
  placement p := by simp [ofEnvironment, Option.bind_eq_some_iff]
  color c := by simp [ofEnvironment, Option.bind_eq_some_iff]

variable {σ : Type} [Disk (StateM σ)] {s : σ} {v : FileView}

theorem ends_loadAll (hv : Shows s v) (env : Environment) (folder : Option Path) {user project : Found}
    (hu : Stands v (userFile? env) user) (hp : Stands v (folder.map projectFile) project) :
    Ends (loadAll env folder : ExceptT Failure (StateM σ) _) s
      (project.result.map fun p =>
        ([user.layer, p.1, ofEnvironment env].foldl apply {}, user.warnings ++ p.2)) s := by
  refine ends_bind.2 (.inr ⟨_, s, ends_lift.2 ⟨_, run_loadUser hv hu, rfl⟩, ?_⟩)
  have hproject := ends_loadProject hv hp
  cases hr : project.result with
  | error e =>
    rw [hr] at hproject
    exact ends_bind.2 (.inl ⟨e, hproject, rfl⟩)
  | ok p =>
    rw [hr] at hproject
    exact ends_bind.2 (.inr ⟨p, s, hproject, ends_pure.2 ⟨rfl, rfl⟩⟩)

/-- Loading the settings fails exactly where the file beside the solution is broken, whatever the user's
file and the environment are. Otherwise each key has the value of the last that sets it of the user's file,
the file beside the solution and the environment, or the default, and the warnings are those of the two
files in this order. A broken file of the user gives what no such file gives. Each of the two files stands
in one way, whatever the disk holds, and layers in any number override each other in the same way. -/
theorem layers_of_loadAll (hv : Shows s v) (env : Environment) (folder : Option Path)
    {user project : Found} (hu : Stands v (userFile? env) user)
    (hp : Stands v (folder.map projectFile) project) :
    (∃ r, Ends (loadAll env folder : ExceptT Failure (StateM σ) (Settings × List Warning)) s r s ∧
      (∀ e, r = .error e ↔ project = .broken e) ∧
      (∀ settings ws, r = .ok (settings, ws) →
        Overlaid {} [user.layer, project.layer, ofEnvironment env] settings ∧
          ws = user.warnings ++ project.warnings) ∧
      ∀ e, user = .broken e → ∀ s' v', Shows s' v' → Stands v' (userFile? env) .absent →
        Stands v' (folder.map projectFile) project →
          Ends (loadAll env folder : ExceptT Failure (StateM σ) (Settings × List Warning)) s' r s') ∧
      FromEnvironment env (ofEnvironment env) ∧
      (∀ file? : Option Path,
        ∃ found, Stands v file? found ∧ ∀ found', Stands v file? found' → found' = found) ∧
      ∀ (start : Settings) (ls : List Layer), Overlaid start ls (ls.foldl apply start) := by
  refine ⟨⟨_, ends_loadAll hv env folder hu hp, ?_, ?_, ?_⟩, fromEnvironment_ofEnvironment env,
    exists_stands v, overlaid_foldl⟩
  · intro e
    cases project <;> simp [Found.result, Except.map]
  · intro settings ws h
    cases project with
    | broken e => cases h
    | _ =>
      obtain ⟨rfl, rfl⟩ := Prod.mk.inj (Except.ok.inj h)
      exact ⟨overlaid_foldl {} _, rfl⟩
  · rintro e rfl s' v' hv' hu' hp'
    have hrun := ends_loadAll hv' env folder hu' hp'
    exact hrun

def badContent : Text := "[convert".toList

def goodContent : Text := "[convert]\nmode = \"link\"\nout_dirs = 1\n".toList

/-- The user's file is no valid document; the one beside the solution has a key that means nothing. -/
def twoFiles : Tree :=
  let t : Tree := Tree.plant {} (["home", "dev", ".config", "sln2csproj", "config.toml"].map String.toList)
    (.file (Text.Utf8.encode badContent))
  t.plant (["work", "sln2csproj.toml"].map String.toList) (.file (Text.Utf8.encode goodContent))

/-- The mode means nothing. -/
def withOutput : Environment :=
  [("HOME".toList, "/home/dev".toList), ("SLN2CSPROJ_OUT_DIR".toList, " ide".toList),
    ("SLN2CSPROJ_MODE".toList, "move".toList)]

def misspelt : Warning :=
  ⟨"out_dirs".toList, ⟨"/work/sln2csproj.toml".toList⟩, some 3, some "out_dir".toList⟩

theorem user_file_is_passed_over :
    ∃ settings ws, Ends (loadAll withOutput (some ⟨"/work".toList⟩) :
        ExceptT Failure (StateM Tree) (Settings × List Warning)) twoFiles (.ok (settings, ws)) twoFiles ∧
      Overlaid {} [{}, { placement := some .link }, ofEnvironment withOutput] settings ∧
      ws = [misspelt] := by
  have hu : Stands twoFiles.fileView (userFile? withOutput)
      (.broken (.badSettings ⟨"/home/dev/.config/sln2csproj/config.toml".toList⟩ "<toml error>".toList)) :=
    .malformed (t := badContent) (by decide +kernel) (by decide +kernel) rfl (by decide +kernel)
  have hwarning : ["convert.out_dirs".toList].map (warning ⟨"/work/sln2csproj.toml".toList⟩ goodContent) =
      [misspelt] := by decide +kernel
  have hp : Stands twoFiles.fileView ((some ⟨"/work".toList⟩ : Option Path).map projectFile)
      (.loaded { placement := some .link } [misspelt]) := by
    rw [← hwarning]
    exact .loaded (r := ⟨{ placement := some .link }, ["convert.out_dirs".toList]⟩) (by decide +kernel)
      (by decide +kernel) rfl (by decide +kernel)
  obtain ⟨⟨r, hends, hfails, hloads, -⟩, -⟩ :=
    layers_of_loadAll twoFiles.shows_fileView withOutput (some ⟨"/work".toList⟩) hu hp
  cases r with
  | error e => cases (hfails e).1 rfl
  | ok p =>
    obtain ⟨hover, hws⟩ := hloads p.1 p.2 rfl
    exact ⟨p.1, p.2, hends, hover, hws⟩

end SiteProject.Settings
