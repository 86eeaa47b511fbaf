import SiteProject.Proofs.Settings.Files
import SiteProject.Proofs.Settings.Suggestion
import SiteProject.Proofs.Toml.Plain

namespace SiteProject.Settings

open Toml (Line Value Entries Draft)

/-- The keys that mean something in the section with the name. -/
def knownKeys? (name : Text) : Option (List Text) :=
  if name = convertSection then some [outputKey, modeKey]
  else if name = outputSection then some [colorKey]
  else none

/-- What means nothing in an entry of the document: its key, or keys in its value if it is a section. -/
def unknownUnder (k : Text) (v : Value) : List Text :=
  match knownKeys? k with
  | none => [k]
  | some known => (((entriesOf? known v).getD []).map Prod.fst).filter (· ∉ known)

theorem unknownUnder_of_none {k : Text} (h : knownKeys? k = none) (v : Value) : unknownUnder k v = [k] := by
  rw [unknownUnder, h]

theorem unknownUnder_of_some {k : Text} {known : List Text} (h : knownKeys? k = some known) {v : Value}
    {es : Entries} (hes : entriesOf? known v = some es) :
    unknownUnder k v = (es.map Prod.fst).filter (· ∉ known) := by
  simp only [unknownUnder, h, hes, Option.getD_some]

/-- The keys of a line that mean nothing: a section that is not known, a key that the open section does not
know, and before the first section also what is not known in a section that is written as a value. In a
section that is not known itself no key is looked at. -/
def unknownOn (open? : Option Text) : Line → List Text
  | .empty => []
  | .header name => if (knownKeys? name).isSome then [] else [name]
  | .pair key v =>
    match open? with
    | none => (unknownUnder key v).map lastPart
    | some name => [key].filter fun k => (knownKeys? name).any fun known => k ∉ known

/-- A key that means nothing, and the number of the line that it is written on. -/
structure Mention where
  key : Text
  line : Nat
  deriving DecidableEq, Repr

/-- The mentions on lines of which the first has the number. -/
def mentions : Option Text → Nat → List Line → List Mention
  | _, _, [] => []
  | open?, n, l :: ls => (unknownOn open? l).map (Mention.mk · n) ++ mentions (l.opens open?) (n + 1) ls

theorem mentions_sorted (open? : Option Text) (n : Nat) (ls : List Line) :
    (∀ m ∈ mentions open? n ls, n ≤ m.line) ∧
      (mentions open? n ls).Pairwise fun m m' => m.line ≤ m'.line := by
  induction ls generalizing open? n with
  | nil => exact ⟨List.forall_mem_nil _, .nil⟩
  | cons l ls ih =>
    obtain ⟨hle, hsorted⟩ := ih (l.opens open?) (n + 1)
    have hhere : ∀ m ∈ (unknownOn open? l).map (Mention.mk · n), m.line = n := by
      intro m hm
      obtain ⟨k, -, rfl⟩ := List.mem_map.1 hm
      rfl
    constructor
    · intro m hm
      rcases List.mem_append.1 hm with hm | hm
      · exact Nat.le_of_eq (hhere m hm).symm
      · exact Nat.le_of_succ_le (hle m hm)
    · refine List.pairwise_append.2 ⟨?_, hsorted, fun m hm m' hm' => ?_⟩
      · refine List.pairwise_of_forall_mem_list fun m hm m' hm' => ?_
        exact Nat.le_of_eq ((hhere m hm).trans (hhere m' hm').symm)
      · rw [hhere m hm]
        exact Nat.le_of_succ_le (hle m' hm')

section Keys

variable {k : Text} {v : Value} {r r' : Reading} {es : Entries}

/-- The keys that mean nothing, as the user is told of them. -/
def Reading.told (r : Reading) : List Text := r.unknown.map lastPart

theorem lastPart_append (name k : Text) : lastPart (name ++ '.' :: k) = lastPart k := by
  have hne := Text.split_ne_nil (· == '.') k
  rw [lastPart, Text.split_append_sep name rfl, List.getLastD_eq_getLast?,
    List.getLast?_append_of_ne_nil _ hne, ← List.getLastD_eq_getLast?]
  rfl

/-- If each entry adds keys, then the entries of a table add theirs in order. -/
theorem told_takeEntries {take : Take} (added : Text → Value → List Text)
    (htake : ∀ r k v r', take r k v = some r' → r'.told = r.told ++ added k v)
    (h : takeEntries take r es = some r') : r'.told = r.told ++ es.flatMap fun e => added e.1 e.2 := by
  induction es generalizing r with
  | nil =>
    obtain rfl := Option.some.inj h
    simp
  | cons e es ih =>
    obtain ⟨r₁, h₁, h⟩ := Option.bind_eq_some_iff.1 h
    rw [ih h, htake _ _ _ _ h₁, List.append_assoc]
    rfl

theorem told_takeConvert (h : takeConvert r k v = some r') :
    r'.told = r.told ++ ([k].filter (· ∉ [outputKey, modeKey])).map lastPart := by
  unfold takeConvert at h
  split at h
  · next hk =>
    obtain ⟨t, -, h⟩ := Option.bind_eq_some_iff.1 h
    obtain rfl := Option.some.inj h
    simp [Reading.told, hk]
  · split at h
    · next hk =>
      obtain ⟨t, -, h⟩ := Option.bind_eq_some_iff.1 h
      obtain ⟨p, -, h⟩ := Option.bind_eq_some_iff.1 h
      obtain rfl := Option.some.inj h
      simp [Reading.told, hk]
    · next hk hk' =>
      obtain rfl := Option.some.inj h
      simp [Reading.told, hk, hk', Reading.warn, lastPart_append]

theorem told_takeOutput (h : takeOutput r k v = some r') :
    r'.told = r.told ++ ([k].filter (· ∉ [colorKey])).map lastPart := by
  unfold takeOutput at h
  split at h
  · next hk =>
    obtain ⟨t, -, h⟩ := Option.bind_eq_some_iff.1 h
    obtain ⟨p, -, h⟩ := Option.bind_eq_some_iff.1 h
    obtain rfl := Option.some.inj h
    simp [Reading.told, hk]
  · next hk =>
    obtain rfl := Option.some.inj h
    simp [Reading.told, hk, Reading.warn, lastPart_append]

theorem told_section {take : Take} {known : List Text}
    (htake : ∀ r k v r', take r k v = some r' →
      r'.told = r.told ++ ([k].filter (· ∉ known)).map lastPart)
    (h : takeEntries take r es = some r') :
    r'.told = r.told ++ ((es.map Prod.fst).filter (· ∉ known)).map lastPart := by
  rw [told_takeEntries (fun k _ => ([k].filter (· ∉ known)).map lastPart) htake h, ← List.map_flatMap]
  congr 2
  clear h
  induction es with
  | nil => rfl
  | cons e es ih => rw [List.flatMap_cons, ih, ← List.filter_append]; rfl

theorem told_takeRoot (h : takeRoot r k v = some r') :
    r'.told = r.told ++ (unknownUnder k v).map lastPart := by
  unfold takeRoot at h
  split at h
  · next hk =>
    have hknown : knownKeys? k = some [outputKey, modeKey] := if_pos hk
    obtain ⟨es, hes, h⟩ := Option.bind_eq_some_iff.1 h
    rw [told_section (fun _ _ _ _ => told_takeConvert) h, unknownUnder_of_some hknown hes]
  · split at h
    · next hne hk =>
      have hknown : knownKeys? k = some [colorKey] := by rw [knownKeys?, if_neg hne, if_pos hk]
      obtain ⟨es, hes, h⟩ := Option.bind_eq_some_iff.1 h
      rw [told_section (fun _ _ _ _ => told_takeOutput) h, unknownUnder_of_some hknown hes]
    · next hne hne' =>
      have hunknown : knownKeys? k = none := by rw [knownKeys?, if_neg hne, if_neg hne']
      obtain rfl := Option.some.inj h
      rw [unknownUnder_of_none hunknown, Reading.told, Reading.warn, List.map_append]
      rfl

/-- What the entries of a document add. -/
def toldIn (es : Entries) : List Text := es.flatMap fun e => (unknownUnder e.1 e.2).map lastPart

theorem toldIn_append (es : Entries) (k : Text) (v : Value) :
    toldIn (es ++ [(k, v)]) = toldIn es ++ (unknownUnder k v).map lastPart := by
  simp [toldIn]

end Keys

theorem lastPart_of_isBare {k : Text} (h : Toml.IsBare k) : lastPart k = k := by
  have hpoint : ∀ c ∈ k, (c == '.') = false := by
    intro c hc
    rw [beq_eq_false_iff_ne]
    rintro rfl
    exact absurd (h.2 _ hc) (by decide)
  rw [lastPart, Text.split_of_forall hpoint]
  rfl

section Lines

variable {d d' : Draft} {open? : Option Text} {l : Line} {t : Text}

/-- What a line adds to the entries of a document it adds to what means nothing in them. -/
theorem toldIn_line (hl : l.Written t) (hd : d.Flat open?)
    (h : l.statement?.toList.foldlM Draft.add? d = some d') :
    d'.Flat (l.opens open?) ∧ toldIn d'.entries = toldIn d.entries ++ unknownOn open? l := by
  cases hl with
  | empty =>
    obtain rfl := Option.some.inj h
    exact ⟨hd, by simp [unknownOn]⟩
  | @header _ _ name _ _ _ _ hname =>
    obtain ⟨d₁, h₁, h⟩ := Option.bind_eq_some_iff.1 h
    obtain rfl := Option.some.inj h
    obtain ⟨hflat, hentries⟩ := hd.add?_table h₁
    refine ⟨hflat, ?_⟩
    rw [hentries, toldIn_append, unknownOn]
    cases hknown : knownKeys? name with
    | none => simp [unknownUnder_of_none hknown, lastPart_of_isBare hname]
    | some known => simp [unknownUnder_of_some (v := .table .header []) hknown rfl]
  | @pair _ key _ _ _ v _ hkey _ hv =>
    obtain ⟨d₁, h₁, h⟩ := Option.bind_eq_some_iff.1 h
    obtain rfl := Option.some.inj h
    cases open? with
    | none =>
      obtain ⟨hflat, hentries⟩ := hd.add?_pair_root h₁ (Toml.ne_implied_of_value? hv)
      refine ⟨hflat, ?_⟩
      rw [hentries, toldIn_append, unknownOn]
    | some name =>
      -- the open section is the last entry, so what is new in it comes last
      obtain ⟨hflat, es, sub, hbefore, hentries⟩ := hd.add?_pair_section h₁
      refine ⟨hflat, ?_⟩
      rw [hentries, hbefore, toldIn_append, toldIn_append, unknownOn, List.append_assoc]
      cases hknown : knownKeys? name with
      | none => simp [unknownUnder_of_none hknown]
      | some known =>
        have hnew (es : Entries) := unknownUnder_of_some (v := .table .header es) hknown rfl
        rw [hnew, hnew, List.map_append, List.filter_append, List.map_append]
        by_cases hk : key ∈ known <;> simp [hk, lastPart_of_isBare hkey]

/-- What a document states that means nothing is what its lines mention. -/
theorem toldIn_lines {ls : List Line} {ts : List Text} (hls : List.Forall₂ Line.Written ls ts)
    (hd : d.Flat open?) (h : (ls.flatMap fun l => l.statement?.toList).foldlM Draft.add? d = some d')
    (n : Nat) : toldIn d'.entries = toldIn d.entries ++ (mentions open? n ls).map Mention.key := by
  induction hls generalizing d open? n with
  | nil =>
    obtain rfl := Option.some.inj h
    simp [mentions]
  | @cons l t ls ts hl hls ih =>
    rw [List.flatMap_cons, List.foldlM_append] at h
    obtain ⟨d₁, h₁, h⟩ := Option.bind_eq_some_iff.1 h
    obtain ⟨hflat, htold⟩ := toldIn_line hl hd h₁
    rw [ih hflat h (n + 1), htold, mentions, List.map_append, List.map_map, List.append_assoc]
    simp [Function.comp_def]

end Lines

section Places

variable {t content : Text} {n : Nat}

/-- The text stands somewhere on the line with the number. -/
def OnLine (t content : Text) (n : Nat) : Prop :=
  ∃ i l, n = i + 1 ∧ (Text.lines content)[i]? = some l ∧ t <:+: l

theorem lineOf?_eq_some_iff :
    lineOf? t content = some n ↔ OnLine t content n ∧ ∀ j < n, ¬ OnLine t content j := by
  rw [lineOf?, Option.map_eq_some_iff]
  constructor
  · rintro ⟨i, hi, rfl⟩
    obtain ⟨hlt, hline, hbefore⟩ := List.findIdx?_eq_some_iff_getElem.1 hi
    refine ⟨⟨i, _, rfl, List.getElem?_eq_getElem hlt, Text.contains_iff.1 hline⟩, ?_⟩
    rintro _ hj ⟨j, l, rfl, hl, ht⟩
    obtain ⟨hlt', rfl⟩ := List.getElem?_eq_some_iff.1 hl
    exact hbefore j (by omega) (Text.contains_iff.2 ht)
  · rintro ⟨⟨i, l, rfl, hl, ht⟩, hbefore⟩
    obtain ⟨hlt, rfl⟩ := List.getElem?_eq_some_iff.1 hl
    refine ⟨i, List.findIdx?_eq_some_iff_getElem.2 ⟨hlt, Text.contains_iff.2 ht, fun j hj hc => ?_⟩, rfl⟩
    exact hbefore (j + 1) (by omega) ⟨j, _, rfl, List.getElem?_eq_getElem _, Text.contains_iff.1 hc⟩

theorem exists_lineOf? (h : OnLine t content n) : ∃ j ≤ n, lineOf? t content = some j := by
  cases hline : lineOf? t content with
  | none =>
    obtain ⟨i, l, -, hl, ht⟩ := h
    have hnone := List.findIdx?_eq_none_iff.1 (Option.map_eq_none_iff.1 hline) l (List.mem_of_getElem? hl)
    rw [Text.contains_iff.2 ht] at hnone
    cases hnone
  | some j =>
    obtain ⟨-, hbefore⟩ := lineOf?_eq_some_iff.1 hline
    exact ⟨j, Nat.le_of_not_lt fun hlt => hbefore n hlt h, rfl⟩

/-- A byte-order mark is part of the first line. -/
theorem lines_withoutMark {i : Nat} {l : Text} (h : (Text.lines (Toml.withoutMark content))[i]? = some l) :
    ∃ l', (Text.lines content)[i]? = some l' ∧ l <:+ l' := by
  unfold Toml.withoutMark at h
  split at h
  · next s =>
    rw [Text.lines]
    · cases hs : Text.lines s with
      | nil => simp [hs] at h
      | cons first rest =>
        rw [hs] at h
        cases i with
        | zero =>
          obtain rfl := Option.some.inj h
          exact ⟨_, rfl, List.suffix_cons _ _⟩
        | succ i => exact ⟨l, h, List.suffix_rfl⟩
    · decide
    · intro _ h
      exact absurd h (by decide)
  · exact ⟨l, h, List.suffix_rfl⟩

theorem infix_of_written {l : Line} {w name : Text} (h : l.Written w) (hname : l.name? = some name) :
    name <:+: w := by
  cases h with
  | empty => cases hname
  | @header lead a _ b rest =>
    obtain rfl := Option.some.inj hname
    exact ⟨lead ++ '[' :: a, b ++ ']' :: rest, by simp⟩
  | @pair lead _ gap s =>
    obtain rfl := Option.some.inj hname
    exact ⟨lead, gap ++ '=' :: s, by simp⟩

/-- A name that a line has stands on the line. -/
theorem onLine_of_written {ls : List Line} {l : Line} {i : Nat}
    (hls : List.Forall₂ Line.Written ls (Text.lines (Toml.withoutMark content))) (hl : ls[i]? = some l)
    (hname : l.name? = some t) : OnLine t content (i + 1) := by
  obtain ⟨hlength, hwritten⟩ := List.forall₂_iff_get.1 hls
  obtain ⟨hlt, rfl⟩ := List.getElem?_eq_some_iff.1 hl
  have hlt' : i < (Text.lines (Toml.withoutMark content)).length := hlength ▸ hlt
  obtain ⟨l', hl', hsuffix⟩ := lines_withoutMark (List.getElem?_eq_getElem hlt')
  exact ⟨i, l', rfl, hl', (infix_of_written (hwritten i hlt hlt') hname).trans hsuffix.isInfix⟩

theorem suggest?_self_iff {k : Text} : suggest? k = some k ↔ k ∈ suggestions := by
  have hzero : byteDistance k k = 0 := byteDistance_eq_zero_iff.2 rfl
  rw [suggest?_eq_some_iff]
  constructor
  · exact fun h => h.1.mem
  · intro hk
    obtain ⟨w, hw, -⟩ := exists_firstNearest k
    have hself : byteDistance k w = 0 := Nat.le_zero.1 (hzero ▸ hw.le hk)
    obtain rfl := byteDistance_eq_zero_iff.1 hself
    exact ⟨hw, by omega⟩

end Places

/-- What a warning tells of a mention in a file with this content. -/
structure Reports (file : Path) (content : Text) (ls : List Line) (w : Warning) (m : Mention) : Prop where
  file : w.file = file
  key : w.key = m.key
  /-- The line is the first with the key's text. -/
  line : ∀ n, w.line = some n ↔ OnLine m.key content n ∧ ∀ j < n, ¬ OnLine m.key content j
  /-- For the name of a line, that is the line or one before it. -/
  name : ∀ l, ls[m.line - 1]? = some l → l.name? = some m.key →
    (∃ n ≤ m.line, w.line = some n) ∧ (w.line = some m.line ↔ ∀ j < m.line, ¬ OnLine m.key content j)
  suggestion : w.suggestion = suggest? m.key
  /-- A key is suggested for itself if it means something in another place. -/
  itself : w.suggestion = some m.key ↔ m.key ∈ suggestions

theorem reports_of_mention {file : Path} {content : Text} {ls : List Line} {m : Mention} (hm : 1 ≤ m.line)
    (hls : List.Forall₂ Line.Written ls (Text.lines (Toml.withoutMark content))) :
    Reports file content ls ⟨m.key, file, lineOf? m.key content, suggest? m.key⟩ m where
  file := rfl
  key := rfl
  line _ := lineOf?_eq_some_iff
  name l hl hname := by
    have hon := onLine_of_written hls hl hname
    rw [Nat.sub_add_cancel hm] at hon
    refine ⟨exists_lineOf? hon, lineOf?_eq_some_iff.trans ?_⟩
    exact and_iff_right hon
  suggestion := rfl
  itself := suggest?_self_iff

/-- A file whose content is valid, and whose lines each say one thing, is loaded with one warning for each
mention of a key that means nothing, in the order of the lines. -/
theorem warnings_of_load {σ : Type} [Disk (StateM σ)] {s : σ} {v : FileView} (hv : Shows s v) {file : Path}
    {content : Text} (htext : v.text file = .ok content) {r : Reading} (hread : read? content = some r)
    {ls : List Line} (hls : List.Forall₂ Line.Written ls (Text.lines (Toml.withoutMark content))) :
    ∃ ws, Ends (load file : ExceptT Failure (StateM σ) (Layer × List Warning)) s (.ok (r.layer, ws)) s ∧
      List.Forall₂ (Reports file content ls) ws (mentions none 1 ls) ∧
      (mentions none 1 ls).Pairwise fun m m' => m.line ≤ m'.line := by
  obtain ⟨hle, hsorted⟩ := mentions_sorted none 1 ls
  have hload := ends_load_of_ok hv htext
  rw [hread] at hload
  refine ⟨_, hload, ?_, hsorted⟩
  obtain ⟨es, hes, htake⟩ := Option.bind_eq_some_iff.1 hread
  rw [Toml.parse?_of_written hls, Option.map_eq_some_iff] at hes
  obtain ⟨d, hd, rfl⟩ := hes
  have htold := told_takeEntries (fun k v => (unknownUnder k v).map lastPart)
    (fun _ _ _ _ => told_takeRoot) htake
  have hmentions : r.told = (mentions none 1 ls).map Mention.key := by
    have hlines := toldIn_lines hls Draft.flat_empty hd 1
    simpa [toldIn, Reading.told] using htold.trans hlines
  have hwarnings : r.unknown.map (warning file content) = (mentions none 1 ls).map fun m =>
      ⟨m.key, file, lineOf? m.key content, suggest? m.key⟩ := by
    have hmap := congrArg (List.map fun k => Warning.mk k file (lineOf? k content) (suggest? k)) hmentions
    rw [Reading.told, List.map_map, List.map_map] at hmap
    exact hmap
  rw [hwarnings, List.forall₂_map_left_iff, List.forall₂_same]
  exact fun m hm => reports_of_mention (hle m hm) hls

/-- The key stands in a comment before it is written. -/
def commented : Text :=
  "# mod\n[convert] # link\nmode = 'link'\n mod = 1\n[tools]\nx = \x7b y = [1, 2] \x7d\n".toList

def commentedLines : List Line :=
  [.empty, .header convertSection, .pair modeKey (.string "link".toList), .pair "mod".toList .number,
    .header "tools".toList, .pair "x".toList (.table .braces [("y".toList, .array [.number, .number])])]

theorem commentedLines_written :
    List.Forall₂ Line.Written commentedLines (Text.lines (Toml.withoutMark commented)) := by
  have hlines : Text.lines (Toml.withoutMark commented) =
      ["# mod", "[convert] # link", "mode = 'link'", " mod = 1", "[tools]", "x = \x7b y = [1, 2] \x7d"].map
        String.toList := by decide +kernel
  rw [hlines]
  refine .cons (.empty (by decide)) (.cons ?_ (.cons ?_ (.cons ?_ (.cons ?_ (.cons ?_ .nil)))))
  · exact @Line.Written.header [] [] convertSection [] " # link".toList nofun nofun (by decide) nofun
      (by decide)
  · exact @Line.Written.pair [] modeKey [' '] " 'link'".toList [] _ nofun (by decide)
      (List.all_eq_true.1 rfl) rfl (by decide)
  · exact @Line.Written.pair [' '] "mod".toList [' '] " 1".toList [] _ (List.all_eq_true.1 rfl) (by decide)
      (List.all_eq_true.1 rfl) rfl (by decide)
  · exact @Line.Written.header [] [] "tools".toList [] [] nofun nofun (by decide) nofun (by decide)
  · exact @Line.Written.pair [] "x".toList [' '] " \x7b y = [1, 2] \x7d".toList [] _ nofun (by decide)
      (List.all_eq_true.1 rfl) rfl (by decide)

def commentedTree : Tree :=
  Tree.plant {} (["work", "sln2csproj.toml"].map String.toList) (.file (Text.Utf8.encode commented))

theorem commented_key_has_warning :
    ∃ ws, Ends (load ⟨"/work/sln2csproj.toml".toList⟩ : ExceptT Failure (StateM Tree) (Layer × List Warning))
        commentedTree (.ok ({ placement := some .link }, ws)) commentedTree ∧
      List.Forall₂ (Reports ⟨"/work/sln2csproj.toml".toList⟩ commented commentedLines) ws
        [⟨"mod".toList, 4⟩, ⟨"tools".toList, 5⟩] := by
  have htext : commentedTree.fileView.text ⟨"/work/sln2csproj.toml".toList⟩ = .ok commented := rfl
  have hread : read? commented =
      some ⟨{ placement := some .link }, ["convert.mod".toList, "tools".toList]⟩ := by decide +kernel
  have hmentions : mentions none 1 commentedLines = [⟨"mod".toList, 4⟩, ⟨"tools".toList, 5⟩] := by
    decide +kernel
  obtain ⟨ws, hload, hreports, -⟩ :=
    warnings_of_load commentedTree.shows_fileView htext hread commentedLines_written
  exact ⟨ws, hload, hmentions ▸ hreports⟩

/-- The key is a part of one that means something, on the line before. -/
def shadowed : Text := "[convert]\nmode = 'link'\nmod = 1\n".toList

/-- The key means something in the other section. -/
def misplaced : Text := "[convert]\ncolor = 1\n".toList

theorem shadowed_key_is_misplaced :
    List.Forall₂ Line.Written
        [.header convertSection, .pair modeKey (.string "link".toList), .pair "mod".toList .number]
        (Text.lines (Toml.withoutMark shadowed)) ∧
      mentions none 1 [.header convertSection, .pair modeKey (.string "link".toList),
        .pair "mod".toList .number] = [⟨"mod".toList, 3⟩] ∧
      (read? shadowed).map (·.unknown.map (warning ⟨"config.toml".toList⟩ shadowed)) =
        some [⟨"mod".toList, ⟨"config.toml".toList⟩, some 2, some "mode".toList⟩] ∧
      (read? misplaced).map (·.unknown.map (warning ⟨"config.toml".toList⟩ misplaced)) =
        some [⟨"color".toList, ⟨"config.toml".toList⟩, some 2, some "color".toList⟩] := by
  have hlines : Text.lines (Toml.withoutMark shadowed) =
      ["[convert]", "mode = 'link'", "mod = 1"].map String.toList := by decide +kernel
  refine ⟨?_, by decide +kernel, by decide +kernel, by decide +kernel⟩
  rw [hlines]
  refine .cons ?_ (.cons ?_ (.cons ?_ .nil))
  · exact @Line.Written.header [] [] convertSection [] [] nofun nofun (by decide) nofun (by decide)
  · exact @Line.Written.pair [] modeKey [' '] " 'link'".toList [] _ nofun (by decide)
      (List.all_eq_true.1 rfl) rfl (by decide)
  · exact @Line.Written.pair [] "mod".toList [' '] " 1".toList [] _ nofun (by decide)
      (List.all_eq_true.1 rfl) rfl (by decide)

end SiteProject.Settings
