import SiteProject.Proofs.Xml.Local

namespace SiteProject.Xml

/-- The reader has passed over some text that `?>` ends, and looked no further. -/
def Closes (read : Text → Option Text) (s r : Text) : Prop :=
  ∃ x, s = x ++ '?' :: '>' :: r ∧ ∀ r', read (x ++ '?' :: '>' :: r') = some r'

namespace Closes

variable {f g : Text → Option Text} {s t r : Text}

theorem bind (h : Peeks f (fun r => r) s t) (h' : Closes g t r) : Closes (fun s => (f s).bind g) s r := by
  obtain ⟨x, rfl, hx⟩ := h
  obtain ⟨y, rfl, hy⟩ := h'
  refine ⟨x ++ y, by rw [List.append_assoc], fun r' => ?_⟩
  dsimp only
  rw [List.append_assoc, hx _ (head?_append_eq (by rfl) y), Option.bind_some, hy]

/-- A word that `?` is not in is seen or not before the end. -/
theorem ite {w : Text} (hw : '?' ∉ w) (hf : Text.startsWith w s = true → Closes f s r)
    (hg : Text.startsWith w s = false → Closes g s r) :
    Closes (fun s => if Text.startsWith w s then f s else g s) s r := by
  cases hs : Text.startsWith w s with
  | true =>
    obtain ⟨x, rfl, hx⟩ := hf hs
    refine ⟨x, rfl, fun r' => ?_⟩
    dsimp only
    rw [Text.startsWith_append_cons hw _ ('>' :: r), hs, if_pos rfl, hx]
  | false =>
    obtain ⟨x, rfl, hx⟩ := hg hs
    refine ⟨x, rfl, fun r' => ?_⟩
    dsimp only
    rw [Text.startsWith_append_cons hw _ ('>' :: r), hs, if_neg (by decide), hx]

end Closes

namespace declaration?

def end? (s : Text) : Option Text := Text.after? ['?', '>'] (skipSpace s)

def standalone? (s : Text) : Option Text :=
  if Text.startsWith "standalone".toList s then (field? s).bind end? else end? s

def encoding? (s : Text) : Option Text :=
  if Text.startsWith "encoding".toList s then ((field? s).bind gap?).bind standalone? else standalone? s

def version? (s : Text) : Option Text :=
  if Text.startsWith "version".toList s then ((field? s).bind gap?).bind encoding? else none

theorem closes_end? {s r : Text} (h : end? s = some r) : Closes end? s r := by
  obtain ⟨x, hx, hskip⟩ := peeks_skipSpace s
  rw [Text.after?_eq_some.1 h] at hx hskip
  refine ⟨x, hx, fun r' => ?_⟩
  rw [end?, Option.some.inj (hskip ('?' :: '>' :: r') rfl)]
  rfl

/-- A gap is space, or nothing before the end. -/
theorem closes_gap? {g : Text → Option Text} {s t r : Text} (hs : gap? s = some t) (h : Closes g t r) :
    Closes (fun s => (gap? s).bind g) s r := by
  rw [gap?] at hs
  split at hs
  · next hspace =>
    obtain rfl := Option.some.inj hs
    obtain ⟨x, hx, hskip⟩ := peeks_skipSpace s
    obtain ⟨y, hy, hg⟩ := h
    rw [hy] at hx hskip
    refine ⟨x ++ y, by rw [hx, List.append_assoc], fun r' => ?_⟩
    have hhead : (y ++ '?' :: '>' :: r').head? = (y ++ '?' :: '>' :: r).head? := head?_append_eq (by rfl) y
    have hspace' : (x ++ (y ++ '?' :: '>' :: r')).head?.any isSpace = true := by
      rwa [head?_append_eq hhead x, ← hx]
    dsimp only
    rw [List.append_assoc, gap?, if_pos hspace', Option.some.inj (hskip _ hhead), Option.bind_some, hg]
  · next hspace =>
    simp only [Option.ite_none_right_eq_some, Option.some.injEq] at hs
    obtain ⟨hend, rfl⟩ := hs
    obtain ⟨y, rfl, hg⟩ := h
    refine ⟨y, rfl, fun r' => ?_⟩
    have hsplit (u : Text) : y ++ '?' :: '>' :: u = (y ++ ['?', '>']) ++ u := by rw [List.append_assoc]; rfl
    have hlength : (['?', '>'] : Text).length ≤ (y ++ ['?', '>']).length := by simp
    have hend' : Text.startsWith ['?', '>'] (y ++ '?' :: '>' :: r') = true := by
      rw [hsplit, Text.startsWith_append hlength] at hend ⊢
      simpa using hend
    have hspace' : ¬ (y ++ '?' :: '>' :: r').head?.any isSpace = true := by
      rwa [head?_append_eq (r := '?' :: '>' :: r) (by rfl) y]
    dsimp only
    rw [gap?, if_neg hspace', hend', if_pos (by rfl), Option.bind_some, hg]

theorem peeks_field? {s r : Text} (h : field? s = some r) : Peeks field? (fun r => r) s r := by
  simp only [field?, Option.map_eq_some_iff, Prod.exists] at h
  obtain ⟨_, _, r', h', rfl⟩ := h
  exact ((stops_rawAttribute? h').map Prod.snd).peeks

theorem closes_field? {g : Text → Option Text} {s t r : Text} (hs : (field? s).bind gap? = some t)
    (h : Closes g t r) : Closes (fun s => ((field? s).bind gap?).bind g) s r := by
  obtain ⟨u, hu, ht⟩ := Option.bind_eq_some_iff.1 hs
  simp only [Option.bind_assoc]
  exact (closes_gap? ht h).bind (peeks_field? hu)

theorem closes_standalone? {s r : Text} (h : standalone? s = some r) : Closes standalone? s r := by
  refine Closes.ite (by decide) (fun hs => ?_) fun hs => ?_
  · rw [standalone?, if_pos hs] at h
    obtain ⟨t, ht, h⟩ := Option.bind_eq_some_iff.1 h
    exact (closes_end? h).bind (peeks_field? ht)
  · rw [standalone?, hs] at h
    exact closes_end? h

theorem closes_encoding? {s r : Text} (h : encoding? s = some r) : Closes encoding? s r := by
  refine Closes.ite (by decide) (fun hs => ?_) fun hs => ?_
  · rw [encoding?, if_pos hs] at h
    obtain ⟨t, ht, h⟩ := Option.bind_eq_some_iff.1 h
    exact closes_field? ht (closes_standalone? h)
  · rw [encoding?, hs] at h
    exact closes_standalone? h

theorem closes_version? {s r : Text} (h : version? s = some r) : Closes version? s r := by
  refine Closes.ite (by decide) (fun hs => ?_) fun hs => ?_
  · rw [version?, if_pos hs] at h
    obtain ⟨t, ht, h⟩ := Option.bind_eq_some_iff.1 h
    exact closes_field? ht (closes_encoding? h)
  · rw [version?, hs] at h
    cases h

end declaration?

theorem closes_declaration? {s r : Text} (h : declaration? s = some r) : Closes declaration? s r := by
  obtain ⟨t, ht, h⟩ := Option.bind_eq_some_iff.1 h
  exact declaration?.closes_gap? ht (declaration?.closes_version? h)

theorem skipAsides?_of_read? {s r : Text} {t : Token}
    (hs : Text.startsWith "<!--".toList (skipSpace s) = true ∨
      Text.startsWith "<?".toList (skipSpace s) = true)
    (h : Token.read? (skipSpace s) = some (t, r)) : skipAsides? s = skipAsides? r := by
  rw [skipAsides?]
  split
  · next hcomment hinstruction =>
    rw [Text.startsWith, Text.startsWith, hcomment, hinstruction] at hs
    simp at hs
  · split
    · next t' r' he =>
      rw [h] at he
      rw [(Prod.mk.inj (Option.some.inj he)).2]
    · next he =>
      rw [h] at he
      cases he

theorem skipAsides?_of_skipSpace {c : Char} {s r : Text} (hc : isNameChar c = true ∨ c = ':')
    (h : skipSpace s = '<' :: c :: r) : skipAsides? s = some ('<' :: c :: r) := by
  have hne {d : Char} (hd : isNameChar d = false) (hcolon : d ≠ ':') : d ≠ c := by
    rintro rfl
    rcases hc with hc | hc
    · simp [hd] at hc
    · exact hcolon hc
  have hcomment : Text.after? "<!--".toList ('<' :: c :: r) = none := if_neg (hne (by decide) (by decide))
  have hinstruction : Text.after? "<?".toList ('<' :: c :: r) = none :=
    if_neg (hne (by decide) (by decide))
  rw [skipAsides?, h, hcomment, hinstruction]

/-- Before a tag the same space, comments and instructions are passed over. -/
theorem local_skipAsides? {c : Char} {s r : Text} (hc : isNameChar c = true ∨ c = ':')
    (h : skipAsides? s = some ('<' :: c :: r)) :
    ∃ x, s = x ++ '<' :: c :: r ∧ ∀ r', skipAsides? (x ++ '<' :: c :: r') = some ('<' :: c :: r') := by
  fun_induction skipAsides? s with
  | case1 s _ _ =>
    obtain ⟨x, hx, hskip⟩ := peeks_skipSpace s
    rw [Option.some.inj h] at hx hskip
    exact ⟨x, hx, fun r' => skipAsides?_of_skipSpace hc (Option.some.inj (hskip _ rfl))⟩
  | case2 s t r₁ hread hseen ih =>
    obtain ⟨x, hx, hskip⟩ := peeks_skipSpace s
    obtain ⟨z, rfl, hz⟩ := ih h
    have hword {w u : Text} {f : Text → Option Text} (hw : Text.after? w (skipSpace s) = some u)
        (hw' : ∀ v, Text.startsWith "<!--".toList (w ++ v) = true ∨
          Text.startsWith "<?".toList (w ++ v) = true)
        (hf : ∀ v, Token.read? (w ++ v) = (f v).map (Token.aside, ·))
        (hstops : ∀ {v}, f u = some v → Stops f (fun v => v) u v) :
        ∃ x, s = x ++ '<' :: c :: r ∧ ∀ r', skipAsides? (x ++ '<' :: c :: r') = some ('<' :: c :: r') := by
      rw [Text.after?_eq_some.1 hw] at hx hskip hread
      obtain ⟨v, hv, he⟩ := Option.map_eq_some_iff.1 ((hf u).symm.trans hread)
      obtain ⟨-, rfl⟩ := Prod.mk.inj he
      obtain ⟨y, -, rfl, hy⟩ := hstops hv
      refine ⟨x ++ (w ++ (y ++ z)), by rw [hx]; simp only [List.append_assoc], fun r' => ?_⟩
      have hhead : (w ++ (y ++ (z ++ '<' :: c :: r'))).head? = (w ++ (y ++ (z ++ '<' :: c :: r))).head? :=
        head?_append_eq (head?_append_eq (head?_append_eq (by rfl) z) y) w
      have hskip' : skipSpace (x ++ (w ++ (y ++ (z ++ '<' :: c :: r')))) =
          w ++ (y ++ (z ++ '<' :: c :: r')) := Option.some.inj (hskip _ hhead)
      have hread' : Token.read? (w ++ (y ++ (z ++ '<' :: c :: r'))) = some (.aside, z ++ '<' :: c :: r') := by
        rw [hf, hy]
        rfl
      simp only [List.append_assoc]
      rw [skipAsides?_of_read? (by rw [hskip']; exact hw' _) (by rw [hskip']; exact hread'), hz]
    cases hcomment : Text.after? "<!--".toList (skipSpace s) with
    | some u => exact hword hcomment (fun _ => .inl rfl) (fun _ => rfl) Token.stops_comment?
    | none =>
      cases hinstruction : Text.after? "<?".toList (skipSpace s) with
      | some u => exact hword hinstruction (fun _ => .inr rfl) (fun _ => rfl) Token.stops_instruction?
      | none => exact absurd hinstruction (hseen hcomment)
  | case3 => cases h

/-- The tag of the root, with what stands in front of it, and how reading goes on. -/
def rootTag? (s : Text) : Option (Progress × Text) := do
  let s ← skipAsides? s
  let s ← Text.after? ['<'] s
  let ((name, attributes, closed), s) ← Token.opening? s
  let p ← Progress.openTag? [] name attributes closed
  return (p, s)

/-- A document up to the end of the tag of its root. -/
def start? (s : Text) : Option (Progress × Text) :=
  if Text.startsWith "<?xml ".toList s then (declaration? (s.drop 5)).bind rootTag? else rootTag? s

theorem parse?_eq (s : Text) :
    parse? s = (start? s).bind fun p => (p.1.run? p.2).bind fun q =>
      (skipAsides? q.2).bind fun s => if s.isEmpty then some q.1 else none := by
  rw [parse?, start?]
  split <;>
    simp only [rootTag?, Option.bind_eq_bind, Option.bind_assoc, Option.pure_def, Option.bind_some]

theorem stops_rootTag? {p : Progress} {s r : Text} (h : rootTag? s = some (p, r)) :
    Stops rootTag? (fun r => (p, r)) s r := by
  simp only [rootTag?, Option.bind_eq_bind, Option.bind_eq_some_iff, Prod.exists] at h
  obtain ⟨t, ht, u, hu, name, as, closed, v, hv, p', hp, h⟩ := h
  obtain ⟨rfl, rfl⟩ := Prod.mk.inj (Option.some.inj h)
  obtain ⟨⟨n, w⟩, hread, -⟩ := Option.bind_eq_some_iff.1 hv
  obtain ⟨c, u, rfl, hc⟩ := Name.exists_cons_of_read? hread
  obtain ⟨y, hne, hy, htag⟩ := Token.stops_opening? hv
  rw [Text.after?_eq_some.1 hu] at ht
  obtain ⟨x, rfl, hx⟩ := local_skipAsides? hc ht
  obtain ⟨d, y, rfl⟩ := List.exists_cons_of_ne_nil hne
  obtain ⟨rfl, rfl⟩ := List.cons.inj hy
  refine ⟨x ++ '<' :: c :: y, by simp, by rw [List.append_assoc]; rfl, fun r' => ?_⟩
  have hskip := hx (y ++ r')
  have htag := htag r'
  have hangle : Text.after? ['<'] ('<' :: c :: (y ++ r')) = some (c :: (y ++ r')) :=
    Text.after?_append ['<'] _
  rw [List.append_assoc, List.cons_append, List.cons_append] at *
  simp only [rootTag?, hskip, hangle, htag, hp, Option.bind_eq_bind, Option.bind_some]
  rfl

theorem rootTag?_declaration (s : Text) : rootTag? ("<?xml ".toList ++ s) = none := by
  have hskip : skipAsides? ("<?xml ".toList ++ s) = none := by
    rw [skipAsides?]
    rfl
  rw [rootTag?, hskip]
  rfl

/-- Where reading got as far as the tag of the root, it does so again before any other content. -/
theorem stops_start? {p : Progress} {s r : Text} (h : start? s = some (p, r)) :
    Stops start? (fun r => (p, r)) s r := by
  rw [start?] at h
  split at h
  · next hs =>
    obtain ⟨u, hu⟩ := Option.isSome_iff_exists.1 hs
    obtain rfl := Text.after?_eq_some.1 hu
    obtain ⟨t, ht, h⟩ := Option.bind_eq_some_iff.1 h
    obtain ⟨y, -, rfl, htag⟩ := stops_rootTag? h
    have hlead : ("<?xml ".toList ++ u).drop 5 = ' ' :: u := rfl
    rw [hlead] at ht
    obtain ⟨x, hx, hdecl⟩ := closes_declaration? ht
    have hsplit : "<?xml ".toList ++ u = "<?xml".toList ++ (x ++ '?' :: '>' :: y) ++ r := by
      rw [List.append_assoc, List.append_assoc]
      exact congrArg ("<?xml".toList ++ ·) hx
    refine ⟨"<?xml".toList ++ (x ++ '?' :: '>' :: y), by simp, hsplit, fun r' => ?_⟩
    have hlength : "<?xml ".toList.length ≤ ("<?xml".toList ++ (x ++ '?' :: '>' :: y)).length := by
      simp
      omega
    have hs' : Text.startsWith "<?xml ".toList ("<?xml".toList ++ (x ++ '?' :: '>' :: y) ++ r') = true := by
      rw [Text.startsWith_append hlength, ← Text.startsWith_append hlength r, ← hsplit]
      exact hs
    have hdrop : ("<?xml".toList ++ (x ++ '?' :: '>' :: y) ++ r').drop 5 = x ++ '?' :: '>' :: (y ++ r') := by
      rw [List.append_assoc, List.append_assoc]
      rfl
    rw [start?, if_pos hs', hdrop, hdecl, Option.bind_some, htag]
  · next hs =>
    obtain ⟨x, hne, rfl, hx⟩ := stops_rootTag? h
    refine ⟨x, hne, rfl, fun r' => ?_⟩
    have hs' : ¬ Text.startsWith "<?xml ".toList (x ++ r') = true := by
      intro hs'
      obtain ⟨u, hu⟩ := Option.isSome_iff_exists.1 hs'
      have hnone := hx r'
      rw [Text.after?_eq_some.1 hu, rootTag?_declaration] at hnone
      cases hnone
    rw [start?, if_neg hs', hx]

/-- A document that begins with the tag of its root. -/
theorem start?_of_opening? {s r : Text} {name : Name} {as : List Attribute} {closed : Bool} {p : Progress}
    (htag : Token.opening? s = some ((name, as, closed), r))
    (hp : Progress.openTag? [] name as closed = some p) : start? ('<' :: s) = some (p, r) := by
  obtain ⟨⟨n, w⟩, hread, -⟩ := Option.bind_eq_some_iff.1 htag
  obtain ⟨c, t, rfl, hc⟩ := Name.exists_cons_of_read? hread
  have hne : '?' ≠ c := by
    rintro rfl
    rcases hc with hc | hc
    · exact absurd hc (by decide)
    · exact absurd hc (by decide)
  have hdeclaration : ¬ Text.startsWith "<?xml ".toList ('<' :: c :: t) = true := by
    simp [Text.startsWith, Text.after?, hne]
  have hskip := skipAsides?_of_skipSpace hc (s := '<' :: c :: t) (r := t) rfl
  have hangle : Text.after? ['<'] ('<' :: c :: t) = some (c :: t) := Text.after?_append ['<'] _
  rw [start?, if_neg hdeclaration, rootTag?, hskip]
  simp only [Option.bind_eq_bind, Option.bind_some, hangle, htag, hp]
  rfl

end SiteProject.Xml
