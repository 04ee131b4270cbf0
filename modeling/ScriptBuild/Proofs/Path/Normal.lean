import ScriptBuild.Path.Normal
import ScriptBuild.Proofs.Path.Pieces

/-!
# The normal form piece by piece

The normal form of a path is what its pieces come to one after the other. Main statements:
`normal_eq` says so, `normal_join` that joining goes on with the pieces of the second path,
`pieces_ofComponents` what the pieces of a path in normal form are, and `components_normalize` that
it has the components of the normal form and no others.
-/

namespace ScriptBuild.Path

namespace Normal

/-- The normal form after one more piece. -/
def enter (n : Normal) (piece : String) : Normal :=
  if isVoid piece then n else n.step (.ofPiece piece)

/-- The names of the normal form say something and hold no slash. -/
def Proper (n : Normal) : Prop :=
  ∀ name ∈ n.names, IsPiece name

@[simp] theorem enter_empty (n : Normal) : n.enter "" = n := rfl

theorem enter_up (n : Normal) : n.enter ".." = n.leave := rfl

/-- A piece that is neither void nor `..` is entered as a name. -/
theorem enter_name {n : Normal} {piece : String} (hvoid : isVoid piece = false)
    (hup : piece ≠ "..") : n.enter piece = ⟨n.start, n.names ++ [piece]⟩ := by
  have hcurrent : piece ≠ "." := by
    rintro rfl
    exact absurd hvoid (by decide)
  rw [enter, if_neg (Bool.not_eq_true _ ▸ hvoid), Component.ofPiece, if_neg hcurrent, if_neg hup]
  rfl

theorem names_leave (n : Normal) : n.leave.names = n.names.dropLast := by
  obtain ⟨start, names⟩ := n
  rcases start with _ | levels <;> rcases names with _ | ⟨name, names⟩ <;> rfl

/-- What stays of a normal form when a piece is entered: all names, or all but the last one. -/
theorem enter_cases (n : Normal) (piece : String) :
    n.enter piece = n ∨ n.enter piece = n.leave ∨
      n.enter piece = ⟨n.start, n.names ++ [piece]⟩ ∧ piece ≠ "" := by
  rcases hvoid : isVoid piece with _ | _
  · by_cases hup : piece = ".."
    · rw [hup]
      exact .inr (.inl n.enter_up)
    · refine .inr (.inr ⟨enter_name hvoid hup, ?_⟩)
      rintro rfl
      exact absurd hvoid (by decide)
  · exact .inl (by rw [enter, if_pos hvoid])

theorem Proper.enter {n : Normal} (h : n.Proper) {piece : String} (hpiece : '/' ∉ piece.toList) :
    (n.enter piece).Proper := by
  rcases n.enter_cases piece with heq | heq | ⟨heq, hne⟩
  · rw [heq]
    exact h
  · rw [heq]
    intro name hname
    rw [names_leave] at hname
    exact h name ((List.dropLast_sublist n.names).subset hname)
  · rw [heq]
    intro name hname
    rcases List.mem_append.1 hname with hname | hname
    · exact h name hname
    · rw [List.mem_singleton.1 hname]
      exact ⟨hne, hpiece⟩

theorem start_leave_of_root {n : Normal} (h : n.start = .root) : n.leave.start = .root := by
  obtain ⟨start, names⟩ := n
  cases h
  rcases names with _ | ⟨name, names⟩ <;> rfl

/-- What starts at the root stays there. -/
theorem start_enter_of_root {n : Normal} (h : n.start = .root) (piece : String) :
    (n.enter piece).start = .root := by
  rcases n.enter_cases piece with heq | heq | ⟨heq, _⟩
  · rw [heq, h]
  · rw [heq, start_leave_of_root h]
  · rw [heq, h]

theorem foldl_enter_proper {n : Normal} (h : n.Proper) {pieces : List String}
    (hpieces : ∀ piece ∈ pieces, '/' ∉ piece.toList) : (pieces.foldl enter n).Proper := by
  induction pieces generalizing n with
  | nil => exact h
  | cons piece pieces ih =>
    exact ih (h.enter (hpieces piece List.mem_cons_self)) fun p hp =>
      hpieces p (List.mem_cons_of_mem _ hp)

theorem foldl_enter_root {n : Normal} (h : n.start = .root) (pieces : List String) :
    (pieces.foldl enter n).start = .root := by
  induction pieces generalizing n with
  | nil => exact h
  | cons piece pieces ih => exact ih (start_enter_of_root h piece)

/-- The names of the normal form are entered as names: none is void and none climbs. -/
def Ordinary (n : Normal) : Prop :=
  ∀ name ∈ n.names, isVoid name = false ∧ name ≠ ".."

theorem Ordinary.enter {n : Normal} (h : n.Ordinary) (piece : String) : (n.enter piece).Ordinary := by
  rcases hvoid : isVoid piece with _ | _
  · by_cases hup : piece = ".."
    · rw [hup, enter_up]
      intro name hname
      rw [names_leave] at hname
      exact h name ((List.dropLast_sublist n.names).subset hname)
    · rw [enter_name hvoid hup]
      intro name hname
      rcases List.mem_append.1 hname with hname | hname
      · exact h name hname
      · rw [List.mem_singleton.1 hname]
        exact ⟨hvoid, hup⟩
  · rw [Normal.enter, if_pos hvoid]
    exact h

/-- The components of a normal form lead to it. -/
theorem foldl_step_components (n : Normal) : n.components.foldl step .here = n := by
  have hclimbs : ∀ levels : Nat,
      (List.replicate levels Component.up).foldl step .here = ⟨.climb levels, []⟩ := by
    intro levels
    induction levels with
    | zero => rfl
    | succ levels ih =>
      rw [List.replicate_succ', List.foldl_append, ih]
      rfl
  have hnames : ∀ (names : List String) (m : Normal),
      (names.map Component.name).foldl step m = ⟨m.start, m.names ++ names⟩ := by
    intro names
    induction names with
    | nil => simp
    | cons name names ih =>
      intro m
      rw [List.map_cons, List.foldl_cons, ih]
      simp [step]
  obtain ⟨start, names⟩ := n
  rw [components, List.foldl_append, hnames]
  cases start with
  | root => rfl
  | climb levels => rw [startComponents, hclimbs]; rfl

end Normal

variable {p q : Path}

/-- Where the pieces of a path are entered from. -/
def base (p : Path) : Normal :=
  if p.isAbsolute then ⟨.root, []⟩ else .here

/-- The pieces of a path are entered one after the other. -/
theorem normal_eq (p : Path) : p.normal = p.pieces.foldl Normal.enter p.base := by
  have hbody : ∀ (body : List String) (n : Normal),
      ((body.filter (! isVoid ·)).map Component.ofPiece).foldl Normal.step n =
        body.foldl Normal.enter n := by
    intro body n
    rw [List.foldl_map, List.foldl_filter]
    congr
    funext n piece
    unfold Normal.enter
    rcases isVoid piece with _ | _ <;> rfl
  unfold normal components base
  split
  · next hnil => exact absurd hnil p.pieces_ne_nil
  · next first body hpieces =>
    rw [hpieces, List.foldl_append, hbody, List.foldl_cons]
    congr 1
    split
    · next habsolute =>
      obtain ⟨names, hnames, _⟩ := isAbsolute_iff.1 habsolute
      rw [hpieces] at hnames
      rw [(List.cons.inj hnames).1]
      rfl
    · split
      · next hempty =>
        rw [hempty]
        rfl
      · next hne =>
        -- A leading `.` is a component, but one that stays where it is.
        by_cases hcurrent : first = "."
        · rw [hcurrent]
          rfl
        · have hvoid : isVoid first = false := by simp [isVoid, hne, hcurrent]
          rw [Normal.enter, hvoid]
          rfl

theorem proper_normal (p : Path) : p.normal.Proper := by
  rw [normal_eq]
  refine Normal.foldl_enter_proper ?_ fun piece => not_mem_of_mem_pieces
  unfold base
  split <;> exact fun name h => absurd h List.not_mem_nil

theorem normal_start_of_isAbsolute (h : p.isAbsolute = true) : p.normal.start = .root := by
  rw [normal_eq, base, if_pos h]
  exact Normal.foldl_enter_root rfl _

/-- The normal form of a joined path goes on with the pieces of the relative path. -/
theorem normal_join (hq : q.isAbsolute = false) :
    (p.join q).normal = q.pieces.foldl Normal.enter p.normal := by
  rw [normal_eq, foldl_pieces_join Normal.enter_empty hq, normal_eq, base, base,
    isAbsolute_join_eq hq]

/-- The pieces that a path in normal form begins with. -/
def Start.pieces : Start → List String
  | .root => [""]
  | .climb levels => List.replicate levels ".."

theorem ofComponents_eq (cs : List Component) :
    ofComponents cs = (cs.map (·.toPath.text)).foldl (fun p name => p.join ⟨name⟩) ⟨""⟩ := by
  rw [List.foldl_map]
  rfl

/-- The pieces of a path in normal form that climbs or enters something. -/
theorem pieces_ofComponents_climb {levels : Nat} {names : List String}
    (hnames : ∀ name ∈ names, IsPiece name) (hne : List.replicate levels ".." ++ names ≠ []) :
    (ofComponents (Normal.components ⟨.climb levels, names⟩)).pieces =
      List.replicate levels ".." ++ names := by
  have htexts : (names.map Component.name).map (·.toPath.text) = names := by
    rw [List.map_map]
    exact List.map_id _
  have hclimbs : (Normal.startComponents (.climb levels)).map (·.toPath.text) =
      List.replicate levels ".." := List.map_replicate
  rw [ofComponents_eq, Normal.components, List.map_append, htexts, hclimbs]
  refine pieces_joined hne fun name hname => ?_
  rcases List.mem_append.1 hname with hup | hname
  · rw [(List.mem_replicate.1 hup).2]
    exact ⟨by decide, by decide⟩
  · exact hnames name hname

/-- The pieces of a path in normal form that enters something. -/
theorem pieces_ofComponents {n : Normal} (hn : n.Proper) (hne : n.names ≠ []) :
    (ofComponents n.components).pieces = n.start.pieces ++ n.names := by
  obtain ⟨start, names⟩ := n
  cases start with
  | root =>
    have htexts : (names.map Component.name).map (·.toPath.text) = names := by
      rw [List.map_map]
      exact List.map_id _
    obtain ⟨name, names, rfl⟩ := List.exists_cons_of_ne_nil hne
    have hname : IsPiece name := hn name List.mem_cons_self
    have hroot : pieces ⟨"/"⟩ = [""] ++ [""] := by decide
    have hfirst : (join ⟨"/"⟩ ⟨name⟩).pieces = [""] ++ [name] := by
      rw [pieces_join hroot hname.isAbsolute, if_pos rfl, pieces_of_not_mem hname.no_slash]
    have hstart : join ⟨""⟩ ⟨"/"⟩ = ⟨"/"⟩ := join_of_isAbsolute (by decide)
    rw [ofComponents_eq, Normal.components, List.map_append, htexts]
    show (names.foldl _ (join (join ⟨""⟩ ⟨"/"⟩) ⟨name⟩)).pieces = _
    rw [hstart, pieces_foldl_join (fun n h => hn n (List.mem_cons_of_mem _ h)) hfirst
      hname.ne_empty, hfirst]
    rfl
  | climb levels =>
    exact pieces_ofComponents_climb hn fun h => hne (List.append_eq_nil_iff.1 h).2

theorem ordinary_normal (p : Path) : p.normal.Ordinary := by
  have hfoldl : ∀ (pieces : List String) (n : Normal), n.Ordinary →
      (pieces.foldl Normal.enter n).Ordinary := by
    intro pieces
    induction pieces with
    | nil => exact fun _ h => h
    | cons piece pieces ih => exact fun n h => ih _ (h.enter piece)
  rw [normal_eq]
  apply hfoldl
  unfold base
  split <;> exact fun name h => absurd h List.not_mem_nil

theorem ofPiece_name {piece : String} (hvoid : isVoid piece = false) (hup : piece ≠ "..") :
    Component.ofPiece piece = .name piece := by
  have hcurrent : piece ≠ "." := by
    rintro rfl
    exact absurd hvoid (by decide)
  rw [Component.ofPiece, if_neg hcurrent, if_neg hup]

/-- If all pieces of a path say something, each is a component. -/
theorem components_eq_map (h : ∀ piece ∈ p.pieces, isVoid piece = false) :
    p.components = p.pieces.map .ofPiece := by
  obtain ⟨first, body, hp⟩ := List.exists_cons_of_ne_nil p.pieces_ne_nil
  have hfirst : first ≠ "" := by
    rintro rfl
    exact absurd (h "" (hp ▸ List.mem_cons_self)) (by decide)
  have hbody : body.filter (! isVoid ·) = body := by
    rw [List.filter_eq_self]
    intro piece hpiece
    simp [h piece (hp ▸ List.mem_cons_of_mem _ hpiece)]
  rw [components, hp]
  simp only [(relative_of_pieces hp hfirst).1, hfirst, hbody]
  rfl

/-- The components of a normal form are those of the path made of them. -/
theorem components_ofComponents {n : Normal} (hproper : n.Proper) (hordinary : n.Ordinary) :
    (ofComponents n.components).components = n.components := by
  obtain ⟨start, names⟩ := n
  have hvoid : ∀ name ∈ names, isVoid name = false := fun name h => (hordinary name h).1
  have hmap : names.map Component.ofPiece = names.map .name :=
    List.map_congr_left fun name h => ofPiece_name (hordinary name h).1 (hordinary name h).2
  cases start with
  | root =>
    rcases names with _ | ⟨name, names⟩
    · rfl
    · have hp := pieces_ofComponents hproper (List.cons_ne_nil name names)
      have habsolute : (ofComponents (Normal.components ⟨.root, name :: names⟩)).isAbsolute = true :=
        isAbsolute_iff.2 ⟨_, hp, List.cons_ne_nil name names⟩
      have hfilter : (name :: names).filter (! isVoid ·) = name :: names := by
        rw [List.filter_eq_self]
        intro piece hpiece
        simp [hvoid piece hpiece]
      rw [components, hp]
      simp only [Start.pieces, List.singleton_append, habsolute, if_true, hfilter, hmap]
      rfl
  | climb levels =>
    by_cases hnil : List.replicate levels ".." ++ names = []
    · obtain ⟨hclimbs, hnames⟩ := List.append_eq_nil_iff.1 hnil
      rw [hnames, (List.replicate_eq_nil_iff _).1 hclimbs]
      rfl
    · have hp := pieces_ofComponents_climb hproper hnil
      rw [components_eq_map, hp, List.map_append, List.map_replicate, hmap]
      · rfl
      · intro piece hpiece
        rw [hp] at hpiece
        rcases List.mem_append.1 hpiece with hup | hname
        · rw [(List.mem_replicate.1 hup).2]
          decide
        · exact hvoid piece hname

theorem components_normalize (p : Path) : p.normalize.components = p.normal.components :=
  components_ofComponents p.proper_normal p.ordinary_normal

/-- The normal form of a path is that of the path in normal form. -/
theorem normal_normalize (p : Path) : p.normalize.normal = p.normal := by
  rw [normal, components_normalize, Normal.foldl_step_components]

theorem normalize_eq_iff : p.normalize = q.normalize ↔ p.normal = q.normal := by
  constructor
  · intro h
    rw [← normal_normalize p, h, normal_normalize]
  · intro h
    rw [normalize, h, normalize]

end ScriptBuild.Path
