import Mathlib.Data.List.TakeWhile
import ScriptBuild.Proofs.Path.Normal

/-!
# Paths in normal form

The text of a path in normal form is its names with one slash between them, behind the root or behind
the climbs that a relative path begins with. Main statements: `foldl_collapse` says that the normal
form may be worked out on the path itself, where a climb takes the last name back, and
`normalize_normal_form` that the normal form of any path is in normal form, that exactly such paths
stay as they are, and that it may be worked out before or after a relative path is joined.
-/

namespace ScriptBuild.Path

/-- A text that is entered as a name wherever it stands between slashes. -/
structure IsOrdinary (name : String) : Prop where
  piece : IsPiece name
  ne_current : name ≠ "."
  ne_up : name ≠ ".."

theorem IsOrdinary.isVoid {name : String} (h : IsOrdinary name) : Path.isVoid name = false := by
  simp [Path.isVoid, h.piece.ne_empty, h.ne_current]

theorem isOrdinary_iff {name : String} :
    IsOrdinary name ↔ IsPiece name ∧ isVoid name = false ∧ name ≠ ".." := by
  constructor
  · intro h
    exact ⟨h.piece, h.isVoid, h.ne_up⟩
  · rintro ⟨piece, void, up⟩
    refine ⟨piece, ?_, up⟩
    rintro rfl
    exact absurd void (by decide)

/-- A path in normal form, absolute or relative. It has no `.`, and `..` only as the climbs with which
a relative path begins. -/
inductive IsNormalForm : (isAbsolute : Bool) → Path → Prop where
  | absolute {names : List String} (ordinary : ∀ name ∈ names, IsOrdinary name) :
      IsNormalForm true ⟨"/" ++ "/".intercalate names⟩
  | relative (climbs : Nat) {names : List String} (ordinary : ∀ name ∈ names, IsOrdinary name) :
      IsNormalForm false ⟨"/".intercalate (List.replicate climbs ".." ++ names)⟩

theorem text_inj {p q : Path} : p.text = q.text ↔ p = q := by
  cases p
  cases q
  simp

namespace Normal

/-- The text of a path with the components of a normal form. -/
def text (n : Normal) : String :=
  match n.start with
  | .root => "/" ++ "/".intercalate n.names
  | .climb levels => "/".intercalate (List.replicate levels ".." ++ n.names)

theorem isOrdinary {n : Normal} (hproper : n.Proper) (hordinary : n.Ordinary) :
    ∀ name ∈ n.names, IsOrdinary name :=
  fun name h => isOrdinary_iff.2 ⟨hproper name h, hordinary name h⟩

theorem toPath_ofComponents {n : Normal} (hn : n.Proper) : ofComponents n.components = ⟨n.text⟩ := by
  obtain ⟨start, names⟩ := n
  cases start with
  | root =>
    by_cases hnil : names = []
    · rw [hnil]
      decide
    · have hpieces := (ofComponents (components ⟨.root, names⟩)).text_eq
      rw [pieces_ofComponents hn hnil, Start.pieces, List.singleton_append,
        String.intercalate_cons_of_ne_nil hnil, String.empty_append] at hpieces
      exact text_inj.1 hpieces.symm
  | climb levels =>
    by_cases hnil : List.replicate levels ".." ++ names = []
    · obtain ⟨hclimbs, hnames⟩ := List.append_eq_nil_iff.1 hnil
      rw [hnames, (List.replicate_eq_nil_iff _).1 hclimbs]
      decide
    · have hpieces := (ofComponents (components ⟨.climb levels, names⟩)).text_eq
      rw [pieces_ofComponents_climb hn hnil] at hpieces
      exact text_inj.1 hpieces.symm

/-- What does not start at the root never gets there by entering pieces. -/
theorem start_enter_ne_root {n : Normal} (h : n.start ≠ .root) (piece : String) :
    (n.enter piece).start ≠ .root := by
  obtain ⟨start, names⟩ := n
  rcases enter_cases ⟨start, names⟩ piece with heq | heq | ⟨heq, _⟩
  · rwa [heq]
  · rw [heq]
    cases start with
    | root => exact absurd rfl h
    | climb levels => cases names <;> simp [leave]
  · rwa [heq]

theorem foldl_enter_ne_root {n : Normal} (h : n.start ≠ .root) (pieces : List String) :
    (pieces.foldl enter n).start ≠ .root := by
  induction pieces generalizing n with
  | nil => exact h
  | cons piece pieces ih => exact ih (start_enter_ne_root h piece)

end Normal

variable {p : Path}

theorem normal_start_eq_root_iff : p.normal.start = .root ↔ p.isAbsolute = true := by
  refine ⟨fun h => ?_, normal_start_of_isAbsolute⟩
  by_cases habsolute : p.isAbsolute = true
  · exact habsolute
  · rw [normal_eq, base, if_neg habsolute] at h
    exact absurd h (Normal.foldl_enter_ne_root (by simp [Normal.here]) p.pieces)

/-- The normal form of a path is in normal form, and as absolute as the path. -/
theorem isNormalForm_normalize (p : Path) : IsNormalForm p.isAbsolute p.normalize := by
  have hordinary := Normal.isOrdinary p.proper_normal p.ordinary_normal
  have hstart := @normal_start_eq_root_iff p
  rw [normalize, Normal.toPath_ofComponents p.proper_normal]
  generalize p.normal = n at hordinary hstart
  obtain ⟨start, names⟩ := n
  cases start with
  | root =>
    rw [hstart.1 rfl]
    exact .absolute hordinary
  | climb levels =>
    have hrelative : p.isAbsolute = false := by
      rw [← Bool.not_eq_true, ← hstart]
      simp
    rw [hrelative]
    exact .relative levels hordinary

/-- A path in normal form is its own normal form. -/
theorem IsNormalForm.normalize_eq {isAbsolute : Bool} (h : IsNormalForm isAbsolute p) :
    p.normalize = p := by
  obtain ⟨n, hproper, hordinary, hp⟩ :
      ∃ n : Normal, n.Proper ∧ n.Ordinary ∧ p = ofComponents n.components := by
    cases h with
    | @absolute names ordinary =>
      refine ⟨⟨.root, names⟩, fun name hname => (ordinary name hname).piece,
        fun name hname => (isOrdinary_iff.1 (ordinary name hname)).2, ?_⟩
      rw [Normal.toPath_ofComponents fun name hname => (ordinary name hname).piece]
      rfl
    | @relative climbs names ordinary =>
      refine ⟨⟨.climb climbs, names⟩, fun name hname => (ordinary name hname).piece,
        fun name hname => (isOrdinary_iff.1 (ordinary name hname)).2, ?_⟩
      rw [Normal.toPath_ofComponents fun name hname => (ordinary name hname).piece]
      rfl
  have hnormal : p.normal = n := by
    rw [normal, hp, components_ofComponents hproper hordinary, Normal.foldl_step_components]
  rw [normalize, hnormal, hp]

/-- The path after one more component. A climb takes the last name back, and the root has nothing
above it. -/
def collapse (out : Path) : Component → Path
  | .current => out
  | .up =>
    match out.components.getLast? with
    | some (.name _) => out.parent?.getD out
    | some .root => out
    | _ => out.join ⟨".."⟩
  | c => out.join c.toPath

section Collapse

variable {before : List String} {last : String}

/-- The parent of a path whose pieces all say something is what stands before the last of them. -/
theorem parent?_of_pieces (hp : p.pieces = before ++ [last]) (hlast : isVoid last = false)
    (hbefore : ∀ piece ∈ before.tail, isVoid piece = false) :
    p.parent? = some ⟨if before = [""] then "/" else "/".intercalate before⟩ := by
  have hne : last ≠ "" := by
    rintro rfl
    exact absurd hlast (by decide)
  unfold parent?
  rw [hp]
  cases before with
  | nil => simp [hne]
  | cons first more =>
    have hkept : (more.reverse.dropWhile isVoid).reverse = more := by
      rw [List.dropWhile_eq_self_iff.2, List.reverse_reverse]
      intro hlength
      have hmem : more.reverse[0] ∈ more := List.mem_reverse.1 (List.getElem_mem hlength)
      rw [hbefore _ hmem]
      exact Bool.false_ne_true
    have hbody : (more ++ [last]).reverse.dropWhile isVoid = last :: more.reverse := by
      simp [hlast]
    simp only [List.cons_append, hbody, hkept]
    cases more with
    | nil =>
      by_cases hfirst : first = ""
      · simp [hfirst]
      · simp [hfirst]
    | cons next more => simp

theorem ofComponents_concat (cs : List Component) (c : Component) :
    ofComponents (cs ++ [c]) = (ofComponents cs).join c.toPath := by
  rw [ofComponents, List.foldl_append]
  rfl

/-- Without its last name, a path in normal form is its parent. -/
theorem parent?_ofComponents {start : Start} {names : List String} {name : String}
    (hproper : Normal.Proper ⟨start, names ++ [name]⟩)
    (hordinary : Normal.Ordinary ⟨start, names ++ [name]⟩) :
    (ofComponents (Normal.components ⟨start, names ++ [name]⟩)).parent? =
      some (ofComponents (Normal.components ⟨start, names⟩)) := by
  have hnames : Normal.Proper ⟨start, names⟩ :=
    fun n hn => hproper n (List.mem_append_left _ hn)
  have hvoid : ∀ n ∈ names ++ [name], isVoid n = false := fun n hn => (hordinary n hn).1
  have hpieces := pieces_ofComponents hproper (List.append_ne_nil_of_right_ne_nil _ (by simp))
  rw [← List.append_assoc] at hpieces
  rw [Normal.toPath_ofComponents hnames, parent?_of_pieces hpieces (hvoid name (by simp))]
  · cases start with
    | root => cases names <;> simp [Start.pieces, Normal.text]
    | climb levels =>
      have hne : List.replicate levels ".." ++ names ≠ [""] := by
        intro h
        have hmem : "" ∈ List.replicate levels ".." ++ names := by simp [h]
        rcases List.mem_append.1 hmem with hup | hname
        · exact absurd (List.mem_replicate.1 hup).2 (by decide)
        · exact (hnames "" hname).ne_empty rfl
      simp [Start.pieces, Normal.text, hne]
  · intro piece hpiece
    cases start with
    | root => exact hvoid piece (List.mem_append_left _ hpiece)
    | climb levels =>
      rcases List.mem_append.1 (List.mem_of_mem_tail hpiece) with hup | hname
      · rw [(List.mem_replicate.1 hup).2]
        decide
      · exact hvoid piece (List.mem_append_left _ hname)

/-- One more component of a path in normal form. -/
theorem collapse_ofComponents {n : Normal} (hproper : n.Proper) (hordinary : n.Ordinary)
    (c : Component) : collapse (ofComponents n.components) c = ofComponents (n.step c).components := by
  cases c with
  | root => exact join_of_isAbsolute (by decide)
  | current => rfl
  | name text =>
    have hstep : (n.step (.name text)).components = n.components ++ [.name text] := by
      simp [Normal.step, Normal.components]
    rw [hstep, ofComponents_concat]
    rfl
  | up =>
    have hcomponents := components_ofComponents hproper hordinary
    obtain ⟨start, names⟩ := n
    rcases List.eq_nil_or_concat names with rfl | ⟨names, name, rfl⟩
    · cases start with
      | root => decide
      | climb levels =>
        have hclimbs : ∀ k, Normal.components ⟨.climb k, []⟩ = List.replicate k .up := by
          simp [Normal.components, Normal.startComponents]
        have hstep : (Normal.step ⟨.climb levels, []⟩ .up).components =
            Normal.components ⟨.climb levels, []⟩ ++ [.up] := by
          rw [hclimbs, ← List.replicate_succ']
          exact hclimbs (levels + 1)
        rw [hstep, ofComponents_concat, collapse, hcomponents, hclimbs, List.getLast?_replicate]
        cases levels <;> rfl
    · rw [List.concat_eq_append] at hproper hordinary hcomponents ⊢
      have hlast : (Normal.components ⟨start, names ++ [name]⟩).getLast? = some (.name name) := by
        simp [Normal.components]
      have hstep : Normal.step ⟨start, names ++ [name]⟩ .up = ⟨start, names⟩ := by
        have hleave : Normal.step ⟨start, names ++ [name]⟩ .up =
            ⟨start, (names ++ [name]).dropLast⟩ := by
          cases start <;> cases names <;> rfl
        rw [hleave, List.dropLast_concat]
      rw [collapse, hcomponents, hlast, parent?_ofComponents hproper hordinary, hstep]
      rfl

/-- One more component keeps a normal form well-formed. -/
theorem proper_step {n : Normal} (hproper : n.Proper) (hordinary : n.Ordinary) {c : Component}
    (hc : ∀ text, c = .name text → IsOrdinary text) : (n.step c).Proper ∧ (n.step c).Ordinary := by
  cases c with
  | root => exact ⟨fun name h => absurd h List.not_mem_nil, fun name h => absurd h List.not_mem_nil⟩
  | current => exact ⟨hproper, hordinary⟩
  | up =>
    have hnames : ∀ name ∈ n.leave.names, name ∈ n.names := by
      rw [Normal.names_leave]
      exact fun name h => (List.dropLast_sublist n.names).subset h
    exact ⟨fun name h => hproper name (hnames name h), fun name h => hordinary name (hnames name h)⟩
  | name text =>
    obtain ⟨hpiece, hplain⟩ := isOrdinary_iff.1 (hc text rfl)
    exact ⟨List.forall_mem_append.2 ⟨hproper, List.forall_mem_singleton.2 hpiece⟩,
      List.forall_mem_append.2 ⟨hordinary, List.forall_mem_singleton.2 hplain⟩⟩

/-- The names among the components of a path are ordinary. -/
theorem isOrdinary_of_mem_components {text : String} (h : .name text ∈ p.components) :
    IsOrdinary text := by
  have hpiece : ∀ piece, piece ≠ "" → Component.ofPiece piece = .name text →
      piece ∈ p.pieces → IsOrdinary text := by
    intro piece hne heq hmem
    unfold Component.ofPiece at heq
    split at heq
    · cases heq
    · next hcurrent =>
      split at heq
      · cases heq
      · next hup =>
        cases heq
        exact ⟨⟨hne, not_mem_of_mem_pieces hmem⟩, hcurrent, hup⟩
  obtain ⟨first, body, hp⟩ := List.exists_cons_of_ne_nil p.pieces_ne_nil
  rw [components, hp] at h
  rcases List.mem_append.1 h with hfirst | hbody
  · split at hfirst
    · simp at hfirst
    · split at hfirst
      · cases hfirst
      · next hne =>
        exact hpiece first hne (List.mem_singleton.1 hfirst).symm (hp ▸ List.mem_cons_self)
  · obtain ⟨piece, hkept, heq⟩ := List.mem_map.1 hbody
    obtain ⟨hmem, hvoid⟩ := List.mem_filter.1 hkept
    refine hpiece piece ?_ heq (hp ▸ List.mem_cons_of_mem _ hmem)
    rintro rfl
    exact absurd hvoid (by decide)

theorem foldl_collapse_ofComponents {n : Normal} (hproper : n.Proper) (hordinary : n.Ordinary)
    {cs : List Component} (hcs : ∀ text, .name text ∈ cs → IsOrdinary text) :
    cs.foldl collapse (ofComponents n.components) =
      ofComponents (cs.foldl Normal.step n).components := by
  induction cs generalizing n with
  | nil => rfl
  | cons c cs ih =>
    obtain ⟨hproper', hordinary'⟩ := proper_step hproper hordinary fun text h =>
      hcs text (h ▸ List.mem_cons_self)
    rw [List.foldl_cons, List.foldl_cons, collapse_ofComponents hproper hordinary]
    exact ih hproper' hordinary' fun text h => hcs text (List.mem_cons_of_mem _ h)

/-- The normal form of a path is what its components come to, each put behind the path so far. -/
theorem foldl_collapse (p : Path) : p.components.foldl collapse ⟨""⟩ = p.normalize := by
  have hproper : Normal.here.Proper := fun name h => absurd h List.not_mem_nil
  have hordinary : Normal.here.Ordinary := fun name h => absurd h List.not_mem_nil
  exact foldl_collapse_ofComponents hproper hordinary fun text => isOrdinary_of_mem_components

end Collapse

/-- The normal form of a path is what comes of putting its components one behind the other, where a
climb takes a name back. It has no `.`, and it has `..` only at its beginning and only if the path is
relative. Exactly the paths in such a form are their own normal forms. Whether the normal form of a
path is taken before or only after a relative path is joined makes no difference. -/
theorem normalize_normal_form :
    (∀ p : Path, p.normalize = p.components.foldl collapse ⟨""⟩) ∧
    (∀ p : Path, IsNormalForm p.isAbsolute p.normalize) ∧
    (∀ p : Path, p.normalize.normalize = p.normalize) ∧
    (∀ p : Path, p.normalize = p ↔ IsNormalForm p.isAbsolute p) ∧
    ∀ p q : Path, q.isAbsolute = false → (p.join q).normalize = (p.normalize.join q).normalize := by
  refine ⟨fun p => p.foldl_collapse.symm, isNormalForm_normalize, fun p => ?_, fun p => ?_,
    fun p q hq => ?_⟩
  · exact (isNormalForm_normalize p).normalize_eq
  · constructor
    · intro h
      have hform := isNormalForm_normalize p
      rwa [h] at hform
    · exact IsNormalForm.normalize_eq
  · rw [normalize_eq_iff, normal_join hq, normal_join hq, normal_normalize]

/-- A relative path that climbs out of a directory given with dots, and above where that starts. -/
theorem climb_joined :
    let p : Path := ⟨"./a//b/.."⟩
    let q : Path := ⟨"../../x/./y/"⟩
    q.isAbsolute = false ∧ p.normalize = ⟨"a"⟩ ∧ (p.join q).normalize = ⟨"../x/y"⟩ ∧
      (p.normalize.join q).normalize = ⟨"../x/y"⟩ := by
  intro p q
  have hq : q.isAbsolute = false := by decide
  have hjoined : (p.join q).normalize = ⟨"../x/y"⟩ := by decide +kernel
  obtain ⟨-, -, -, -, hjoin⟩ := normalize_normal_form
  exact ⟨hq, by decide +kernel, hjoined, (hjoin p q hq).symm.trans hjoined⟩

end ScriptBuild.Path
