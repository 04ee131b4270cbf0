import Mathlib.Data.List.Induction
import ScriptBuild.Proofs.Path.Normal

/-!
# Relative paths between absolute ones

A relative path from one place to another climbs out of what only the first has in its name, and
enters what only the other has. Main statements: `pieces_relativeTo` says what its pieces are, and
`relativeTo_leads_back` that it leads from the one place to the other and climbs no more than any
relative path between them must.
-/

namespace ScriptBuild.Path

section Shared

variable {α : Type} [DecidableEq α]

/-- No longer list is a start of both lists. -/
structure IsLongestShared (shared as bs : List α) : Prop where
  left : shared <+: as
  right : shared <+: bs
  longest : ∀ other, other <+: as → other <+: bs → other.length ≤ shared.length

/-- A start of both lists is dropped from both. -/
theorem length_add_dropShared_le {other as bs : List α} (has : other <+: as) (hbs : other <+: bs) :
    other.length + (dropShared as bs).2.length ≤ bs.length := by
  fun_induction dropShared as bs generalizing other with
  | case1 as b bs ih =>
    rcases other with _ | ⟨c, other⟩
    · have := ih List.nil_prefix List.nil_prefix
      simp only [List.length_nil, List.length_cons] at this ⊢
      omega
    · have := ih (List.cons_prefix_cons.1 has).2 (List.cons_prefix_cons.1 hbs).2
      simp only [List.length_cons]
      omega
  | case2 a as b bs hne =>
    rcases other with _ | ⟨c, other⟩
    · simp
    · exact absurd ((List.cons_prefix_cons.1 has).1.symm.trans (List.cons_prefix_cons.1 hbs).1) hne
  | case3 as bs hempty =>
    rcases other with _ | ⟨c, other⟩
    · simp
    · obtain ⟨more, rfl⟩ := has
      obtain ⟨more', rfl⟩ := hbs
      exact absurd rfl (hempty c _ c _ rfl)

/-- What is dropped is the longest shared start. -/
theorem exists_isLongestShared (as bs : List α) :
    ∃ shared, as = shared ++ (dropShared as bs).1 ∧ bs = shared ++ (dropShared as bs).2 ∧
      IsLongestShared shared as bs := by
  obtain ⟨shared, has, hbs⟩ := dropShared_append as bs
  refine ⟨shared, has, hbs, ⟨_, has.symm⟩, ⟨_, hbs.symm⟩, fun other hother hother' => ?_⟩
  have hle := length_add_dropShared_le hother hother'
  have hlength := congrArg List.length hbs
  rw [List.length_append] at hlength
  omega

theorem dropShared_map {β : Type} [DecidableEq β] {f : α → β}
    (hf : Function.Injective f) (as bs : List α) :
    dropShared (as.map f) (bs.map f) =
      ((dropShared as bs).1.map f, (dropShared as bs).2.map f) := by
  induction as generalizing bs with
  | nil => cases bs <;> rfl
  | cons a as ih =>
    cases bs with
    | nil => rfl
    | cons b bs =>
      simp only [List.map_cons, dropShared, hf.eq_iff]
      split
      · exact ih bs
      · rfl

end Shared

/-- What a relative path climbs and enters. -/
def detour (base target : List String) : List String :=
  List.replicate (dropShared target base).2.length ".." ++ (dropShared target base).1

variable {p base : Path} {names places : List String}

/-- The relative path from one place to another climbs out of what only the first has and enters
what only the second has; it is a dot if there is nothing to climb and to enter. -/
theorem pieces_relativeTo (hp : p.normal = ⟨.root, names⟩) (hbase : base.normal = ⟨.root, places⟩) :
    (p.relativeTo base).pieces =
      if detour places names = [] then ["."] else detour places names := by
  have hinj : Function.Injective Component.name := fun _ _ h => Component.name.inj h
  have hshared : dropShared p.normal.components base.normal.components =
      ((dropShared names places).1.map .name, (dropShared names places).2.map .name) := by
    rw [hp, hbase, ← dropShared_map hinj]
    exact if_pos rfl
  have hproper : ∀ name ∈ (dropShared names places).1, IsPiece name := by
    intro name hname
    obtain ⟨shared, hnames, _⟩ := dropShared_append names places
    refine p.proper_normal name ?_
    rw [hp]
    exact hnames ▸ List.mem_append_right _ hname
  have hrel : (dropShared p.normal.components base.normal.components).2.map (fun _ => .up) ++
      (dropShared p.normal.components base.normal.components).1 =
      Normal.components
        ⟨.climb (dropShared names places).2.length, (dropShared names places).1⟩ := by
    rw [hshared, Normal.components, List.map_map, Function.comp_def, List.map_const']
    rfl
  rw [relativeTo, hrel]
  by_cases hnil : detour places names = []
  · obtain ⟨hclimbs, hrest⟩ := List.append_eq_nil_iff.1 hnil
    rw [if_pos hnil, hrest, (List.replicate_eq_nil_iff _).1 hclimbs]
    rfl
  · have hpieces := pieces_ofComponents_climb hproper hnil
    rw [if_neg hnil, if_neg, hpieces]
    · rfl
    · rw [isEmpty_iff, hpieces]
      intro hempty
      have hmem : "" ∈ detour places names := by
        rw [detour, hempty]
        exact List.mem_singleton_self ""
      rcases List.mem_append.1 hmem with hup | hname
      · exact absurd (List.mem_replicate.1 hup).2 (by decide)
      · exact (hproper "" hname).ne_empty rfl

/-- Each climb leaves the last name. -/
theorem foldl_enter_climbs (start : Start) (above below : List String) :
    (List.replicate below.length "..").foldl Normal.enter ⟨start, above ++ below⟩ =
      ⟨start, above⟩ := by
  induction below using List.reverseRecOn with
  | nil => simp
  | append_singleton below name ih =>
    have hleave : Normal.leave ⟨start, above ++ (below ++ [name])⟩ = ⟨start, above ++ below⟩ := by
      rw [← List.append_assoc]
      rcases hcons : above ++ below ++ [name] with _ | ⟨first, more⟩
      · simp at hcons
      · have hdrop := congrArg List.dropLast hcons
        rw [List.dropLast_concat] at hdrop
        rw [hdrop]
        cases start <;> rfl
    rw [List.length_append, List.length_singleton, List.replicate_succ, List.foldl_cons,
      Normal.enter_up, hleave, ih]

theorem foldl_enter_names {names : List String}
    (hnames : ∀ name ∈ names, isVoid name = false ∧ name ≠ "..") (n : Normal) :
    names.foldl Normal.enter n = ⟨n.start, n.names ++ names⟩ := by
  induction names generalizing n with
  | nil => simp
  | cons name names ih =>
    have hname := hnames name List.mem_cons_self
    rw [List.foldl_cons, Normal.enter_name hname.1 hname.2,
      ih fun other h => hnames other (List.mem_cons_of_mem _ h)]
    simp

/-- Each climb leaves one name at most: the names that are never left are still there. -/
theorem exists_kept (pieces : List String) (n : Normal) :
    ∃ kept, kept <+: n.names ∧ kept <+: (pieces.foldl Normal.enter n).names ∧
      n.names.length ≤ kept.length + pieces.count ".." := by
  induction pieces generalizing n with
  | nil => exact ⟨n.names, List.prefix_rfl, List.prefix_rfl, by omega⟩
  | cons piece pieces ih =>
    obtain ⟨kept, hleft, hright, hlength⟩ := ih (n.enter piece)
    rw [List.foldl_cons, List.count_cons]
    rcases hvoid : isVoid piece with _ | _
    · by_cases hup : piece = ".."
      · subst hup
        rw [Normal.enter_up, Normal.names_leave] at hleft hlength
        refine ⟨kept, hleft.trans (List.dropLast_prefix _), hright, ?_⟩
        rw [List.length_dropLast] at hlength
        simp only [beq_self_eq_true, if_true]
        omega
      · rw [Normal.enter_name hvoid hup] at hleft hlength
        simp only [List.length_append, List.length_singleton] at hlength
        rcases List.prefix_concat_iff.1 hleft with rfl | hkept
        · refine ⟨n.names, List.prefix_rfl, (List.prefix_append _ _).trans hright, ?_⟩
          omega
        · exact ⟨kept, hkept, hright, by omega⟩
    · rw [Normal.enter, if_pos hvoid] at hleft hlength
      exact ⟨kept, hleft, hright, by omega⟩

theorem count_up_map (names : List String) :
    ((names.filter (! isVoid ·)).map Component.ofPiece).count .up = names.count ".." := by
  induction names with
  | nil => rfl
  | cons name names ih =>
    rcases hvoid : isVoid name with _ | _
    · rw [List.filter_cons_of_pos (by simp [hvoid]), List.map_cons, List.count_cons,
        List.count_cons, ih]
      by_cases hup : name = ".."
      · subst hup
        rfl
      · rw [ofPiece_name hvoid hup]
        simp [hup]
    · have hup : name ≠ ".." := by
        rintro rfl
        exact absurd hvoid (by decide)
      rw [List.filter_cons_of_neg (by simp [hvoid]), List.count_cons, ih]
      simp [hup]

/-- A path has as many climbs as pieces that climb. -/
theorem count_up_components (p : Path) : p.components.count .up = p.pieces.count ".." := by
  obtain ⟨first, body, hp⟩ := List.exists_cons_of_ne_nil p.pieces_ne_nil
  rw [components, hp]
  simp only [List.count_append, count_up_map, List.count_cons]
  rw [Nat.add_comm]
  congr 1
  split
  · next habsolute =>
    obtain ⟨names, hnames, _⟩ := isAbsolute_iff.1 habsolute
    rw [hp] at hnames
    rw [(List.cons.inj hnames).1]
    rfl
  · split
    · next hempty =>
      rw [hempty]
      rfl
    · next hempty =>
      unfold Component.ofPiece
      split
      · next hcurrent =>
        rw [hcurrent]
        rfl
      · split
        · next hup =>
          rw [hup]
          rfl
        · next hup => simp [hup]

/-- The way from the names of one place leads to the names of the other. -/
theorem foldl_detour (start : Start) {names places : List String}
    (hnames : ∀ name ∈ names, isVoid name = false ∧ name ≠ "..") :
    (if detour places names = [] then ["."] else detour places names).foldl Normal.enter
      ⟨start, places⟩ = ⟨start, names⟩ := by
  obtain ⟨shared, hsplit, hplaces, _⟩ := exists_isLongestShared names places
  unfold detour
  generalize dropShared names places = rests at *
  obtain ⟨rest, below⟩ := rests
  subst hsplit hplaces
  have hrest : ∀ name ∈ rest, isVoid name = false ∧ name ≠ ".." := fun name h =>
    hnames name (List.mem_append_right _ h)
  dsimp only
  split
  · next hnil =>
    obtain ⟨hclimbs, rfl⟩ := List.append_eq_nil_iff.1 hnil
    rw [List.length_eq_zero_iff.1 ((List.replicate_eq_nil_iff _).1 hclimbs)]
    rfl
  · rw [List.foldl_append, foldl_enter_climbs, foldl_enter_names hrest]

theorem normal_of_root (h : p.isAbsolute = true) : p.normal = ⟨.root, p.normal.names⟩ := by
  rw [← normal_start_of_isAbsolute h]

theorem components_normalize_of_root (h : p.isAbsolute = true) :
    p.normalize.components = .root :: p.normal.names.map .name := by
  rw [components_normalize, normal_of_root h]
  rfl

/-- No relative path from one place to another climbs less than out of what only the first has. -/
theorem length_le_count_up {q : Path}
    (hq : q.isAbsolute = false) (h : (base.join q).normalize = p.normalize) :
    (dropShared p.normal.names base.normal.names).2.length ≤ q.components.count .up := by
  obtain ⟨kept, hbelow, hthere, hlength⟩ := exists_kept q.pieces base.normal
  rw [← normal_join hq, normalize_eq_iff.1 h] at hthere
  have hshared := length_add_dropShared_le hthere hbelow
  rw [count_up_components]
  omega

theorem detour_eq_nil_iff : detour places names = [] ↔ names = places := by
  obtain ⟨shared, hnames, hplaces, hlongest⟩ := exists_isLongestShared names places
  unfold detour
  rw [List.append_eq_nil_iff, List.replicate_eq_nil_iff, List.length_eq_zero_iff]
  constructor
  · rintro ⟨hbelow, hrest⟩
    rw [hrest, List.append_nil] at hnames
    rw [hbelow, List.append_nil] at hplaces
    rw [hnames, hplaces]
  · rintro rfl
    have hle := hlongest.longest names List.prefix_rfl List.prefix_rfl
    have hlength := congrArg List.length hnames
    have hlength' := congrArg List.length hplaces
    rw [List.length_append] at hlength hlength'
    constructor
    · apply List.length_eq_zero_iff.1
      omega
    · apply List.length_eq_zero_iff.1
      omega

/-- What is left of the components of two absolute paths without their shared start are names. -/
theorem dropShared_components (hp : p.isAbsolute = true) (hbase : base.isAbsolute = true) :
    dropShared p.normalize.components base.normalize.components =
      ((dropShared p.normal.names base.normal.names).1.map .name,
        (dropShared p.normal.names base.normal.names).2.map .name) := by
  have hinj : Function.Injective Component.name := fun _ _ h => Component.name.inj h
  rw [components_normalize_of_root hp, components_normalize_of_root hbase, ← dropShared_map hinj]
  exact if_pos rfl

/-- What a relative path enters are names of the target. -/
theorem mem_of_mem_dropShared {name : String} (h : name ∈ (dropShared names places).1) :
    name ∈ names := by
  obtain ⟨shared, hnames, _⟩ := dropShared_append names places
  rw [hnames]
  exact List.mem_append_right _ h

theorem not_void_of_mem_detour {piece : String} (hnames : ∀ name ∈ names, isVoid name = false)
    (h : piece ∈ detour places names) : isVoid piece = false := by
  rcases List.mem_append.1 h with hup | hname
  · rw [(List.mem_replicate.1 hup).2]
    decide
  · exact hnames piece (mem_of_mem_dropShared hname)

/-- A relative path between different places is not a dot: it climbs or enters. -/
theorem components_relativeTo (hp : p.isAbsolute = true) (hbase : base.isAbsolute = true)
    (hne : p.normal.names ≠ base.normal.names) :
    (p.relativeTo base).components =
      List.replicate (dropShared p.normal.names base.normal.names).2.length .up ++
        (dropShared p.normal.names base.normal.names).1.map .name := by
  have hpieces := pieces_relativeTo (normal_of_root hp) (normal_of_root hbase)
  rw [if_neg (mt detour_eq_nil_iff.1 hne)] at hpieces
  have hup : Component.ofPiece ".." = .up := rfl
  have hnames : (dropShared p.normal.names base.normal.names).1.map Component.ofPiece =
      (dropShared p.normal.names base.normal.names).1.map .name := by
    apply List.map_congr_left
    intro name h
    have hname := p.ordinary_normal name (mem_of_mem_dropShared h)
    exact ofPiece_name hname.1 hname.2
  rw [components_eq_map, hpieces, detour, List.map_append, List.map_replicate, hup, hnames]
  intro piece hpiece
  rw [hpieces] at hpiece
  exact not_void_of_mem_detour (fun name h => (p.ordinary_normal name h).1) hpiece

theorem relativeTo_self (hp : p.isAbsolute = true) (hbase : base.isAbsolute = true)
    (heq : p.normal.names = base.normal.names) : p.relativeTo base = ⟨"."⟩ := by
  apply pieces_inj
  rw [pieces_relativeTo (normal_of_root hp) (normal_of_root hbase),
    if_pos (detour_eq_nil_iff.2 heq)]
  rfl

theorem isRelative_relativeTo (hp : p.isAbsolute = true) (hbase : base.isAbsolute = true) :
    (p.relativeTo base).isAbsolute = false ∧ (p.relativeTo base).isEmpty = false := by
  by_cases heq : p.normal.names = base.normal.names
  · rw [relativeTo_self hp hbase heq]
    exact ⟨rfl, rfl⟩
  · have hpieces := pieces_relativeTo (normal_of_root hp) (normal_of_root hbase)
    rw [if_neg (mt detour_eq_nil_iff.1 heq)] at hpieces
    obtain ⟨first, body, hfirst⟩ := List.exists_cons_of_ne_nil (mt detour_eq_nil_iff.1 heq)
    have hvoid := not_void_of_mem_detour (fun name h => (p.ordinary_normal name h).1)
      (hfirst ▸ List.mem_cons_self)
    apply relative_of_pieces (hpieces.trans hfirst)
    rintro rfl
    cases hvoid

/-- The way from the one place leads to the other. -/
theorem normal_join_relativeTo (hp : p.isAbsolute = true) (hbase : base.isAbsolute = true) :
    (base.join (p.relativeTo base)).normal = p.normal := by
  rw [normal_join (isRelative_relativeTo hp hbase).1,
    pieces_relativeTo (normal_of_root hp) (normal_of_root hbase)]
  conv_lhs => rw [normal_of_root hbase]
  conv_rhs => rw [normal_of_root hp]
  exact foldl_detour .root p.ordinary_normal

/-- The relative path is a dot only between equal places: else it has a component that climbs or
enters. -/
theorem relativeTo_eq_dot_iff (hp : p.isAbsolute = true) (hbase : base.isAbsolute = true) :
    p.relativeTo base = ⟨"."⟩ ↔ p.normal.names = base.normal.names := by
  constructor
  · intro hdot
    by_contra hne
    have hcomponents := components_relativeTo hp hbase hne
    have hmem : Component.current ∈ (p.relativeTo base).components := by
      rw [hdot]
      decide
    rw [hcomponents] at hmem
    simp at hmem
  · exact relativeTo_self hp hbase

theorem count_up_relativeTo (hp : p.isAbsolute = true) (hbase : base.isAbsolute = true) :
    (p.relativeTo base).components.count .up =
      (dropShared p.normal.names base.normal.names).2.length := by
  by_cases heq : p.normal.names = base.normal.names
  · have hnil := (List.append_eq_nil_iff.1 (detour_eq_nil_iff.2 heq)).1
    rw [relativeTo_self hp hbase heq, (List.replicate_eq_nil_iff _).1 hnil]
    rfl
  · have hnames : ∀ names : List String, (names.map Component.name).count .up = 0 := by
      simp [List.count_eq_zero]
    rw [components_relativeTo hp hbase heq, List.count_append, List.count_replicate_self, hnames]
    omega

/-- The relative path between two absolute ones leads from the one to the other, whatever dots and
slashes are in their texts. It is a single dot if both are the same place, and otherwise climbs
out of the components that only the base has and enters those that only the target has. No relative
path that leads there climbs less. -/
theorem relativeTo_leads_back (hp : p.isAbsolute = true) (hbase : base.isAbsolute = true) :
    (base.join (p.relativeTo base)).normalize = p.normalize ∧
      (p.relativeTo base).isAbsolute = false ∧ (p.relativeTo base).isEmpty = false ∧
      (p.relativeTo base = ⟨"."⟩ ↔ p.normalize = base.normalize) ∧
      ∃ (shared : List Component) (climbs : Nat) (names : List String),
        IsLongestShared shared p.normalize.components base.normalize.components ∧
        base.normalize.components.length = shared.length + climbs ∧
        p.normalize.components = shared ++ names.map .name ∧
        (p.normalize ≠ base.normalize →
          (p.relativeTo base).components = List.replicate climbs .up ++ names.map .name) ∧
        (p.relativeTo base).components.count .up = climbs ∧
        ∀ q : Path, q.isAbsolute = false → (base.join q).normalize = p.normalize →
          climbs ≤ q.components.count .up := by
  have hsame : p.normalize = base.normalize ↔ p.normal.names = base.normal.names := by
    rw [normalize_eq_iff, normal_of_root hp, normal_of_root hbase]
    simp
  have hrelative := isRelative_relativeTo hp hbase
  have hleads := normalize_eq_iff.2 (normal_join_relativeTo hp hbase)
  obtain ⟨shared, htarget, hstart, hlongest⟩ :=
    exists_isLongestShared p.normalize.components base.normalize.components
  rw [dropShared_components hp hbase] at htarget hstart
  have hdepth := congrArg List.length hstart
  rw [List.length_append, List.length_map] at hdepth
  refine ⟨hleads, hrelative.1, hrelative.2, (relativeTo_eq_dot_iff hp hbase).trans hsame.symm,
    shared, _, _, hlongest, hdepth, htarget, fun hne => ?_, count_up_relativeTo hp hbase,
    fun q hq hthere => length_le_count_up hq hthere⟩
  exact components_relativeTo hp hbase (mt hsame.2 hne)

/-- The way out of a directory that is given with dots and slashes climbs twice and enters twice. -/
theorem sibling_leads_back :
    let p : Path := ⟨"/a//./lib/x.t"⟩
    let base : Path := ⟨"/a/out/../src/obj/"⟩
    p.isAbsolute = true ∧ base.isAbsolute = true ∧ p.relativeTo base = ⟨"../../lib/x.t"⟩ ∧
      (base.join (p.relativeTo base)).normalize = ⟨"/a/lib/x.t"⟩ ∧
      ∀ q : Path, q.isAbsolute = false → (base.join q).normalize = ⟨"/a/lib/x.t"⟩ →
        2 ≤ q.components.count .up := by
  intro p base
  have hp : p.isAbsolute = true := by decide
  have hbase : base.isAbsolute = true := by decide
  have hnormalize : p.normalize = ⟨"/a/lib/x.t"⟩ := by decide +kernel
  have hrel : p.relativeTo base = ⟨"../../lib/x.t"⟩ := by decide +kernel
  obtain ⟨hleads, _, _, _, _, climbs, _, _, _, _, _, hcount, hleast⟩ :=
    relativeTo_leads_back hp hbase
  have hclimbs : climbs = 2 := by
    rw [← hcount, hrel]
    decide +kernel
  rw [hnormalize] at hleads hleast
  exact ⟨hp, hbase, hrel, hleads, fun q hq h => hclimbs ▸ hleast q hq h⟩

end ScriptBuild.Path
