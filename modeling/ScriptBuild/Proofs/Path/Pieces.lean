import ScriptBuild.Path.Basic
import ScriptBuild.Proofs.Text.Pieces

/-!
# Paths by their pieces

A path is the texts between its slashes. Main statements: `text_eq` says that they tell the whole
path, `pieces_join` what the pieces of a joined path are, `pieces_joined` that names joined one
after the other are the pieces of the path, and `exists_splits` what its directory leaves out.
-/

namespace ScriptBuild

namespace Path

variable {p q : Path} {before : List String} {last : String}

theorem not_mem_of_mem_pieces {piece : String} (h : piece ∈ p.pieces) : '/' ∉ piece.toList :=
  Text.not_mem_of_mem_pieces h

theorem pieces_ne_nil (p : Path) : p.pieces ≠ [] := by
  rw [pieces, Text.pieces, Ne, List.map_eq_nil_iff]
  exact List.splitOn_ne_nil '/' _

/-- The pieces of a path, the last one apart. -/
theorem exists_pieces (p : Path) : ∃ before last, p.pieces = before ++ [last] :=
  ⟨_, _, (List.dropLast_concat_getLast p.pieces_ne_nil).symm⟩

/-- The pieces with slashes between them are the path. -/
theorem text_eq (p : Path) : "/".intercalate p.pieces = p.text :=
  Text.intercalate_pieces '/' p.text

theorem pieces_inj (h : p.pieces = q.pieces) : p = q := by
  have htext := p.text_eq
  rw [h, q.text_eq] at htext
  cases p
  cases q
  exact congrArg Path.mk htext.symm

theorem pieces_of_not_mem {text : String} (h : '/' ∉ text.toList) : pieces ⟨text⟩ = [text] := by
  rw [pieces, Text.pieces, List.splitOn_eq_singleton h, List.map_singleton, String.ofList_toList]

/-- A slash parts the pieces before it from those after it. -/
theorem pieces_slash (a b : String) : pieces ⟨a ++ "/" ++ b⟩ = pieces ⟨a⟩ ++ pieces ⟨b⟩ := by
  have htext : (a ++ "/" ++ b).toList = a.toList ++ '/' :: b.toList := by simp
  simp only [pieces, Text.pieces, htext, List.splitOn_append_cons_self, List.map_append]

theorem pieces_intercalate_append (hbefore : ∀ name ∈ before, '/' ∉ name.toList)
    (last tail : String) :
    pieces ⟨"/".intercalate (before ++ [last]) ++ tail⟩ = before ++ pieces ⟨last ++ tail⟩ := by
  induction before with
  | nil => rw [List.nil_append, String.intercalate_singleton, List.nil_append]
  | cons name before ih =>
    have hne : before ++ [last] ≠ [] := by simp
    rw [List.cons_append, String.intercalate_cons_of_ne_nil hne, String.append_assoc, pieces_slash,
      pieces_of_not_mem (hbefore name List.mem_cons_self),
      ih fun n hn => hbefore n (List.mem_cons_of_mem _ hn)]
    rfl

/-- A text behind a path goes on with its last piece. -/
theorem pieces_append (hp : p.pieces = before ++ [last]) (tail : String) :
    pieces ⟨p.text ++ tail⟩ = before ++ pieces ⟨last ++ tail⟩ := by
  rw [← p.text_eq, hp]
  refine pieces_intercalate_append (fun name hname => ?_) last tail
  exact not_mem_of_mem_pieces (hp ▸ List.mem_append_left _ hname)

/-- A character of a path is a slash or in one of its pieces. -/
theorem mem_text_iff {c : Char} (hc : c ≠ '/') :
    c ∈ p.text.toList ↔ ∃ piece ∈ p.pieces, c ∈ piece.toList := by
  rw [← p.text_eq]
  exact Text.mem_intercalate hc

theorem isEmpty_iff : p.isEmpty = true ↔ p.pieces = [""] := by
  rw [isEmpty, beq_iff_eq]
  constructor
  · intro h
    rw [show p = ⟨""⟩ from pieces_inj (by rw [pieces, pieces, h])]
    rfl
  · intro h
    rw [← p.text_eq, h]
    rfl

/-- A path is absolute if its first piece is empty and not the only one. -/
theorem isAbsolute_iff : p.isAbsolute = true ↔ ∃ names, p.pieces = "" :: names ∧ names ≠ [] := by
  constructor
  · intro h
    rw [isAbsolute, beq_iff_eq] at h
    obtain ⟨cs, hcs⟩ := List.head?_eq_some_iff.1 h
    refine ⟨pieces ⟨String.ofList cs⟩, ?_, pieces_ne_nil _⟩
    have htext : p = ⟨"" ++ "/" ++ String.ofList cs⟩ := by
      cases p
      rw [mk.injEq, ← String.toList_inj, hcs]
      simp
    rw [htext, pieces_slash]
    rfl
  · rintro ⟨names, h, hne⟩
    rw [isAbsolute, ← p.text_eq, h, String.intercalate_cons_of_ne_nil hne]
    simp

/-- A path ends in a slash or is empty if its last piece is. -/
theorem isOpen_iff (hp : p.pieces = before ++ [last]) :
    (p.isEmpty || p.text.toList.getLast? == some '/') = true ↔ last = "" := by
  have hlast : '/' ∉ last.toList :=
    not_mem_of_mem_pieces (hp ▸ List.mem_append_right _ (List.mem_singleton_self last))
  rw [Bool.or_eq_true, isEmpty_iff, hp, beq_iff_eq]
  rcases before with _ | ⟨name, before⟩
  · have htext : p.text = last := by
      rw [← p.text_eq, hp]
      exact String.intercalate_singleton
    rw [htext]
    constructor
    · rintro (h | h)
      · exact List.singleton_inj.1 h
      · exact absurd (List.mem_of_getLast? h) hlast
    · rintro rfl
      exact .inl rfl
  · have htext : p.text = "/".intercalate (name :: before) ++ "/" ++ last := by
      rw [← p.text_eq, hp, String.intercalate_append_of_ne_nil (by simp) (by simp),
        String.intercalate_singleton]
    rw [htext]
    constructor
    · rintro (h | h)
      · simp at h
      · rcases List.eq_nil_or_concat last.toList with hempty | ⟨cs, c, hcs⟩
        · exact String.toList_inj.1 hempty
        · rw [String.toList_append, hcs, List.concat_eq_append, ← List.append_assoc,
            List.getLast?_concat, Option.some_inj] at h
          have hslash : '/' ∈ last.toList := by
            rw [hcs, h]
            simp
          exact absurd hslash hlast
    · rintro rfl
      exact .inr (by simp)

/-- The pieces of a relative path follow those of the directory, in place of an empty last one. -/
theorem pieces_join (hp : p.pieces = before ++ [last]) (hq : q.isAbsolute = false) :
    (p.join q).pieces = (if last = "" then before else before ++ [last]) ++ q.pieces := by
  unfold join
  rw [hq, if_neg Bool.false_ne_true]
  split
  · next hopen =>
    have hempty := (isOpen_iff hp).1 hopen
    rw [if_pos hempty, pieces_append hp, hempty, String.empty_append]
  · next hclosed =>
    rw [if_neg fun hempty => hclosed ((isOpen_iff hp).2 hempty), pieces_slash, ← hp]

/-- Joining goes on from where the directory leads, whatever the pieces do, if empty ones do
nothing. -/
theorem foldl_pieces_join {β : Type} {f : β → String → β} (hf : ∀ b, f b "" = b)
    (hq : q.isAbsolute = false) (b : β) :
    (p.join q).pieces.foldl f b = q.pieces.foldl f (p.pieces.foldl f b) := by
  obtain ⟨before, last, hp⟩ := p.exists_pieces
  rw [pieces_join hp hq, List.foldl_append, hp]
  split
  · next hempty => rw [hempty, List.foldl_append, List.foldl_cons, List.foldl_nil, hf]
  · rfl

/-- A text behind a path that is not empty leaves its start as it is. -/
theorem isAbsolute_append (h : p.isEmpty = false) (tail : String) :
    isAbsolute ⟨p.text ++ tail⟩ = p.isAbsolute := by
  rw [isEmpty, beq_eq_false_iff_ne] at h
  have hne : p.text.toList ≠ [] := fun hnil => h (String.toList_inj.1 hnil)
  obtain ⟨c, cs, hcs⟩ := List.exists_cons_of_ne_nil hne
  simp only [isAbsolute, String.toList_append, hcs, List.cons_append, List.head?_cons]

theorem isEmpty_append (h : p.isEmpty = false) (tail : String) :
    isEmpty ⟨p.text ++ tail⟩ = false := by
  rw [isEmpty, beq_eq_false_iff_ne] at h ⊢
  exact fun hnil => h (String.append_eq_empty_iff.1 hnil).1

/-- A path whose first piece says something is relative and not empty. -/
theorem relative_of_pieces {first : String} {more : List String} (hp : p.pieces = first :: more)
    (hfirst : first ≠ "") : p.isAbsolute = false ∧ p.isEmpty = false := by
  rw [← Bool.not_eq_true, ← Bool.not_eq_true, isAbsolute_iff, isEmpty_iff, hp]
  refine ⟨?_, fun h => hfirst (List.cons.inj h).1⟩
  rintro ⟨names, h, _⟩
  exact hfirst (List.cons.inj h).1

theorem isAbsolute_join_eq (hq : q.isAbsolute = false) : (p.join q).isAbsolute = p.isAbsolute := by
  unfold join
  rw [hq, if_neg Bool.false_ne_true]
  rcases hempty : p.isEmpty with _ | _
  · split
    · exact isAbsolute_append hempty _
    · rw [String.append_assoc]
      exact isAbsolute_append hempty _
  · have htext : p = ⟨""⟩ := pieces_inj (isEmpty_iff.1 hempty)
    rw [htext, String.empty_append]
    exact hq

/-- A text that may stand between slashes and says something. -/
structure IsPiece (name : String) : Prop where
  ne_empty : name ≠ ""
  no_slash : '/' ∉ name.toList

theorem IsPiece.isAbsolute {name : String} (h : IsPiece name) : isAbsolute ⟨name⟩ = false :=
  (relative_of_pieces (pieces_of_not_mem h.no_slash) h.ne_empty).1

/-- Names joined to a path that does not end in a slash are its next pieces. -/
theorem pieces_foldl_join {names : List String} (hnames : ∀ name ∈ names, IsPiece name)
    (hp : p.pieces = before ++ [last]) (hlast : last ≠ "") :
    (names.foldl (fun p name => p.join ⟨name⟩) p).pieces = p.pieces ++ names := by
  induction names generalizing p before last with
  | nil => exact (List.append_nil _).symm
  | cons name names ih =>
    have hname := hnames name List.mem_cons_self
    have hjoin : (p.join ⟨name⟩).pieces = p.pieces ++ [name] := by
      rw [pieces_join hp hname.isAbsolute, if_neg hlast, pieces_of_not_mem hname.no_slash, hp]
    rw [List.foldl_cons, ih (fun n hn => hnames n (List.mem_cons_of_mem _ hn)) hjoin hname.ne_empty,
      hjoin, List.append_assoc]
    rfl

/-- Names joined one after the other are the pieces of the path. -/
theorem pieces_joined {names : List String} (hne : names ≠ [])
    (hnames : ∀ name ∈ names, IsPiece name) :
    (names.foldl (fun (p : Path) name => p.join ⟨name⟩) ⟨""⟩).pieces = names := by
  rcases names with _ | ⟨name, names⟩
  · exact absurd rfl hne
  · have hname := hnames name List.mem_cons_self
    have hstart : pieces ⟨""⟩ = [] ++ [""] := rfl
    have hfirst : (join ⟨""⟩ ⟨name⟩).pieces = [] ++ [name] := by
      rw [pieces_join hstart hname.isAbsolute, if_pos rfl, pieces_of_not_mem hname.no_slash]
    rw [List.foldl_cons, pieces_foldl_join (fun n hn => hnames n (List.mem_cons_of_mem _ hn)) hfirst
      hname.ne_empty, hfirst]
    rfl

/-- The directory that a file is in, by the text of its path. -/
def directory (p : Path) : Path :=
  p.parent?.getD ⟨"/"⟩

theorem isAbsolute_directory (h : p.isAbsolute = true) : p.directory.isAbsolute = true := by
  obtain ⟨body, hpieces, _⟩ := isAbsolute_iff.1 h
  unfold directory parent?
  rw [hpieces]
  dsimp only
  split
  · rfl
  · split
    · rfl
    · next hne =>
      rw [Option.getD_some, isAbsolute, String.intercalate_cons_of_ne_nil fun h => hne h]
      simp

/-- A path that says something ends in a piece, and perhaps void ones after it. Its directory is
what stands before that piece, up to void pieces. -/
structure Splits (p : Path) (above : List String) (piece : String) (voids : List String) :
    Prop where
  pieces_eq : p.pieces = above ++ piece :: voids
  not_void : isVoid piece = false
  void : ∀ name ∈ voids, isVoid name = true
  isAbsolute_eq : p.directory.isAbsolute = p.isAbsolute
  directory_eq : ∀ {β : Type} (f : β → String → β), (∀ b name, isVoid name = true → f b name = b) →
    ∀ b, p.directory.pieces.foldl f b = above.foldl f b

theorem foldl_void {β : Type} {f : β → String → β}
    (hf : ∀ b name, isVoid name = true → f b name = b) {names : List String}
    (hnames : ∀ name ∈ names, isVoid name = true) (b : β) : names.foldl f b = b := by
  induction names with
  | nil => rfl
  | cons name names ih =>
    rw [List.foldl_cons, hf b name (hnames name List.mem_cons_self)]
    exact ih fun n hn => hnames n (List.mem_cons_of_mem _ hn)

/-- A list of pieces without the void ones at its end, and these. -/
theorem exists_voids (names : List String) :
    ∃ voids, names = (names.reverse.dropWhile isVoid).reverse ++ voids ∧
      ∀ name ∈ voids, isVoid name = true := by
  refine ⟨(names.reverse.takeWhile isVoid).reverse, ?_, fun name h => ?_⟩
  · rw [← List.reverse_append, List.takeWhile_append_dropWhile, List.reverse_reverse]
  · exact List.all_eq_true.1 (List.all_takeWhile (l := names.reverse)) name (List.mem_reverse.1 h)

theorem isAbsolute_of_pieces {first : String} {more : List String} (hp : p.pieces = first :: more)
    (hmore : more ≠ []) : p.isAbsolute = (first == "") := by
  rw [Bool.eq_iff_iff, isAbsolute_iff, beq_iff_eq, hp]
  constructor
  · rintro ⟨names, h, _⟩
    exact (List.cons.inj h).1
  · rintro rfl
    exact ⟨more, rfl, hmore⟩

theorem pieces_intercalate {names : List String} (hne : names ≠ [])
    (hnames : ∀ name ∈ names, '/' ∉ name.toList) : pieces ⟨"/".intercalate names⟩ = names :=
  Text.pieces_intercalate hne hnames

/-- The directory of a path that has a piece after its first one that says something. -/
theorem directory_of_kept {first piece : String} {body before : List String}
    (hp : p.pieces = first :: body) (hkept : body.reverse.dropWhile isVoid = piece :: before) :
    p.directory.isAbsolute = (first == "") ∧
      ∀ {β : Type} (f : β → String → β), (∀ b name, isVoid name = true → f b name = b) →
        ∀ b, p.directory.pieces.foldl f b =
          (first :: (before.dropWhile isVoid).reverse).foldl f b := by
  have hslash : ∀ name ∈ first :: (before.dropWhile isVoid).reverse, '/' ∉ name.toList := by
    intro name h
    refine @not_mem_of_mem_pieces p name ?_
    rw [hp]
    rcases List.mem_cons.1 h with rfl | h
    · exact List.mem_cons_self
    · have hbefore := (List.dropWhile_sublist isVoid).subset (List.mem_reverse.1 h)
      have hbody : name ∈ body.reverse.dropWhile isVoid := by
        rw [hkept]
        exact List.mem_cons_of_mem _ hbefore
      have hreverse := (List.dropWhile_sublist isVoid).subset hbody
      exact List.mem_cons_of_mem _ (List.mem_reverse.1 hreverse)
  rcases hkeep : (before.dropWhile isVoid).reverse with _ | ⟨name, names⟩
  · by_cases hfirst : first = ""
    · have hdirectory : p.directory = ⟨"/"⟩ := by
        simp only [directory, parent?, hp, hkept, hkeep, if_pos hfirst, Option.getD_some]
      have hroot : pieces ⟨"/"⟩ = ["", ""] := by decide
      rw [hdirectory, hroot, hfirst]
      exact ⟨rfl, fun f hf b => hf _ "" rfl⟩
    · have hdirectory : p.directory = ⟨first⟩ := by
        simp only [directory, parent?, hp, hkept, hkeep, if_neg hfirst, Option.getD_some]
      have hpieces := pieces_of_not_mem (hslash first List.mem_cons_self)
      rw [hdirectory, hpieces, (relative_of_pieces hpieces hfirst).1]
      exact ⟨(beq_eq_false_iff_ne.2 hfirst).symm, fun f _ b => rfl⟩
  · have hdirectory : p.directory = ⟨"/".intercalate (first :: name :: names)⟩ := by
      simp only [directory, parent?, hp, hkept, hkeep, Option.getD_some]
    rw [hkeep] at hslash
    have hpieces := pieces_intercalate (List.cons_ne_nil first _) hslash
    rw [hdirectory, isAbsolute_of_pieces hpieces (List.cons_ne_nil name names), hpieces]
    exact ⟨rfl, fun f _ b => rfl⟩

/-- A path says nothing, or it splits. -/
theorem exists_splits (p : Path) :
    (∀ name ∈ p.pieces, isVoid name = true) ∨ ∃ above piece voids, Splits p above piece voids := by
  obtain ⟨first, body, hp⟩ := List.exists_cons_of_ne_nil p.pieces_ne_nil
  obtain ⟨voids, hbody, hvoids⟩ := exists_voids body
  rcases hkept : body.reverse.dropWhile isVoid with _ | ⟨piece, before⟩
  · rw [hkept] at hbody
    rcases hnotvoid : isVoid first with _ | _
    · have hfirst : first ≠ "" := by
        rintro rfl
        cases hnotvoid
      have hdirectory : p.directory = ⟨""⟩ := by
        simp only [directory, parent?, hp, hkept, if_neg hfirst, Option.getD_some]
      refine .inr ⟨[], first, body, hp, hnotvoid, ?_, ?_, fun f hf b => ?_⟩
      · rw [hbody]
        exact hvoids
      · rw [hdirectory, (relative_of_pieces hp hfirst).1]
        rfl
      · rw [hdirectory]
        exact hf b "" rfl
    · refine .inl fun name h => ?_
      rw [hp, hbody] at h
      rcases List.mem_cons.1 h with rfl | h
      · exact hnotvoid
      · exact hvoids name h
  · have hnotvoid : isVoid piece = false := by
      have hhead := List.head?_dropWhile_not isVoid body.reverse
      rw [hkept] at hhead
      exact hhead
    rw [hkept, List.reverse_cons] at hbody
    obtain ⟨more, hbefore, hmore⟩ := exists_voids before.reverse
    rw [List.reverse_reverse] at hbefore
    have hpieces : p.pieces = (first :: before.reverse) ++ piece :: voids := by
      rw [hp, hbody, List.append_assoc]
      rfl
    have habsolute : p.isAbsolute = (first == "") :=
      isAbsolute_of_pieces hpieces (List.append_ne_nil_of_right_ne_nil _ (List.cons_ne_nil _ _))
    have hfold : ∀ {β : Type} (f : β → String → β), (∀ b name, isVoid name = true → f b name = b) →
        ∀ b, (first :: before.reverse).foldl f b =
          (first :: (before.dropWhile isVoid).reverse).foldl f b := by
      intro β f hf b
      rw [hbefore, ← List.cons_append, List.foldl_append, foldl_void hf hmore]
    refine .inr ⟨first :: before.reverse, piece, voids, hpieces, hnotvoid, hvoids, ?_,
      fun f hf b => ?_⟩
    · rw [habsolute]
      exact (directory_of_kept hp hkept).1
    · rw [hfold f hf]
      exact (directory_of_kept hp hkept).2 f hf b

end Path

end ScriptBuild
