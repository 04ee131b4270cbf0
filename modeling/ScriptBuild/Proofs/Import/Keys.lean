import ScriptBuild.Proofs.Import.Nesting

/-!
# What a key says of a request

A module is kept under the specifier that it was asked for with and, if that is relative, the file
that asked: the two texts with an `@` between them. Main statements: `key_eq_iff` says which
requests share a key, because a specifier may have an `@` in it too, and `Within.sourced` that a
module in the cache was loaded for a request with its key.
-/

namespace ScriptBuild

namespace Request

variable {r q : Request}

/-- What the key adds to the specifier. -/
def suffix (r : Request) : String :=
  match r.origin with
  | some file => if Specifier.isRelative r.specifier then "@" ++ file.text else ""
  | none => ""

/-- The requests ask for the same: the specifier is the same and, if it is relative, the file that
asks. -/
structure Same (r q : Request) : Prop where
  specifier_eq : r.specifier = q.specifier
  origin_eq : Specifier.isRelative r.specifier = true → r.origin = q.origin

/-- The specifier of the second request spells out the first one's, the `@` and the beginning of the
first one's origin, and the key of the second request adds the rest of that. -/
inductive Shadows (r q : Request) : Prop where
  | intro {file : Path} {rest : String} (relative : Specifier.isRelative r.specifier = true)
      (origin : r.origin = some file) (specifier : q.specifier = r.specifier ++ "@" ++ rest)
      (text : file.text = rest ++ q.suffix) : Shadows r q

theorem suffix_of_none (h : r.origin = none) : r.suffix = "" := by
  rw [suffix, h]

theorem suffix_of_relative {file : Path} (horigin : r.origin = some file)
    (h : Specifier.isRelative r.specifier = true) : r.suffix = "@" ++ file.text := by
  simp only [suffix, horigin, h, if_true]

theorem suffix_of_qualified (h : ¬ Specifier.isRelative r.specifier = true) : r.suffix = "" := by
  unfold suffix
  split
  · rw [if_neg h]
  · rfl

theorem key_eq (r : Request) : r.key = r.specifier ++ r.suffix := by
  by_cases hrelative : Specifier.isRelative r.specifier = true
  · rcases horigin : r.origin with _ | file
    · rw [suffix_of_none horigin, String.append_empty, key, horigin]
    · rw [suffix_of_relative horigin hrelative, key, horigin]
      simp only [hrelative, if_true, String.append_assoc]
  · rw [suffix_of_qualified hrelative, String.append_empty]
    exact key_of_qualified (Bool.not_eq_true _ ▸ hrelative)

/-- A key that adds something adds the origin of a relative specifier. -/
theorem relative_of_suffix {c : Char} {cs : List Char} (h : r.suffix.toList = c :: cs) :
    Specifier.isRelative r.specifier = true ∧ ∃ file, r.origin = some file ∧
      c = '@' ∧ file.text.toList = cs := by
  by_cases hrelative : Specifier.isRelative r.specifier = true
  · rcases horigin : r.origin with _ | file
    · rw [suffix_of_none horigin] at h
      cases h
    · rw [suffix_of_relative horigin hrelative, String.toList_append] at h
      obtain ⟨rfl, hcs⟩ := List.cons.inj h
      exact ⟨hrelative, file, rfl, rfl, hcs⟩
  · rw [suffix_of_qualified hrelative] at h
    cases h

/-- The keys of one relative specifier tell the files that ask apart. -/
theorem key_eq_iff_of_origin {file file' : Path} (hspecifier : r.specifier = q.specifier)
    (hrelative : Specifier.isRelative r.specifier = true) (horigin : r.origin = some file)
    (horigin' : q.origin = some file') : r.key = q.key ↔ file = file' := by
  rw [r.key_eq, q.key_eq, suffix_of_relative horigin hrelative,
    suffix_of_relative horigin' (hspecifier ▸ hrelative), hspecifier, String.append_right_inj,
    String.append_right_inj]
  cases file
  cases file'
  exact ⟨congrArg Path.mk, congrArg Path.text⟩

theorem Same.of_suffix (hspecifier : r.specifier = q.specifier) (h : r.suffix = q.suffix) :
    r.Same q := by
  refine ⟨hspecifier, fun hrelative => ?_⟩
  have hrelative' := hspecifier ▸ hrelative
  rcases horigin : r.origin with _ | file <;> rcases horigin' : q.origin with _ | file'
  · rfl
  · rw [suffix_of_none horigin, suffix_of_relative horigin' hrelative', ← String.toList_inj,
      String.toList_append] at h
    cases h
  · rw [suffix_of_none horigin', suffix_of_relative horigin hrelative, ← String.toList_inj,
      String.toList_append] at h
    cases h
  · have hkey : r.key = q.key := by rw [r.key_eq, q.key_eq, hspecifier, h]
    rw [(key_eq_iff_of_origin hspecifier hrelative horigin horigin').1 hkey]

theorem Same.key_eq (h : r.Same q) : r.key = q.key := by
  obtain ⟨hspecifier, horigin⟩ := h
  by_cases hrelative : Specifier.isRelative r.specifier = true
  · have : r = q := by
      cases r
      cases q
      cases hspecifier
      cases horigin hrelative
      rfl
    rw [this]
  · have hqualified : Specifier.isRelative r.specifier = false := Bool.not_eq_true _ ▸ hrelative
    rw [key_of_qualified hqualified, key_of_qualified (hspecifier ▸ hqualified), hspecifier]

theorem Shadows.key_eq (h : r.Shadows q) : r.key = q.key := by
  obtain ⟨hrelative, horigin, hspecifier, htext⟩ := h
  rw [r.key_eq, q.key_eq, suffix_of_relative horigin hrelative, hspecifier, htext]
  simp only [String.append_assoc]

/-- If one specifier goes on where the other one ends, the key of that one adds the difference. -/
theorem same_or_shadows {more : List Char}
    (hspecifier : q.specifier.toList = r.specifier.toList ++ more)
    (hsuffix : r.suffix.toList = more ++ q.suffix.toList) : r.Same q ∨ r.Shadows q := by
  rcases more with _ | ⟨c, rest⟩
  · rw [List.append_nil, String.toList_inj] at hspecifier
    rw [List.nil_append, String.toList_inj] at hsuffix
    exact .inl (.of_suffix hspecifier.symm hsuffix)
  · obtain ⟨hrelative, file, horigin, rfl, htext⟩ := relative_of_suffix hsuffix
    refine .inr (@Shadows.intro r q file (String.ofList rest) hrelative horigin ?_ ?_)
    · rw [← String.toList_inj, hspecifier]
      simp
    · rw [← String.toList_inj, htext]
      simp

/-- Requests share a key exactly if they ask for the same or if the specifier of one spells out what
the key of the other one adds. -/
theorem key_eq_iff : r.key = q.key ↔ r.Same q ∨ r.Shadows q ∨ q.Shadows r := by
  constructor
  · intro h
    rw [r.key_eq, q.key_eq, ← String.toList_inj, String.toList_append, String.toList_append] at h
    rcases List.append_eq_append_iff.1 h with ⟨more, hspecifier, hsuffix⟩ |
      ⟨more, hspecifier, hsuffix⟩
    · exact (same_or_shadows hspecifier hsuffix).imp_right .inl
    · rcases same_or_shadows hspecifier hsuffix with hsame | hshadows
      · refine .inl ⟨hsame.specifier_eq.symm, fun hrelative => ?_⟩
        rw [← hsame.specifier_eq] at hrelative
        exact (hsame.origin_eq hrelative).symm
      · exact .inr (.inr hshadows)
  · rintro (h | h | h)
    · exact h.key_eq
    · exact h.key_eq
    · exact h.key_eq.symm

theorem Shadows.mem_specifier (h : r.Shadows q) : '@' ∈ q.specifier.toList := by
  obtain ⟨_, _, hspecifier, _⟩ := h
  rw [hspecifier]
  simp

/-- Among specifiers that could be looked up in directories, a key stands for one request. -/
theorem key_eq_iff_of_plain (hr : Specifier.isPlain r.specifier = true)
    (hq : Specifier.isPlain q.specifier = true) : r.key = q.key ↔ r.Same q := by
  have plain : ∀ {specifier : String}, Specifier.isPlain specifier = true →
      '@' ∉ specifier.toList := by
    intro specifier h hin
    have hall := List.all_eq_true.1 (Bool.and_eq_true_iff.1 h).2 '@' hin
    revert hall
    decide
  rw [key_eq_iff]
  constructor
  · rintro (h | h | h)
    · exact h
    · exact absurd h.mem_specifier (plain hq)
    · exact absurd h.mem_specifier (plain hr)
  · exact .inl

end Request

namespace Setting

variable {setting : Setting} {s t : State} {r : Request} {m : Moment}

/-- Each module in the cache was loaded for a request with its key. -/
def Sourced (setting : Setting) (s : State) : Prop :=
  ∀ m ∈ s.cache, ∃ r : Request, r.key = m.key ∧ setting.Provides r s.history m.source

theorem Provides.mono {before after : List Event} {source : ModuleSource}
    (h : setting.Provides r before source) (hgrows : before ⊆ after) :
    setting.Provides r after source := by
  cases h with
  | resolved found text read => exact .resolved found text (hgrows read)
  | hosted missing foreign searched text read =>
    exact .hosted missing foreign searched text (hgrows read)
  | builtIn missing builtin => exact .builtIn missing builtin

theorem Sourced.mono (hs : setting.Sourced s) (hcache : t.cache = s.cache)
    (hgrows : s.history ⊆ t.history) : setting.Sourced t := by
  intro m hm
  rw [hcache] at hm
  obtain ⟨r, hkey, hprovides⟩ := hs m hm
  exact ⟨r, hkey, hprovides.mono hgrows⟩

/-- Running scripts puts only such modules into the cache. -/
theorem Evolves.sourced (h : setting.Evolves s t) (hs : setting.Sourced s) : setting.Sourced t := by
  induction h with
  | refl => exact hs
  | counted | exported | linked => exact hs.mono rfl (List.Subset.refl _)
  | imported | read | entered | left => exact hs.mono rfl (List.subset_append_left _ _)
  | trans _ _ ih₁ ih₂ => exact ih₂ (ih₁ hs)
  | abandoned _ _ _ ih =>
    have hbody := ih (hs.mono rfl (List.Subset.refl _))
    exact hbody.mono rfl (List.Subset.refl _)
  | @completed s t r v source _ _ _ origin ih =>
    have hbody := ih (hs.mono rfl (List.Subset.refl _))
    have hgrows : ∀ e : Event, t.history ⊆ t.history ++ [e] := fun e =>
      List.subset_append_left _ _
    intro m hm
    rcases List.mem_append.1 hm with hm | hm
    · obtain ⟨r', hkey, hprovides⟩ := hbody m hm
      exact ⟨r', hkey, hprovides.mono (hgrows _)⟩
    · rw [List.mem_singleton.1 hm]
      exact ⟨r, rfl, origin.mono (hgrows _)⟩

/-- So it is at every moment inside of nested loads. -/
theorem Within.sourced {top : Moment → Prop} (htop : ∀ m, top m → setting.Sourced m.state)
    {outer : List Request} (h : setting.Within top outer m) : setting.Sourced m.state := by
  induction h with
  | direct passed => exact htop _ passed
  | nested _ during ih =>
    obtain ⟨t, hbody, hm | ⟨file, hm⟩⟩ := during.passes.evolves
    · rw [hm]
      exact hbody.sourced (ih.mono rfl (List.Subset.refl _))
    · rw [hm]
      have ht := hbody.sourced (ih.mono rfl (List.Subset.refl _))
      exact ht.mono rfl (List.Subset.refl _)

end Setting

end ScriptBuild
