import AppBundle.Proofs.Path

/-!
# Beginnings and ends of paths

A path begins with another, or ends with it, segment by segment: it does when it is the
other path continued (`Path.startsWith_iff`), or another path continued with it
(`Path.endsWith_iff`).  In texts this is a beginning up to a separator
(`Path.startsWith_iff_toText`), so `dir1longer` does not begin with `dir1`.

To begin with a path is a partial order.  A path stands behind those that it begins with
(`Path.le_of_startsWith`), though not the other way round.
-/

namespace AppBundle.Path

variable {p q r : Path}

theorem names_eq_nil_iff : p.names = [] ↔ p = root := ⟨fun h => Path.ext h, fun h => h ▸ rfl⟩

/-! ## Segments -/

@[simp] theorem names_resolve (p q : Path) : (p.resolve q).names = p.names ++ q.names := rfl

theorem startsWith_iff_names : p.startsWith q ↔ q.names <+: p.names :=
  List.isPrefixOf_iff_prefix

/-- A path begins with those that it continues. -/
theorem startsWith_iff : p.startsWith q ↔ ∃ r, p = q.resolve r := by
  rw [startsWith_iff_names]
  constructor
  · rintro ⟨names, hnames⟩
    have hsegments : ∀ name ∈ names, IsSegment name := fun name hname =>
      p.segments name (hnames ▸ List.mem_append_right _ hname)
    exact ⟨⟨names, hsegments⟩, Path.ext hnames.symm⟩
  · rintro ⟨r, rfl⟩
    exact List.prefix_append _ _

/-- A path ends with those that another one is continued with. -/
theorem endsWith_iff : p.endsWith q ↔ ∃ r : Path, p = r.resolve q := by
  rw [endsWith, List.isSuffixOf_iff_suffix]
  constructor
  · rintro ⟨names, hnames⟩
    have hsegments : ∀ name ∈ names, IsSegment name := fun name hname =>
      p.segments name (hnames ▸ List.mem_append_left _ hname)
    exact ⟨⟨names, hsegments⟩, Path.ext hnames.symm⟩
  · rintro ⟨r, rfl⟩
    exact List.suffix_append _ _

/-! ## Texts -/

/-- A separator stands between two paths, unless one of them is empty. -/
theorem toText_resolve (hp : p ≠ root) (hq : q ≠ root) :
    (p.resolve q).toText = p.toText ++ "/" ++ q.toText :=
  String.intercalate_append_of_ne_nil (fun h => hp (names_eq_nil_iff.1 h))
    fun h => hq (names_eq_nil_iff.1 h)

/-- A path begins with the empty one, with itself, and with what its text says up to a
separator. -/
theorem startsWith_iff_toText : p.startsWith q ↔
    q = root ∨ p.toText = q.toText ∨ ∃ rest, p.toText = q.toText ++ "/" ++ rest := by
  constructor
  · rw [startsWith_iff]
    rintro ⟨r, rfl⟩
    by_cases hq : q = root
    · exact .inl hq
    · by_cases hr : r = root
      · have hsame : q.resolve r = q := by
          rw [hr]
          exact Path.ext (List.append_nil _)
        exact .inr (.inl (congrArg toText hsame))
      · exact .inr (.inr ⟨r.toText, toText_resolve hq hr⟩)
  · rw [startsWith_iff_names]
    rintro (rfl | h | ⟨rest, h⟩)
    · exact List.nil_prefix
    · obtain rfl := toText_inj.1 h
      exact List.prefix_rfl
    · rw [← pieces_toText p, h, pieces_append, pieces_toText]
      exact List.prefix_append _ _

/-! ## Order -/

theorem startsWith_refl (p : Path) : p.startsWith p := startsWith_iff_names.2 List.prefix_rfl

theorem startsWith_trans (h : p.startsWith q) (h' : q.startsWith r) : p.startsWith r := by
  rw [startsWith_iff_names] at h h' ⊢
  exact h'.trans h

theorem startsWith_antisymm (h : p.startsWith q) (h' : q.startsWith p) : p = q := by
  rw [startsWith_iff_names] at h h'
  exact Path.ext (h'.eq_of_length_le h.length_le)

/-- A path stands behind those that it begins with. -/
theorem le_of_startsWith (h : p.startsWith q) : q ≤ p := (startsWith_iff_names.1 h).le

/-! ## The last segment -/

/-- A path is its parent continued with its file name, unless it is empty. -/
theorem exists_parent?_fileName? (h : p ≠ root) : ∃ parent name,
    p.parent? = some parent ∧ p.fileName? = some name ∧ parent.resolve name = p := by
  have hnames : p.names ≠ [] := fun hnil => h (names_eq_nil_iff.1 hnil)
  have hparent := map_parent? p
  have hname := map_fileName? p
  rw [butLast?, if_neg hnames] at hparent
  rw [List.getLast?_eq_some_getLast hnames] at hname
  obtain ⟨parent, hparent, hfront⟩ := Option.map_eq_some_iff.1 hparent
  obtain ⟨name, hname, hlast⟩ := Option.map_eq_some_iff.1 hname
  refine ⟨parent, name, hparent, hname, Path.ext ?_⟩
  rw [names_resolve, hfront, hlast, List.dropLast_concat_getLast]

end AppBundle.Path
