import AppBundle.Proofs.Module.Rebuild

/-!
# The order of entries

Entries of different paths can be added to a draft in any order.  Whether an entry
can be added does not depend on the draft, only on the entry: at a well-known path
its bytes must be there and must be read.  What an entry changes is the place of its
own path, so two entries of different paths are added in either order
(`Draft.add?_comm`).  A reordering is made of such exchanges, so a list of entries
and a reordering of it lead to the same draft (`Draft.addAll_of_perm`) and to the same
module, if there is one (`Draft.build?_of_perm`).
-/

namespace AppBundle

namespace Draft

variable {d d₁ d₂ : Draft} {e f : Entry} {es es' : List Entry}

/-! ## Two entries -/

theorem insert_comm (d : Draft) (h : e.path ≠ f.path) :
    (d.insert e).insert f = (d.insert f).insert e := by
  refine ext_content? rfl rfl (OrderedMap.ext_get? fun p => ?_) fun known => rfl
  simp only [get?_entries_insert]
  grind

theorem setContent_insert (d : Draft) (e : Entry) {known : WellKnown} (c : known.Content) :
    (d.setContent known c).insert e = (d.insert e).setContent known c := by
  cases known <;> rfl

theorem setContent_comm (d : Draft) {known other : WellKnown} (h : known ≠ other)
    (c : known.Content) (c' : other.Content) :
    (d.setContent known c).setContent other c' = (d.setContent other c').setContent known c := by
  cases known <;> cases other <;> first | rfl | contradiction

/-- A path is known for one thing, and only one path is known for it. -/
theorem path_of_ofPath? {p : Path} {known : WellKnown} (h : WellKnown.ofPath? p = some known) :
    p = known.path := by
  have hfound := List.find?_some h
  rw [decide_eq_true_eq] at hfound
  exact hfound.symm

/-- Two entries of different paths that were added one after the other could have been
added the other way round. -/
theorem add?_comm (hpath : e.path ≠ f.path) (he : d.add? e = .ok d₁) (hf : d₁.add? f = .ok d₂) :
    ∃ d', d.add? f = .ok d' ∧ d'.add? e = .ok d₂ := by
  -- Each of the two is kept, or sets one content.
  rcases ok_of_add? he with ⟨heplain, rfl⟩ | ⟨known, bytes, c, heknown, hebytes, heread, rfl⟩ <;>
    rcases ok_of_add? hf with ⟨hfplain, rfl⟩ | ⟨other, bytes', c', hfknown, hfbytes, hfread, rfl⟩
  · exact ⟨d.insert f, add?_of_plain d hfplain, insert_comm d hpath ▸ add?_of_plain _ heplain⟩
  · exact ⟨d.setContent other c', add?_of_read d hfknown hfbytes hfread,
      setContent_insert d e c' ▸ add?_of_plain _ heplain⟩
  · exact ⟨d.insert f, add?_of_plain d hfplain,
      setContent_insert d f c ▸ add?_of_read _ heknown hebytes heread⟩
  · have hne : known ≠ other := by
      rintro rfl
      exact hpath ((path_of_ofPath? heknown).trans (path_of_ofPath? hfknown).symm)
    exact ⟨d.setContent other c', add?_of_read d hfknown hfbytes hfread,
      setContent_comm d hne c c' ▸ add?_of_read _ heknown hebytes heread⟩

/-! ## Many entries -/

theorem addAll_cons_ok_iff :
    d.addAll (e :: es) = (d₂, .ok ()) ↔ ∃ d', d.add? e = .ok d' ∧ d'.addAll es = (d₂, .ok ()) := by
  rw [addAll]
  cases d.add? e with
  | ok d' => simp
  | error fault => simp

/-- Entries of different paths that can all be added can be added in any order, and
lead to the same draft. -/
theorem addAll_of_perm (hperm : es.Perm es') (hpaths : (es.map (·.path)).Nodup)
    (h : d.addAll es = (d₂, .ok ())) : d.addAll es' = (d₂, .ok ()) := by
  induction hperm generalizing d with
  | nil => exact h
  | cons e _ ih =>
    obtain ⟨d', he, hrest⟩ := addAll_cons_ok_iff.1 h
    rw [List.map_cons, List.nodup_cons] at hpaths
    exact addAll_cons_ok_iff.2 ⟨d', he, ih hpaths.2 hrest⟩
  | swap e f es =>
    obtain ⟨d', hf, h⟩ := addAll_cons_ok_iff.1 h
    obtain ⟨d'', he, hrest⟩ := addAll_cons_ok_iff.1 h
    have hpath : f.path ≠ e.path := by
      rw [List.map_cons, List.nodup_cons] at hpaths
      exact fun heq => hpaths.1 (List.mem_map.2 ⟨e, List.mem_cons_self, heq.symm⟩)
    obtain ⟨d₁, he, hf⟩ := add?_comm hpath hf he
    exact addAll_cons_ok_iff.2 ⟨d₁, he, addAll_cons_ok_iff.2 ⟨d'', hf, hrest⟩⟩
  | trans hfirst _ ih ih' =>
    exact ih' ((hfirst.map _).nodup_iff.1 hpaths) (ih hpaths h)

/-- Entries of different paths make a module of a draft if they do in any other order,
and it is the same module. -/
theorem build?_of_perm (d : Draft) (hperm : es.Perm es') (hpaths : (es.map (·.path)).Nodup)
    (m : Module) :
    (∃ d', d.addAll es = (d', .ok ()) ∧ d'.build? = .ok m) ↔
      ∃ d', d.addAll es' = (d', .ok ()) ∧ d'.build? = .ok m := by
  have hpaths' : (es'.map (·.path)).Nodup := (hperm.map _).nodup_iff.1 hpaths
  constructor
  · rintro ⟨d', hadd, hbuild⟩
    exact ⟨d', addAll_of_perm hperm hpaths hadd, hbuild⟩
  · rintro ⟨d', hadd, hbuild⟩
    exact ⟨d', addAll_of_perm hperm.symm hpaths' hadd, hbuild⟩

/-- Entries that are kept and entries that are read, the manifest between them. -/
def leafEntries : List Entry := [
  .ofBytes ⟨["assets", "astc", "twig"], by decide⟩ [1],
  .ofBytes WellKnown.manifest.path Module.packageManifest,
  .vanished ⟨["assets", "astc", "bark"], by decide⟩,
  .ofBytes WellKnown.assets.path Module.astcAssets]

theorem build?_of_perm_leafEntries :
    ∃ m d d', addAll { name := "leaves", context := {} } leafEntries = (d, .ok ()) ∧
      d.build? = .ok m ∧
      addAll { name := "leaves", context := {} } leafEntries.reverse = (d', .ok ()) ∧
      d'.build? = .ok m := by
  have hall : (addAll { name := "leaves", context := {} } leafEntries).2.isOk := by decide +kernel
  have hmodule : (addAll { name := "leaves", context := {} } leafEntries).1.build?.isOk := by
    decide +kernel
  rcases hadd : addAll { name := "leaves", context := {} } leafEntries with ⟨d, result⟩
  rw [hadd] at hall hmodule
  obtain ⟨⟨⟩, rfl⟩ := Step.ok_of_isOk hall
  obtain ⟨m, hbuild⟩ := Step.ok_of_isOk hmodule
  obtain ⟨d', hadd', hbuild'⟩ := (build?_of_perm { name := "leaves", context := {} }
    (List.reverse_perm leafEntries).symm (by decide +kernel) m).1 ⟨d, hadd, hbuild⟩
  exact ⟨m, d, d', rfl, hbuild, hadd', hbuild'⟩

end Draft

end AppBundle
