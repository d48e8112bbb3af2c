import AppBundle.Proofs.Module.Built
import AppBundle.Proofs.Path

/-!
# Histories of a module

A draft is filled and built, and the module moves or is taken up as a draft again.
An `Operation` is one such step, a `Stage` is what there is between two of them, and
`Stage.run` carries out a list of steps.  A step that fails leaves the stage as it
is, except that the entries before a failing one stay.

Whatever was done, a draft is one that can come up and a module is one that was
built (`Stage.sound_run`).  So the entries are in order at any time: each stands
under its own path, and none at a well-known path, whatever text led to it
(`Stage.generic_run`).
-/

namespace AppBundle

/-! ## Entries at plain paths -/

/-- A path is plain when its text is that of no well-known path. -/
theorem WellKnown.ofPath?_eq_none_iff {p : Path} :
    ofPath? p = none ↔ ∀ known : WellKnown, p.toText ≠ known.path.toText := by
  simp only [ofPath?, List.find?_eq_none, decide_eq_true_eq, Ne, Path.toText_inj]
  constructor
  · intro h known heq
    exact h known (by cases known <;> decide) heq.symm
  · intro h known _ heq
    exact h known heq.symm

/-- Entries that stand under their own paths, none of which is well known. -/
structure Entries.Generic (es : Entries) : Prop where
  path_eq : ∀ p e, es.get? p = some e → e.path = p
  /-- Its path has not the text of a well-known one. -/
  text_ne : ∀ p e, es.get? p = some e → ∀ known : WellKnown, e.path.toText ≠ known.path.toText
  /-- No text leads to an entry at a well-known path. -/
  unreached : ∀ text p, Path.ofText? text = .ok p → ∀ known : WellKnown,
    p.toText = known.path.toText → es.get? p = none

theorem Entries.Generic.of_keyed {es : Entries} (hkeyed : es.Keyed) (hplain : es.Plain) :
    es.Generic where
  path_eq := hkeyed
  text_ne p e he := by
    rw [hkeyed p e he]
    exact WellKnown.ofPath?_eq_none_iff.1 (hplain p e he)
  unreached _ p _ known hp := by
    cases he : es.get? p with
    | none => rfl
    | some e => exact absurd hp (WellKnown.ofPath?_eq_none_iff.1 (hplain p e he) known)

/-! ## Operations -/

/-- What can be done to a draft or to a module. -/
inductive Operation where
  /-- An entry is added to a draft. -/
  | add (e : Entry)
  /-- Entries are added to a draft, up to the first that cannot be. -/
  | addAll (es : List Entry)
  /-- The entry under a path is dropped from a draft. -/
  | erase (p : Path)
  /-- A draft is given its manifest or a configuration. -/
  | set (known : WellKnown) (c : known.Content)
  /-- A module is built from a draft. -/
  | build
  /-- A module is taken up as a draft again. -/
  | reopen
  /-- A module moves to another package number. -/
  | move (new : UInt32)

/-- A draft, or the module that was built from it. -/
inductive Stage where
  | draft (d : Draft)
  | built (m : Module)

namespace Stage

def entries : Stage → Entries
  | draft d => d.entries
  | built m => m.entries

/-- What an operation makes of a draft or a module.  One that fails, or that is for
the other of the two, changes nothing. -/
def perform : Stage → Operation → Stage
  | draft d, .add e =>
    match d.add? e with
    | .ok d' => draft d'
    | .error _ => draft d
  | draft d, .addAll es => draft (d.addAll es).1
  | draft d, .erase p => draft (d.erase p)
  | draft d, .set known c => draft (d.setContent known c)
  | draft d, .build =>
    match d.build? with
    | .ok m => built m
    | .error _ => draft d
  | built m, .reopen => draft m.toDraft
  | built m, .move new =>
    match m.move? new with
    | .ok m' => built m'
    | .error _ => built m
  | s, _ => s

/-- What a list of operations makes of a new draft. -/
def run (name : String) (context : Context) (os : List Operation) : Stage :=
  os.foldl perform (draft { name, context })

def Sound : Stage → Prop
  | draft d => d.Reachable
  | built m => m.Built

end Stage

/-! ## Runs -/

namespace Draft.Reachable

variable {d : Draft}

theorem setContent (h : d.Reachable) {known : WellKnown} (c : known.Content) :
    (d.setContent known c).Reachable := by
  cases known with
  | manifest => exact .setManifest c h
  | table => exact .configure ({ · with table := some c }) h
  | native => exact .configure ({ · with native := some c }) h
  | assets => exact .configure ({ · with assets := some c }) h
  | apex => exact .configure ({ · with apex := some c }) h
  | sdk => exact .configure ({ · with sdk := some c }) h

theorem addAll {es : List Entry} (h : d.Reachable) : (d.addAll es).1.Reachable := by
  induction es generalizing d with
  | nil => exact h
  | cons e es ih =>
    rw [Draft.addAll]
    split
    · rename_i hadd
      exact ih (.add h hadd)
    · exact h

end Draft.Reachable

namespace Stage

variable {s : Stage}

/-- Each operation leads from what can come up to what can come up. -/
theorem Sound.perform (h : s.Sound) (o : Operation) : (s.perform o).Sound := by
  cases s with
  | draft d =>
    cases o with
    | add e =>
      simp only [Stage.perform]
      split
      · rename_i hadd
        exact Draft.Reachable.add h hadd
      · exact h
    | addAll es => exact Draft.Reachable.addAll h
    | erase p => exact Draft.Reachable.erase p h
    | set known c => exact Draft.Reachable.setContent h c
    | build =>
      simp only [Stage.perform]
      split
      · rename_i hbuild
        exact ⟨d, h, hbuild⟩
      · exact h
    | reopen => exact h
    | move new => exact h
  | built m =>
    cases o with
    | reopen => exact Module.Built.reachable_toDraft h
    | move new =>
      simp only [Stage.perform]
      split
      · rename_i hmove
        exact Module.Built.move h hmove
      · exact h
    | _ => exact h

theorem sound_run (name : String) (context : Context) (os : List Operation) :
    (run name context os).Sound := by
  have hfold : ∀ s : Stage, s.Sound → (os.foldl perform s).Sound := by
    induction os with
    | nil => exact fun _ hs => hs
    | cons o os ih => exact fun s hs => ih (s.perform o) (hs.perform o)
  exact hfold _ (.start name context)

theorem Sound.generic (h : s.Sound) : s.entries.Generic := by
  cases s with
  | draft d => exact .of_keyed (Draft.Reachable.keyed h) (Draft.Reachable.plain h)
  | built m => exact .of_keyed (fun _ _ => Module.Built.path_eq h) (Module.Built.plain h)

/-- At the end of any run each entry stands under its own path, and none at a
well-known one. -/
theorem generic_run (name : String) (context : Context) (os : List Operation) :
    (run name context os).entries.Generic :=
  (sound_run name context os).generic

/-- Bytes at a well-known path become a configuration and no entry.  A file there
that cannot be read changes nothing. -/
example : (run "base" {} [.add (.directory ⟨["res"], by decide⟩),
    .add (.ofBytes WellKnown.native.path [0, 0, 0, 0, 0, 0, 0, 0]),
    .add (.vanished WellKnown.manifest.path)]).entries.keys = [⟨["res"], by decide⟩] := by
  decide +kernel

end Stage

end AppBundle
