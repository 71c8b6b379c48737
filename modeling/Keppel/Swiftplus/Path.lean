/-
  Keppel.Swiftplus.Path — the slash paths of the swift-plus storage driver
  (src/unnamed/part_000) and the parts of Go's `path` package it calls.

  Every path the driver sees is rooted: `base.Base` admits only paths matching
  `^(/[A-Za-z0-9._-]+)+$`, and every other path string it builds comes out of
  `path.Dir` or `path.Join`, so out of `path.Clean`. Such a string is `/` followed by
  its components joined with `/`, and it is modelled by the list of those components
  (`render` gives the string back; the root `/` is `[]`). On a rooted path whose
  components are not empty `path.Clean` works component by component: `.` is dropped,
  `..` removes the component before it (at the root it is dropped too). A clean path
  has no `.`, `..` or empty component; the dirnames of the `files` table are all clean,
  and `CleanPath` carries that.

  Proved: `clean` only keeps proper components and leaves a clean path as it is;
  `pathDir` of a clean path drops its last component; `pathJoin` of a clean path and a
  proper name appends it.
-/
import Mathlib.Data.List.Basic

namespace Keppel.Swiftplus

/-- A character `base.Base`'s path pattern allows in a component: `[A-Za-z0-9._-]`. -/
def pathChar (c : Char) : Bool := c.isAlphanum || c == '.' || c == '_' || c == '-'

/-- The paths `base.Base` hands to the driver: `^(/[A-Za-z0-9._-]+)+$`. -/
def Admitted (p : List String) : Prop := p ≠ [] ∧ ∀ c ∈ p, c ≠ "" ∧ c.toList.all pathChar = true

instance (p : List String) : Decidable (Admitted p) := inferInstanceAs (Decidable (_ ∧ _))

/-- The string of a rooted path. -/
def render (p : List String) : String := "/" ++ "/".intercalate p

/-- A component `path.Clean` keeps. -/
def Proper (c : String) : Prop := c ≠ "" ∧ c ≠ "." ∧ c ≠ ".."

instance (c : String) : Decidable (Proper c) := inferInstanceAs (Decidable (_ ∧ _))

/-- One component of `path.Clean`'s scan; `kept` holds the kept components, last first. -/
def cleanStep (kept : List String) (c : String) : List String :=
  if c = "" ∨ c = "." then kept else if c = ".." then kept.tail else c :: kept

/-- `path.Clean` of a rooted path. -/
def clean (p : List String) : List String := (p.foldl cleanStep []).reverse

/-- A path as `path.Clean` returns it: every component proper. -/
def CleanPath := { p : List String // ∀ c ∈ p, Proper c }

instance : DecidableEq CleanPath := inferInstanceAs (DecidableEq { p : List String // ∀ c ∈ p, Proper c })

theorem cleanStep_proper {kept : List String} (h : ∀ c ∈ kept, Proper c) (c : String) :
    ∀ x ∈ cleanStep kept c, Proper x := by
  unfold cleanStep
  split
  · exact h
  split
  · exact fun x hx => h x (List.mem_of_mem_tail hx)
  · rintro x (_ | ⟨_, hx⟩)
    · exact ⟨by tauto, by tauto, by assumption⟩
    · exact h x hx

theorem foldl_cleanStep_proper (p : List String) :
    ∀ kept : List String, (∀ c ∈ kept, Proper c) → ∀ x ∈ p.foldl cleanStep kept, Proper x := by
  induction p with
  | nil => exact fun _ h => h
  | cons c p ih => exact fun kept h => ih _ (cleanStep_proper h c)

theorem clean_proper (p : List String) : ∀ c ∈ clean p, Proper c := fun c hc =>
  foldl_cleanStep_proper p [] (by simp) c (List.mem_reverse.mp hc)

theorem foldl_cleanStep_of_proper (p : List String) :
    ∀ kept : List String, (∀ c ∈ p, Proper c) → p.foldl cleanStep kept = p.reverse ++ kept := by
  induction p with
  | nil => simp
  | cons c p ih =>
    intro kept h
    obtain ⟨h1, h2, h3⟩ := h c (List.mem_cons_self _ _)
    have : cleanStep kept c = c :: kept := by simp [cleanStep, h1, h2, h3]
    simp [this, ih _ fun x hx => h x (List.mem_cons_of_mem _ hx)]

theorem clean_of_proper {p : List String} (h : ∀ c ∈ p, Proper c) : clean p = p := by
  simp [clean, foldl_cleanStep_of_proper p [] h]

/-- `path.Clean` as a clean path. -/
def CleanPath.ofList (p : List String) : CleanPath := ⟨clean p, clean_proper p⟩

/-- The root `/`. -/
def CleanPath.root : CleanPath := ⟨[], by simp⟩

/-- `path.Dir` of a rooted path: `path.Clean` of all but its last component. -/
def pathDir (p : List String) : CleanPath := CleanPath.ofList p.dropLast

/-- `path.Base` of a rooted path: its last component, `/` for the root. -/
def pathBase (p : List String) : String := p.getLast?.getD "/"

/-- `path.Join(d, b)`: `path.Clean` of `d/b`. -/
def pathJoin (d : List String) (b : String) : CleanPath := CleanPath.ofList (d ++ [b])

theorem pathDir_clean (d : CleanPath) : (pathDir d.1).1 = d.1.dropLast :=
  clean_of_proper fun c hc => d.2 c (List.dropLast_subset _ hc)

theorem pathJoin_proper (d : CleanPath) {b : String} (hb : Proper b) : (pathJoin d.1 b).1 = d.1 ++ [b] :=
  clean_of_proper fun c hc => by
    rcases List.mem_append.mp hc with hc | hc
    · exact d.2 c hc
    · exact (List.mem_singleton.mp hc) ▸ hb

theorem pathBase_append (d : List String) (b : String) : pathBase (d ++ [b]) = b := by
  simp [pathBase]

theorem pathDir_append (d : CleanPath) (b : String) : pathDir (d.1 ++ [b]) = d := by
  apply Subtype.ext
  simp only [pathDir, CleanPath.ofList, List.dropLast_concat]
  exact clean_of_proper d.2

end Keppel.Swiftplus
