/-
  Keppel.Core.AuthDriver — the registry of auth drivers (src/pkg/keppel/auth_driver.go).

  Each package that defines an auth driver calls `RegisterAuthDriver(name, factory)` from
  its `init`, which panics when the name is already in `authDriverFactories`, even with a
  nil factory. `NewAuthDriver(name)` then builds a driver with the factory registered
  under the name, and reports "no such auth driver" when there is none or it is nil. A
  panic is an error carrying its message; the drivers a factory builds are any type `D`.

  Proved, over every sequence of registrations (`registerAll`, the `init`s in the
  order Go runs them):
  - `registerAll_ok_iff`: registering succeeds exactly when no name is registered twice,
    and the registry then holds exactly the registered factories.
  - `registerAll_panics`: a failed one panics at the first name registered a second
    time, and the message names it.
  - `registerAll_perm`: the registry does not depend on the order of the `init`s.
  - `newAuthDriver_registered`: what `NewAuthDriver` answers after the registrations;
    a name registered with a nil factory is no driver, yet no package may register it.
-/

import Mathlib.Data.List.Basic

namespace Keppel.Core

variable {D : Type}

/-- A `func() AuthDriver` as the registry holds it; `none` is a nil function. -/
abbrev Factory (D : Type) := Option (Unit → D)

/-- `authDriverFactories`: the factory registered under each name, if any. -/
abbrev Factories (D : Type) := String → Option (Factory D)

/-- `make(map[string]func() AuthDriver)`. -/
def Factories.empty : Factories D := fun _ => none

/-- `NewAuthDriver`. -/
def newAuthDriver (factories : Factories D) (name : String) : Except String D :=
  match factories name with
  | some (some factory) => .ok (factory ())
  | _ => .error ("no such auth driver: " ++ name)

/-- `RegisterAuthDriver`. -/
def registerAuthDriver (factories : Factories D) (name : String) (factory : Factory D) :
    Except String (Factories D) :=
  match factories name with
  | some _ => .error ("attempted to register multiple auth drivers with name = " ++ name)
  | none => .ok fun n => if n = name then some factory else factories n

/-- The `init`s of the driver packages, each registering one driver, in the order Go runs
    them. -/
def registerAll (factories : Factories D) : List (String × Factory D) → Except String (Factories D)
  | [] => .ok factories
  | (name, factory) :: rest => registerAuthDriver factories name factory >>= fun f => registerAll f rest

/-- The registry holds exactly the registered factories, over `factories`. -/
def Holds (factories : Factories D) (regs : List (String × Factory D)) (result : Factories D) : Prop :=
  ∀ n f, result n = some f ↔ (n, f) ∈ regs ∨ factories n = some f

/-- Registrations that all succeed over `factories`: no name twice, none already there. -/
def Fresh (factories : Factories D) (regs : List (String × Factory D)) : Prop :=
  (regs.map Prod.fst).Nodup ∧ ∀ r ∈ regs, factories r.1 = none

/-! ## One registration -/

theorem registerAuthDriver_ok {factories : Factories D} {name : String} {factory : Factory D}
    {result : Factories D} :
    registerAuthDriver factories name factory = .ok result ↔
      factories name = none ∧ result = fun n => if n = name then some factory else factories n := by
  unfold registerAuthDriver
  split <;> simp_all [eq_comm]

theorem registerAuthDriver_error {factories : Factories D} {name : String} {factory : Factory D}
    {e : String} :
    registerAuthDriver factories name factory = .error e ↔
      factories name ≠ none ∧ e = "attempted to register multiple auth drivers with name = " ++ name := by
  unfold registerAuthDriver
  split <;> simp_all [eq_comm]

theorem fresh_cons {factories : Factories D} {name : String} {factory : Factory D}
    {rest : List (String × Factory D)} :
    Fresh factories ((name, factory) :: rest) ↔ factories name = none ∧
      Fresh (fun n => if n = name then some factory else factories n) rest := by
  simp only [Fresh, List.map_cons, List.nodup_cons, List.forall_mem_cons, List.mem_map]
  constructor
  · rintro ⟨⟨hn, hd⟩, h₀, hr⟩
    exact ⟨h₀, hd, fun r hm => by rw [if_neg fun e => hn ⟨r, hm, e⟩, hr r hm]⟩
  · rintro ⟨h₀, hd, hr⟩
    refine ⟨⟨fun ⟨r, hm, e⟩ => ?_, hd⟩, h₀, fun r hm => ?_⟩
    · have := hr r hm; rw [if_pos e] at this; cases this
    · by_cases e : r.1 = name
      · rw [e]; exact h₀
      · have := hr r hm; rwa [if_neg e] at this

/-! ## Every sequence of registrations -/

theorem registerAll_ok_iff {factories : Factories D} {regs : List (String × Factory D)} {result : Factories D} :
    registerAll factories regs = .ok result ↔ Fresh factories regs ∧ Holds factories regs result := by
  induction regs generalizing factories with
  | nil =>
    refine ⟨fun h => ?_, fun ⟨_, hh⟩ => ?_⟩
    · obtain rfl : factories = result := Except.ok.inj h
      exact ⟨⟨List.nodup_nil, nofun⟩, fun n f => by simp⟩
    · exact congrArg Except.ok (funext fun n => Option.ext fun f => by
        rw [Option.mem_def, Option.mem_def, hh]; simp)
  | cons r rest ih =>
    obtain ⟨name, factory⟩ := r
    rcases h : registerAuthDriver factories name factory with e | f
    · rw [registerAll, h, fresh_cons, iff_false_intro (registerAuthDriver_error.mp h).1]
      exact ⟨nofun, fun ⟨⟨hn, _⟩, _⟩ => hn.elim⟩
    · obtain ⟨h₀, rfl⟩ := registerAuthDriver_ok.mp h
      rw [registerAll, h]
      change registerAll _ rest = _ ↔ _
      rw [ih, fresh_cons]
      simp only [h₀, true_and]
      refine and_congr_right fun hf => forall_congr' fun n => forall_congr' fun g => ?_
      simp only [List.mem_cons, Prod.mk.injEq]
      by_cases hn : n = name
      · subst hn
        have : ∀ g, (n, g) ∉ rest := fun g hm => by simpa using hf.2 _ hm
        simp [this, h₀, eq_comm]
      · simp [hn]

theorem registerAll_of_fresh {factories : Factories D} {regs : List (String × Factory D)}
    (h : Fresh factories regs) : ∃ result, registerAll factories regs = .ok result := by
  induction regs generalizing factories with
  | nil => exact ⟨_, rfl⟩
  | cons r rest ih =>
    obtain ⟨h₀, hr⟩ := fresh_cons.mp h
    obtain ⟨result, hres⟩ := ih hr
    exact ⟨result, by simp only [registerAll, registerAuthDriver, h₀]; exact hres⟩

/-- The `init`s of the driver packages all return exactly when no two register one name. -/
theorem registerAll_init_ok (regs : List (String × Factory D)) :
    (∃ result, registerAll Factories.empty regs = .ok result) ↔ (regs.map Prod.fst).Nodup :=
  ⟨fun ⟨_, h⟩ => (registerAll_ok_iff.mp h).1.1, fun hd => registerAll_of_fresh ⟨hd, fun _ _ => rfl⟩⟩

theorem registerAll_panics {factories : Factories D} {regs : List (String × Factory D)} {e : String}
    (h : registerAll factories regs = .error e) :
    ∃ pre name factory post, regs = pre ++ (name, factory) :: post ∧ Fresh factories pre ∧
      (factories name ≠ none ∨ name ∈ pre.map Prod.fst) ∧
      e = "attempted to register multiple auth drivers with name = " ++ name := by
  induction regs generalizing factories with
  | nil => cases h
  | cons r rest ih =>
    obtain ⟨name, factory⟩ := r
    rcases hr : registerAuthDriver factories name factory with e' | f
    · obtain ⟨hn, rfl⟩ := registerAuthDriver_error.mp hr
      simp only [registerAll, hr] at h
      cases h
      exact ⟨[], name, factory, rest, rfl, ⟨List.nodup_nil, nofun⟩, .inl hn, rfl⟩
    · obtain ⟨h₀, rfl⟩ := registerAuthDriver_ok.mp hr
      obtain ⟨pre, n, g, post, rfl, hp, hd, rfl⟩ := ih (by simpa only [registerAll, hr] using h)
      refine ⟨(name, factory) :: pre, n, g, post, rfl, fresh_cons.mpr ⟨h₀, hp⟩, ?_, rfl⟩
      by_cases hn : n = name
      · exact .inr (by simp [hn])
      · simpa [hn] using hd

/-- `a` registered twice, first with a nil factory. -/
def twiceA : List (String × Factory Nat) := [("a", none), ("b", none), ("a", some fun _ => 1)]

theorem registerAll_panics_twiceA :
    registerAll Factories.empty twiceA = .error "attempted to register multiple auth drivers with name = a" ∧
      ∃ pre name factory post, twiceA = pre ++ (name, factory) :: post ∧ Fresh Factories.empty pre ∧
        ((@Factories.empty Nat) name ≠ none ∨ name ∈ pre.map Prod.fst) ∧
        "attempted to register multiple auth drivers with name = a" =
          "attempted to register multiple auth drivers with name = " ++ name :=
  have h : registerAll Factories.empty twiceA = .error "attempted to register multiple auth drivers with name = a" :=
    rfl
  ⟨h, registerAll_panics h⟩

theorem registerAll_perm {factories : Factories D} {regs regs' : List (String × Factory D)}
    {result : Factories D} (hp : regs.Perm regs') (h : registerAll factories regs = .ok result) :
    registerAll factories regs' = .ok result := by
  obtain ⟨⟨hd, hf⟩, hh⟩ := registerAll_ok_iff.mp h
  refine registerAll_ok_iff.mpr ⟨⟨(hp.map Prod.fst).nodup_iff.mp hd, fun r hm => hf r (hp.mem_iff.mpr hm)⟩, ?_⟩
  intro n f
  rw [hh, hp.mem_iff]

/-- `a` with a nil factory, `b` with one. -/
def nilA : List (String × Factory Nat) := [("a", none), ("b", some fun _ => 2)]

theorem registerAll_perm_nilA : ∃ result, registerAll Factories.empty nilA = .ok result ∧
    registerAll Factories.empty nilA.reverse = .ok result :=
  ⟨_, rfl, registerAll_perm (.swap _ _ []) rfl⟩

theorem newAuthDriver_registered {factories : Factories D} {regs : List (String × Factory D)}
    {result : Factories D} (h : registerAll factories regs = .ok result) (name : String) :
    (∀ factory, (name, some factory) ∈ regs → newAuthDriver result name = .ok (factory ())) ∧
      ((name, none) ∈ regs → newAuthDriver result name = .error ("no such auth driver: " ++ name) ∧
        ∀ factory, ∃ e, registerAuthDriver result name factory = .error e) ∧
      (name ∉ regs.map Prod.fst → newAuthDriver result name = newAuthDriver factories name) := by
  obtain ⟨-, hh⟩ := registerAll_ok_iff.mp h
  refine ⟨fun g hm => ?_, fun hm => ?_, fun hn => ?_⟩
  · simp only [newAuthDriver, (hh _ _).mpr (.inl hm)]
  · have hr := (hh _ _).mpr (.inl hm)
    simp only [newAuthDriver, registerAuthDriver, hr, true_and]
    exact fun _ => ⟨_, rfl⟩
  · have : result name = factories name := Option.ext fun f => by
      rw [Option.mem_def, Option.mem_def, hh]; exact or_iff_right fun hm => hn (List.mem_map.mpr ⟨_, hm, rfl⟩)
    simp only [newAuthDriver, this]

theorem newAuthDriver_registered_nilA : ∃ result, registerAll Factories.empty nilA = .ok result ∧
    (∀ factory, ("a", some factory) ∈ nilA → newAuthDriver result "a" = .ok (factory ())) ∧
      (("a", none) ∈ nilA → newAuthDriver result "a" = .error ("no such auth driver: " ++ "a") ∧
        ∀ factory, ∃ e, registerAuthDriver result "a" factory = .error e) ∧
      ("a" ∉ nilA.map Prod.fst → newAuthDriver result "a" = newAuthDriver Factories.empty "a") :=
  ⟨_, rfl, @newAuthDriver_registered Nat Factories.empty nilA _ rfl "a"⟩

end Keppel.Core
