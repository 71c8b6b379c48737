/-
  Keppel.Api.GetAuth — the scope filtering of `handleGetAuth` (package `api`, in
  src/pkg/auth/scope.go). Once the token request is parsed, the handler looks up the
  account of a repository scope, asks for the user's access level, and narrows the
  scope's actions to those the level grants, with `filterRegistryActions` and
  `filterRepoActions`. It then builds the token with `req.ToJWT()`, discards it, and
  panics (`unimplemented`): no call of the handler returns normally.

  `openstack.AccessLevel` and `database.Account` are not in src/: an access level is
  modelled by the answers to the three questions the filters ask it, over any type of
  accounts, and the account lookup and the access check are arbitrary functions, so the
  results hold for every level and every answer. `auth.ParseRequest` and `req.ToJWT` are
  not in src/ either: the model starts from the parsed scope and ends in the panic, which
  carries `req.Scope` as the filtering left it (`AuthEnd.panicked`).

  Proved:
  - `foldl_append_filter`: a loop that appends each action passing its test to its result
    computes `List.filter` of the test; both filters are such loops
    (`filterRegistryActions_eq`, `filterRepoActions_eq`), the second with two tests.
  - `filterScopeActions_eq_filter`: the `switch` keeps the requested actions the level
    grants (`Grants`) on every scope whose registry resource is the catalog, which is every
    scope `ParseScope` returns (`parseScope_registry_catalog`).
  - `handleGetAuth_grants`: for every scope `ParseScope` returns, every access level and
    every account the lookup finds or misses, the handler panics with `req.Scope` holding
    exactly the requested actions the level grants, in order and with repetitions: none
    that was not both requested and granted, and none at all for a repository whose account
    was not found or a resource type that is neither `registry` nor `repository`.
-/
import Keppel.Auth.Scope

namespace Keppel.Api

open Keppel.Auth

/-! ## The filters -/

/-- `openstack.AccessLevel`, through the questions the filters ask it. -/
structure AccessLevel (Account : Type) where
  canViewAccounts : Bool
  canViewAccount : Account → Bool
  canChangeAccount : Account → Bool

/-- A loop that appends each element passing a test to its result computes `List.filter`. -/
theorem foldl_append_filter {α : Type} (p : α → Bool) {f : List α → α → List α}
    (hf : ∀ r a, f r a = if p a then r ++ [a] else r) : ∀ l acc : List α, l.foldl f acc = acc ++ l.filter p
  | [], acc => by simp
  | a :: l, acc => by
    rw [List.foldl_cons, foldl_append_filter p hf l, hf, List.filter_cons]
    split <;> simp

section Filters
variable {Account : Type}

/-- `filterRegistryActions`. -/
def filterRegistryActions (actions : List (List Char)) (access : AccessLevel Account) : List (List Char) :=
  actions.foldl (fun result action =>
    if action = "*".toList ∧ access.canViewAccounts then result ++ [action] else result) []

/-- `filterRepoActions`. -/
def filterRepoActions (actions : List (List Char)) (access : AccessLevel Account) (account : Account) :
    List (List Char) :=
  actions.foldl (fun result action =>
    if action = "pull".toList ∧ access.canViewAccount account then result ++ [action]
    else if action = "push".toList ∧ access.canChangeAccount account then result ++ [action]
    else result) []

theorem filterRegistryActions_eq (actions : List (List Char)) (access : AccessLevel Account) :
    filterRegistryActions actions access = actions.filter fun a => a = "*".toList ∧ access.canViewAccounts := by
  rw [filterRegistryActions, foldl_append_filter (fun a => decide (a = "*".toList ∧ access.canViewAccounts))
    (fun _ _ => by simp only [decide_eq_true_eq]), List.nil_append]

/-- The `else if` of `filterRepoActions` keeps an action that passes either test. -/
theorem filterRepoActions_eq (actions : List (List Char)) (access : AccessLevel Account) (account : Account) :
    filterRepoActions actions access account = actions.filter fun a =>
      a = "pull".toList ∧ access.canViewAccount account ∨ a = "push".toList ∧ access.canChangeAccount account := by
  rw [filterRepoActions, foldl_append_filter (fun a => decide
    (a = "pull".toList ∧ access.canViewAccount account ∨ a = "push".toList ∧ access.canChangeAccount account))
    (fun _ _ => by simp only [decide_eq_true_eq, ite_or]), List.nil_append]

/-! ## The handler -/

/-- The `switch` of `handleGetAuth` on the resource type: the actions it leaves in
    `req.Scope`, given the access level and the account the lookup returned. -/
def filterScopeActions (scope : Scope) (access : AccessLevel Account) (account : Option Account) :
    List (List Char) :=
  if scope.resourceType = "registry".toList then filterRegistryActions scope.actions access
  else if scope.resourceType = "repository".toList then
    match account with
    | none => []
    | some a => filterRepoActions scope.actions access a
  else []

/-- `strings.SplitN(req.Scope.ResourceName, "/", 2)[0]`: the account a repository belongs to. -/
def accountName (scope : Scope) : List Char := (splitFirst '/' scope.resourceName).1

/-- The account lookup of `handleGetAuth`: `FindAccount` of a repository scope's account;
    no lookup, and no account, for any other scope or a nil one. -/
def lookupAccount (findAccount : List Char → Except String (Option Account)) :
    Option Scope → Except String (Option Account)
  | some sc => if sc.resourceType = "repository".toList then findAccount (accountName sc) else .ok none
  | none => .ok none

/-- How `handleGetAuth` ends once the request is parsed: with the error response of the
    account lookup (`respondwith.ErrorText`) or of the access check (status 401), or in the
    `panic("unimplemented")` after the filtering, with `req.Scope` as the filtering left it. -/
inductive AuthEnd where
  | lookup (msg : String)
  | unauthorized (msg : String)
  | panicked (msg : String) (scope : Option Scope)
  deriving DecidableEq

/-- `handleGetAuth` from the parsed request's scope (`none` for a nil `req.Scope`):
    `findAccount` is `FindAccount`, `accessLevelFor` is `GetAccessLevelForUser` on the
    request's credentials, their errors given by their text. After the filtering the source
    calls `req.ToJWT()`, discards the token and panics. -/
def handleGetAuth (findAccount : List Char → Except String (Option Account))
    (accessLevelFor : Option Account → Except String (AccessLevel Account)) (scope : Option Scope) : AuthEnd :=
  match lookupAccount findAccount scope with
  | .error msg => .lookup msg
  | .ok account =>
    match accessLevelFor account with
    | .error msg => .unauthorized msg
    | .ok access =>
      .panicked "unimplemented" (scope.map fun sc => { sc with actions := filterScopeActions sc access account })

/-! ## What the filtering grants -/

/-- The actions an access level grants on a scope: `*` on `registry:catalog` to a user who
    may view accounts; on a repository whose account was found, `pull` to one who may view
    the account and `push` to one who may change it; nothing else. -/
def Grants (scope : Scope) (access : AccessLevel Account) (account : Option Account) (action : List Char) : Prop :=
  (scope.resourceType = "registry".toList ∧ scope.resourceName = "catalog".toList ∧ action = "*".toList ∧
      access.canViewAccounts) ∨
  (scope.resourceType = "repository".toList ∧ ∃ a ∈ account,
      action = "pull".toList ∧ access.canViewAccount a ∨ action = "push".toList ∧ access.canChangeAccount a)

instance (scope : Scope) (access : AccessLevel Account) (account : Option Account) (action : List Char) :
    Decidable (Grants scope access account action) :=
  inferInstanceAs (Decidable (_ ∨ _))

/-- The filtering keeps the requested actions the level grants, for a scope whose registry
    resource, if any, is the catalog. -/
theorem filterScopeActions_eq_filter (scope : Scope) (access : AccessLevel Account) (account : Option Account)
    (hcat : scope.resourceType = "registry".toList → scope.resourceName = "catalog".toList) :
    filterScopeActions scope access account = scope.actions.filter fun a => Grants scope access account a := by
  have hrr : "registry".toList ≠ "repository".toList := by decide
  unfold filterScopeActions
  split_ifs with hreg hrepo
  · -- `registry`: `*`, to a user who may view accounts
    rw [filterRegistryActions_eq]
    exact List.filter_congr fun x _ => by simp [Grants, hreg, hcat hreg, hrr]
  · -- `repository`: nothing without an account
    cases account with
    | none => simp only [Grants, hreg, false_and, Option.mem_def, reduceCtorEq, exists_false,
        and_false, or_self, decide_False, List.filter_false]
    | some a =>
      dsimp only
      rw [filterRepoActions_eq]
      exact List.filter_congr fun x _ => by simp [Grants, hrepo, hrr.symm]
  · -- any other resource type: nothing
    simp only [Grants, hreg, hrepo, false_and, or_self, decide_False, List.filter_false]

/-- The only registry resource `ParseScope` admits is the catalog. -/
theorem parseScope_registry_catalog {input : List Char} {scope : Scope} (hs : parseScope input = .ok scope) :
    scope.resourceType = "registry".toList → scope.resourceName = "catalog".toList := by
  obtain ⟨t, n, a, -, -, -, -, ⟨rfl, rfl, rfl⟩ | ⟨rfl, -, -, -, rfl⟩⟩ := (parseScope_ok_iff input scope).mp hs
  · exact fun _ => rfl
  · exact fun h => absurd h (by decide : "repository".toList ≠ "registry".toList)

/-- What `handleGetAuth` leaves in `req.Scope`: for every scope `ParseScope` returns, every
    access level and every account the lookup finds or misses, the handler reaches the
    filtering and panics with the scope narrowed to the requested actions the level grants,
    in order and with repetitions; so each action left was both requested and granted, and
    none is left for a repository whose account was not found or a resource type that is
    neither `registry` nor `repository`. -/
theorem handleGetAuth_grants {input : List Char} {scope : Scope} (hs : parseScope input = .ok scope)
    (findAccount : List Char → Except String (Option Account))
    (accessLevelFor : Option Account → Except String (AccessLevel Account)) {account : Option Account}
    {access : AccessLevel Account} (hf : lookupAccount findAccount (some scope) = .ok account)
    (ha : accessLevelFor account = .ok access) :
    handleGetAuth findAccount accessLevelFor (some scope) = .panicked "unimplemented"
        (some { scope with actions := scope.actions.filter fun a => Grants scope access account a }) ∧
      (∀ a ∈ scope.actions.filter (fun a => Grants scope access account a),
        a ∈ scope.actions ∧ Grants scope access account a) ∧
      ((scope.resourceType = "repository".toList ∧ account = none) ∨
          (scope.resourceType ≠ "registry".toList ∧ scope.resourceType ≠ "repository".toList) →
        scope.actions.filter (fun a => Grants scope access account a) = []) := by
  refine ⟨?_, fun a h => by simpa using h, fun h => List.filter_eq_nil_iff.mpr fun a _ => ?_⟩
  · simp only [handleGetAuth, hf, ha, Option.map_some',
      filterScopeActions_eq_filter scope access account (parseScope_registry_catalog hs)]
  · -- `Grants` needs a registry, or a repository with its account
    have hrr : "repository".toList ≠ "registry".toList := by decide
    rw [decide_eq_true_eq]
    rintro (⟨hreg, -⟩ | ⟨hrepo, b, hb, -⟩)
    · rcases h with ⟨ht, -⟩ | ⟨ht, -⟩
      exacts [hrr (ht.symm.trans hreg), ht hreg]
    · rcases h with ⟨-, rfl⟩ | ⟨-, ht'⟩
      exacts [Option.not_mem_none b hb, ht' hrepo]

end Filters

/-- A repository scope asking to pull and push. -/
def pullPush : Scope := ⟨"repository".toList, "a/b".toList, ["pull".toList, "push".toList]⟩

/-- A user who may view the account `()` but not change it. -/
def viewer : AccessLevel Unit := ⟨false, fun _ => true, fun _ => false⟩

theorem handleGetAuth_grants_viewer :
    parseScope "repository:a/b:pull,push".toList = .ok pullPush ∧
      lookupAccount (fun _ => .ok (some ())) (some pullPush) = .ok (some ()) ∧
      (fun _ => .ok viewer : Option Unit → Except String (AccessLevel Unit)) (some ()) = .ok viewer ∧
      handleGetAuth (fun _ => .ok (some ())) (fun _ => .ok viewer) (some pullPush) = .panicked "unimplemented"
          (some { pullPush with actions := pullPush.actions.filter fun a => Grants pullPush viewer (some ()) a }) ∧
        (∀ a ∈ pullPush.actions.filter (fun a => Grants pullPush viewer (some ()) a),
          a ∈ pullPush.actions ∧ Grants pullPush viewer (some ()) a) ∧
        ((pullPush.resourceType = "repository".toList ∧ some () = none) ∨
            (pullPush.resourceType ≠ "registry".toList ∧ pullPush.resourceType ≠ "repository".toList) →
          pullPush.actions.filter (fun a => Grants pullPush viewer (some ()) a) = []) :=
  have hs : parseScope "repository:a/b:pull,push".toList = .ok pullPush := rfl
  ⟨hs, rfl, rfl, handleGetAuth_grants hs (fun _ => .ok (some ())) (fun _ => .ok viewer) rfl rfl⟩

/-- The viewer is left `pull` alone. -/
example : handleGetAuth (fun _ => .ok (some ())) (fun _ => .ok viewer) (some pullPush) =
    .panicked "unimplemented" (some { pullPush with actions := ["pull".toList] }) := by decide

end Keppel.Api
