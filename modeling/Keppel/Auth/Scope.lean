/-
  Keppel.Auth.Scope — `ParseScope` (src/pkg/auth/scope.go), the parser of the `scope`
  parameter of a token request.

  A Go string is modelled by its characters; `len` counts their UTF-8 bytes, as Go's
  `len` of a string does. `strings.Split` on a one-character separator is `split`, and
  the anchored expression `repoNameRegexp` is the automaton `matchRepoName`, shown to
  accept the language its sub-expressions describe (`RepoComponent`, `RepoName`).

  Proved:
  - `join_split` / `not_mem_split`: joining the pieces of `split sep s` with `sep` gives
    `s` back, and no piece holds `sep`.
  - `matchRepoName_iff`: the automaton accepts exactly the repository names.
  - `parseScope_ok_iff`: `ParseScope(s)` returns a scope exactly when `s` is `T:N:A` with
    no ':' in its fields, and either `T` is `registry` and `N` is `catalog` (the scope is
    `{registry, catalog, ["*"]}`), or `T` is `repository`, `N` a repository name of at
    most 256 bytes and `A` a comma-separated list of `pull` and `push` (the scope is
    `{repository, N, split ',' A}`); `parseScope_round_trip`: such a scope joins back to
    `s`.
  - `parseScope_accepts_256`: the check is `len > 256`, while `errorScopeRepositoryTooLong`
    says a name must be less than 256 characters long: a name of 256 characters passes,
    one of 257 is refused.
-/
import Mathlib.Data.List.Basic

namespace Keppel.Auth

/-! ## `strings.Split` and `strings.Join` -/

/-- The piece of `s` before the first `sep`, and the pieces after it. -/
def splitFirst (sep : Char) : List Char → List Char × List (List Char)
  | [] => ([], [])
  | c :: cs =>
    let (p, ps) := splitFirst sep cs
    if c = sep then ([], p :: ps) else (c :: p, ps)

/-- `strings.Split(s, sep)` for a one-character `sep`: the pieces between its occurrences,
    empty ones included; never an empty list. -/
def split (sep : Char) (s : List Char) : List (List Char) := (splitFirst sep s).1 :: (splitFirst sep s).2

@[simp] theorem splitFirst_sep (sep : Char) (cs : List Char) : splitFirst sep (sep :: cs) = ([], split sep cs) := by
  simp [splitFirst, split]

theorem splitFirst_ne {sep c : Char} (h : c ≠ sep) (cs : List Char) :
    splitFirst sep (c :: cs) = (c :: (splitFirst sep cs).1, (splitFirst sep cs).2) := by
  simp [splitFirst, h]

/-- `strings.Join` of the pieces `p :: ps`. -/
def joinFrom (sep : Char) : List Char → List (List Char) → List Char
  | p, [] => p
  | p, q :: qs => p ++ sep :: joinFrom sep q qs

/-- `strings.Join(elems, sep)` for a one-character `sep`. -/
def join (sep : Char) : List (List Char) → List Char
  | [] => []
  | p :: ps => joinFrom sep p ps

theorem joinFrom_cons (sep c : Char) (p : List Char) (ps : List (List Char)) :
    joinFrom sep (c :: p) ps = c :: joinFrom sep p ps := by
  cases ps <;> rfl

theorem join_split (sep : Char) (s : List Char) : join sep (split sep s) = s := by
  induction s with
  | nil => rfl
  | cons c cs ih =>
    by_cases h : c = sep
    · subst h
      rw [split, splitFirst_sep]
      exact congrArg (c :: ·) ih
    · rw [split, splitFirst_ne h]
      exact (joinFrom_cons sep c _ _).trans (congrArg (c :: ·) ih)

theorem not_mem_split (sep : Char) (s : List Char) : ∀ p ∈ split sep s, sep ∉ p := by
  induction s with
  | nil => simp [split, splitFirst]
  | cons c cs ih =>
    by_cases h : c = sep
    · subst h
      rw [split, splitFirst_sep]
      rintro p (_ | ⟨_, hp⟩)
      · simp
      · exact ih p hp
    · rw [split, splitFirst_ne h]
      rintro p (_ | ⟨_, hp⟩)
      · simp only [List.mem_cons, not_or]
        exact ⟨Ne.symm h, ih _ (List.mem_cons_self _ _)⟩
      · exact ih p (List.mem_cons_of_mem _ hp)

/-- Splitting after a piece without the separator. -/
theorem splitFirst_append {sep : Char} {t : List Char} (ht : sep ∉ t) (r : List Char) :
    splitFirst sep (t ++ r) = (t ++ (splitFirst sep r).1, (splitFirst sep r).2) := by
  induction t with
  | nil => rfl
  | cons c t ih =>
    simp only [List.mem_cons, not_or] at ht
    rw [List.cons_append, splitFirst_ne (Ne.symm ht.1), ih ht.2]
    rfl

theorem split_append_sep {sep : Char} {t : List Char} (ht : sep ∉ t) (r : List Char) :
    split sep (t ++ sep :: r) = t :: split sep r := by
  rw [split, splitFirst_append ht, splitFirst_sep]
  simp only [List.append_nil]

theorem split_of_not_mem {sep : Char} {t : List Char} (ht : sep ∉ t) : split sep t = [t] := by
  have := splitFirst_append ht []
  rw [List.append_nil] at this
  rw [split, this]
  simp [splitFirst]

/-! ## `repoNameRegexp` -/

/-- `[a-z0-9]`. -/
def lowerAlnum (c : Char) : Bool := (decide ('a' ≤ c) && decide (c ≤ 'z')) || (decide ('0' ≤ c) && decide (c ≤ '9'))

/-- `[._-]`. -/
def componentSep (c : Char) : Bool := c == '.' || c == '_' || c == '-'

/-- The automaton of `repoNameRegexp`. The expression is anchored at both ends, so it matches
    the whole string; `afterAlnum` says whether the last character read was `[a-z0-9]`, the one
    state in which the input may end or a separator (`[._-]` or `/`) may follow. -/
def matchFrom : Bool → List Char → Bool
  | afterAlnum, [] => afterAlnum
  | afterAlnum, c :: cs =>
    if lowerAlnum c then matchFrom true cs
    else if afterAlnum && (componentSep c || c == '/') then matchFrom false cs
    else false

/-- `repoNameRegexp.MatchString(s)`. -/
def matchRepoName (s : List Char) : Bool := matchFrom false s

/-- `[a-z0-9]+`. -/
def Word (w : List Char) : Prop := w ≠ [] ∧ ∀ c ∈ w, lowerAlnum c = true

/-- `[a-z0-9]+(?:[._-][a-z0-9]+)*`. -/
inductive RepoComponent : List Char → Prop
  | word {w : List Char} : Word w → RepoComponent w
  | sep {p w : List Char} {c : Char} : RepoComponent p → componentSep c = true → Word w →
      RepoComponent (p ++ c :: w)

/-- `[a-z0-9]+(?:[._-][a-z0-9]+)*(?:/[a-z0-9]+(?:[._-][a-z0-9]+)*)*`. -/
inductive RepoName : List Char → Prop
  | one {w : List Char} : RepoComponent w → RepoName w
  | slash {n w : List Char} : RepoName n → RepoComponent w → RepoName (n ++ '/' :: w)

theorem Word.snoc {w : List Char} (h : Word w) {c : Char} (hc : lowerAlnum c = true) : Word (w ++ [c]) :=
  ⟨by simp, fun d hd => by
    rcases List.mem_append.mp hd with hd | hd
    · exact h.2 d hd
    · rw [List.mem_singleton.mp hd]; exact hc⟩

theorem Word.single {c : Char} (hc : lowerAlnum c = true) : Word [c] :=
  ⟨by simp, fun d hd => by rw [List.mem_singleton.mp hd]; exact hc⟩

theorem RepoComponent.snoc {p : List Char} (h : RepoComponent p) {c : Char} (hc : lowerAlnum c = true) :
    RepoComponent (p ++ [c]) := by
  cases h with
  | word hw => exact .word (hw.snoc hc)
  | sep hp hs hw => simpa using RepoComponent.sep hp hs (hw.snoc hc)

theorem RepoName.snoc {n : List Char} (h : RepoName n) {c : Char} (hc : lowerAlnum c = true) :
    RepoName (n ++ [c]) := by
  cases h with
  | one hw => exact .one (hw.snoc hc)
  | slash hn hw => simpa using RepoName.slash hn (hw.snoc hc)

/-- A separator and an alphanumeric character extend a name. -/
theorem RepoName.sep {n : List Char} (h : RepoName n) {c d : Char} (hc : componentSep c = true ∨ c = '/')
    (hd : lowerAlnum d = true) : RepoName (n ++ [c, d]) := by
  rcases hc with hc | rfl
  · cases h with
    | one hw => exact .one (by simpa using RepoComponent.sep hw hc (Word.single hd))
    | slash hn hw => simpa using RepoName.slash hn (RepoComponent.sep hw hc (Word.single hd))
  · exact .slash h (.word (Word.single hd))

theorem lowerAlnum_of_componentSep {c : Char} (h : componentSep c = true) : lowerAlnum c = false := by
  simp only [componentSep, Bool.or_eq_true, beq_iff_eq] at h
  rcases h with (rfl | rfl) | rfl <;> rfl

/-- Reading a word from either state leads to the state after an alphanumeric character. -/
theorem matchFrom_word : ∀ {w : List Char}, Word w → ∀ (b : Bool) (r : List Char),
    matchFrom b (w ++ r) = matchFrom true r
  | [], hw, _, _ => absurd rfl hw.1
  | [c], hw, b, r => by rw [List.singleton_append, matchFrom, if_pos (hw.2 c (List.mem_singleton_self c))]
  | c :: d :: w, hw, b, r => by
    rw [List.cons_append, matchFrom, if_pos (hw.2 c (List.mem_cons_self _ _))]
    exact matchFrom_word ⟨List.cons_ne_nil _ _, fun x hx => hw.2 x (List.mem_cons_of_mem _ hx)⟩ true r

theorem matchFrom_component {p : List Char} (hp : RepoComponent p) (b : Bool) (r : List Char) :
    matchFrom b (p ++ r) = matchFrom true r := by
  induction hp generalizing b r with
  | word hw => exact matchFrom_word hw b r
  | @sep p w c _ hc hw ih =>
    rw [List.append_assoc, List.cons_append, ih, matchFrom, lowerAlnum_of_componentSep hc, if_neg (by simp)]
    simp only [hc, Bool.true_or, Bool.and_self, if_true]
    exact matchFrom_word hw false r

theorem matchFrom_name {n : List Char} (hn : RepoName n) (r : List Char) :
    matchFrom false (n ++ r) = matchFrom true r := by
  induction hn generalizing r with
  | one hw => exact matchFrom_component hw false r
  | slash _ hw ih =>
    rw [List.append_assoc, List.cons_append, ih, matchFrom, if_neg (by decide), if_pos (by decide)]
    exact matchFrom_component hw false r

/-- What the automaton accepts from each state, given what it has read: from the state after
    an alphanumeric character, a name; from the other state, nothing yet, or a name and a
    separator. -/
theorem name_of_matchFrom (s : List Char) : ∀ (b : Bool) (pre : List Char),
    matchFrom b s = true →
      (b = true → RepoName pre) →
      (b = false → pre = [] ∨ ∃ n c, RepoName n ∧ (componentSep c = true ∨ c = '/') ∧ pre = n ++ [c]) →
      RepoName (pre ++ s) := by
  induction s with
  | nil =>
    intro b pre h ht _
    simpa using ht h
  | cons c cs ih =>
    intro b pre h ht hf
    simp only [matchFrom] at h
    split_ifs at h with hc hs
    · have hname : RepoName (pre ++ [c]) := by
        cases b
        · rcases hf rfl with rfl | ⟨n, d, hn, hd, rfl⟩
          · exact .one (.word (Word.single hc))
          · simpa using hn.sep hd hc
        · exact (ht rfl).snoc hc
      simpa using ih true (pre ++ [c]) h (fun _ => hname) (by simp)
    · simp only [Bool.and_eq_true, Bool.or_eq_true, beq_iff_eq] at hs
      obtain ⟨rfl, hs⟩ := hs
      simpa using ih false (pre ++ [c]) h (by simp) fun _ => .inr ⟨pre, c, ht rfl, hs, rfl⟩

/-- The automaton decides `repoNameRegexp`'s language. -/
theorem matchRepoName_iff (s : List Char) : matchRepoName s = true ↔ RepoName s := by
  constructor
  · intro h
    simpa using name_of_matchFrom s false [] h (by simp) (fun _ => .inl rfl)
  · intro h
    simpa [matchFrom] using matchFrom_name h []

/-! ## `ParseScope` -/

/-- The errors `ParseScope` returns (`errorScope...`). -/
inductive ScopeError where
  | missing
  | missingResource
  | missingRepository
  | missingActions
  | invalid
  | resourceUnsupported
  | repositoryTooLong
  | repositoryInvalid
  | actionInvalid
  deriving DecidableEq

/-- The text of each error. -/
def ScopeError.message : ScopeError → String
  | .missing => "scope is missing"
  | .missingResource => "scope is missing a resource"
  | .missingRepository => "scope is missing a repository"
  | .missingActions => "scope is missing actions"
  | .invalid => "scope is invalid"
  | .resourceUnsupported => "resource is unsupported"
  | .repositoryTooLong => "repository must be less than 256 characters long"
  | .repositoryInvalid =>
    "repository name must match \"^[a-z0-9]+(?:[._-][a-z0-9]+)*(?:/[a-z0-9]+(?:[._-][a-z0-9]+)*)*$\""
  | .actionInvalid => "actions contains invalid value"

/-- `Scope`. -/
structure Scope where
  resourceType : List Char
  resourceName : List Char
  actions : List (List Char)
  deriving DecidableEq

/-- `len` of a Go string: the bytes of its UTF-8 encoding. -/
def byteLen : List Char → Nat
  | [] => 0
  | c :: cs => c.utf8Size + byteLen cs

/-- The checks of `ParseScope` once the input has three fields: the actions, then the
    `switch` on the resource type. -/
def checkScope (scope : Scope) : Except ScopeError Scope :=
  if scope.actions.length = 0 then .error .actionInvalid
  else if scope.resourceType = "registry".toList then
    if scope.resourceName ≠ "catalog".toList then .error .resourceUnsupported
    else .ok { scope with actions := ["*".toList] }
  else if scope.resourceType = "repository".toList then
    if byteLen scope.resourceName > 256 then .error .repositoryTooLong
    else if !matchRepoName scope.resourceName then .error .repositoryInvalid
    else if !scope.actions.all (fun a => a = "pull".toList ∨ a = "push".toList) then .error .actionInvalid
    else .ok scope
  else .error .resourceUnsupported

/-- `ParseScope`. -/
def parseScope (input : List Char) : Except ScopeError Scope :=
  if input = [] then .error .missing
  else
    let fields := split ':' input
    if fields.headD [] = [] then .error .missingResource
    else if fields.length > 3 then .error .invalid
    else if fields.length = 2 then .error .missingActions
    else if fields.length = 1 then .error .missingRepository
    else checkScope ⟨fields.getD 0 [], fields.getD 1 [], split ',' (fields.getD 2 [])⟩

/-- An input of three fields reaches the `switch` with them. -/
theorem parseScope_fields {t n a : List Char} (ht : t ≠ []) (ht' : ':' ∉ t) (hn : ':' ∉ n) (ha : ':' ∉ a) :
    parseScope (t ++ ':' :: (n ++ ':' :: a)) = checkScope ⟨t, n, split ',' a⟩ := by
  rw [parseScope, split_append_sep ht', split_append_sep hn, split_of_not_mem ha]
  simp [ht]

/-- Every input `ParseScope` accepts has three fields. -/
theorem parseScope_ok_fields {s : List Char} {sc : Scope} (h : parseScope s = .ok sc) :
    ∃ t n a, s = t ++ ':' :: (n ++ ':' :: a) ∧ t ≠ [] ∧ ':' ∉ t ∧ ':' ∉ n ∧ ':' ∉ a ∧
      checkScope ⟨t, n, split ',' a⟩ = .ok sc := by
  unfold parseScope at h
  split_ifs at h with h0
  dsimp only at h
  split_ifs at h with h1 h2 h3 h4
  obtain ⟨t, n, a, e⟩ : ∃ t n a, split ':' s = [t, n, a] := by
    have : (split ':' s).length ≠ 0 := by simp [split]
    exact List.length_eq_three.mp (by omega)
  have hs := join_split ':' s
  have hm := not_mem_split ':' s
  rw [e] at hs hm h h1
  refine ⟨t, n, a, hs.symm, by simpa using h1, hm t (by simp), hm n (by simp), hm a (by simp), h⟩

/-- A list of `pull` and `push`. -/
def PullPush (acts : List (List Char)) : Prop := ∀ a ∈ acts, a = "pull".toList ∨ a = "push".toList

instance (acts : List (List Char)) : Decidable (PullPush acts) := inferInstanceAs (Decidable (∀ a ∈ acts, _))

theorem checkScope_ok_iff {t n : List Char} {acts : List (List Char)} (hacts : acts ≠ []) {sc : Scope} :
    checkScope ⟨t, n, acts⟩ = .ok sc ↔
      (t = "registry".toList ∧ n = "catalog".toList ∧ sc = ⟨t, n, ["*".toList]⟩) ∨
      (t = "repository".toList ∧ byteLen n ≤ 256 ∧ RepoName n ∧ PullPush acts ∧ sc = ⟨t, n, acts⟩) := by
  unfold checkScope
  have hl : acts.length ≠ 0 := by simpa using hacts
  simp only [hl, if_false]
  have hrr : "registry".toList ≠ "repository".toList := by decide
  split_ifs with hr hc hp hb hm ha
  · -- `registry`, not `catalog`
    simp only [false_iff, not_or, not_and]
    exact ⟨fun _ hn => absurd hn hc, fun ht => absurd (hr.symm.trans ht) hrr⟩
  · -- `registry:catalog`
    rw [not_not] at hc
    subst hr hc
    simp only [Except.ok.injEq, true_and, hrr, false_and, or_false]
    exact eq_comm
  · -- a repository name too long
    simp only [false_iff, not_or, not_and]
    exact ⟨fun ht => absurd (ht.symm.trans hp) hrr, fun _ h => absurd h (by omega)⟩
  · -- not a repository name
    simp only [false_iff, not_or, not_and]
    rw [Bool.not_eq_true', ← Bool.not_eq_true, matchRepoName_iff] at hm
    exact ⟨fun ht => absurd (ht.symm.trans hp) hrr, fun _ _ h => absurd h hm⟩
  · -- an action other than `pull` and `push`
    simp only [false_iff, not_or, not_and]
    refine ⟨fun ht => absurd (ht.symm.trans hp) hrr, fun _ _ _ h => ?_⟩
    simp only [Bool.not_eq_true', List.all_eq_false, decide_eq_false_iff_not] at ha
    obtain ⟨a, ha, hna⟩ := ha
    exact absurd (decide_eq_true (h a ha)) hna
  · -- a repository scope
    subst hp
    rw [Bool.not_eq_true, Bool.not_eq_false', matchRepoName_iff] at hm
    simp only [Bool.not_eq_true, Bool.not_eq_false', List.all_eq_true, decide_eq_true_eq] at ha
    simp only [Except.ok.injEq, Ne.symm hrr, false_and, false_or, true_and]
    exact ⟨fun e => ⟨by omega, hm, ha, e.symm⟩, fun h => h.2.2.2.symm⟩
  · -- another resource type
    simp only [reduceCtorEq, false_iff, not_or, not_and]
    exact ⟨fun ht => absurd ht hr, fun ht => absurd ht hp⟩

/-- `ParseScope` accepts exactly the inputs `T:N:A` with a `registry:catalog` scope, or a
    repository name of at most 256 bytes and a list of `pull` and `push` as actions. -/
theorem parseScope_ok_iff (s : List Char) (sc : Scope) :
    parseScope s = .ok sc ↔ ∃ t n a, s = t ++ ':' :: (n ++ ':' :: a) ∧ ':' ∉ t ∧ ':' ∉ n ∧ ':' ∉ a ∧
      ((t = "registry".toList ∧ n = "catalog".toList ∧ sc = ⟨t, n, ["*".toList]⟩) ∨
       (t = "repository".toList ∧ byteLen n ≤ 256 ∧ RepoName n ∧ PullPush (split ',' a) ∧
         sc = ⟨t, n, split ',' a⟩)) := by
  constructor
  · intro h
    obtain ⟨t, n, a, rfl, -, ht, hn, ha, hc⟩ := parseScope_ok_fields h
    exact ⟨t, n, a, rfl, ht, hn, ha, (checkScope_ok_iff (List.cons_ne_nil _ _)).mp hc⟩
  · rintro ⟨t, n, a, rfl, ht, hn, ha, hc⟩
    have hne : t ≠ [] := by rcases hc with ⟨rfl, -⟩ | ⟨rfl, -⟩ <;> decide
    rw [parseScope_fields hne ht hn ha]
    exact (checkScope_ok_iff (List.cons_ne_nil _ _)).mpr hc

/-- A repository scope joins back to its input. -/
theorem parseScope_round_trip {s : List Char} {sc : Scope} (h : parseScope s = .ok sc)
    (hr : sc.resourceType = "repository".toList) :
    sc.resourceType ++ ':' :: (sc.resourceName ++ ':' :: join ',' sc.actions) = s := by
  obtain ⟨t, n, a, rfl, -, -, -, ⟨rfl, -, rfl⟩ | ⟨-, -, -, -, rfl⟩⟩ := (parseScope_ok_iff s sc).mp h
  · exact absurd hr (by decide : "registry".toList ≠ "repository".toList)
  · rw [join_split]

theorem parseScope_round_trip_pull :
    parseScope "repository:a/b:pull,push".toList =
        .ok ⟨"repository".toList, "a/b".toList, ["pull".toList, "push".toList]⟩ ∧
      "repository".toList ++ ':' :: ("a/b".toList ++ ':' :: join ',' ["pull".toList, "push".toList]) =
        "repository:a/b:pull,push".toList :=
  have h : parseScope "repository:a/b:pull,push".toList =
      .ok ⟨"repository".toList, "a/b".toList, ["pull".toList, "push".toList]⟩ := rfl
  ⟨h, parseScope_round_trip h rfl⟩

/-! ## As built: the length of a repository name -/

theorem byteLen_replicate (k : Nat) (c : Char) : byteLen (List.replicate k c) = k * c.utf8Size := by
  induction k with
  | zero => exact (Nat.zero_mul _).symm
  | succ k ih => rw [List.replicate_succ, byteLen, ih, Nat.succ_mul, Nat.add_comm]

theorem repoName_replicate {k : Nat} (hk : k ≠ 0) : RepoName (List.replicate k 'a') :=
  .one (.word ⟨by simpa using hk, fun c hc => by rw [List.eq_of_mem_replicate hc]; rfl⟩)

/-- A name of 256 characters is accepted, though the error for a long name says it must
    be shorter; the first name refused is 257 characters long. -/
theorem parseScope_accepts_256 :
    parseScope ("repository:".toList ++ List.replicate 256 'a' ++ ":pull".toList) =
        .ok ⟨"repository".toList, List.replicate 256 'a', ["pull".toList]⟩ ∧
      ScopeError.repositoryTooLong.message = "repository must be less than 256 characters long" ∧
      parseScope ("repository:".toList ++ List.replicate 257 'a' ++ ":pull".toList) = .error .repositoryTooLong := by
  have hsplit : ∀ k, "repository:".toList ++ List.replicate k 'a' ++ ":pull".toList =
      "repository".toList ++ ':' :: (List.replicate k 'a' ++ ':' :: "pull".toList) := fun k => by
    simp only [List.append_assoc]; rfl
  have hcolon : ∀ k, ':' ∉ List.replicate k 'a' := fun k h => absurd (List.eq_of_mem_replicate h) (by decide)
  refine ⟨?_, rfl, ?_⟩
  · rw [parseScope_ok_iff]
    exact ⟨_, _, _, hsplit 256, by decide, hcolon 256, by decide,
      .inr ⟨rfl, by rw [byteLen_replicate]; rfl, repoName_replicate (by decide), by decide, rfl⟩⟩
  · rw [hsplit, parseScope_fields (by decide) (by decide) (hcolon 257) (by decide), checkScope,
      byteLen_replicate]
    rfl

end Keppel.Auth
