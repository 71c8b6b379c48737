/-
  Keppel.Swiftplus.Setup — `NewDriver`'s database: `connectToPostgres`, which creates the
  database on the first run, and `initializeSchema` (src/unnamed/part_000).

  `sql.Open` hands out a pool for a data source name and returns the nil pool with its error;
  a statement on a pool connects, and a server whose database is missing refuses it with
  `pq: database "<name>" does not exist`. `connectToPostgres` then opens a second pool on the
  server's root database (the URI with its path set to `/`), issues `CREATE DATABASE <name>`
  there, closes that pool and returns the first. The answers of `sql.Open`, of the server to
  each statement, of `url.Parse`, of `newSwiftInterface` and of the migration library are the
  environment's (`PgEnv`); the model records the pools opened, those not closed, and the
  statements issued. `Close` on the nil pool is a Go panic, which ends the run (`none`).

  `dbNotExistErrRx` is `^pq: database "(.+?)" does not exist$`. Anchored at both ends, with
  a group of any characters but a line feed, it matches a message made of the prefix, a
  non-empty name without a line feed and the suffix, and its group is that name.

  Proved, whatever the server and the libraries answer:
  - `dbNotExistMatch_eq_some`: the messages the regex matches, and the name it captures.
  - `connectToPostgres_pools`: when `sql.Open` of the URI succeeds, `connectToPostgres`
    returns, every pool it opened is closed but the one it returns, and the root pool is
    always closed.
  - `connectToPostgres_statements`: it issues `SELECT 1` on the URI's database and, exactly
    when that is refused with the missing-database message, `CREATE DATABASE` of the name
    the message gives on the root database; it then returns the first pool with the error of
    `CREATE DATABASE`.
  - `newDriver_keeps_pool`: `NewDriver` closes nothing: a failed `CREATE DATABASE` or migration
    leaves the pool `connectToPostgres` returned open.
-/
import Mathlib.Data.List.Infix

namespace Keppel.Swiftplus

/-! ## `dbNotExistErrRx` -/

def dbNotExistPrefix : List Char := ("pq: database \"").data

def dbNotExistSuffix : List Char := ("\" does not exist").data

/-- `dbNotExistErrRx.FindStringSubmatch(msg)`, its group: the characters between the prefix
    and the suffix, when there is at least one and none is a line feed. -/
def dbNotExistMatch (msg : String) : Option String :=
  let cs := msg.data
  if dbNotExistPrefix.isPrefixOf cs && dbNotExistSuffix.isSuffixOf cs &&
      dbNotExistPrefix.length + dbNotExistSuffix.length < cs.length then
    let name := (cs.drop dbNotExistPrefix.length).take (cs.length - dbNotExistPrefix.length - dbNotExistSuffix.length)
    if '\n' ∈ name then none else some ⟨name⟩
  else none

theorem eq_prefix_middle_suffix {pre suf cs : List Char} (hp : pre <+: cs) (hs : suf <:+ cs)
    (hl : pre.length + suf.length ≤ cs.length) :
    cs = pre ++ (cs.drop pre.length).take (cs.length - pre.length - suf.length) ++ suf := by
  have h1 : cs.drop (cs.length - suf.length) = suf := (List.suffix_iff_eq_drop.mp hs).symm
  have h2 : cs.take pre.length = pre := (List.prefix_iff_eq_take.mp hp).symm
  conv_lhs => rw [← List.take_append_drop pre.length cs, ← List.take_append_drop
    (cs.length - pre.length - suf.length) (cs.drop pre.length)]
  rw [h2, List.drop_drop, show pre.length + (cs.length - pre.length - suf.length) = cs.length - suf.length by omega, h1,
    List.append_assoc]

/-- The regex matches exactly the messages made of the prefix, a non-empty name without a line
    feed and the suffix, and captures the name. -/
theorem dbNotExistMatch_eq_some {msg name : String} :
    dbNotExistMatch msg = some name ↔
      msg.data = dbNotExistPrefix ++ name.data ++ dbNotExistSuffix ∧ name.data ≠ [] ∧ '\n' ∉ name.data := by
  constructor
  · intro h
    simp only [dbNotExistMatch, Bool.and_eq_true, List.isPrefixOf_iff_prefix, List.isSuffixOf_iff_suffix,
      decide_eq_true_eq] at h
    split_ifs at h with hc hn
    cases h
    refine ⟨eq_prefix_middle_suffix hc.1.1 hc.1.2 (by omega), fun he => ?_, hn⟩
    have := congrArg List.length he
    rw [List.length_take, List.length_drop, List.length_nil] at this
    omega
  · rintro ⟨hm, hne, hn⟩
    have hl : 0 < name.data.length := List.length_pos.mpr hne
    simp only [dbNotExistMatch, hm]
    rw [if_pos, if_neg]
    · simp [List.drop_append_of_le_length, List.take_append_of_le_length]
    · simpa using hn
    · simp only [Bool.and_eq_true, List.isPrefixOf_iff_prefix, List.isSuffixOf_iff_suffix, decide_eq_true_eq,
        List.length_append]
      exact ⟨⟨by rw [List.append_assoc]; exact List.prefix_append _ _, List.suffix_append _ _⟩, by omega⟩

example : dbNotExistMatch "pq: database \"keppel\" does not exist" = some "keppel" := by decide

example : dbNotExistMatch "pq: database \"\" does not exist" = none := by decide

/-! ## Pools and statements -/

/-- What the calls have done: the data source name of each pool `sql.Open` handed out, in
    order (a pool is its index), the pools not closed, and each statement issued with the data
    source name of its pool. -/
structure PgLog where
  pools : List String
  live : List Nat
  execs : List (String × String)
  deriving DecidableEq

def PgLog.empty : PgLog := ⟨[], [], []⟩

/-- A run over the log; `none` is a Go panic. -/
abbrev PgM := StateT PgLog Option

/-- What `m.Up()` answers. -/
inductive UpAnswer where
  | ok
  /-- `migrate.ErrNoChange` -/
  | noChange
  | error (e : String)

/-- What the Postgres client, the server and the other libraries answer. -/
structure PgEnv where
  /-- the error of `sql.Open("postgres", dsn)`, if any -/
  openErr : String → Option String
  /-- the error a statement meets on a pool of the data source `dsn`, if any -/
  execErr : String → String → Option String
  /-- `url.Parse(uri)` with its path set to `"/"`, printed; or the error of `url.Parse` -/
  rootURL : String → Except String String
  /-- the error of `newSwiftInterface`, if any -/
  swiftErr : Option String
  /-- the errors of `bindata.WithInstance`, `postgres.WithInstance` and `migrate.NewWithInstance` -/
  sourceErr : Option String
  databaseErr : Option String
  migrateErr : Option String
  up : UpAnswer

/-- `sql.Open("postgres", dsn)`: a new pool, or the nil pool and the error. -/
def sqlOpen (env : PgEnv) (dsn : String) : PgM (Option Nat × Option String) :=
  match env.openErr dsn with
  | some e => pure (none, some e)
  | none => modifyGet fun l =>
    ((some l.pools.length, none), { l with pools := l.pools ++ [dsn], live := l.live ++ [l.pools.length] })

/-- `(*sql.DB).Exec` on a pool `sql.Open` handed out: its error. -/
def dbExec (env : PgEnv) (db : Nat) (stmt : String) : PgM (Option String) :=
  modifyGet fun l => (env.execErr (l.pools.getD db "") stmt, { l with execs := l.execs ++ [(l.pools.getD db "", stmt)] })

/-- `(*sql.DB).Close`; on the nil pool, a panic. -/
def dbClose : Option Nat → PgM Unit
  | none => failure
  | some db => modify fun l => { l with live := l.live.erase db }

/-- `connectToPostgres`: the pool and the error it returns. -/
def connectToPostgres (env : PgEnv) (uri : String) : PgM (Option Nat × Option String) := do
  let (db, err) ← sqlOpen env uri
  let err ← match db, err with
    | some db, none => dbExec env db "SELECT 1"
    | _, err => pure err
  match err with
  | none => return (db, none)
  | some e =>
    match dbNotExistMatch e with
    | none => dbClose db; return (none, some e)
    | some dbName =>
      match env.rootURL uri with
      | .error e => dbClose db; return (none, some e)
      | .ok rootURI =>
        let (db2, err) ← sqlOpen env rootURI
        match db2, err with
        | some db2, none =>
          let err ← dbExec env db2 ("CREATE DATABASE " ++ dbName)
          dbClose (some db2)
          return (db, err)
        | _, err => dbClose db; return (none, err)

/-- `initializeSchema`: the first error of the migration library's calls; `ErrNoChange` of
    `m.Up()` is none. -/
def initializeSchema (env : PgEnv) : Option String :=
  match env.sourceErr, env.databaseErr, env.migrateErr with
  | some e, _, _ => some e
  | none, some e, _ => some e
  | none, none, some e => some e
  | none, none, none =>
    match env.up with
    | .ok | .noChange => none
    | .error e => some e

/-- `NewDriver`: the pool the driver keeps, or the error. -/
def newDriver (env : PgEnv) (uri : String) : PgM (Except String (Option Nat)) := do
  if let some e := env.swiftErr then return .error e
  let (db, err) ← connectToPostgres env uri
  if let some e := err then return .error e
  if let some e := initializeSchema env then return .error e
  return .ok db

/-! ## What each call does -/

section Calls
variable {env : PgEnv} {dsn : String}

@[simp] theorem sqlOpen_ok (h : env.openErr dsn = none) (l : PgLog) :
    (sqlOpen env dsn).run l =
      some ((some l.pools.length, none), { l with pools := l.pools ++ [dsn], live := l.live ++ [l.pools.length] }) := by
  simp only [sqlOpen, h]; rfl

@[simp] theorem sqlOpen_error {e : String} (h : env.openErr dsn = some e) (l : PgLog) :
    (sqlOpen env dsn).run l = some ((none, some e), l) := by
  simp [sqlOpen, h]

@[simp] theorem dbExec_run (db : Nat) (stmt : String) (l : PgLog) :
    (dbExec env db stmt).run l =
      some (env.execErr (l.pools.getD db "") stmt, { l with execs := l.execs ++ [(l.pools.getD db "", stmt)] }) :=
  rfl

@[simp] theorem dbClose_some (db : Nat) (l : PgLog) :
    (dbClose (some db)).run l = some ((), { l with live := l.live.erase db }) := rfl

@[simp] theorem dbClose_none (l : PgLog) : (dbClose none).run l = none := rfl

end Calls

/-! ## `connectToPostgres` -/

/-- The run of `connectToPostgres` on `uri` reaches `CREATE DATABASE name` on the pool of
    `root`: `SELECT 1` is refused with the missing-database message naming `name`, the URI
    parses to `root`, and `sql.Open` of `root` succeeds. -/
def PgEnv.Creates (env : PgEnv) (uri name root : String) : Prop :=
  ∃ e, env.execErr uri "SELECT 1" = some e ∧ dbNotExistMatch e = some name ∧ env.rootURL uri = .ok root ∧
    env.openErr root = none

theorem PgEnv.Creates.unique {env : PgEnv} {uri name root name' root' : String} (h : env.Creates uri name root)
    (h' : env.Creates uri name' root') : name = name' ∧ root = root' := by
  obtain ⟨e, he, hm, hr, -⟩ := h
  obtain ⟨e', he', hm', hr', -⟩ := h'
  obtain rfl : e = e' := Option.some.inj (he.symm.trans he')
  exact ⟨Option.some.inj (hm.symm.trans hm'), Except.ok.inj (hr.symm.trans hr')⟩

theorem select_ne_create (name : String) : "SELECT 1" ≠ "CREATE DATABASE " ++ name := fun h => by
  have := congrArg (fun s : String => s.data.head?) h
  simp only [String.data_append] at this
  cases this

theorem create_inj {name name' : String} (h : "CREATE DATABASE " ++ name = "CREATE DATABASE " ++ name') : name = name' :=
  String.ext (List.append_cancel_left (congrArg String.data h))

/-- Every run of `connectToPostgres` whose `sql.Open` of the URI succeeds, by the branch it
    takes: the database exists; an error before `CREATE DATABASE`, which closes the pool; or
    `CREATE DATABASE` on the root pool, which is closed after it. -/
theorem connectToPostgres_cases (env : PgEnv) {uri : String} (h : env.openErr uri = none) :
    (env.execErr uri "SELECT 1" = none ∧
      (connectToPostgres env uri).run PgLog.empty = some ((some 0, none), ⟨[uri], [0], [(uri, "SELECT 1")]⟩)) ∨
    (∃ e, env.execErr uri "SELECT 1" ≠ none ∧ (∀ name root, ¬ env.Creates uri name root) ∧
      (connectToPostgres env uri).run PgLog.empty = some ((none, some e), ⟨[uri], [], [(uri, "SELECT 1")]⟩)) ∨
    (∃ name root, env.Creates uri name root ∧
      (connectToPostgres env uri).run PgLog.empty = some ((some 0, env.execErr root ("CREATE DATABASE " ++ name)),
        ⟨[uri, root], [0], [(uri, "SELECT 1"), (root, "CREATE DATABASE " ++ name)]⟩)) := by
  simp only [connectToPostgres, StateT.run_bind, sqlOpen_ok h, PgLog.empty, List.length_nil, Option.bind_eq_bind,
    Option.some_bind, dbExec_run, List.nil_append, List.getD_cons_zero]
  rcases he : env.execErr uri "SELECT 1" with _ | e
  · exact .inl ⟨rfl, rfl⟩
  dsimp only
  rcases hm : dbNotExistMatch e with _ | name
  · -- another error
    exact .inr (.inl ⟨e, by simp, fun _ _ ⟨_, he', hm', _⟩ => by simp_all, rfl⟩)
  dsimp only
  rcases hr : env.rootURL uri with e' | root
  · -- `url.Parse` fails
    exact .inr (.inl ⟨e', by simp, fun _ _ ⟨_, _, _, hr', _⟩ => by simp_all, rfl⟩)
  dsimp only
  rcases h2 : env.openErr root with _ | e2
  · exact .inr (.inr ⟨name, root, ⟨e, he, hm, hr, h2⟩, by simp only [StateT.run_bind, sqlOpen_ok h2]; rfl⟩)
  · -- `sql.Open` of the root fails
    exact .inr (.inl ⟨e2, by simp, fun _ _ ⟨_, _, _, _, h2'⟩ => by simp_all,
      by simp only [StateT.run_bind, sqlOpen_error h2]; rfl⟩)

/-- When `sql.Open` of the URI succeeds, `connectToPostgres` returns, and of the pools it opened
    only the one it returns is left open. -/
theorem connectToPostgres_pools (env : PgEnv) {uri : String} (h : env.openErr uri = none) :
    (connectToPostgres env uri).run PgLog.empty ≠ none ∧
      ∀ db err log, (connectToPostgres env uri).run PgLog.empty = some ((db, err), log) → log.live = db.toList := by
  rcases connectToPostgres_cases env h with ⟨-, hr⟩ | ⟨e, -, -, hr⟩ | ⟨name, root, -, hr⟩ <;> rw [hr] <;>
    exact ⟨Option.some_ne_none _, fun _ _ _ h' => by cases h'; rfl⟩

/-- The statements `connectToPostgres` issues: `SELECT 1` on the URI's database first, and
    `CREATE DATABASE name` on `root` exactly when the run reaches it; it then returns the first
    pool with the error of `CREATE DATABASE`. -/
theorem connectToPostgres_statements (env : PgEnv) {uri : String} (h : env.openErr uri = none)
    {db : Option Nat} {err : Option String} {log : PgLog}
    (hr : (connectToPostgres env uri).run PgLog.empty = some ((db, err), log)) (name root : String) :
    log.execs.head? = some (uri, "SELECT 1") ∧
      ((root, "CREATE DATABASE " ++ name) ∈ log.execs ↔ env.Creates uri name root) ∧
      (env.Creates uri name root → db = some 0 ∧ err = env.execErr root ("CREATE DATABASE " ++ name)) := by
  rcases connectToPostgres_cases env h with ⟨he, hr'⟩ | ⟨e, -, hc, hr'⟩ | ⟨name', root', hc, hr'⟩ <;>
    rw [hr'] at hr <;> cases hr
  · have hc : ¬ env.Creates uri name root := fun ⟨_, he', _⟩ => by rw [he] at he'; cases he'
    simp [hc, Ne.symm (select_ne_create name)]
  · simp [hc name root, Ne.symm (select_ne_create name)]
  · have hiff : env.Creates uri name root ↔ name = name' ∧ root = root' :=
      ⟨fun h' => h'.unique hc, fun ⟨h1, h2⟩ => h1 ▸ h2 ▸ hc⟩
    simp only [List.head?_cons, List.mem_cons, Prod.mk.injEq, List.mem_singleton, List.not_mem_nil, or_false, hiff,
      true_and]
    refine ⟨⟨?_, fun ⟨h1, h2⟩ => .inr ⟨h2, h1 ▸ rfl⟩⟩, fun ⟨h1, h2⟩ => h1 ▸ h2 ▸ rfl⟩
    rintro (⟨-, he⟩ | ⟨h2, he⟩)
    · exact absurd he.symm (select_ne_create name)
    · exact ⟨create_inj he, h2⟩

/-! ## `NewDriver` -/

theorem newDriver_run {env : PgEnv} (hs : env.swiftErr = none) (uri : String) {db : Option Nat} {err : Option String}
    {log : PgLog} (hr : (connectToPostgres env uri).run PgLog.empty = some ((db, err), log)) :
    (newDriver env uri).run PgLog.empty =
      some (err.elim ((initializeSchema env).elim (.ok db) .error) .error, log) := by
  simp only [newDriver, hs, StateT.run_bind, StateT.run_pure, Option.pure_def, hr, Option.bind_eq_bind,
    Option.some_bind]
  rcases err with _ | e <;> rcases initializeSchema env with _ | e' <;> rfl

/-- `NewDriver` closes no pool: when `CREATE DATABASE` fails, or `connectToPostgres` succeeds
    and the migration fails, `NewDriver` returns the error and leaves the first pool open. -/
theorem newDriver_keeps_pool (env : PgEnv) {uri : String} (h : env.openErr uri = none) (hs : env.swiftErr = none)
    {e : String}
    (he : (∃ name root, env.Creates uri name root ∧ env.execErr root ("CREATE DATABASE " ++ name) = some e) ∨
      ((env.execErr uri "SELECT 1" = none ∨
          ∃ name root, env.Creates uri name root ∧ env.execErr root ("CREATE DATABASE " ++ name) = none) ∧
        initializeSchema env = some e)) :
    ∃ log, (newDriver env uri).run PgLog.empty = some (.error e, log) ∧ log.live = [0] := by
  rcases connectToPostgres_cases env h with ⟨hsel, hr⟩ | ⟨_, hsel, hc, -⟩ | ⟨name, root, hc, hr⟩
  · -- the database exists: only the migration can fail
    refine ⟨⟨[uri], [0], [(uri, "SELECT 1")]⟩, (newDriver_run hs uri hr).trans ?_, rfl⟩
    rcases he with ⟨_, _, ⟨_, he', _⟩, _⟩ | ⟨-, hi⟩
    · rw [hsel] at he'; cases he'
    · simp [hi]
  · -- no run that fails before `CREATE DATABASE` satisfies `he`
    rcases he with ⟨name, root, hc', _⟩ | ⟨hsel' | ⟨name, root, hc', _⟩, -⟩
    · exact absurd hc' (hc name root)
    · exact absurd hsel' hsel
    · exact absurd hc' (hc name root)
  · -- `CREATE DATABASE` on the root pool
    refine ⟨⟨[uri, root], [0], [(uri, "SELECT 1"), (root, "CREATE DATABASE " ++ name)]⟩,
      (newDriver_run hs uri hr).trans ?_, rfl⟩
    rcases he with ⟨_, _, hc', hce⟩ | ⟨hsel | ⟨_, _, hc', hce⟩, hi⟩
    · obtain ⟨rfl, rfl⟩ := hc'.unique hc; simp [hce]
    · obtain ⟨_, he', _⟩ := hc; rw [hsel] at he'; cases he'
    · obtain ⟨rfl, rfl⟩ := hc'.unique hc; simp [hce, hi]

end Keppel.Swiftplus
