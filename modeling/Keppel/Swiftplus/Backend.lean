/-
  Keppel.Swiftplus.Backend — the backends of the swift-plus driver and one call to each.

  The database holds the `files` table, keyed by `(dirname, basename)`, and the
  `segments` table, keyed by `(location, number)` (migration `001_initial.up.sql`). The
  Swift object store is reached through `swiftInterface`, which is not in src/; it is
  modelled from the spec's adapter interface: `Write` stores an object and returns its
  etag, `Reader` reads one from an offset, `DeleteAll` removes every object under a
  prefix, `WriteSLO` composes a manifest object from listed segments, `MakeTempURL`
  designates an object. An etag is an MD5 digest; digests are taken to be free of
  collisions, so the model represents one by the bytes it digests, and `WriteSLO`
  refuses a manifest whose segment is missing or differs from its size or etag, as
  Swift does.

  Every call may fail, and the environment says which: `Env` lists the answers to the
  database statements and to the object-store calls in the order they are made (calls
  past the end of a list succeed), and the bytes crypto/rand yields. A failed call
  changes nothing. A query read with `for rows.Next()` may also see its result stream
  break off after some rows (`DbAnswer.breaks`): the loop then ends early, and the
  error waits in `rows.Err()`.

  An operation of the driver runs in `Drv`: errors are Go's returned `error`s and keep
  whatever the calls before them changed. `Drv.go` runs one from a world; the lemmas
  here give each call's effect once, so that later proofs never unfold a call.
-/
import Keppel.Swiftplus.Path
import Mathlib.Data.List.AList
import Mathlib.Data.List.Sort

namespace Keppel.Swiftplus

abbrev Bytes := List UInt8

/-- A key of the `files` table: `(dirname, basename)`. -/
structure Key where
  dir : CleanPath
  base : String
  deriving DecidableEq

/-- A row of the `files` table besides its key (`mtime` is not modelled: nothing reads
    it). A negative size marks a directory. -/
structure Row where
  sizeBytes : Int
  contents : Bytes
  location : String
  deriving DecidableEq

abbrev Files := AList fun _ : Key => Row

/-- A row of the `segments` table besides its key `(location, number)`. -/
structure SegRow where
  sizeBytes : Nat
  hash : Bytes
  deriving DecidableEq

abbrev Segments := AList fun _ : String × Nat => SegRow

inductive ObjName where
  | content
  | segment (n : Nat)
  deriving DecidableEq

/-- An object of the store, below the configured object prefix. -/
structure ObjPath where
  location : String
  name : ObjName
  deriving DecidableEq

/-- `plusSegment`, without its `Prefix` (always the configured object prefix). -/
structure Segment where
  location : String
  number : Nat
  sizeBytes : Nat
  hash : Bytes
  deriving DecidableEq

def Segment.objectPath (s : Segment) : ObjPath := ⟨s.location, .segment s.number⟩

/-- `prependPrefix`. -/
def prependPrefix (pfx fullPath : String) : String :=
  let trimmed := String.mk ((fullPath.toList.dropWhile (· = '/')).reverse.dropWhile (· = '/')).reverse
  if pfx = "" then trimmed else pfx ++ "/" ++ trimmed

/-- `%016d`. -/
def pad16 (n : Nat) : String :=
  let ds := Nat.toDigits 10 n
  String.mk (List.replicate (16 - ds.length) '0' ++ ds)

/-- The name of an object in Swift: `fileInfo.ObjectPath` and `plusSegment.ObjectPath`,
    under `prependPrefix`. -/
def ObjPath.render (o : ObjPath) (pfx : String) : String :=
  match o.name with
  | .content => prependPrefix pfx (o.location ++ "/content")
  | .segment n => prependPrefix pfx o.location ++ "/" ++ pad16 n

structure Store where
  files : Files
  segments : Segments
  objects : ObjPath → Option Bytes

def Store.empty : Store := ⟨∅, ∅, fun _ => none⟩

/-- An error of the database other than `sql.ErrNoRows`. -/
inductive SqlError where
  | uniqueViolation
  | other (code : Nat)
  deriving DecidableEq

inductive Err where
  /-- `sql.ErrNoRows` -/
  | noRows
  | sql (e : SqlError)
  /-- `storagedriver.PathNotFoundError` -/
  | pathNotFound (path : String)
  /-- `storagedriver.ErrUnsupportedMethod` -/
  | unsupportedMethod
  | cancelled
  | closed
  | committed
  /-- any other error of the object store, by its HTTP status -/
  | swift (status : Nat)
  /-- crypto/rand could not be read -/
  | rand
  /-- `io.ErrShortWrite` -/
  | shortWrite
  /-- the recursion of `deleteDownwards` never returns -/
  | diverged
  deriving DecidableEq

inductive DbAnswer where
  | ok
  | fail (e : SqlError)
  /-- the result stream breaks off with `e` after `k` rows -/
  | breaks (k : Nat) (e : SqlError)
  deriving DecidableEq

structure Env where
  db : List DbAnswer
  swift : List (Option Err)
  /-- what crypto/rand yields to `plusRandLocation`; `none` when it fails -/
  rand : Option (Fin 8 → UInt8)

/-- The environment in which every call succeeds and crypto/rand yields `r`. -/
def Env.ok (r : Fin 8 → UInt8) : Env := ⟨[], [], some r⟩

structure Config where
  objectPrefix : String
  chunkSize : Int

structure World where
  store : Store
  env : Env
  /-- the `Write` calls the object store has received -/
  writes : Nat

abbrev Drv := ExceptT Err (StateM World)

/-- Run a driver operation from a world. -/
def Drv.go {α : Type} (x : Drv α) (w : World) : Except Err α × World := x.run.run w

/-! ## Running `Drv` -/

section Go
variable {α β : Type}

@[simp] theorem go_pure (a : α) (w : World) : (pure a : Drv α).go w = (.ok a, w) := rfl

@[simp] theorem go_throw (e : Err) (w : World) : (throw e : Drv α).go w = (.error e, w) := rfl

theorem go_pure_ok {a b : α} {w w' : World} : (pure a : Drv α).go w = (.ok b, w') ↔ a = b ∧ w = w' := by
  simp

theorem go_bind (x : Drv α) (f : α → Drv β) (w : World) :
    (x >>= f).go w = match x.go w with
      | (.ok a, w') => (f a).go w'
      | (.error e, w') => (.error e, w') := by
  simp only [Drv.go, ExceptT.run_bind, StateT.run_bind]
  rcases x.run.run w with ⟨_ | _, _⟩ <;> rfl

theorem go_bind_ok {x : Drv α} {f : α → Drv β} {w w'' : World} {b : β} :
    (x >>= f).go w = (.ok b, w'') ↔ ∃ a w', x.go w = (.ok a, w') ∧ (f a).go w' = (.ok b, w'') := by
  rw [go_bind]
  rcases x.go w with ⟨_ | a, w'⟩ <;> simp [and_assoc]

theorem go_map (f : α → β) (x : Drv α) (w : World) :
    (f <$> x).go w = match x.go w with
      | (.ok a, w') => (.ok (f a), w')
      | (.error e, w') => (.error e, w') := by
  simp only [Drv.go, ExceptT.run_map, StateT.run_map]
  rcases x.run.run w with ⟨_ | _, _⟩ <;> rfl

theorem go_tryCatch (x : Drv α) (h : Err → Drv α) (w : World) :
    (tryCatch x h).go w = match x.go w with
      | (.ok a, w') => (.ok a, w')
      | (.error e, w') => (h e).go w' := by
  unfold Drv.go
  show (ExceptT.tryCatch x h).run.run w = _
  simp only [ExceptT.tryCatch, ExceptT.run_mk, StateT.run_bind]
  unfold ExceptT.run
  generalize StateT.run x w = r
  rcases r with ⟨_ | _, _⟩ <;> rfl

/-- A relation between a world and the one a run ends in, kept by each step of a bind. -/
theorem go_bind_step (R : World → World → Prop) (htrans : ∀ {a b c}, R a b → R b c → R a c)
    {x : Drv α} {f : α → Drv β} {w : World}
    (hx : R w (x.go w).2) (hf : ∀ a w', x.go w = (.ok a, w') → R w' ((f a).go w').2) :
    R w ((x >>= f).go w).2 := by
  rw [go_bind]
  rcases hgo : x.go w with ⟨_ | a, w'⟩
  · simpa [hgo] using hx
  · exact htrans (by simpa [hgo] using hx) (hf a w' hgo)

theorem go_tryCatch_rethrow_ok {x : Drv α} {f : Err → Err} {w w' : World} {a : α}
    (h : (tryCatch x fun e => throw (f e)).go w = (.ok a, w')) : x.go w = (.ok a, w') := by
  rw [go_tryCatch] at h
  rcases hx : x.go w with ⟨_ | _, _⟩ <;> simp_all

theorem go_discard_ok {x : Drv α} {w w' : World} (h : (discard x).go w = (.ok (), w')) :
    ∃ a, x.go w = (.ok a, w') := by
  simp only [discard, Functor.discard, LawfulFunctor.map_const, Function.comp_apply, go_map] at h
  rcases hx : x.go w with ⟨_ | a, _⟩ <;> simp_all

@[simp] theorem get_go (w : World) : (get : Drv World).go w = (.ok w, w) := rfl

@[simp] theorem modify_go (f : World → World) (w : World) : (modify f : Drv Unit).go w = (.ok (), f w) := rfl

@[simp] theorem modifyGet_go (f : World → α × World) (w : World) :
    (modifyGet f : Drv α).go w = (.ok (f w).1, (f w).2) := rfl

end Go

/-! ## Calls that keep a relation between stores -/

/-- A call keeps the relation `R` between the store it starts from and the one it leaves,
    whatever the backends answer. -/
def Keeps {α : Type} (R : Store → Store → Prop) (x : Drv α) : Prop := ∀ w, R w.store (x.go w).2.store

namespace Keeps
variable {α β : Type} {R : Store → Store → Prop}

theorem ite {c : Prop} [Decidable c] {x y : Drv α} (hx : Keeps R x) (hy : Keeps R y) :
    Keeps R (if c then x else y) := by
  split <;> assumption

theorem discard {x : Drv α} (hx : Keeps R x) : Keeps R (discard x) := fun w => by
  simp only [Functor.discard, LawfulFunctor.map_const, Function.comp_apply, go_map]
  rcases hgo : x.go w with ⟨_ | a, w'⟩ <;> simpa [hgo] using hx w

section Refl
variable [IsRefl Store R]

theorem of_store {x : Drv α} (h : ∀ w, (x.go w).2.store = w.store) : Keeps R x := fun w => by
  rw [h w]; exact refl_of R _

theorem pure' (a : α) : Keeps R (pure a : Drv α) := fun _ => refl_of R _

theorem throw' (e : Err) : Keeps R (throw e : Drv α) := fun _ => refl_of R _

theorem throw_bind (e : Err) (f : α → Drv β) : Keeps R (throw e >>= f) := fun _ => refl_of R _

end Refl

section Trans
variable [IsTrans Store R]

theorem bind {x : Drv α} {f : α → Drv β} (hx : Keeps R x) (hf : ∀ a, Keeps R (f a)) : Keeps R (x >>= f) := fun w =>
  go_bind_step (fun w w' => R w.store w'.store) (fun h₁ h₂ => trans_of R h₁ h₂) (hx w) fun a w' _ => hf a w'

theorem tryCatch {x : Drv α} {h : Err → Drv α} (hx : Keeps R x) (hh : ∀ e, Keeps R (h e)) :
    Keeps R (tryCatch x h) := fun w => by
  rw [go_tryCatch]
  rcases hgo : x.go w with ⟨_ | a, w'⟩
  · exact trans_of R (by simpa [hgo] using hx w) (hh _ w')
  · simpa [hgo] using hx w

end Trans

end Keeps

/-! ## The calls -/

def World.dbHead (w : World) : DbAnswer := w.env.db.headD .ok

def World.popDb (w : World) : World := { w with env := { w.env with db := w.env.db.tail } }

def World.swiftHead (w : World) : Option Err := w.env.swift.headD none

def World.popSwift (w : World) : World := { w with env := { w.env with swift := w.env.swift.tail } }

def World.setStore (w : World) (s : Store) : World := { w with store := s }

@[simp] theorem popDb_store (w : World) : w.popDb.store = w.store := rfl

@[simp] theorem popSwift_store (w : World) : w.popSwift.store = w.store := rfl

@[simp] theorem setStore_store (w : World) (s : Store) : (w.setStore s).store = s := rfl

@[simp] theorem swiftHead_writes (w : World) (n : Nat) : ({ w with writes := n } : World).swiftHead = w.swiftHead :=
  rfl

/-- The database's answer to the next statement. -/
def nextDb : Drv DbAnswer := modifyGet fun w => (w.dbHead, w.popDb)

/-- A statement that changes the tables; `f` may refuse it (a constraint). -/
def exec (f : Store → Except SqlError Store) : Drv Unit := do
  match ← nextDb with
  | .ok =>
    match f (← get).store with
    | .ok s => modify fun w => w.setStore s
    | .error e => throw (.sql e)
  | .fail e | .breaks _ e => throw (.sql e)

/-- `QueryRow(...).Scan(...)`: one row, or `sql.ErrNoRows`. -/
def queryRow {α : Type} (q : Store → Option α) : Drv α := do
  match ← nextDb with
  | .ok | .breaks (_ + 1) _ =>
    match q (← get).store with
    | some a => pure a
    | none => throw .noRows
  | .fail e | .breaks 0 e => throw (.sql e)

/-- A query read with `for rows.Next()`, whose `rows.Err()` is never read. -/
def queryRows {α : Type} (q : Store → List α) : Drv (List α) := do
  match ← nextDb with
  | .ok => return q (← get).store
  | .fail e => throw (.sql e)
  | .breaks k _ => return (q (← get).store).take k

/-- The object store's answer to the next call. -/
def swiftCall : Drv Unit := do
  match ← modifyGet fun w => (w.swiftHead, w.popSwift) with
  | some e => throw e
  | none => pure ()

def setObject (objs : ObjPath → Option Bytes) (o : ObjPath) (d : Bytes) : ObjPath → Option Bytes :=
  fun o' => if o' = o then some d else objs o'

def modifyObjects (f : (ObjPath → Option Bytes) → ObjPath → Option Bytes) : Drv Unit :=
  modify fun w => w.setStore { w.store with objects := f w.store.objects }

/-- Modelled from the spec: `swiftInterface.Write` stores `data` at `o`; the etag is
    returned. -/
def swiftWrite (o : ObjPath) (data : Bytes) : Drv Bytes := do
  modify fun w => { w with writes := w.writes + 1 }
  swiftCall
  modifyObjects fun objs => setObject objs o data
  return data

/-- Modelled from the spec: `swiftInterface.Reader`, the object's bytes from `offset` on; a
    missing object is reported under its name in Swift. -/
def swiftReader (cfg : Config) (o : ObjPath) (offset : Nat) : Drv Bytes := do
  swiftCall
  match (← get).store.objects o with
  | some d => return d.drop offset
  | none => throw (.pathNotFound (o.render cfg.objectPrefix))

/-- Modelled from the spec: `swiftInterface.DeleteAll` of `<prefix>/<location>/`, every
    object of the location. -/
def swiftDeleteAll (location : String) : Drv Unit := do
  swiftCall
  modifyObjects fun objs o => if o.location = location then none else objs o

/-- Whether Swift accepts `s` as a segment of a manifest: present, of its size and etag. -/
def segmentValid (objs : ObjPath → Option Bytes) (s : Segment) : Bool :=
  objs s.objectPath = some s.hash && s.hash.length = s.sizeBytes

/-- Modelled from the spec: `swiftInterface.WriteSLO`, the manifest object at `o`, read back
    as its segments in order. The model stores the segments' bytes as they are when the
    manifest is written; Swift reads the segment objects again at each read, so the two part
    only once a segment object is rewritten after the manifest. -/
def swiftWriteSLO (o : ObjPath) (segments : List Segment) : Drv Unit := do
  swiftCall
  if segments.all (segmentValid (← get).store.objects) then
    modifyObjects fun objs => setObject objs o (segments.map (·.hash)).flatten
  else throw (.swift 400)

/-- Modelled from the spec: `swiftInterface.MakeTempURL`, a URL designating the object. -/
def swiftMakeTempURL (o : ObjPath) : Drv ObjPath := do
  swiftCall
  return o

/-! ## What each call does -/

@[simp] theorem nextDb_go (w : World) : nextDb.go w = (.ok w.dbHead, w.popDb) := rfl

theorem exec_go (f : Store → Except SqlError Store) (w : World) : (exec f).go w = match w.dbHead with
    | .ok => match f w.store with
      | .ok s => (.ok (), w.popDb.setStore s)
      | .error e => (.error (.sql e), w.popDb)
    | .fail e | .breaks _ e => (.error (.sql e), w.popDb) := by
  rcases h : w.dbHead with _ | e | ⟨k, e⟩ <;> simp [exec, go_bind, h]
  cases f w.store <;> rfl

theorem exec_ok {f : Store → Except SqlError Store} {w w' : World} (h : (exec f).go w = (.ok (), w')) :
    f w.store = .ok w'.store ∧ w'.writes = w.writes ∧ w'.env = w.popDb.env := by
  rw [exec_go] at h
  split at h
  · split at h <;> simp only [Prod.mk.injEq, reduceCtorEq, false_and] at h
    obtain ⟨-, rfl⟩ := h
    exact ⟨by simp_all, rfl, rfl⟩
  all_goals simp at h

theorem queryRow_go {α : Type} (q : Store → Option α) (w : World) : (queryRow q).go w = match w.dbHead with
    | .ok | .breaks (_ + 1) _ => (match q w.store with | some a => .ok a | none => .error .noRows, w.popDb)
    | .fail e | .breaks 0 e => (.error (.sql e), w.popDb) := by
  rcases h : w.dbHead with _ | e | ⟨_ | k, e⟩ <;> simp [queryRow, go_bind, h] <;> cases q w.store <;> rfl

theorem queryRows_go {α : Type} (q : Store → List α) (w : World) : (queryRows q).go w = match w.dbHead with
    | .ok => (.ok (q w.store), w.popDb)
    | .fail e => (.error (.sql e), w.popDb)
    | .breaks k _ => (.ok ((q w.store).take k), w.popDb) := by
  rcases h : w.dbHead with _ | e | ⟨k, e⟩ <;> simp [queryRows, go_bind, h] <;> rfl

theorem queryRows_store {α : Type} (q : Store → List α) (w : World) : ((queryRows q).go w).2 = w.popDb := by
  rw [queryRows_go]; split <;> rfl

theorem queryRows_sub {α : Type} {q : Store → List α} {w w' : World} {as : List α}
    (h : (queryRows q).go w = (.ok as, w')) : as.Sublist (q w.store) := by
  rw [queryRows_go] at h
  split at h <;> simp only [Prod.mk.injEq, Except.ok.injEq, reduceCtorEq, false_and] at h
  · exact h.1 ▸ List.Sublist.refl _
  · exact h.1 ▸ List.take_sublist _ _

/-- No query's result stream breaks off. -/
def NoBreaks (e : Env) : Prop := ∀ a ∈ e.db, ∀ k e', a ≠ .breaks k e'

theorem NoBreaks.popDb {w : World} (h : NoBreaks w.env) : NoBreaks w.popDb.env :=
  fun a ha => h a (List.mem_of_mem_tail ha)

theorem NoBreaks.of_db {w w' : World} (h : NoBreaks w.env) (he : w'.env.db = w.env.db) : NoBreaks w'.env :=
  fun a ha => h a (he ▸ ha)

theorem NoBreaks.dbHead {w : World} (h : NoBreaks w.env) (k : Nat) (e : SqlError) : w.dbHead ≠ .breaks k e := by
  unfold World.dbHead
  rcases hd : w.env.db with _ | ⟨a, l⟩
  · simp
  · exact h a (by simp [hd]) k e

/-- Without broken streams a query returns all its rows. -/
theorem queryRows_full {α : Type} {q : Store → List α} {w w' : World} {as : List α} (hb : NoBreaks w.env)
    (h : (queryRows q).go w = (.ok as, w')) : as = q w.store ∧ w' = w.popDb := by
  rw [queryRows_go] at h
  split at h <;> simp only [Prod.mk.injEq, Except.ok.injEq, reduceCtorEq, false_and] at h
  · exact ⟨h.1.symm, h.2.symm⟩
  · exact absurd ‹_› (hb.dbHead _ _)

theorem swiftCall_go (w : World) :
    swiftCall.go w = ((match w.swiftHead with | some e => .error e | none => .ok ()), w.popSwift) := by
  rcases h : w.swiftHead with _ | e <;> simp [swiftCall, go_bind, h]

theorem swiftWrite_go (o : ObjPath) (d : Bytes) (w : World) :
    (swiftWrite o d).go w = match w.swiftHead with
      | some e => (.error e, { w with writes := w.writes + 1 }.popSwift)
      | none => (.ok d, { w with writes := w.writes + 1 }.popSwift.setStore
          { w.store with objects := setObject w.store.objects o d }) := by
  rcases h : w.swiftHead with _ | e <;> simp [swiftWrite, go_bind, go_map, swiftCall_go, h]
  rfl

/-- A successful `Write` stores the object and answers with its bytes as the etag. -/
theorem swiftWrite_ok {o : ObjPath} {d x : Bytes} {w w' : World} (h : (swiftWrite o d).go w = (.ok x, w')) :
    x = d ∧ w'.store = { w.store with objects := setObject w.store.objects o d } ∧ w'.writes = w.writes + 1 := by
  rw [swiftWrite_go] at h
  split at h <;> simp only [Prod.mk.injEq, reduceCtorEq, false_and, Except.ok.injEq] at h
  obtain ⟨rfl, rfl⟩ := h
  exact ⟨rfl, rfl, rfl⟩

theorem swiftDeleteAll_go (l : String) (w : World) :
    (swiftDeleteAll l).go w = match w.swiftHead with
      | some e => (.error e, w.popSwift)
      | none => (.ok (), w.popSwift.setStore
          { w.store with objects := fun o => if o.location = l then none else w.store.objects o }) := by
  rcases h : w.swiftHead with _ | e <;> simp [swiftDeleteAll, go_bind, swiftCall_go, h]
  rfl

theorem swiftMakeTempURL_go (o : ObjPath) (w : World) :
    (swiftMakeTempURL o).go w = match w.swiftHead with
      | some e => (.error e, w.popSwift)
      | none => (.ok o, w.popSwift) := by
  rcases h : w.swiftHead with _ | e <;> simp [swiftMakeTempURL, go_bind, go_map, swiftCall_go, h]

theorem swiftReader_go (cfg : Config) (o : ObjPath) (n : Nat) (w : World) :
    (swiftReader cfg o n).go w = match w.swiftHead, w.store.objects o with
      | some e, _ => (.error e, w.popSwift)
      | none, some d => (.ok (d.drop n), w.popSwift)
      | none, none => (.error (.pathNotFound (o.render cfg.objectPrefix)), w.popSwift) := by
  rcases h : w.swiftHead with _ | e <;> simp [swiftReader, go_bind, swiftCall_go, h]
  cases w.store.objects o <;> rfl

theorem swiftWriteSLO_go (o : ObjPath) (segs : List Segment) (w : World) :
    (swiftWriteSLO o segs).go w = match w.swiftHead with
      | some e => (.error e, w.popSwift)
      | none => if segs.all (segmentValid w.store.objects) then
          (.ok (), w.popSwift.setStore
            { w.store with objects := setObject w.store.objects o (segs.map (·.hash)).flatten })
        else (.error (.swift 400), w.popSwift) := by
  rcases h : w.swiftHead with _ | e <;> simp [swiftWriteSLO, go_bind, swiftCall_go, h]
  split <;> rfl

/-- A successful `WriteSLO` found every segment valid and stored their bytes, in order. -/
theorem swiftWriteSLO_ok {o : ObjPath} {segs : List Segment} {w w' : World}
    (h : (swiftWriteSLO o segs).go w = (.ok (), w')) :
    segs.all (segmentValid w.store.objects) = true ∧
      w'.store = { w.store with objects := setObject w.store.objects o (segs.map (·.hash)).flatten } := by
  rw [swiftWriteSLO_go] at h
  split at h
  · cases h
  · split at h
    · cases h; exact ⟨‹_›, rfl⟩
    · cases h

/-! ## Worlds in which every call succeeds -/

section Ok
variable (s : Store) (r : Fin 8 → UInt8) (n : Nat)

@[simp] theorem dbHead_ok : (World.mk s (Env.ok r) n).dbHead = .ok := rfl

@[simp] theorem popDb_ok : (World.mk s (Env.ok r) n).popDb = ⟨s, Env.ok r, n⟩ := rfl

@[simp] theorem swiftHead_ok : (World.mk s (Env.ok r) n).swiftHead = none := rfl

@[simp] theorem popSwift_ok : (World.mk s (Env.ok r) n).popSwift = ⟨s, Env.ok r, n⟩ := rfl

@[simp] theorem setStore_mk (e : Env) (s' : Store) : (World.mk s e n).setStore s' = ⟨s', e, n⟩ := rfl

end Ok

end Keppel.Swiftplus
