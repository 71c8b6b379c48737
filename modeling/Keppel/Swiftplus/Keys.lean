/-
  Keppel.Swiftplus.Keys — the key a path is stored under, and the path a record reports.

  `readFileInfo` and `writeFileInfo` keep a path `q` under the key
  `(path.Dir q, path.Base q)`; `fileInfo.Path()` reports the record at key `(d, b)` as
  `path.Join(d, b)`, the path `List` returns for it and the dirname `deleteDownwards`
  queries its children by. `path.Dir` cleans the directory part, but `path.Base` keeps
  the last component as it is, and `base.Base` admits `.` and `..` as components; a
  component of an admitted path is never empty, so its last one is proper unless it is
  `.` or `..`. `path.Join` then drops a `.` and lets a `..` remove the directory's last
  component.

  Proved:
  - `keyOf_path_iff`: the path a record reports leads back to its key exactly when the
    key's base name is proper.
  - `list_stat`: in a call where every backend call succeeds, `List(p)` returns
    `path.Join(p, b)` for each record at a key `(p, b)` and nothing else, and `Stat` of
    that path returns the record exactly when `b` is proper.
  - `list_dotdot_reports_root`: after `PutContent("/a/..", [1])` on the empty store,
    `List("/a")` returns `/`, and `Stat("/")` reports the root directory, not the file.
-/
import Keppel.Swiftplus.Content

namespace Keppel.Swiftplus

/-- `path.Base` of a clean path is one of its components, or `/`: proper either way. -/
theorem proper_pathBase (c : CleanPath) : Proper (pathBase c.1) := by
  rcases h : c.1.getLast? with _ | b
  · simp only [pathBase, h, Option.getD_none]
    decide
  · simpa only [pathBase, h, Option.getD_some] using c.2 b (List.mem_of_getLast?_eq_some h)

theorem keyOf_path_iff (k : Key) : keyOf (pathJoin k.dir.1 k.base).1 = k ↔ Proper k.base :=
  ⟨fun h => h ▸ proper_pathBase (pathJoin k.dir.1 k.base), fun hb => by
    rw [keyOf, pathJoin_proper k.dir hb, pathDir_append, pathBase_append]⟩

theorem mem_basenamesIn {p : List String} {t : Files} {b : String} :
    b ∈ basenamesIn p t ↔ ∃ k row, t.lookup k = some row ∧ k.dir.1 = p ∧ k.base = b := by
  simp only [basenamesIn, List.mem_map, List.mem_filter, decide_eq_true_eq]
  constructor
  · rintro ⟨⟨k, row⟩, ⟨hm, hp⟩, rfl⟩
    exact ⟨k, row, AList.mem_lookup_iff.mpr hm, hp, rfl⟩
  · rintro ⟨k, row, hk, hp, rfl⟩
    exact ⟨⟨k, row⟩, ⟨AList.mem_lookup_iff.mp hk, hp⟩, rfl⟩

section Reads
variable (s : Store) (r : Fin 8 → UInt8) (n : Nat)

/-- The answer of `Stat(q)` names the key `q` is kept under, or is the root's. -/
theorem stat_okEnv_key {q : List String} {fi : FileInfo} (h : ((stat q).go ⟨s, Env.ok r, n⟩).1 = .ok fi) :
    q = [] ∧ fi = ⟨CleanPath.root, "/", -1, [], ""⟩ ∨ q ≠ [] ∧ fi.key = keyOf q := by
  by_cases hq : q = []
  · subst hq
    simp only [stat, if_true, go_pure, Except.ok.injEq] at h
    exact .inl ⟨rfl, h.symm⟩
  · rcases hl : s.files.lookup (keyOf q) with _ | row
    · simp [stat, go_bind, readFileInfo_go, hl, hq] at h
    · rw [stat_okEnv s r n hq hl, Except.ok.injEq] at h
      exact .inr ⟨hq, h ▸ rfl⟩

/-- `List(p)` lists the records whose dirname is `p`; `Stat` finds such a record again at the
    path listed exactly when its base name is proper. -/
theorem list_stat (p : List String) :
    ∃ xs, ((list p).go ⟨s, Env.ok r, n⟩).1 = .ok xs ∧
      (∀ x ∈ xs, ∃ k row, s.files.lookup k = some row ∧ k.dir.1 = p ∧ x = pathJoin p k.base) ∧
      ∀ k row, s.files.lookup k = some row → k.dir.1 = p → pathJoin p k.base ∈ xs ∧
        (((stat (pathJoin p k.base).1).go ⟨s, Env.ok r, n⟩).1 = .ok (FileInfo.ofRow k row) ↔ Proper k.base) := by
  refine ⟨(basenamesIn p s.files).map (pathJoin p), by simp [list, go_map, queryRows_go], fun x hx => ?_,
    fun k row hk hp => ⟨List.mem_map.mpr ⟨k.base, mem_basenamesIn.mpr ⟨k, row, hk, hp, rfl⟩, rfl⟩, ?_⟩⟩
  · obtain ⟨b, hb, rfl⟩ := List.mem_map.mp hx
    obtain ⟨k, row, hk, hp, rfl⟩ := mem_basenamesIn.mp hb
    exact ⟨k, row, hk, hp, rfl⟩
  · subst hp
    constructor
    · intro h
      rcases stat_okEnv_key s r n h with ⟨-, he⟩ | ⟨-, he⟩
      · -- the root's answer: the record's base name is `/`
        rw [show k.base = "/" from congrArg FileInfo.baseName he]
        decide
      · exact (keyOf_path_iff k).mp he.symm
    · intro hb
      have hk' : keyOf (pathJoin k.dir.1 k.base).1 = k := (keyOf_path_iff k).mpr hb
      have hne : (pathJoin k.dir.1 k.base).1 ≠ [] := by simp [pathJoin_proper k.dir hb]
      rw [stat_okEnv s r n hne (hk' ▸ hk), hk']

end Reads

/-! ## As built: a record at `/a/..` -/

/-- The store `PutContent("/a/..", [1])` leaves in the empty store. -/
def dotdotFile : Store := ((putContent ["a", ".."] [1]).go ⟨Store.empty, Env.ok fun _ => 0, 0⟩).2.store

theorem list_dotdot_reports_root :
    dotdotFile.files.lookup (keyOf ["a", ".."]) = some ⟨1, [1], ""⟩ ∧
      ((list ["a"]).go ⟨dotdotFile, Env.ok fun _ => 0, 0⟩).1 = .ok [CleanPath.root] ∧
      ((stat CleanPath.root.1).go ⟨dotdotFile, Env.ok fun _ => 0, 0⟩).1 = .ok ⟨CleanPath.root, "/", -1, [], ""⟩ :=
  ⟨rfl, rfl, rfl⟩

end Keppel.Swiftplus
