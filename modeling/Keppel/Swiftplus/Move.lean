/-
  Keppel.Swiftplus.Move — `Move(src, dst)`.

  `Move` reads both paths, deletes whatever `dst` held with `deleteDownwards`, re-keys
  the row at `src`'s key to `dst`'s key with one `UPDATE`, and creates the directories
  above `dst`. It looks the source row up again only through the `UPDATE`: when the
  deletion of `dst` has taken the source row (as when `dst` is `src` itself, or a
  directory above it), the `UPDATE` matches nothing and `Move` still succeeds.

  Proved:
  - `move_ok`: what a successful `Move` leaves, whatever the backends answered.
  - `move_moves_content`: when the deletion of `dst`'s previous row spares the source
    row and the objects of its location (`Spares`), a successful `Move` leaves at `dst`
    the content `GetContent(src)` returned, and at `src` nothing but, when `src` lies
    above `dst`, the directory marker `mkdirAll` puts there.
  - `move_onto_itself_loses_content`: `Move(p, p)` on a file succeeds and leaves no file
    at `p`; `Move(/a, /a/b)` leaves a directory row at `/a`.
  - `move_noRows`: a source lookup that finds no row ends `Move` with `PathNotFoundError`
    and the store as it was; `move_ignores_lookup_error`: one that fails otherwise is
    ignored, so `Move` of a missing source whose lookup fails deletes the destination and
    succeeds (`move_ignores_failed_lookup`).
-/
import Keppel.Swiftplus.Tree
import Keppel.Swiftplus.Content

namespace Keppel.Swiftplus

/-- What a successful `Move(src, dst)` leaves, from any world: the rows `deleteDownwards`
    reaches from `dst`'s previous row pruned, the row at `src`'s key moved to `dst`'s key,
    and the directory markers above `dst` added. -/
theorem move_ok {src dst : List String} {w w' : World} (h : (move src dst).go w = (.ok (), w')) :
    ∃ w₃ w₄ : World,
      (∀ r₂, w.store.files.lookup (keyOf dst) = some r₂ →
        (deleteDownwards (FileInfo.ofRow (keyOf dst) r₂)).go w.popDb.popDb = (.ok (), w₃) ∧
        Prunes w.store.files (FileInfo.ofRow (keyOf dst) r₂) w w₃ ∧ keyOf dst ∉ w₃.store.files) ∧
      (w.store.files.lookup (keyOf dst) = none → w₃.store = w.store ∧ w₃.writes = w.writes) ∧
      SubTable w₃.store.files w.store.files ∧ (NoBreaks w.env → WF w.store.files → WF w₃.store.files) ∧
      moveFile (keyOf src) (keyOf dst) w₃.store = .ok w₄.store ∧ w₄.writes = w₃.writes ∧
      AddsDirs (pathDir dst) w₄.store w'.store ∧ w'.writes = w₄.writes ∧
      ∀ k, Above (pathDir dst) k → k ∈ w'.store.files := by
  simp only [move] at h
  obtain ⟨⟨fi1, err1⟩, w₁, h1, h2⟩ := go_bind_ok.mp h
  obtain ⟨e1, rfl⟩ := Prod.mk.inj (readFileInfo_go src w ▸ h1)
  have hk1 : fi1.key = keyOf src := by
    have := readResult_key w (keyOf src)
    rwa [Except.ok.inj e1] at this
  split at h2
  · simp at h2
  rw [pure_bind] at h2
  obtain ⟨⟨fi2, err2⟩, w₂, h3, h4⟩ := go_bind_ok.mp h2
  obtain ⟨e2, rfl⟩ := Prod.mk.inj (readFileInfo_go dst _ ▸ h3)
  obtain ⟨_, w₃, h5, h6⟩ := go_bind_ok.mp h4
  obtain ⟨_, w₄, h7, h8⟩ := go_bind_ok.mp h6
  obtain ⟨e7, hw₄, -⟩ := exec_ok h7
  have hadd := mkdirAll_adds (pathDir dst) w₄
  rw [h8] at hadd
  suffices hdel : (∀ r₂, w.store.files.lookup (keyOf dst) = some r₂ →
        (deleteDownwards (FileInfo.ofRow (keyOf dst) r₂)).go w.popDb.popDb = (.ok (), w₃) ∧
        Prunes w.store.files (FileInfo.ofRow (keyOf dst) r₂) w w₃ ∧ keyOf dst ∉ w₃.store.files) ∧
      (w.store.files.lookup (keyOf dst) = none → w₃.store = w.store ∧ w₃.writes = w.writes) ∧
      SubTable w₃.store.files w.store.files ∧ (NoBreaks w.env → WF w.store.files → WF w₃.store.files) from
    ⟨w₃, w₄, hdel.1, hdel.2.1, hdel.2.2.1, hdel.2.2.2, hk1 ▸ e7, hw₄, hadd.1, hadd.2, mkdirAll_ok h8⟩
  rcases readResult_cases w.popDb (keyOf dst) with ⟨he, hn⟩ | ⟨r, he, hr⟩ | ⟨e, he⟩ <;>
    rw [← Except.ok.inj e2, he] at h5 <;>
    simp only [go_pure, go_throw, Prod.mk.injEq, reduceCtorEq, false_and, true_and] at h5
  · subst h5
    exact ⟨fun r₂ hr₂ => absurd (hn.symm.trans hr₂) (by simp), fun _ => ⟨rfl, rfl⟩, fun _ _ h => h, fun _ h => h⟩
  · have p := deleteDownwards_prunes (FileInfo.ofRow (keyOf dst) r) w.popDb.popDb
    rw [h5] at p
    refine ⟨fun r₂ hr₂ => ?_, fun hn' => absurd (hn'.symm.trans hr) (by simp), p.rows, fun hb hw => ?_⟩
    · rw [show r₂ = r from Option.some.inj (hr₂.symm.trans hr)]
      exact ⟨h5, p.of_same rfl rfl rfl, deleteDownwards_ok_absent h5⟩
    · have := deleteDownwards_keeps (canPrune_read hb.popDb hw hr)
      rw [h5] at this
      exact this.wf

/-- `deleteDownwards` of `dst`'s row in `t` spares the row at `k` and the objects of its
    location: no row it reaches is that row or carries its non-empty location. -/
def Spares (t : Files) (dst k : Key) : Prop :=
  ∀ r₂, t.lookup dst = some r₂ → ∀ fi, Reaches t (FileInfo.ofRow dst r₂) fi →
    fi.key ≠ k ∧ ∀ r, t.lookup k = some r → fi.location ≠ "" → fi.location ≠ r.location

/-- `Move` carries a file's content to `dst`, from any world and whatever the backends
    answered to it, when the deletion of `dst`'s previous row spares the source. -/
theorem move_moves_content (cfg : Config) {src dst : List String} {w w' : World} {c : Bytes}
    (r : Fin 8 → UInt8) (hc : ((getContent cfg src).go ⟨w.store, Env.ok r, 0⟩).1 = .ok c)
    (hs : Spares w.store.files (keyOf dst) (keyOf src)) (h : (move src dst).go w = (.ok (), w')) :
    ((getContent cfg dst).go ⟨w'.store, Env.ok r, 0⟩).1 = .ok c ∧
      (w'.store.files.lookup (keyOf src) = none ∨
        w'.store.files.lookup (keyOf src) = some dirRow ∧ Above (pathDir dst) (keyOf src)) := by
  obtain ⟨rs, hrs, hf⟩ := getContent_okEnv_row cfg _ r 0 hc
  obtain ⟨w₃, w₄, hprune, hnone, -, -, hmf, -, hadd, -, -⟩ := move_ok h
  have h₃ : w₃.store.files.lookup (keyOf src) = some rs ∧ keyOf dst ∉ w₃.store.files ∧
      w₃.store.objects ⟨rs.location, .content⟩ = w.store.objects ⟨rs.location, .content⟩ := by
    rcases hd : w.store.files.lookup (keyOf dst) with _ | r₂
    · rw [(hnone hd).1]
      exact ⟨hrs, not_mem_of_lookup_none hd, rfl⟩
    · obtain ⟨-, hp, hdst⟩ := hprune r₂ hd
      have hsp := hs r₂ hd
      refine ⟨?_, hdst, ?_⟩
      · have hmem : keyOf src ∈ w₃.store.files := by
          by_contra hn
          obtain ⟨fi, hr, hk⟩ := hp.removed _ (mem_of_lookup_some hrs) hn
          exact (hsp fi hr).1 hk
        obtain ⟨r', hr'⟩ := Option.isSome_iff_exists.mp (AList.lookup_isSome.mpr hmem)
        rw [hr', Option.some.inj ((hp.rows _ _ hr').symm.trans hrs)]
      · by_contra hne
        obtain ⟨-, fi, hr, hl, hne'⟩ := hp.objects _ hne
        exact (hsp fi hr).2 rs hrs hne' hl
  obtain ⟨hsrc₃, hdst₃, hobj₃⟩ := h₃
  have hne : keyOf src ≠ keyOf dst := fun e => hdst₃ (e ▸ mem_of_lookup_some hsrc₃)
  simp only [moveFile, hsrc₃, hne, if_false, hdst₃, Except.ok.injEq] at hmf
  have hdst₄ : w₄.store.files.lookup (keyOf dst) = some rs := by rw [← hmf]; exact AList.lookup_insert _
  have hsrc₄ : w₄.store.files.lookup (keyOf src) = none := by
    rw [← hmf, AList.lookup_insert_ne hne, AList.lookup_erase]
  refine ⟨getContent_okEnv_transfer cfg w.store r 0 hrs (hadd.rows _ _ hdst₄) hf ?_ hc, ?_⟩
  · rw [hadd.objects, ← hmf]; exact hobj₃
  · rcases h' : w'.store.files.lookup (keyOf src) with _ | r''
    · exact .inl rfl
    · obtain ⟨ha, rfl⟩ := hadd.added _ _ hsrc₄ h'
      exact .inr ⟨rfl, ha⟩

/-- The store `PutContent("/a", [7])` leaves in the empty store. -/
def storeA : Store := ((putContent ["a"] [7]).go ⟨Store.empty, Env.ok fun _ => 0, 0⟩).2.store

/-- The store `PutContent("/b", [8])` then leaves: `Move("/a", "/b")` overwrites a file. -/
def storeAB : Store := ((putContent ["b"] [8]).go ⟨storeA, Env.ok fun _ => 0, 0⟩).2.store

theorem move_moves_content_sample :
    ((getContent ⟨"", 0⟩ ["a"]).go ⟨storeA, Env.ok fun _ => 0, 0⟩).1 = .ok [7] ∧
      Spares storeA.files (keyOf ["b"]) (keyOf ["a"]) ∧
      (move ["a"] ["b"]).go ⟨storeA, Env.ok fun _ => 0, 0⟩ =
        (.ok (), ((move ["a"] ["b"]).go ⟨storeA, Env.ok fun _ => 0, 0⟩).2) ∧
      ((((getContent ⟨"", 0⟩ ["b"]).go
          ⟨((move ["a"] ["b"]).go ⟨storeA, Env.ok fun _ => 0, 0⟩).2.store, Env.ok fun _ => 0, 0⟩).1 = .ok [7] ∧
        (((move ["a"] ["b"]).go ⟨storeA, Env.ok fun _ => 0, 0⟩).2.store.files.lookup (keyOf ["a"]) = none ∨
          ((move ["a"] ["b"]).go ⟨storeA, Env.ok fun _ => 0, 0⟩).2.store.files.lookup (keyOf ["a"]) =
            some dirRow ∧ Above (pathDir ["b"]) (keyOf ["a"])))) ∧
      storeAB.files.lookup (keyOf ["b"]) = some ⟨1, [8], ""⟩ ∧
      ((getContent ⟨"", 0⟩ ["a"]).go ⟨storeAB, Env.ok fun _ => 0, 0⟩).1 = .ok [7] ∧
      Spares storeAB.files (keyOf ["b"]) (keyOf ["a"]) ∧
      (move ["a"] ["b"]).go ⟨storeAB, Env.ok fun _ => 0, 0⟩ =
        (.ok (), ((move ["a"] ["b"]).go ⟨storeAB, Env.ok fun _ => 0, 0⟩).2) ∧
      ((((getContent ⟨"", 0⟩ ["b"]).go
          ⟨((move ["a"] ["b"]).go ⟨storeAB, Env.ok fun _ => 0, 0⟩).2.store, Env.ok fun _ => 0, 0⟩).1 = .ok [7] ∧
        (((move ["a"] ["b"]).go ⟨storeAB, Env.ok fun _ => 0, 0⟩).2.store.files.lookup (keyOf ["a"]) = none ∨
          ((move ["a"] ["b"]).go ⟨storeAB, Env.ok fun _ => 0, 0⟩).2.store.files.lookup (keyOf ["a"]) =
            some dirRow ∧ Above (pathDir ["b"]) (keyOf ["a"])))) :=
  have hs : Spares storeA.files (keyOf ["b"]) (keyOf ["a"]) := fun r₂ h => by
    have : storeA.files.lookup (keyOf ["b"]) = none := rfl
    rw [this] at h
    cases h
  have hb : storeAB.files.lookup (keyOf ["b"]) = some ⟨1, [8], ""⟩ := rfl
  -- the old `/b` is an inline file: its deletion reaches only itself
  have hs₂ : Spares storeAB.files (keyOf ["b"]) (keyOf ["a"]) := fun r₂ h fi hr => by
    rw [hb] at h
    cases h
    cases hr with
    | refl => exact ⟨by decide, fun _ _ hl => absurd rfl hl⟩
    | child hdir _ _ => cases hdir
  ⟨rfl, hs, rfl, @move_moves_content ⟨"", 0⟩ ["a"] ["b"] ⟨storeA, Env.ok fun _ => 0, 0⟩ _ [7] (fun _ => 0) rfl hs rfl,
    hb, rfl, hs₂, rfl,
    @move_moves_content ⟨"", 0⟩ ["a"] ["b"] ⟨storeAB, Env.ok fun _ => 0, 0⟩ _ [7] (fun _ => 0) rfl hs₂ rfl⟩

theorem move_onto_itself_loses_content :
    ((getContent ⟨"", 0⟩ ["a"]).go ⟨storeA, Env.ok fun _ => 0, 0⟩).1 = .ok [7] ∧
      ((move ["a"] ["a"]).go ⟨storeA, Env.ok fun _ => 0, 0⟩).1 = .ok () ∧
      ((getContent ⟨"", 0⟩ ["a"]).go
          ⟨((move ["a"] ["a"]).go ⟨storeA, Env.ok fun _ => 0, 0⟩).2.store, Env.ok fun _ => 0, 0⟩).1 =
        .error (.pathNotFound "/a") ∧
      ((move ["a"] ["a", "b"]).go ⟨storeA, Env.ok fun _ => 0, 0⟩).1 = .ok () ∧
      ((move ["a"] ["a", "b"]).go ⟨storeA, Env.ok fun _ => 0, 0⟩).2.store.files.lookup (keyOf ["a"]) =
        some dirRow :=
  ⟨rfl, rfl, rfl, rfl, rfl⟩

/-! ## The source lookup

`Move` compares the source lookup's error with `sql.ErrNoRows` only, then overwrites it with
the destination lookup's. -/

/-- A source lookup that finds no row ends `Move` with `PathNotFoundError` for `src`, the store
    as it was. -/
theorem move_noRows {src dst : List String} {w : World} (h : (readResult w (keyOf src)).2 = some .noRows) :
    (move src dst).go w = (.error (.pathNotFound (render src)), w.popDb) := by
  rcases hr : readResult w (keyOf src) with ⟨fi, err⟩
  rw [hr] at h
  subst h
  simp [move, go_bind, readFileInfo_go, hr]

/-- A source lookup that fails with any other error leads `Move` to do what it does when the
    lookup finds the row: the `UPDATE` needs only the key. -/
theorem move_ignores_lookup_error {src dst : List String} {st : Store} {env : Env} {n : Nat} {e : SqlError}
    {rest : List DbAnswer} {r : Row} (hr : st.files.lookup (keyOf src) = some r) :
    (move src dst).go ⟨st, { env with db := .fail e :: rest }, n⟩ =
      (move src dst).go ⟨st, { env with db := .ok :: rest }, n⟩ := by
  have h₁ : readResult ⟨st, { env with db := .fail e :: rest }, n⟩ (keyOf src) =
      (FileInfo.ofRow (keyOf src) zeroRow, some (.sql e)) := by
    simp [readResult, queryRow_go, World.dbHead]
  have h₂ : readResult ⟨st, { env with db := .ok :: rest }, n⟩ (keyOf src) = (FileInfo.ofRow (keyOf src) r, none) := by
    simp [readResult, queryRow_go, World.dbHead, lookupFile, hr]
  simp only [move, go_bind, readFileInfo_go, h₁, h₂]
  rfl

/-- With no row at `/b` and its lookup failing, `Move("/b", "/a")` deletes `/a` and succeeds,
    moving nothing. -/
theorem move_ignores_failed_lookup :
    storeA.files.lookup (keyOf ["a"]) = some ⟨1, [7], ""⟩ ∧ storeA.files.lookup (keyOf ["b"]) = none ∧
      ((move ["b"] ["a"]).go ⟨storeA, ⟨[.fail (.other 0)], [], some fun _ => 0⟩, 0⟩).1 = .ok () ∧
      ((move ["b"] ["a"]).go ⟨storeA, ⟨[.fail (.other 0)], [], some fun _ => 0⟩, 0⟩).2.store.files.lookup
        (keyOf ["a"]) = none ∧
      ((move ["b"] ["a"]).go ⟨storeA, ⟨[.fail (.other 0)], [], some fun _ => 0⟩, 0⟩).2.store.files.lookup
        (keyOf ["b"]) = none :=
  ⟨rfl, rfl, rfl, rfl, rfl⟩

end Keppel.Swiftplus
