/-
  Keppel.Swiftplus.Hierarchy — the tree of the `files` table over whole runs.

  `writeFileInfo` upserts a row, then `mkdirAll` inserts a directory marker at each key
  above it with `ON CONFLICT DO NOTHING`; `Move` re-keys a row and calls `mkdirAll` for its
  destination. A marker is never written over a row that is already there, so a file at
  a key above the new row stays a file, now with a child.

  Proved:
  - `WFBelow.addsDirs`: a table each of whose rows has a directory as its parent, or will
    have one once `mkdirAll d` has run, and that holds no file above-or-at `d`, is well
    formed after `mkdirAll d`.
  - `putContent_keeps_wf` / `session_keeps_wf` / `move_keeps_wf`: each operation keeps a
    well-formed table well formed when the path it writes (the destination, for `Move`)
    lies beneath no file and, for `PutContent`, an appending session and the source of
    `Move`, holds no directory; `Delete` keeps it whatever it ends in (Tree.lean).
  - `built_wf`: every store built from the empty store by successful `PutContent`,
    sessions, `Move` and `Delete`, outside those cases and with no broken result stream,
    is well formed: every row below the root has a directory row as its parent.
  - `putContent_keeps_other_rows` / `move_keeps_other_rows`: why the two cases are left out.
    `PutContent` changes no row but its path's, so a directory it overwrites keeps its
    children, now beneath a file; `Move` re-keys one row, so the children of a directory it
    moves keep their old dirname.
  - `file_beneath_file`: `PutContent("/a")` then `PutContent("/a/b")` both succeed and
    leave the file `/a` as the parent of `/a/b`.
-/
import Keppel.Swiftplus.Session
import Keppel.Swiftplus.Move

namespace Keppel.Swiftplus

/-! ## Directory markers over a table -/

/-- No file row stands at a key above-or-at `d`. -/
def NoFileAbove (t : Files) (d : CleanPath) : Prop := ∀ k r, Above d k → t.lookup k = some r → r.sizeBytes < 0

theorem NoFileAbove.sub {t t' : Files} {d : CleanPath} (h : NoFileAbove t d) (hs : SubTable t' t) :
    NoFileAbove t' d :=
  fun k r hk hr => h k r hk (hs k r hr)

theorem dirAt_sub {t t' : Files} {k : Key} (hs : SubTable t' t) (h : dirAt t k = false) : dirAt t' k = false := by
  unfold dirAt at *
  rcases h' : t'.lookup k with _ | r
  · rfl
  · rwa [hs k r h'] at h

theorem Above.parent {d : CleanPath} {k : Key} (h : Above d k) (hk : k.dir.1 ≠ []) : Above d (keyOf k.dir.1) := by
  unfold Above at *
  rw [keyOf_dir_base k.dir hk]
  exact (List.prefix_append _ _).trans h

theorem Above.proper {d : CleanPath} {k : Key} (h : Above d k) : Proper k.base :=
  d.2 _ (h.subset (List.mem_append_right _ (List.mem_singleton_self _)))

/-- No key above-or-at `d` is a key in `d` itself. -/
theorem Above.ne_key {d : CleanPath} {k : Key} (h : Above d k) (b : String) : k ≠ ⟨d, b⟩ := by
  rintro rfl
  have := h.length_le
  simp only [List.length_append, List.length_singleton] at this
  omega

/-- A table that `mkdirAll d` makes well formed: each row below the root has a directory row
    as its parent, or its parent's key is above-or-at `d`; directory rows have proper base
    names; and no file stands above-or-at `d`. -/
structure WFBelow (d : CleanPath) (t : Files) : Prop where
  parents : ∀ k r, t.lookup k = some r → k.dir.1 ≠ [] → dirAt t (keyOf k.dir.1) = true ∨ Above d (keyOf k.dir.1)
  dirs : ∀ k r, t.lookup k = some r → r.sizeBytes < 0 → Proper k.base
  above : NoFileAbove t d

theorem WF.wfBelow {t : Files} {d : CleanPath} (h : WF t) (hno : NoFileAbove t d) : WFBelow d t :=
  ⟨fun k r hr hd => .inl (h.parents k r hr hd), h.dirs, hno⟩

/-- Upserting a file row where no directory stands, beneath no file, leaves a table that
    `mkdirAll` of the row's directory completes. -/
theorem WF.insertFile {t : Files} {k : Key} {r : Row} (h : WF t) (hk : dirAt t k = false) (hr : 0 ≤ r.sizeBytes)
    (hno : NoFileAbove t k.dir) : WFBelow k.dir (t.insert k r) := by
  refine ⟨fun k' r' hr' hd => ?_, fun k' r' hr' hneg => ?_, fun k' r' hk' hr' => ?_⟩
  · by_cases e : k' = k
    · subst e; exact .inr (above_keyOf hd)
    · rw [AList.lookup_insert_ne e] at hr'
      have hp := h.parents k' r' hr' hd
      have hne : keyOf k'.dir.1 ≠ k := fun e' => by rw [e', hk] at hp; cases hp
      left
      unfold dirAt at hp ⊢
      rwa [AList.lookup_insert_ne hne]
  · by_cases e : k' = k
    · subst e; rw [AList.lookup_insert] at hr'; cases hr'; omega
    · rw [AList.lookup_insert_ne e] at hr'; exact h.dirs k' r' hr' hneg
  · rw [AList.lookup_insert_ne (hk'.ne_key k.base)] at hr'
    exact hno k' r' hk' hr'

/-- Erasing a file row keeps a table well formed: no row has a file as its parent. -/
theorem WF.eraseFile {t : Files} {k : Key} (h : WF t) (hk : dirAt t k = false) : WF (t.erase k) :=
  h.erase fun k' r hr hd e => by
    have := h.parents k' r hr hd
    rw [e, hk] at this
    cases this

/-- `mkdirAll d` completes a table that only waits for it. -/
theorem WFBelow.addsDirs {d : CleanPath} {s s' : Store} (h : WFBelow d s.files) (ha : AddsDirs d s s')
    (hall : ∀ k, Above d k → k ∈ s'.files) : WF s'.files := by
  -- every key above-or-at `d` holds a directory afterwards: a marker, or the row already there
  have hdir : ∀ k, Above d k → dirAt s'.files k = true := by
    intro k hk
    obtain ⟨r, hr⟩ := Option.isSome_iff_exists.mp (AList.lookup_isSome.mpr (hall k hk))
    refine dirAt_iff.mpr ⟨r, hr, ?_⟩
    rcases h₀ : s.files.lookup k with _ | r₀
    · rw [(ha.added k r h₀ hr).2]; decide
    · rw [ha.rows k r₀ h₀, Option.some.injEq] at hr
      exact hr ▸ h.above k r₀ hk h₀
  refine ⟨fun k r hr hd => ?_, fun k r hr hneg => ?_⟩
  · rcases h₀ : s.files.lookup k with _ | r₀
    · exact hdir _ ((ha.added k r h₀ hr).1.parent hd)
    · rcases h.parents k r₀ h₀ hd with hp | hp
      · obtain ⟨rp, hrp, hneg⟩ := dirAt_iff.mp hp
        exact dirAt_iff.mpr ⟨rp, ha.rows _ _ hrp, hneg⟩
      · exact hdir _ hp
  · rcases h₀ : s.files.lookup k with _ | r₀
    · exact (ha.added k r h₀ hr).1.proper
    · rw [ha.rows k r₀ h₀, Option.some.injEq] at hr
      exact h.dirs k r₀ h₀ (hr ▸ hneg)

/-! ## Operations that keep a table well formed -/

/-- `writeFileInfo` of a file keeps a table well formed when no directory stands at the
    file's key and no file above it. -/
theorem writeFileInfo_keeps_wf {fi : FileInfo} {w w' : World} (h : (writeFileInfo fi).go w = (.ok (), w'))
    (hf : 0 ≤ fi.sizeBytes) (hw : WF w.store.files) (hk : dirAt w.store.files fi.key = false)
    (hno : NoFileAbove w.store.files fi.dirName) : WF w'.store.files := by
  obtain ⟨hadd, -, hall⟩ := writeFileInfo_ok h
  exact (hw.insertFile hk hf hno).addsDirs hadd hall

theorem putContent_keeps_wf {p : List String} {c : Bytes} {w w' : World} (h : (putContent p c).go w = (.ok (), w'))
    (hw : WF w.store.files) (hk : dirAt w.store.files (keyOf p) = false)
    (hno : NoFileAbove w.store.files (pathDir p)) : WF w'.store.files := by
  obtain ⟨L, -, -, -, w₁, w₂, hf₁, hwfi, hf', -⟩ := putContent_ok h
  rw [hf']
  rw [← hf₁] at hw hk hno
  exact writeFileInfo_keeps_wf hwfi (Int.natCast_nonneg _) hw hk hno

theorem session_keeps_wf {cfg : Config} {p : List String} {a : Bool} {chunks : List Bytes} {close : Bool}
    {w w' : World} (h : (session cfg p a chunks close).run w = (none, w')) (hb : NoBreaks w.env)
    (hw : WF w.store.files) (hk : a = true → dirAt w.store.files (keyOf p) = false)
    (hno : NoFileAbove w.store.files (pathDir p)) : WF w'.store.files := by
  obtain ⟨b, w₁, b₁, w₂, b₂, hwr, hall, hc⟩ := session_ok h
  obtain ⟨hnp, -, -⟩ := writer_ok hwr
  obtain ⟨hfw, -, hsub, happ, hdel, hwf, -⟩ := newPlusWriter_ok hnp
  obtain ⟨ht, hf₂⟩ := writeAll_ok hall
  -- the table as the session's last call finds it: `p` holds no directory, and no file above
  have hw₂ : WF w₂.store.files := hf₂ ▸ hwf hb hw
  have hk₂ : dirAt w₂.store.files (keyOf p) = false := by
    rw [hf₂]
    cases a
    · unfold dirAt; rw [hdel rfl]
    · rw [happ rfl]; exact hk rfl
  have hno₂ : NoFileAbove w₂.store.files (pathDir p) := hno.sub (hf₂ ▸ hsub)
  -- a commit after the flush writes the row of `p`
  have hcommit : ∀ b₃ w₃ fw, Takes b₁ b₃ [] → w₃.store.files = w₂.store.files →
      (b₃.fw.commit).run w₃ = ((none, fw), w') → WF w'.store.files := by
    intro b₃ w₃ fw ht₃ hf₃ hc₃
    obtain ⟨-, -, -, -, w₄, hslo, hwfi⟩ := PlusWriter.commit_ok hc₃
    have hf₄ : w₄.store.files = w₂.store.files := by rw [(swiftWriteSLO_ok hslo).2]; exact hf₃
    have hpath : b₃.fw.fullPath = p := by
      obtain ⟨⟨_, e, -, -⟩, -, -⟩ := ht.trans ht₃
      rw [e]; exact congrArg PlusWriter.fullPath hfw
    rw [hpath] at hwfi
    rw [← hf₄] at hw₂ hk₂ hno₂
    exact writeFileInfo_keeps_wf hwfi (Int.natCast_nonneg _) hw₂ hk₂ hno₂
  cases close
  · obtain ⟨b₃, w₃, fw, ht₃, -, hf₃, hc₃⟩ := BufferedWriter.commit_ok hc
    exact hcommit b₃ w₃ fw ht₃ hf₃ hc₃
  · obtain ⟨b₃, w₃, ht₃, -, hf₃, ⟨fw, hc₃⟩ | rfl⟩ := BufferedWriter.close_ok hc
    · exact hcommit b₃ w₃ fw ht₃ hf₃ hc₃
    · rw [hf₃]; exact hw₂

theorem move_keeps_wf {src dst : List String} {w w' : World} (h : (move src dst).go w = (.ok (), w'))
    (hb : NoBreaks w.env) (hw : WF w.store.files) (hsrc : dirAt w.store.files (keyOf src) = false)
    (hno : NoFileAbove w.store.files (pathDir dst)) : WF w'.store.files := by
  obtain ⟨w₃, w₄, hprune, hnone, hsub, hwf, hmf, -, hadd, -, hall⟩ := move_ok h
  have hw₃ := hwf hb hw
  have hdst : w₃.store.files.lookup (keyOf dst) = none := by
    rcases hd : w.store.files.lookup (keyOf dst) with _ | r₂
    · rw [(hnone hd).1]; exact hd
    · exact AList.lookup_eq_none.mpr (hprune r₂ hd).2.2
  have hsrc₃ := dirAt_sub hsub hsrc
  have hno₃ := hno.sub hsub
  -- the `UPDATE` moves a file row to a key where nothing stands, or changes nothing
  have hbase : WFBelow (pathDir dst) w₄.store.files := by
    unfold moveFile at hmf
    split at hmf
    · rw [← Except.ok.inj hmf]; exact hw₃.wfBelow hno₃
    · rename_i r hr
      split at hmf
      · rw [← Except.ok.inj hmf]; exact hw₃.wfBelow hno₃
      split at hmf
      · cases hmf
      rw [← Except.ok.inj hmf]
      have hr0 : 0 ≤ r.sizeBytes := by
        unfold dirAt at hsrc₃; rw [hr] at hsrc₃; simpa using hsrc₃
      have herase : SubTable (w₃.store.files.erase (keyOf src)) w₃.store.files := fun _ _ h => (lookup_erase_some h).2
      exact (hw₃.eraseFile hsrc₃).insertFile (dirAt_sub herase (by unfold dirAt; rw [hdst])) hr0 (hno₃.sub herase)
  exact hbase.addsDirs hadd hall

/-! ## Stores built by successful operations -/

/-- The stores built from the empty store by successful operations, each in an environment
    where no query's result stream breaks off (`PutContent` makes no such query), leaving
    aside a `PutContent`, an appending session or the source of a `Move` on a path that
    holds a directory, and a `PutContent`, a session or the destination of a `Move`
    beneath a path that holds a file. A session runs from `Writer` to its `Commit` or
    `Close` with no other call in between. -/
inductive Built (cfg : Config) : Store → Prop
  | empty : Built cfg Store.empty
  | putContent {p : List String} {c : Bytes} {w w' : World} : Built cfg w.store →
      dirAt w.store.files (keyOf p) = false → NoFileAbove w.store.files (pathDir p) →
      (putContent p c).go w = (.ok (), w') → Built cfg w'.store
  | session {p : List String} {a : Bool} {chunks : List Bytes} {close : Bool} {w w' : World} :
      Built cfg w.store → NoBreaks w.env → (a = true → dirAt w.store.files (keyOf p) = false) →
      NoFileAbove w.store.files (pathDir p) → (session cfg p a chunks close).run w = (none, w') →
      Built cfg w'.store
  | move {src dst : List String} {w w' : World} : Built cfg w.store → NoBreaks w.env →
      dirAt w.store.files (keyOf src) = false → NoFileAbove w.store.files (pathDir dst) →
      (move src dst).go w = (.ok (), w') → Built cfg w'.store
  | delete {p : List String} {w w' : World} : Built cfg w.store → NoBreaks w.env →
      (delete p).go w = (.ok (), w') → Built cfg w'.store

/-- Every row of a built store below the root has a directory row at its parent's key. -/
theorem built_wf {cfg : Config} {s : Store} (h : Built cfg s) : WF s.files := by
  induction h with
  | empty => exact ⟨fun _ _ h => by simp [Store.empty] at h, fun _ _ h => by simp [Store.empty] at h⟩
  | putContent _ hk hno hok ih => exact putContent_keeps_wf hok ih hk hno
  | session _ hb hk hno hok ih => exact session_keeps_wf hok hb ih hk hno
  | move _ hb hsrc hno hok ih => exact move_keeps_wf hok hb ih hsrc hno
  | @delete p w w' _ hb hok ih =>
    have := delete_keeps_wf p hb ih
    rwa [hok] at this

theorem built_wf_sample : Built cfgChunk1 storeA ∧ WF storeA.files :=
  have h : Built cfgChunk1 storeA :=
    @Built.putContent cfgChunk1 ["a"] [7] ⟨Store.empty, Env.ok fun _ => 0, 0⟩ _ Built.empty rfl
      (fun _ _ _ h => by simp [Store.empty] at h) rfl
  ⟨h, built_wf h⟩

/-! ## The two cases left out: a directory overwritten or moved -/

/-- A successful `PutContent(p)` changes no row but `p`'s, besides adding directory markers: a
    directory it overwrites with a file keeps its children, beneath a file. -/
theorem putContent_keeps_other_rows {p : List String} {c : Bytes} {w w' : World}
    (h : (putContent p c).go w = (.ok (), w')) {k : Key} {r : Row} (hk : k ≠ keyOf p)
    (hr : w.store.files.lookup k = some r) : w'.store.files.lookup k = some r := by
  obtain ⟨L, -, -, -, w₁, w₂, h₁, hw, h₂, -⟩ := putContent_ok h
  obtain ⟨ha, -, -⟩ := writeFileInfo_ok hw
  rw [h₂]
  refine ha.rows k r ?_
  show AList.lookup k (AList.insert (keyOf p) _ w₁.store.files) = some r
  rw [AList.lookup_insert_ne hk, h₁, hr]

/-- A successful `Move(src, dst)` to a free `dst` changes no row but `src`'s, besides adding
    directory markers: the children of a directory it moves keep their dirname, beneath no row. -/
theorem move_keeps_other_rows {src dst : List String} {w w' : World} (h : (move src dst).go w = (.ok (), w'))
    (hd : w.store.files.lookup (keyOf dst) = none) {k : Key} {r : Row} (hk : k ≠ keyOf src)
    (hr : w.store.files.lookup k = some r) : w'.store.files.lookup k = some r := by
  obtain ⟨w₃, w₄, -, hfree, -, -, hm, -, ha, -, -⟩ := move_ok h
  rw [(hfree hd).1] at hm
  refine ha.rows k r ?_
  unfold moveFile at hm
  split at hm
  · rw [← Except.ok.inj hm]; exact hr
  · split_ifs at hm
    · rw [← Except.ok.inj hm]; exact hr
    · rw [← Except.ok.inj hm]
      show AList.lookup k (AList.insert (keyOf dst) _ (AList.erase (keyOf src) w.store.files)) = some r
      rw [AList.lookup_insert_ne (fun e => by rw [e, hd] at hr; cases hr), AList.lookup_erase_ne hk, hr]

/-! ## As built: a file beneath a file -/

/-- The store `PutContent("/a", [1])` then `PutContent("/a/b", [2])` leave. -/
def fileUnderFile : Store := ((putContent ["a", "b"] [2]).go ⟨inlineFileA, envOk, 0⟩).2.store

theorem file_beneath_file :
    ((putContent ["a"] [1]).go ⟨Store.empty, envOk, 0⟩).1 = .ok () ∧
      ((putContent ["a", "b"] [2]).go ⟨inlineFileA, envOk, 0⟩).1 = .ok () ∧
      dirAt inlineFileA.files (keyOf ["a", "b"]) = false ∧
      keyOf ["a", "b"] ∈ fileUnderFile.files ∧ (keyOf ["a", "b"]).dir.1 = ["a"] ∧
      fileUnderFile.files.lookup (keyOf ["a"]) = some ⟨1, [1], ""⟩ ∧ ¬ WF fileUnderFile.files :=
  ⟨rfl, rfl, rfl, by decide, rfl, rfl, by decide⟩

end Keppel.Swiftplus
