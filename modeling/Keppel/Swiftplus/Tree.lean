/-
  Keppel.Swiftplus.Tree — `deleteDownwards` and `Delete` over the tree of the `files`
  table.

  `deleteDownwards fi` deletes the objects of `fi`'s location, then, for a directory,
  every row the query `dirname = fi.Path()` returns, each by the same function, and
  last `fi`'s own row: children before their parent. The rows it visits are those
  `Reaches` names: `fi`, and below a directory the rows of its query.

  A table is well formed (`WF`) when every row below the root has a directory row at
  its parent's key and every directory row has a proper base name; the rows a
  directory's query returns are then exactly the rows whose parent it is.

  Proved:
  - `deleteDownwards_prunes`: whatever the backends answer, `deleteDownwards fi` only
    removes rows it reaches from `fi` and objects of their non-empty locations; it
    changes no segment and makes no `Write` call.
  - `deleteDownwardsN_ok_absent`: a successful run has removed `fi`'s row.
  - `deleteDownwards_ok_keeps` / `delete_ok`: when no two rows share a non-empty
    location, a successful run keeps every row it did not visit and the objects of every
    location but `fi`'s (`KeepsObjects`); a successful `Delete` changes nothing or is
    such a run from the row at its key.
  - `deleteDownwardsN_keeps` / `delete_keeps_wf`: when no query's result stream breaks
    off, every run of `Delete`, successful or stopped by an error anywhere, leaves a
    well-formed table well formed.
  - `delete_orphans_on_broken_stream`: the loop over a query's rows never reads
    `rows.Err()`, so a stream that breaks off ends it as if no row were left; `Delete`
    of a directory then removes the directory, leaves its child without a parent, and
    reports success.
-/
import Keppel.Swiftplus.Driver

namespace Keppel.Swiftplus

/-! ## What `deleteDownwards` may change -/

/-- Every row of `t'` is a row of `t`. -/
def SubTable (t' t : Files) : Prop := ∀ k r, t'.lookup k = some r → t.lookup k = some r

theorem SubTable.trans {t₁ t₂ t₃ : Files} (h₁ : SubTable t₁ t₂) (h₂ : SubTable t₂ t₃) : SubTable t₁ t₃ :=
  fun k r h => h₂ k r (h₁ k r h)

/-- `fi'` is `fi` or a row `deleteDownwards fi` reaches in `t` through its children queries. -/
inductive Reaches (t : Files) : FileInfo → FileInfo → Prop
  | refl (fi : FileInfo) : Reaches t fi fi
  | child {fi fi' : FileInfo} {c : String × Row} : fi.isDir → c ∈ childrenOf fi.path t →
      Reaches t (FileInfo.ofRow ⟨fi.path, c.1⟩ c.2) fi' → Reaches t fi fi'

/-- What `deleteDownwards fi` may do, whatever the backends answer: remove rows and the
    objects of non-empty locations that it reaches from `fi` in `t`, and nothing else. -/
structure Prunes (t : Files) (fi : FileInfo) (w w' : World) : Prop where
  rows : SubTable w'.store.files w.store.files
  removed : ∀ k, k ∈ w.store.files → k ∉ w'.store.files → ∃ fi', Reaches t fi fi' ∧ fi'.key = k
  objects : ∀ o, w'.store.objects o ≠ w.store.objects o →
    w'.store.objects o = none ∧ ∃ fi', Reaches t fi fi' ∧ fi'.location = o.location ∧ fi'.location ≠ ""
  segments : w'.store.segments = w.store.segments
  writes : w'.writes = w.writes
  rand : w'.env.rand = w.env.rand

section Prunes
variable {t : Files} {fi : FileInfo}

theorem Prunes.refl' {w w' : World} (h : w'.store = w.store) (hw : w'.writes = w.writes)
    (hr : w'.env.rand = w.env.rand) : Prunes t fi w w' :=
  ⟨fun k r hk => h ▸ hk, fun k hk hk' => absurd (h ▸ hk) hk', fun o ho => absurd (by rw [h]) ho, by rw [h], hw, hr⟩

theorem Prunes.trans {w₁ w₂ w₃ : World} (h₁ : Prunes t fi w₁ w₂) (h₂ : Prunes t fi w₂ w₃) : Prunes t fi w₁ w₃ := by
  refine ⟨h₂.rows.trans h₁.rows, fun k hk hk' => ?_, fun o ho => ?_, h₂.segments.trans h₁.segments,
    h₂.writes.trans h₁.writes, h₂.rand.trans h₁.rand⟩
  · by_cases hk₂ : k ∈ w₂.store.files
    · exact h₂.removed k hk₂ hk'
    · exact h₁.removed k hk hk₂
  · by_cases ho₂ : w₃.store.objects o = w₂.store.objects o
    · rw [ho₂] at ho ⊢
      exact h₁.objects o ho
    · exact h₂.objects o ho₂

theorem Prunes.of_same {w₀ w₁ w₂ : World} (h : Prunes t fi w₁ w₂) (hs : w₁.store = w₀.store)
    (hw : w₁.writes = w₀.writes) (hr : w₁.env.rand = w₀.env.rand) : Prunes t fi w₀ w₂ :=
  (Prunes.refl' hs hw hr).trans h

theorem Reaches.trans {fi₁ fi₂ fi₃ : FileInfo} (h₁ : Reaches t fi₁ fi₂) (h₂ : Reaches t fi₂ fi₃) :
    Reaches t fi₁ fi₃ := by
  induction h₁ with
  | refl => exact h₂
  | child hd hc _ ih => exact .child hd hc (ih h₂)

theorem Prunes.mono {fi' : FileInfo} {w w' : World} (hr : Reaches t fi fi') (h : Prunes t fi' w w') :
    Prunes t fi w w' :=
  ⟨h.rows, fun k hk hk' => (h.removed k hk hk').imp fun _ ⟨h₁, h₂⟩ => ⟨hr.trans h₁, h₂⟩,
    fun o ho => (h.objects o ho).imp_right fun ⟨fi'', h₁, h₂⟩ => ⟨fi'', hr.trans h₁, h₂⟩, h.segments, h.writes,
    h.rand⟩


theorem deleteBlobs_prunes (w : World) : Prunes t fi w ((deleteBlobs fi).go w).2 := by
  rw [deleteBlobs_go]
  split
  · exact Prunes.refl' rfl rfl rfl
  · rename_i hL
    rw [swiftDeleteAll_go]
    split
    · exact Prunes.refl' rfl rfl rfl
    · refine ⟨fun k r h => h, fun k hk hk' => absurd hk hk', fun o ho => ?_, rfl, rfl, rfl⟩
      simp only [setStore_store, popSwift_store] at ho ⊢
      split_ifs at ho ⊢ with h
      · exact ⟨rfl, fi, .refl fi, h.symm, hL⟩
      · exact absurd rfl ho

theorem deleteFile_prunes (w : World) : Prunes t fi w ((exec (deleteFile fi.key)).go w).2 := by
  rw [exec_go]
  rcases w.dbHead with _ | e | ⟨_, e⟩
  · refine ⟨fun k r h => ?_, fun k hk hk' => ⟨fi, .refl fi, ?_⟩, fun o ho => absurd rfl ho, rfl, rfl, rfl⟩
    · simp only [deleteFile, setStore_store] at h
      by_cases e : k = fi.key
      · rw [e, AList.lookup_erase] at h; cases h
      · rwa [AList.lookup_erase_ne e] at h
    · simp only [deleteFile, setStore_store, AList.mem_erase, not_and] at hk'
      by_contra hne
      exact hk' (Ne.symm hne) hk
  all_goals exact Prunes.refl' rfl rfl rfl

/-- The relation a run of `deleteDownwards fi` keeps, from a table within `t`. -/
def PrunesFrom (t : Files) (fi : FileInfo) (w w' : World) : Prop := SubTable w.store.files t → Prunes t fi w w'

theorem PrunesFrom.trans {w₁ w₂ w₃ : World} (h₁ : PrunesFrom t fi w₁ w₂) (h₂ : PrunesFrom t fi w₂ w₃) :
    PrunesFrom t fi w₁ w₃ := fun hs => (h₁ hs).trans (h₂ ((h₁ hs).rows.trans hs))

theorem forM_prunes (hdir : fi.isDir) {f : String × Row → Drv Unit}
    (hf : ∀ c ∈ childrenOf fi.path t, ∀ w, PrunesFrom t (FileInfo.ofRow ⟨fi.path, c.1⟩ c.2) w ((f c).go w).2) :
    ∀ cs : List (String × Row), (∀ c ∈ cs, c ∈ childrenOf fi.path t) → ∀ w, PrunesFrom t fi w ((cs.forM f).go w).2
  | [], _, w => fun _ => Prunes.refl' rfl rfl rfl
  | c :: cs, hcs, w => by
    show PrunesFrom t fi w ((f c >>= fun _ => cs.forM f).go w).2
    have hc := hcs c (List.mem_cons_self _ _)
    refine go_bind_step (PrunesFrom t fi) PrunesFrom.trans ?_ ?_
    · exact fun hs => (hf c hc w hs).mono (.child hdir hc (.refl _))
    · exact fun _ w' _ => forM_prunes hdir hf cs (fun c' h => hcs c' (List.mem_cons_of_mem _ h)) w'

theorem deleteDownwardsN_prunes (n : Nat) : ∀ (fi : FileInfo) (w : World),
    PrunesFrom t fi w ((deleteDownwardsN n fi).go w).2 := by
  induction n with
  | zero => exact fun fi w _ => Prunes.refl' rfl rfl rfl
  | succ n ih =>
    intro fi w
    simp only [deleteDownwardsN]
    refine go_bind_step (PrunesFrom t fi) PrunesFrom.trans (fun _ => deleteBlobs_prunes w) fun _ w₁ _ => ?_
    split
    · rename_i hdir
      refine go_bind_step (PrunesFrom t fi) PrunesFrom.trans ?_ fun rows w₂ hq => ?_
      · exact fun _ => Prunes.refl' (by rw [queryRows_store]; rfl) (by rw [queryRows_store]; rfl)
          (by rw [queryRows_store]; rfl)
      refine go_bind_step (PrunesFrom t fi) PrunesFrom.trans ?_ fun _ _ _ _ => deleteFile_prunes _
      have hw₂ : w₂ = w₁.popDb := by
        have := queryRows_store (fun s => childrenOf fi.path s.files) w₁
        rwa [hq] at this
      refine fun hs => forM_prunes hdir (fun c _ => ih _) rows (fun c hc => ?_) w₂ hs
      subst hw₂
      exact mem_childrenOf.mpr (hs _ _ (mem_childrenOf.mp ((queryRows_sub hq).subset hc)))
    · exact go_bind_step (PrunesFrom t fi) PrunesFrom.trans (fun _ => Prunes.refl' rfl rfl rfl) fun _ _ _ _ => deleteFile_prunes _

end Prunes

theorem deleteDownwards_prunes (fi : FileInfo) (w : World) :
    Prunes w.store.files fi w ((deleteDownwards fi).go w).2 := by
  simp only [deleteDownwards, go_bind, get_go]
  exact deleteDownwardsN_prunes _ fi w fun _ _ h => h

/-- A successful `deleteDownwards fi` has removed `fi`'s row last. -/
theorem deleteDownwardsN_ok_absent {n : Nat} {fi : FileInfo} {w w' : World}
    (h : (deleteDownwardsN n fi).go w = (.ok (), w')) : fi.key ∉ w'.store.files := by
  cases n with
  | zero => simp [deleteDownwardsN] at h
  | succ n =>
    simp only [deleteDownwardsN] at h
    obtain ⟨_, w₁, -, h2⟩ := go_bind_ok.mp h
    have last : ∀ {w₃ : World}, (exec (deleteFile fi.key)).go w₃ = (.ok (), w') → fi.key ∉ w'.store.files :=
      fun h4 => by rw [(deleteFile_ok h4).1, AList.mem_erase]; exact fun h => h.1 rfl
    split at h2
    · obtain ⟨_, w₂, -, h3⟩ := go_bind_ok.mp h2
      obtain ⟨_, w₃, -, h4⟩ := go_bind_ok.mp h3
      exact last h4
    · obtain ⟨_, w₃, -, h4⟩ := go_bind_ok.mp h2
      exact last h4


theorem deleteDownwards_ok_absent {fi : FileInfo} {w w' : World} (h : (deleteDownwards fi).go w = (.ok (), w')) :
    fi.key ∉ w'.store.files := by
  simp only [deleteDownwards, go_bind, get_go] at h
  exact deleteDownwardsN_ok_absent h

/-- Every row of the `files` table after is a row of the one before: a call that keeps this
    adds no row and changes none, whatever the backends answer. -/
def NoNewRows (s s' : Store) : Prop := SubTable s'.files s.files

instance : IsRefl Store NoNewRows := ⟨fun _ _ _ h => h⟩

instance : IsTrans Store NoNewRows := ⟨fun _ _ _ h₁ h₂ => h₂.trans h₁⟩

theorem NoNewRows.deleteDownwards (fi : FileInfo) : Keeps NoNewRows (deleteDownwards fi) := fun w =>
  (deleteDownwards_prunes fi w).rows

/-! ## The manifests a successful run keeps -/

/-- No two rows carry the same non-empty location. -/
def LocationsUnique (t : Files) : Prop :=
  ∀ k₁ k₂ r₁ r₂, t.lookup k₁ = some r₁ → t.lookup k₂ = some r₂ → r₁.location = r₂.location →
    r₁.location ≠ "" → k₁ = k₂

theorem lookup_erase_some {t : Files} {k k' : Key} {r : Row} (h : (t.erase k).lookup k' = some r) :
    k' ≠ k ∧ t.lookup k' = some r := by
  by_cases e : k' = k
  · rw [e, AList.lookup_erase] at h; cases h
  · rw [AList.lookup_erase_ne e] at h; exact ⟨e, h⟩

theorem LocationsUnique.sub {t t' : Files} (h : LocationsUnique t) (hs : SubTable t' t) : LocationsUnique t' :=
  fun k₁ k₂ r₁ r₂ h₁ h₂ => h k₁ k₂ r₁ r₂ (hs _ _ h₁) (hs _ _ h₂)

/-- From `w` to `w'` rows were only removed, and every row left finds the manifest object
    of its location as it was. -/
structure KeepsObjects (w w' : World) : Prop where
  rows : SubTable w'.store.files w.store.files
  objects : ∀ k r, w'.store.files.lookup k = some r → r.location ≠ "" →
    w'.store.objects ⟨r.location, .content⟩ = w.store.objects ⟨r.location, .content⟩

theorem KeepsObjects.of_store {w w' : World} (h : w'.store = w.store) : KeepsObjects w w' :=
  ⟨fun _ _ hk => h ▸ hk, fun _ _ _ _ => by rw [h]⟩

theorem KeepsObjects.trans {w₁ w₂ w₃ : World} (h₁ : KeepsObjects w₁ w₂) (h₂ : KeepsObjects w₂ w₃) :
    KeepsObjects w₁ w₃ :=
  ⟨h₂.rows.trans h₁.rows, fun k r hr hL => (h₂.objects k r hr hL).trans (h₁.objects k r (h₂.rows k r hr) hL)⟩

theorem forM_ok_keeps {α : Type} {t : Files} {f : α → Drv Unit} :
    ∀ as : List α, (∀ a ∈ as, ∀ w w', SubTable w.store.files t → (f a).go w = (.ok (), w') → KeepsObjects w w') →
      ∀ w w', SubTable w.store.files t → (as.forM f).go w = (.ok (), w') → KeepsObjects w w'
  | [], _, w, w', _, h => by
    cases h
    exact KeepsObjects.of_store rfl
  | a :: as, hf, w, w', hs, h => by
    obtain ⟨_, w₁, h1, h2⟩ := go_bind_ok.mp h
    have k₁ := hf a (List.mem_cons_self _ _) w w₁ hs h1
    exact k₁.trans (forM_ok_keeps as (fun a ha => hf a (List.mem_cons_of_mem _ ha)) w₁ w' (k₁.rows.trans hs) h2)

/-- A successful `deleteDownwards fi`, run on a table within `t` where no two rows share a
    location and no row but `fi`'s own carries `fi`'s location, keeps the manifest of every
    row it leaves: the only location whose objects it deletes with a row left behind would
    be `fi`'s, and `fi`'s row is gone. -/
theorem deleteDownwardsN_ok_keeps {t : Files} (ht : LocationsUnique t) (n : Nat) :
    ∀ (fi : FileInfo) (w w' : World), SubTable w.store.files t →
      (fi.location ≠ "" → ∀ k r, t.lookup k = some r → r.location = fi.location → k = fi.key) →
      (deleteDownwardsN n fi).go w = (.ok (), w') → KeepsObjects w w' := by
  induction n with
  | zero => intro fi w w' _ _ h; simp [deleteDownwardsN] at h
  | succ n ih =>
    intro fi w w' hs hown h
    have habsent := deleteDownwardsN_ok_absent h
    simp only [deleteDownwardsN] at h
    obtain ⟨_, w₁, h1, h2⟩ := go_bind_ok.mp h
    have hf₁ : w₁.store.files = w.store.files := by have := (deleteBlobs_frame fi w).1; rwa [h1] at this
    have ho₁ := (deleteBlobs_rest fi w).2
    rw [h1] at ho₁
    have last : ∀ {w₃ : World}, KeepsObjects w₁ w₃ → (exec (deleteFile fi.key)).go w₃ = (.ok (), w') →
        KeepsObjects w₁ w' := fun k₃ h4 => by
      obtain ⟨e, -, -⟩ := exec_ok h4
      simp only [deleteFile, Except.ok.injEq] at e
      exact k₃.trans ⟨fun k r hr => (lookup_erase_some (by rw [← e] at hr; exact hr)).2, fun _ _ _ _ => by rw [← e]⟩
    -- from the first child to `fi`'s own row
    have k₁ : KeepsObjects w₁ w' := by
      split at h2
      · obtain ⟨rows, w₂, hq, h3⟩ := go_bind_ok.mp h2
        obtain ⟨⟨⟩, w₃, h5, h6⟩ := go_bind_ok.mp h3
        have hw₂ : w₂ = w₁.popDb := by
          have := queryRows_store (fun s => childrenOf fi.path s.files) w₁
          rwa [hq] at this
        subst hw₂
        have hs₁ : SubTable w₁.popDb.store.files t := fun k r hr => hs k r (by rw [← hf₁]; exact hr)
        refine last ((@KeepsObjects.of_store w₁ w₁.popDb rfl).trans
          (forM_ok_keeps rows (fun c hc w w' hsw h' => ih _ w w' hsw ?_ h') w₁.popDb w₃ hs₁ h5)) h6
        -- a child's location is carried by its own row only
        have hc' := hs₁ _ _ (mem_childrenOf.mp ((queryRows_sub hq).subset hc))
        exact fun hL k r hr he => ht k _ r c.2 hr hc' he (he ▸ hL)
      · obtain ⟨_, w₃, h3, h4⟩ := go_bind_ok.mp h2
        cases h3
        exact last (KeepsObjects.of_store rfl) h4
    refine ⟨k₁.rows.trans fun k r hr => by rw [← hf₁]; exact hr, fun k r hr hL => ?_⟩
    rw [k₁.objects k r hr hL]
    refine ho₁ _ fun he => habsent ?_
    -- a row left with `fi`'s location would be `fi`'s own
    have hk := hown (he ▸ hL) k r (hs k r (by rw [← hf₁]; exact k₁.rows k r hr)) he
    exact hk ▸ mem_of_lookup_some hr

theorem deleteDownwards_ok_keeps {k : Key} {r : Row} {w w' : World} (ht : LocationsUnique w.store.files)
    (hr : w.store.files.lookup k = some r) (h : (deleteDownwards (FileInfo.ofRow k r)).go w = (.ok (), w')) :
    KeepsObjects w w' := by
  simp only [deleteDownwards, go_bind, get_go] at h
  exact deleteDownwardsN_ok_keeps ht _ (FileInfo.ofRow k r) w w' (fun _ _ h => h)
    (fun hL k' r' hr' he => ht k' k r' r hr' hr he (he ▸ hL)) h

/-- A successful `Delete(p)` found no row at `p`'s key, or ran `deleteDownwards` to success
    from the row it read. -/
theorem delete_ok {p : List String} {w w' : World} (h : (delete p).go w = (.ok (), w')) :
    w'.store = w.store ∨ ∃ r, w.store.files.lookup (keyOf p) = some r ∧
      (deleteDownwards (FileInfo.ofRow (keyOf p) r)).go w.popDb = (.ok (), w') := by
  simp only [delete, go_bind, readFileInfo_go] at h
  rcases readResult_cases w (keyOf p) with ⟨he, -⟩ | ⟨r, he, hr⟩ | ⟨e, he⟩ <;> rw [he] at h
  · cases h
    exact .inl rfl
  · exact .inr ⟨r, hr, h⟩
  · cases h

/-! ## Well-formed tables -/

/-- Whether the row at `k` is a directory. -/
def dirAt (t : Files) (k : Key) : Bool :=
  match t.lookup k with
  | some r => decide (r.sizeBytes < 0)
  | none => false

theorem forall_rows_iff {t : Files} {P : Key → Row → Prop} :
    (∀ e ∈ t.entries, P e.1 e.2) ↔ ∀ k r, t.lookup k = some r → P k r :=
  ⟨fun h k r hk => h ⟨k, r⟩ (AList.mem_lookup_iff.mp hk), fun h e he => h e.1 e.2 (AList.mem_lookup_iff.mpr he)⟩

/-- Every row below the root has a directory row at its parent's key, and every directory
    row has a proper base name. -/
structure WF (t : Files) : Prop where
  parents : ∀ k r, t.lookup k = some r → k.dir.1 ≠ [] → dirAt t (keyOf k.dir.1) = true
  dirs : ∀ k r, t.lookup k = some r → r.sizeBytes < 0 → Proper k.base

instance (t : Files) : Decidable (WF t) :=
  decidable_of_iff ((∀ e ∈ t.entries, e.1.dir.1 ≠ [] → dirAt t (keyOf e.1.dir.1) = true) ∧
      ∀ e ∈ t.entries, e.2.sizeBytes < 0 → Proper e.1.base)
    ⟨fun ⟨a, b⟩ => ⟨forall_rows_iff.mp a, forall_rows_iff.mp b⟩,
      fun ⟨a, b⟩ => ⟨forall_rows_iff.mpr a, forall_rows_iff.mpr b⟩⟩

theorem dirAt_iff {t : Files} {k : Key} : dirAt t k = true ↔ ∃ r, t.lookup k = some r ∧ r.sizeBytes < 0 := by
  unfold dirAt
  split <;> simp_all

theorem keyOf_dir_base (d : CleanPath) (hd : d.1 ≠ []) : (keyOf d.1).dir.1 ++ [(keyOf d.1).base] = d.1 := by
  simp only [keyOf, pathDir_clean, pathBase, List.getLast?_eq_getLast _ hd, Option.getD_some]
  exact List.dropLast_append_getLast hd

/-- Erasing a key no row has as its parent keeps a table well formed. -/
theorem WF.erase {t : Files} (h : WF t) {k : Key}
    (hk : ∀ k' r, t.lookup k' = some r → k'.dir.1 ≠ [] → keyOf k'.dir.1 ≠ k) : WF (t.erase k) := by
  refine ⟨fun k' r hr hd => ?_, fun k' r hr => h.dirs k' r (lookup_erase_some hr).2⟩
  obtain ⟨-, hr⟩ := lookup_erase_some hr
  unfold dirAt
  rw [AList.lookup_erase_ne (hk k' r hr hd)]
  exact h.parents k' r hr hd

/-! ## Runs that keep a table well formed -/

/-- What `deleteDownwards fi` needs to keep a table well formed: no broken result stream, a
    well-formed table, `fi` as its row stands (if it still does), and a proper base name
    for `fi` if it is a directory. -/
structure CanPrune (fi : FileInfo) (w : World) : Prop where
  env : NoBreaks w.env
  wf : WF w.store.files
  row : ∀ r, w.store.files.lookup fi.key = some r → r = fi.row
  proper : fi.isDir → Proper fi.baseName

theorem CanPrune.sub {fi : FileInfo} {w w' : World} (h : CanPrune fi w) (env : NoBreaks w'.env)
    (wf : WF w'.store.files) (hs : SubTable w'.store.files w.store.files) : CanPrune fi w' :=
  ⟨env, wf, fun r hr => h.row r (hs _ _ hr), h.proper⟩

theorem CanPrune.congr {fi : FileInfo} {w w' : World} (h : CanPrune fi w) (env : NoBreaks w'.env)
    (hf : w'.store.files = w.store.files) : CanPrune fi w' :=
  h.sub env (hf ▸ h.wf) (fun _ _ hr => hf ▸ hr)

theorem parent_is_path {fi : FileInfo} {w : World} (h : CanPrune fi w) {k : Key} {r : Row}
    (hr : w.store.files.lookup k = some r) (hd : k.dir.1 ≠ []) (hk : keyOf k.dir.1 = fi.key) :
    fi.isDir ∧ k.dir = fi.path := by
  obtain ⟨r', hr', hneg⟩ := dirAt_iff.mp (h.wf.parents k r hr hd)
  rw [hk] at hr'
  have hdir : fi.isDir := by
    rw [h.row r' hr'] at hneg
    exact decide_eq_true hneg
  refine ⟨hdir, Subtype.ext ?_⟩
  rw [FileInfo.path, pathJoin_proper _ (h.proper hdir), ← keyOf_dir_base k.dir hd, hk]
  rfl

/-- Removing `fi`'s row once every child the query found is gone keeps the table well
    formed: no row left has it as its parent. -/
theorem deleteFile_keeps {fi : FileInfo} {t : Files} {w : World} (h : CanPrune fi w)
    (hs : SubTable w.store.files t)
    (hc : fi.isDir → ∀ c ∈ childrenOf fi.path t, (⟨fi.path, c.1⟩ : Key) ∉ w.store.files) :
    CanPrune fi ((exec (deleteFile fi.key)).go w).2 := by
  rw [exec_go]
  rcases w.dbHead with _ | e | ⟨_, e⟩
  · refine ⟨h.env.popDb, h.wf.erase fun k r hr hd hk => ?_, fun r hr => ?_, h.proper⟩
    · obtain ⟨hdir, hkd⟩ := parent_is_path h hr hd hk
      have hkey : (⟨fi.path, k.base⟩ : Key) = k := by rw [← hkd]
      exact hc hdir (k.base, r) (mem_childrenOf.mpr (hs _ _ (hkey ▸ hr)))
        (AList.lookup_isSome.mp (by rw [hkey, hr]; rfl))
    · simp [deleteFile, AList.lookup_erase] at hr
  all_goals exact h.congr h.env.popDb rfl

theorem deleteDownwardsN_sub (n : Nat) (fi : FileInfo) (w : World) :
    SubTable ((deleteDownwardsN n fi).go w).2.store.files w.store.files :=
  (deleteDownwardsN_prunes n fi w fun _ _ h => h).rows

theorem forM_sub {α : Type} {f : α → Drv Unit} (hf : ∀ a w, SubTable ((f a).go w).2.store.files w.store.files) :
    ∀ (cs : List α) (w : World), SubTable ((cs.forM f).go w).2.store.files w.store.files
  | [], _ => fun _ _ h => h
  | a :: cs, w => by
    show SubTable ((f a >>= fun _ => cs.forM f).go w).2.store.files w.store.files
    exact go_bind_step (fun w w' => SubTable w'.store.files w.store.files) (fun h₁ h₂ => h₂.trans h₁) (hf a w)
      fun _ w' _ => forM_sub hf cs w'

/-- After a successful loop over the children, none of them is left. -/
theorem forM_ok_absent {fi : FileInfo} {n : Nat} :
    ∀ (cs : List (String × Row)) (w w' : World),
      (cs.forM fun c => deleteDownwardsN n (FileInfo.ofRow ⟨fi.path, c.1⟩ c.2)).go w = (.ok (), w') →
      ∀ c ∈ cs, (⟨fi.path, c.1⟩ : Key) ∉ w'.store.files
  | [], _, _, _ => by simp
  | c :: cs, w, w', h => by
    obtain ⟨_, w₁, h1, h2⟩ := go_bind_ok.mp h
    intro c' hc' hmem
    rcases List.mem_cons.mp hc' with rfl | hc'
    · have hsub := forM_sub (fun c => deleteDownwardsN_sub n (FileInfo.ofRow ⟨fi.path, c.1⟩ c.2)) cs w₁
      rw [h2] at hsub
      obtain ⟨r, hr⟩ := Option.isSome_iff_exists.mp (AList.lookup_isSome.mpr hmem)
      exact deleteDownwardsN_ok_absent h1 (AList.lookup_isSome.mp (by rw [ofRow_key, hsub _ _ hr]; rfl))
    · exact forM_ok_absent cs w₁ w' h2 c' hc' hmem

/-- What a run of `deleteDownwards fi` keeps: a world it may start from stays one. -/
def KeepsWF (fi : FileInfo) (w w' : World) : Prop := CanPrune fi w → CanPrune fi w'

/-- What the loop over the children of `fi` keeps, from a table within the snapshot `t`. -/
def LoopKeeps (fi : FileInfo) (t : Files) (w w' : World) : Prop :=
  CanPrune fi w ∧ SubTable w.store.files t → CanPrune fi w' ∧ SubTable w'.store.files t

theorem forM_keeps {fi : FileInfo} {t : Files} (ht : WF t) {n : Nat}
    (ih : ∀ fi' w, KeepsWF fi' w ((deleteDownwardsN n fi').go w).2) :
    ∀ cs : List (String × Row), (∀ c ∈ cs, c ∈ childrenOf fi.path t) → ∀ w,
      LoopKeeps fi t w ((cs.forM fun c => deleteDownwardsN n (FileInfo.ofRow ⟨fi.path, c.1⟩ c.2)).go w).2
  | [], _, w => id
  | c :: cs, hcs, w => by
    show LoopKeeps fi t w ((deleteDownwardsN n (FileInfo.ofRow ⟨fi.path, c.1⟩ c.2) >>= fun _ =>
      cs.forM fun c => deleteDownwardsN n (FileInfo.ofRow ⟨fi.path, c.1⟩ c.2)).go w).2
    refine go_bind_step (LoopKeeps fi t) (fun h₁ h₂ h => h₂ (h₁ h)) ?_
      fun _ w' _ => forM_keeps ht ih cs (fun c' h => hcs c' (List.mem_cons_of_mem _ h)) w'
    rintro ⟨h, hs⟩
    have hc := mem_childrenOf.mp (hcs c (List.mem_cons_self _ _))
    have hc' : CanPrune (FileInfo.ofRow ⟨fi.path, c.1⟩ c.2) w :=
      ⟨h.env, h.wf, fun r hr => Option.some.inj ((hs _ _ hr).symm.trans hc),
        fun hd => ht.dirs _ _ hc (of_decide_eq_true hd)⟩
    have h' := ih _ w hc'
    have hsub := deleteDownwardsN_sub n (FileInfo.ofRow ⟨fi.path, c.1⟩ c.2) w
    exact ⟨h.sub h'.env h'.wf hsub, hsub.trans hs⟩

/-- `deleteDownwards` removes rows children first: when no result stream breaks off, every
    run of it, ending in success or in any error, leaves a well-formed table well formed. -/
theorem deleteDownwardsN_keeps (n : Nat) : ∀ fi w, KeepsWF fi w ((deleteDownwardsN n fi).go w).2 := by
  induction n with
  | zero => exact fun fi w h => h
  | succ n ih =>
    intro fi w
    simp only [deleteDownwardsN]
    refine go_bind_step (KeepsWF fi) (fun h₁ h₂ h => h₂ (h₁ h))
      (fun h => h.congr (h.env.of_db (deleteBlobs_frame fi w).2.2.2) (deleteBlobs_frame fi w).1) fun _ w₁ _ h₁ => ?_
    split
    · rename_i hdir
      rw [go_bind]
      rcases hq : (queryRows fun s => childrenOf fi.path s.files).go w₁ with ⟨_ | rows, w₂⟩
      · have := queryRows_store (fun s => childrenOf fi.path s.files) w₁
        rw [hq] at this
        subst this
        exact h₁.congr h₁.env.popDb rfl
      · obtain ⟨rfl, rfl⟩ := queryRows_full h₁.env hq
        have hl := forM_keeps h₁.wf ih _ (fun c hc => hc) w₁.popDb ⟨h₁.congr h₁.env.popDb rfl, fun _ _ h => h⟩
        dsimp only
        rw [go_bind]
        rcases hr : (List.forM (childrenOf fi.path w₁.store.files)
          fun c => deleteDownwardsN n (FileInfo.ofRow ⟨fi.path, c.1⟩ c.2)).go w₁.popDb with ⟨_ | _, w₃⟩
        · rw [hr] at hl; exact hl.1
        · rw [hr] at hl
          exact deleteFile_keeps hl.1 hl.2 fun _ => forM_ok_absent _ _ _ hr
    · exact deleteFile_keeps h₁ (fun _ _ h => h) fun hd => absurd hd ‹_›

theorem deleteDownwards_keeps {fi : FileInfo} {w : World} (h : CanPrune fi w) :
    CanPrune fi ((deleteDownwards fi).go w).2 := by
  simp only [deleteDownwards, go_bind, get_go]
  exact deleteDownwardsN_keeps _ fi w h

/-- A row read by `readFileInfo` can be pruned from a well-formed table. -/
theorem canPrune_read {w : World} {k : Key} {r : Row} (hb : NoBreaks w.env) (hw : WF w.store.files)
    (hr : w.store.files.lookup k = some r) : CanPrune (FileInfo.ofRow k r) w.popDb :=
  ⟨hb.popDb, hw, fun _ hr' => Option.some.inj (hr'.symm.trans hr), fun hd => hw.dirs k r hr (of_decide_eq_true hd)⟩

/-- `Delete`, whatever it ends in, keeps a well-formed table well formed when no result
    stream breaks off. -/
theorem delete_keeps_wf (p : List String) {w : World} (hb : NoBreaks w.env) (hw : WF w.store.files) :
    WF ((delete p).go w).2.store.files := by
  simp only [delete, go_bind, readFileInfo_go]
  rcases readResult_cases w (keyOf p) with ⟨he, -⟩ | ⟨r, he, hr⟩ | ⟨e, he⟩ <;> rw [he]
  · exact hw
  · exact (deleteDownwards_keeps (canPrune_read hb hw hr)).wf
  · exact hw

/-! ## A result stream that breaks off -/

/-- The directory `/a` holding the file `/a/b`. -/
def dirWithFile : Store :=
  ⟨((∅ : Files).insert ⟨CleanPath.root, "a"⟩ dirRow).insert ⟨⟨["a"], by decide⟩, "b"⟩ ⟨1, [7], ""⟩, ∅, fun _ => none⟩

theorem delete_orphans_on_broken_stream :
    WF dirWithFile.files ∧
      ((delete ["a"]).go ⟨dirWithFile, ⟨[.ok, .breaks 0 (.other 0)], [], none⟩, 0⟩).1 = .ok () ∧
      ¬ WF ((delete ["a"]).go ⟨dirWithFile, ⟨[.ok, .breaks 0 (.other 0)], [], none⟩, 0⟩).2.store.files ∧
      (⟨⟨["a"], by decide⟩, "b"⟩ : Key) ∈
        ((delete ["a"]).go ⟨dirWithFile, ⟨[.ok, .breaks 0 (.other 0)], [], none⟩, 0⟩).2.store.files :=
  ⟨by decide, rfl, by decide, by decide⟩

end Keppel.Swiftplus
