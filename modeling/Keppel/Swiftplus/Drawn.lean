/-
  Keppel.Swiftplus.Drawn — the locations of the driver, over every history: each one a row
  records, a writer holds or an object is stored at was drawn by `plusRandLocation`.

  A location enters the system in one way: `plusRandLocation`, in `PutContent` of a large
  file and in `Writer` of a new one. Directory rows and files kept in the database have
  none (`""`); `Move` carries a row's location to its new key; an appending `Writer` takes
  the row's; `Commit` records the writer's. Objects are written at a drawn location only
  (the content of a large `PutContent`, a segment, a manifest), and `deleteBlobs` and
  `Delete` only remove some. So Swift sees each call of the driver at a location
  `represents_swiftCalls` covers.

  Proved:
  - `KeepsDrawn`: every operation of the driver, whatever the backends answer, keeps the
    store's locations drawn (`DrawnStore`), and `Writer` returns a writer at a drawn
    location; every call of a writer at a drawn location keeps it (`WriterDrawn`).
  - `run_drawn`: from the empty store, after any calls in any environments, every row's
    location is empty or drawn, and so is every open writer's and every stored object's; two
    stored objects never share a Swift name.
-/

import Keppel.Swiftplus.Names
import Keppel.Swiftplus.Segments

namespace Keppel.Swiftplus

/-- A location a row may record: none, or one `plusRandLocation` drew. -/
def Drawn (L : String) : Prop := L = "" ∨ HexLocation L

/-- Every row records a location drawn or none, and every object is at a location drawn. -/
structure DrawnStore (s : Store) : Prop where
  rows : ∀ k r, s.files.lookup k = some r → Drawn r.location
  objects : ∀ o, s.objects o ≠ none → HexLocation o.location

theorem DrawnStore.empty : DrawnStore Store.empty :=
  ⟨fun _ _ h => by simp [Store.empty] at h, fun _ h => absurd rfl h⟩

/-- Removing objects keeps the objects drawn. -/
theorem DrawnStore.of_objects {s s' : Store} (h : DrawnStore s) (hf : s'.files = s.files)
    (ho : ∀ o, s'.objects o ≠ none → s.objects o ≠ none) : DrawnStore s' :=
  ⟨fun k r hk => h.rows k r (hf ▸ hk), fun o hn => h.objects o (ho o hn)⟩

/-- Storing an object at a drawn location. -/
theorem DrawnStore.setObject {s : Store} (h : DrawnStore s) {o : ObjPath} (ho : HexLocation o.location) (d : Bytes) :
    DrawnStore { s with objects := Keppel.Swiftplus.setObject s.objects o d } := by
  refine ⟨h.rows, fun o' hn => ?_⟩
  by_cases he : o' = o
  · exact he ▸ ho
  · exact h.objects o' (by simpa [Keppel.Swiftplus.setObject, he] using hn)

/-! ## Calls that keep the locations drawn -/

/-- From a store whose locations are drawn, a call leaves one, whatever the backends answer, and
    what it returns satisfies `R`. -/
def KeepsDrawn {α : Type} (R : α → Prop) (x : Drv α) : Prop :=
  ∀ w, DrawnStore w.store → DrawnStore (x.go w).2.store ∧ ∀ a, (x.go w).1 = .ok a → R a

namespace KeepsDrawn
variable {α β : Type} {R : α → Prop} {S : β → Prop}

theorem pure' {a : α} (h : R a) : KeepsDrawn R (pure a : Drv α) := fun _ hw => ⟨hw, fun _ he => by cases he; exact h⟩

theorem pure_true (a : α) : KeepsDrawn (fun _ => True) (pure a : Drv α) := pure' trivial

theorem throw' (e : Err) : KeepsDrawn R (throw e : Drv α) := fun _ hw => ⟨hw, fun _ he => by cases he⟩

theorem throw_bind (e : Err) (f : α → Drv β) : KeepsDrawn S (throw e >>= f) := fun _ hw => ⟨hw, fun _ he => by cases he⟩

theorem mono {x : Drv α} {R' : α → Prop} (hx : KeepsDrawn R x) (h : ∀ a, R a → R' a) : KeepsDrawn R' x := fun w hw =>
  ⟨(hx w hw).1, fun a he => h a ((hx w hw).2 a he)⟩

theorem bind {x : Drv α} {f : α → Drv β} (hx : KeepsDrawn R x) (hf : ∀ a, R a → KeepsDrawn S (f a)) :
    KeepsDrawn S (x >>= f) := fun w hw => by
  rw [go_bind]
  obtain ⟨hw', hr⟩ := hx w hw
  rcases hgo : x.go w with ⟨_ | a, w'⟩ <;> rw [hgo] at hw' hr
  · exact ⟨hw', fun _ he => by cases he⟩
  · exact hf a (hr a rfl) w' hw'

theorem ite {c : Prop} [Decidable c] {x y : Drv α} (hx : KeepsDrawn R x) (hy : KeepsDrawn R y) :
    KeepsDrawn R (if c then x else y) := by
  split <;> assumption

/-- A conditional call whose branches need the condition. -/
theorem ite_of {c : Prop} [Decidable c] {x y : Drv α} (hx : c → KeepsDrawn R x) (hy : ¬c → KeepsDrawn R y) :
    KeepsDrawn R (if c then x else y) := by
  split
  exacts [hx ‹c›, hy ‹¬c›]

/-- A conditional call, with what each branch returns. -/
theorem ite_cases {c : Prop} [Decidable c] {x y : Drv α} {R' : α → Prop} (hx : KeepsDrawn R x) (hy : KeepsDrawn R' y) :
    KeepsDrawn (fun a => if c then R a else R' a) (if c then x else y) := by
  split
  exacts [hx, hy]

theorem tryCatch {x : Drv α} {h : Err → Drv α} (hx : KeepsDrawn R x) (hh : ∀ e, KeepsDrawn R (h e)) :
    KeepsDrawn R (tryCatch x h) := fun w hw => by
  rw [go_tryCatch]
  obtain ⟨hw', hr⟩ := hx w hw
  rcases hgo : x.go w with ⟨_ | a, w'⟩ <;> rw [hgo] at hw' hr
  · exact hh _ w' hw'
  · exact ⟨hw', hr⟩

theorem discard {x : Drv α} (hx : KeepsDrawn R x) : KeepsDrawn (fun _ => True) (discard x) := fun w hw => by
  simp only [Functor.discard, LawfulFunctor.map_const, Function.comp_apply, go_map]
  obtain ⟨hw', -⟩ := hx w hw
  rcases hgo : x.go w with ⟨_ | a, w'⟩ <;> rw [hgo] at hw' <;> exact ⟨hw', fun _ _ => trivial⟩

/-! The calls on the backends. -/

theorem readFileInfo (p : List String) : KeepsDrawn (fun r => Drawn r.1.location) (readFileInfo p) := fun w hw => by
  rw [readFileInfo_go]
  refine ⟨hw, fun a he => ?_⟩
  cases he
  rcases readResult_cases w (keyOf p) with ⟨h, -⟩ | ⟨r, h, hr⟩ | ⟨e, h⟩ <;> rw [h]
  exacts [.inl rfl, hw.rows _ _ hr, .inl rfl]

theorem exec {f : Store → Except SqlError Store} (hf : ∀ s s', f s = .ok s' → DrawnStore s → DrawnStore s') :
    KeepsDrawn (fun _ => True) (exec f) := fun w hw => by
  rw [exec_go]
  refine ⟨?_, fun _ _ => trivial⟩
  split
  · split
    · exact hf _ _ ‹_› hw
    · exact hw
  all_goals exact hw

theorem plusRandLocation : KeepsDrawn HexLocation plusRandLocation := fun w hw => by
  rw [plusRandLocation_go]
  split
  · exact ⟨hw, fun a he => by cases he; exact ⟨_, rfl⟩⟩
  · exact ⟨hw, fun _ he => by cases he⟩

theorem swiftWrite {o : ObjPath} (ho : HexLocation o.location) (d : Bytes) : KeepsDrawn (fun _ => True) (swiftWrite o d) :=
  fun w hw => by
    rw [swiftWrite_go]
    split
    · exact ⟨hw, fun _ _ => trivial⟩
    · exact ⟨hw.setObject ho d, fun _ _ => trivial⟩

theorem swiftWriteSLO {o : ObjPath} (ho : HexLocation o.location) (segs : List Segment) :
    KeepsDrawn (fun _ => True) (swiftWriteSLO o segs) := fun w hw => by
  rw [swiftWriteSLO_go]
  split
  · exact ⟨hw, fun _ _ => trivial⟩
  · split
    · exact ⟨hw.setObject ho _, fun _ _ => trivial⟩
    · exact ⟨hw, fun _ _ => trivial⟩

theorem deleteDownwards (fi : FileInfo) : KeepsDrawn (fun _ => True) (deleteDownwards fi) := fun w hw =>
  have hp := deleteDownwards_prunes fi w
  ⟨⟨fun k r hk => hw.rows k r (hp.rows k r hk), fun o hn => hw.objects o fun h => hn <| by
    by_contra hc
    exact hn (hp.objects o (by rw [h]; exact hc)).1⟩, fun _ _ => trivial⟩

theorem mkdirAll (d : CleanPath) : KeepsDrawn (fun _ => True) (mkdirAll d) := fun w hw => by
  obtain ⟨ha, -⟩ := mkdirAll_adds d w
  refine ⟨⟨fun k r hk => ?_, fun o hn => hw.objects o (by rwa [← ha.objects])⟩, fun _ _ => trivial⟩
  rcases h : w.store.files.lookup k with _ | r₀
  · rw [(ha.added k r h hk).2]; exact .inl rfl
  · rw [ha.rows k r₀ h] at hk
    cases hk
    exact hw.rows k _ h

theorem deleteBlobs (fi : FileInfo) : KeepsDrawn (fun _ => True) (deleteBlobs fi) := fun w hw => by
  rw [deleteBlobs_go]
  split
  · exact ⟨hw, fun _ _ => trivial⟩
  · rw [swiftDeleteAll_go]
    split
    · exact ⟨hw, fun _ _ => trivial⟩
    · refine ⟨hw.of_objects rfl fun o hn => ?_, fun _ _ => trivial⟩
      simp only [setStore_store] at hn
      split_ifs at hn
      · exact absurd rfl hn
      · exact hn

theorem readSegmentInfo (L : String) : KeepsDrawn (fun _ => True) (readSegmentInfo L) := fun w hw =>
  ⟨by rw [readSegmentInfo_store]; exact hw, fun _ _ => trivial⟩

theorem writeFileInfo {fi : FileInfo} (h : Drawn fi.location) : KeepsDrawn (fun _ => True) (writeFileInfo fi) :=
  .bind (.exec fun s s' he hs => by
    cases he
    refine ⟨fun k r hk => ?_, hs.objects⟩
    rcases lookup_insert_cases hk with ⟨-, rfl⟩ | hk
    exacts [h, hs.rows k r hk.2]) fun _ _ => .mkdirAll _

/-! The driver's operations, built from the calls above. -/

theorem putContent (p : List String) (c : Bytes) : KeepsDrawn (fun _ => True) (putContent p c) := by
  unfold Keppel.Swiftplus.putContent
  refine .bind (.readFileInfo p) fun ⟨fi, err⟩ _ => .bind (show KeepsDrawn (fun _ => True) _ from ?_) fun _ _ =>
    .bind (.ite_cases .plusRandLocation (.pure' rfl)) fun L hL => .bind (.writeFileInfo ?_) fun _ _ =>
      .ite_of (fun hc => .tryCatch (.discard (.swiftWrite ?_ _)) fun _ => .throw' _) fun _ => .pure_true _
  · split
    exacts [.deleteBlobs fi, .pure_true _, .throw' _]
  · split_ifs at hL
    exacts [.inr hL, .inl hL.symm]
  · rwa [if_pos hc] at hL

theorem move (src dst : List String) : KeepsDrawn (fun _ => True) (move src dst) := by
  unfold Keppel.Swiftplus.move
  refine .bind (.readFileInfo src) fun ⟨fi1, err⟩ _ => .ite (.throw_bind _ _) (.bind (.pure_true _) fun _ _ =>
    .bind (.readFileInfo dst) fun ⟨fi2, err⟩ _ => .bind (show KeepsDrawn (fun _ => True) _ from ?_) fun _ _ =>
      .bind (.exec fun s s' h hs => ?_) fun _ _ => .mkdirAll _)
  · split
    exacts [.deleteDownwards fi2, .pure_true _, .throw' _]
  · unfold moveFile at h
    split at h
    · cases h; exact hs
    · split_ifs at h
      · cases h; exact hs
      · cases h
        refine ⟨fun k r hk => ?_, hs.objects⟩
        rcases lookup_insert_cases hk with ⟨-, rfl⟩ | ⟨-, hk⟩
        · exact hs.rows _ _ ‹_›
        · exact hs.rows k r (lookup_erase_some hk).2

theorem delete (p : List String) : KeepsDrawn (fun _ => True) (delete p) := by
  unfold Keppel.Swiftplus.delete
  refine .bind (.readFileInfo p) fun ⟨fi, err⟩ _ => ?_
  dsimp only
  split
  exacts [.deleteDownwards fi, .pure_true _, .throw' _]

/-- A new writer's location was drawn: fresh, or the drawn one of the row it appends to. -/
theorem newPlusWriter (p : List String) (a : Bool) :
    KeepsDrawn (fun fw => HexLocation fw.location) (newPlusWriter p a) := by
  unfold Keppel.Swiftplus.newPlusWriter
  refine .bind (.readFileInfo p) fun ⟨fi, err⟩ hfi =>
    .bind (show KeepsDrawn (fun _ => True) _ from .ite ?_ (.pure_true _)) fun _ _ =>
    .bind (show KeepsDrawn (fun _ => True) _ from
      .ite (.bind (.deleteDownwards fi) fun _ _ => .pure_true _) (.pure_true _)) fun _ _ =>
    .bind (.ite_of (fun _ => .plusRandLocation) fun hc => .pure' (hfi.resolve_left fun h => hc (.inr h))) fun L hL =>
    .bind (show KeepsDrawn (fun _ => True) _ from .ite (.readSegmentInfo L) (.pure_true _)) fun _ _ => .pure' hL
  rcases err with _ | e
  · exact .pure_true _
  · exact .throw' e

theorem writer (cfg : Config) (p : List String) (a : Bool) :
    KeepsDrawn (fun b => HexLocation b.fw.location) (writer cfg p a) :=
  .bind (.newPlusWriter p a) fun _ h => .pure' h

end KeepsDrawn

/-! ## Calls of a writer -/

/-- A writer's call keeps its location, and, that location drawn, keeps the store's locations
    drawn. -/
def WriterDrawn (fw fw' : PlusWriter) (w w' : World) : Prop :=
  fw'.location = fw.location ∧ (HexLocation fw.location → DrawnStore w.store → DrawnStore w'.store)

theorem WriterDrawn.of_keeps {fw : PlusWriter} {w w' : World} (h : DrawnStore w.store → DrawnStore w'.store) :
    WriterDrawn fw fw w w' :=
  ⟨rfl, fun _ => h⟩

theorem insertSegment_drawn (seg : Segment) :
    ∀ s s', insertSegment seg s = .ok s' → DrawnStore s → DrawnStore s' := fun _ _ h hs => by
  unfold insertSegment at h
  split at h
  · cases h
  · cases h; exact ⟨hs.rows, hs.objects⟩

theorem PlusWriter.write_drawn (fw : PlusWriter) (buf : Bytes) (w : World) :
    WriterDrawn fw ((fw.write buf).run w).1.2 w ((fw.write buf).run w).2 := by
  refine ⟨(fw.write_appends buf w).location, fun hl hw => ?_⟩
  simp only [PlusWriter.write, run_bind', run_run]
  have hs := (@KeepsDrawn.swiftWrite (Segment.objectPath ⟨fw.location, fw.nextNumber, buf.length, []⟩) hl buf w hw).1
  rcases hsw : (swiftWrite (Segment.objectPath ⟨fw.location, fw.nextNumber, buf.length, []⟩) buf).go w with
    ⟨_ | hash, w₁⟩ <;> rw [hsw] at hs
  · exact hs
  · have hi := (KeepsDrawn.exec (insertSegment_drawn ⟨fw.location, fw.nextNumber, buf.length, hash⟩) w₁ hs).1
    rcases hex : (exec (insertSegment ⟨fw.location, fw.nextNumber, buf.length, hash⟩)).go w₁ with ⟨_ | _, w₂⟩ <;>
      rw [hex] at hi <;> simp only [run_bind', run_run, hex] <;> exact hi

theorem uploadRel_drawn : UploadRel WriterDrawn :=
  ⟨fun _ _ => WriterDrawn.of_keeps id, fun h₁ h₂ => ⟨h₂.1.trans h₁.1, fun hl hw => h₂.2 (h₁.1 ▸ hl) (h₁.2 hl hw)⟩,
    PlusWriter.write_drawn⟩

theorem PlusWriter.commit_drawn (fw : PlusWriter) (w : World) :
    WriterDrawn fw ((fw.commit).run w).1.2 w ((fw.commit).run w).2 := by
  unfold PlusWriter.commit
  split; · exact .of_keeps id
  split; · exact .of_keeps id
  split; · exact .of_keeps id
  simp only [run_bind', run_run, run_pure']
  refine ⟨by split <;> rfl, fun hl hw => ?_⟩
  have hk : KeepsDrawn (fun _ => True) (do
      swiftWriteSLO (FileInfo.objectPath ⟨pathDir fw.fullPath, pathBase fw.fullPath, fw.size, [], fw.location⟩)
        fw.segments
      writeFileInfo ⟨pathDir fw.fullPath, pathBase fw.fullPath, fw.size, [], fw.location⟩) :=
    .bind (.swiftWriteSLO hl _) fun _ _ => .writeFileInfo (.inr hl)
  have := (hk w hw).1
  split <;> exact this

theorem PlusWriter.close_drawn (fw : PlusWriter) (w : World) :
    WriterDrawn fw ((fw.close).run w).1.2 w ((fw.close).run w).2 := by
  unfold PlusWriter.close
  cases fw.closed
  · simp only [Bool.false_eq_true, if_false, run_bind']
    split
    · exact fw.commit_drawn w
    · exact .of_keeps id
  · exact .of_keeps id

theorem PlusWriter.cancel_drawn (fw : PlusWriter) (w : World) :
    WriterDrawn fw ((fw.cancel).run w).1.2 w ((fw.cancel).run w).2 := by
  unfold PlusWriter.cancel
  cases fw.closed
  · simp only [Bool.false_eq_true, if_false, run_bind', run_run]
    exact ⟨rfl, fun _ hw => (KeepsDrawn.delete _ w hw).1⟩
  · exact .of_keeps id

/-- `Commit`, `Cancel` or `Close` of a `bufferedWriter`: its flush, then the writer's own. -/
theorem BufferedWriter.andThen_drawn {m : PlusWriter → StateM World (Option Err × PlusWriter)}
    (hm : ∀ fw w, WriterDrawn fw ((m fw).run w).1.2 w ((m fw).run w).2) (b : BufferedWriter) (w : World) :
    WriterDrawn b.fw ((b.andThen m).run w).1.2.fw w ((b.andThen m).run w).2 := by
  unfold BufferedWriter.andThen
  simp only [run_bind']
  have hf := uploadRel_drawn.flush b w
  rcases hfl : (b.flush).run w with ⟨⟨_ | e, b₁⟩, w₁⟩ <;> rw [hfl] at hf <;>
    simp only [Option.isSome_none, Option.isSome_some, Bool.false_eq_true, if_false, if_true, run_bind', run_pure']
  · exact uploadRel_drawn.trans hf (hm b₁.fw w₁)
  · exact hf

/-! ## What `Cancel` leaves -/

/-- A row `deleteDownwards fi` reaches is `fi` or one of the table's. -/
theorem Reaches.row {t : Files} {fi fi' : FileInfo} (h : Reaches t fi fi') :
    fi' = fi ∨ ∃ k r, t.lookup k = some r ∧ fi'.location = r.location := by
  induction h with
  | refl => exact .inl rfl
  | child _ hc _ ih =>
    rcases ih with rfl | hr
    · exact .inr ⟨_, _, mem_childrenOf.mp hc, rfl⟩
    · exact .inr hr

/-- `Delete(p)` removes objects only at locations the `files` table records, whatever the
    backends answer. -/
theorem delete_keeps_unrecorded (p : List String) (w : World) {o : ObjPath}
    (ho : ∀ k r, w.store.files.lookup k = some r → r.location ≠ o.location) :
    ((delete p).go w).2.store.objects o = w.store.objects o := by
  simp only [delete, go_bind, readFileInfo_go]
  rcases readResult_cases w (keyOf p) with ⟨he, -⟩ | ⟨r, he, hr⟩ | ⟨e, he⟩ <;> rw [he]
  · rfl
  · by_contra hne
    obtain ⟨-, fi', hreach, hl, -⟩ := (deleteDownwards_prunes _ w.popDb).objects o hne
    rcases hreach.row with rfl | ⟨k, r', hk, hl'⟩
    · exact ho _ r hr hl
    · exact ho k r' hk (hl'.symm.trans hl)
  · rfl

/-- `plusWriter.Cancel` deletes the objects of the rows at and below its path only: an object at a
    location no row records, such as a segment of a writer that has not committed, stays in
    Swift, and the `segments` table keeps its rows. -/
theorem PlusWriter.cancel_keeps_unrecorded (fw : PlusWriter) (w : World) {o : ObjPath}
    (ho : ∀ k r, w.store.files.lookup k = some r → r.location ≠ o.location) :
    ((fw.cancel).run w).2.store.objects o = w.store.objects o ∧
      ((fw.cancel).run w).2.store.segments = w.store.segments := by
  unfold PlusWriter.cancel
  cases fw.closed
  · simp only [Bool.false_eq_true, if_false, run_bind', run_run]
    exact ⟨delete_keeps_unrecorded _ w ho, SameSegments.delete _ w⟩
  · exact ⟨rfl, rfl⟩

/-! ## Every history -/

/-- The rows and objects of the store, and every open writer, at locations drawn. -/
structure SysDrawn (s : Sys) : Prop where
  store : DrawnStore s.store
  writers : ∀ b ∈ s.writers, HexLocation b.fw.location

theorem SysDrawn.init : SysDrawn Sys.init :=
  ⟨DrawnStore.empty, fun _ h => by simp [Sys.init] at h⟩

section Steps
variable {s : Sys} {env : Env}

theorem SysDrawn.runOp (h : SysDrawn s) {x : Drv Unit} (hx : KeepsDrawn (fun _ => True) x) :
    SysDrawn (s.runOp env x).2 := by
  rw [Sys.runOp_snd]
  exact ⟨(hx _ h.store).1, h.writers⟩

theorem SysDrawn.runWriter (h : SysDrawn s) {i : Nat} {m : BufferedWriter → StateM World (Option Err × BufferedWriter)}
    (hm : ∀ b w, WriterDrawn b.fw ((m b).run w).1.2.fw w ((m b).run w).2) : SysDrawn (s.runWriter env i m).2 := by
  unfold Sys.runWriter
  rcases hi : s.writers[i]? with _ | b
  · exact h
  · have hb := h.writers b (List.mem_iff_getElem?.mpr ⟨_, hi⟩)
    obtain ⟨hl, hs⟩ := hm b (s.world env)
    refine ⟨hs hb h.store, fun b' hb' => ?_⟩
    rcases List.mem_or_eq_of_mem_set hb' with hb' | rfl
    · exact h.writers b' hb'
    · exact hl ▸ hb

/-- Every call keeps the locations drawn, whatever the backends answer. -/
theorem SysDrawn.step (cfg : Config) (h : SysDrawn s) (op : Op) : SysDrawn (s.step cfg env op).2 := by
  cases op with
  | putContent p c => exact h.runOp (.putContent p c)
  | move src dst => exact h.runOp (.move src dst)
  | delete p => exact h.runOp (.delete p)
  | writer p a =>
    simp only [Sys.step]
    have hw := KeepsDrawn.writer cfg p a (s.world env) h.store
    rcases hgo : (Keppel.Swiftplus.writer cfg p a).go (s.world env) with ⟨_ | b, w'⟩ <;> rw [hgo] at hw
    · exact ⟨hw.1, h.writers⟩
    · refine ⟨hw.1, fun b' hb' => ?_⟩
      rcases List.mem_append.mp hb' with hb' | hb'
      · exact h.writers b' hb'
      · rw [List.mem_singleton.mp hb']
        exact hw.2 b rfl
  | write i data =>
    refine h.runWriter fun b w => ?_
    have hw := uploadRel_drawn.bufWrite b data w
    rcases hx : (b.write data).run w with ⟨⟨⟨n, err⟩, b₁⟩, w₁⟩
    rw [hx] at hw
    simp only [run_bind', hx]
    exact hw
  | commit i => exact h.runWriter fun b => b.andThen_drawn PlusWriter.commit_drawn
  | cancel i => exact h.runWriter fun b => b.andThen_drawn PlusWriter.cancel_drawn
  | close i => exact h.runWriter fun b => b.andThen_drawn PlusWriter.close_drawn

end Steps

theorem SysDrawn.run (cfg : Config) : ∀ {s : Sys} (ops : List (Op × Env)), SysDrawn s → SysDrawn (s.run cfg ops)
  | _, [], h => h
  | _, (_, _) :: ops, h => SysDrawn.run cfg ops (h.step cfg _)

/-- From the empty store, after any calls in any environments, every row records no location or
    one `plusRandLocation` drew, every open writer and every stored object is at a drawn
    location, and no two stored objects share a name in Swift. -/
theorem run_drawn (cfg : Config) (ops : List (Op × Env)) :
    (∀ k r, (Sys.init.run cfg ops).store.files.lookup k = some r → r.location = "" ∨ HexLocation r.location) ∧
      (∀ b ∈ (Sys.init.run cfg ops).writers, HexLocation b.fw.location) ∧
      (∀ o, (Sys.init.run cfg ops).store.objects o ≠ none → HexLocation o.location) ∧
      ∀ o o', (Sys.init.run cfg ops).store.objects o ≠ none → (Sys.init.run cfg ops).store.objects o' ≠ none →
        o.render cfg.objectPrefix = o'.render cfg.objectPrefix → o = o' :=
  have h := SysDrawn.init.run cfg ops
  ⟨h.store.rows, h.writers, h.store.objects, fun o o' ho ho' =>
    render_injective cfg.objectPrefix (h.store.objects o ho) (h.store.objects o' ho')⟩

end Keppel.Swiftplus
