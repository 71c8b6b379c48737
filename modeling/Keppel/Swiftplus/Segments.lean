/-
  Keppel.Swiftplus.Segments — the numbers `plusWriter.Write` gives its segments, across every
  history of the driver and the writers it hands out.

  `Write` numbers a segment one past the last one the writer holds (`nextNumber`; the source
  relies on "the segments are always ordered"), uploads it, and inserts the row
  `(location, number)`, which the primary key refuses when it is taken. Segment rows are
  never deleted: `Delete` and `Cancel` remove a file's row and its objects only. A writer
  holds the segments it inserted, and an appending one starts from the rows of the file's
  location, read by `readSegmentInfo` in the order of their numbers.

  The invariant (`SegSound`): every live writer's next number is above every number recorded
  at its location, no two live writers share a location, and a writer that is no longer
  live holds no buffered bytes. It holds whatever the backends answer, with three
  conditions (`SegAllowed`): a `Writer` call sees no result stream break, the location it
  may draw is new to the table and to the live writers, and an appending one is not given
  a location a live writer holds; and `Write` goes to a live writer only.

  Proved:
  - `SameSegments`: `PutContent`, `Move`, `Delete` and `Writer` leave the `segments` table as
    it was, whether they fail or not; so do `Commit`, `Cancel` and `Close` past their flush
    (`Finishes`).
  - `Appends`: every run of `Write`, of `bufio.Writer`'s loop and of `Flush` inserts rows at
    the writer's location only, each below the writer's next number, which never goes down.
  - `SegSound.step`: every call keeps the invariant, so every system `SegReachable` from the
    empty store has it, and the next `INSERT INTO segments` of each live writer is on a key
    no row holds (`segReachable_fresh`).
  - `run_keeps_segment_rows`: no segment row is ever removed or changed, whatever the calls
    and whatever the backends answer; `Delete` and `Cancel` leave the rows of the segments
    whose objects they delete.
  - `write_after_cancel_collides`: the condition on `Write` is needed. `Cancel` drops the
    writer's segments but not their rows, and a `Write` after it numbers a segment `1`
    again, which the table refuses, every call succeeding.
-/
import Keppel.Swiftplus.Locations

namespace Keppel.Swiftplus

/-! ## Calls that leave the `segments` table alone -/

/-- The `segments` table is the same before and after; a call that keeps it leaves the table
    as it was, whatever the backends answer. -/
def SameSegments (s s' : Store) : Prop := s'.segments = s.segments

instance : IsRefl Store SameSegments := ⟨fun _ => rfl⟩

instance : IsTrans Store SameSegments := ⟨fun _ _ _ h₁ h₂ => h₂.trans h₁⟩

namespace SameSegments

theorem exec {f : Store → Except SqlError Store} (hf : ∀ s s', f s = .ok s' → s'.segments = s.segments) :
    Keeps SameSegments (exec f) := fun w => by
  rw [exec_go]
  split
  · split
    · exact hf _ _ ‹_›
    · rfl
  all_goals rfl

theorem swiftWrite (o : ObjPath) (d : Bytes) : Keeps SameSegments (swiftWrite o d) := fun w => by
  rw [swiftWrite_go]; split <;> rfl

theorem swiftWriteSLO (o : ObjPath) (segs : List Segment) : Keeps SameSegments (swiftWriteSLO o segs) := fun w => by
  rw [swiftWriteSLO_go]; split
  · rfl
  · split <;> rfl

theorem deleteDownwards (fi : FileInfo) : Keeps SameSegments (deleteDownwards fi) := fun w =>
  (deleteDownwards_prunes fi w).segments

theorem mkdirAll (d : CleanPath) : Keeps SameSegments (mkdirAll d) := fun w => (mkdirAll_adds d w).1.segments

theorem deleteBlobs (fi : FileInfo) : Keeps SameSegments (deleteBlobs fi) := fun w => (deleteBlobs_frame fi w).2.1

theorem writeFileInfo (fi : FileInfo) : Keeps SameSegments (writeFileInfo fi) :=
  .bind (.exec fun _ _ h => by cases h; rfl) fun _ => .mkdirAll _

/-! The driver's operations, built from the calls above. -/

theorem putContent (p : List String) (c : Bytes) : Keeps SameSegments (putContent p c) := by
  unfold Keppel.Swiftplus.putContent
  refine .bind (.readFileInfo p) fun ⟨fi, err⟩ => .bind ?_ fun _ => .bind (.ite .plusRandLocation (.pure' _)) fun L =>
    .bind (.writeFileInfo _) fun _ => .ite (.tryCatch (.discard (.swiftWrite _ _)) fun _ => .throw' _) (.pure' _)
  split
  exacts [.deleteBlobs fi, .pure' _, .throw' _]

theorem move (src dst : List String) : Keeps SameSegments (move src dst) := by
  unfold Keppel.Swiftplus.move
  refine .bind (.readFileInfo src) fun ⟨fi1, err⟩ => .ite (.throw_bind _ _) (.bind (.pure' _) fun _ =>
    .bind (.readFileInfo dst) fun ⟨fi2, err⟩ => .bind ?_ fun _ =>
      .bind (.exec fun s s' h => ?_) fun _ => .mkdirAll _)
  · split
    exacts [.deleteDownwards fi2, .pure' _, .throw' _]
  · unfold moveFile at h
    split at h
    · cases h; rfl
    · split_ifs at h <;> cases h <;> rfl

theorem delete (p : List String) : Keeps SameSegments (delete p) := .delete deleteDownwards p

theorem newPlusWriter (p : List String) (a : Bool) : Keeps SameSegments (newPlusWriter p a) :=
  .newPlusWriter deleteDownwards p a

theorem writer (cfg : Config) (p : List String) (a : Bool) : Keeps SameSegments (writer cfg p a) :=
  .writer deleteDownwards cfg p a

end SameSegments

/-! ## A writer's uploads -/

/-- A stretch of a writer's uploads: its location and flags stay, its next segment number does
    not go down, every row the `segments` table held stays as it was, and every row it gained is
    at the writer's location, below the number its next `Write` takes. -/
structure Appends (fw fw' : PlusWriter) (w w' : World) : Prop where
  location : fw'.location = fw.location
  committed : fw'.committed = fw.committed
  cancelled : fw'.cancelled = fw.cancelled
  next : fw.nextNumber ≤ fw'.nextNumber
  kept : ∀ k v, w.store.segments.lookup k = some v → w'.store.segments.lookup k = some v
  rows : ∀ k ∈ w'.store.segments, k ∈ w.store.segments ∨ k.1 = fw.location ∧ k.2 < fw'.nextNumber

theorem Appends.of_segments {fw : PlusWriter} {w w' : World} (h : w'.store.segments = w.store.segments) :
    Appends fw fw w w' :=
  ⟨rfl, rfl, rfl, le_rfl, fun _ _ hk => h ▸ hk, fun _ hk => .inl (h ▸ hk)⟩

theorem Appends.trans {fw₁ fw₂ fw₃ : PlusWriter} {w₁ w₂ w₃ : World} (h₁ : Appends fw₁ fw₂ w₁ w₂)
    (h₂ : Appends fw₂ fw₃ w₂ w₃) : Appends fw₁ fw₃ w₁ w₃ :=
  ⟨h₂.location.trans h₁.location, h₂.committed.trans h₁.committed, h₂.cancelled.trans h₁.cancelled,
    h₁.next.trans h₂.next, fun k v hk => h₂.kept k v (h₁.kept k v hk), fun k hk => (h₂.rows k hk).elim
      (fun hk => (h₁.rows k hk).imp_right fun ⟨hl, hn⟩ => ⟨hl, hn.trans_le h₂.next⟩)
      fun ⟨hl, hn⟩ => .inr ⟨hl.trans h₁.location, hn⟩⟩

/-- An `INSERT INTO segments` adds at most its own key. -/
theorem insertSegment_rows (s : Segment) (w : World) :
    ∀ k ∈ ((exec (insertSegment s)).go w).2.store.segments, k ∈ w.store.segments ∨ k = (s.location, s.number) := by
  intro _ hk
  rw [exec_go] at hk
  split at hk
  · split at hk
    · rename_i st he
      unfold insertSegment at he
      split at he
      · cases he
      · cases he
        exact ((AList.mem_insert _).mp hk).symm
    · exact .inl hk
  all_goals exact .inl hk

/-- An `INSERT INTO segments` changes no row: the primary key refuses a key that is taken. -/
theorem insertSegment_kept (s : Segment) (w : World) :
    ∀ k v, w.store.segments.lookup k = some v → ((exec (insertSegment s)).go w).2.store.segments.lookup k = some v := by
  intro k v hk
  rw [exec_go]
  split
  · split
    · rename_i st he
      unfold insertSegment at he
      split at he
      · cases he
      · cases he
        have hm : k ∈ w.store.segments := AList.lookup_isSome.mp (by rw [hk]; rfl)
        show AList.lookup k (AList.insert _ _ w.store.segments) = some v
        rw [AList.lookup_insert_ne fun e => ‹(s.location, s.number) ∉ _› (e ▸ hm)]
        exact hk
    · exact hk
  all_goals exact hk

/-- `plusWriter.Write`, whether the upload or the insert fails or not. -/
theorem PlusWriter.write_appends (fw : PlusWriter) (buf : Bytes) (w : World) :
    Appends fw ((fw.write buf).run w).1.2 w ((fw.write buf).run w).2 := by
  simp only [PlusWriter.write, run_bind', run_run]
  have hs := SameSegments.swiftWrite (Segment.objectPath ⟨fw.location, fw.nextNumber, buf.length, []⟩) buf w
  rcases hsw : (swiftWrite (Segment.objectPath ⟨fw.location, fw.nextNumber, buf.length, []⟩) buf).go w with
    ⟨_ | hash, w₁⟩ <;> rw [hsw] at hs
  · exact Appends.of_segments hs
  · have hi := insertSegment_rows ⟨fw.location, fw.nextNumber, buf.length, hash⟩ w₁
    have hk := insertSegment_kept ⟨fw.location, fw.nextNumber, buf.length, hash⟩ w₁
    rcases hex : (exec (insertSegment ⟨fw.location, fw.nextNumber, buf.length, hash⟩)).go w₁ with ⟨_ | _, w₂⟩ <;>
      rw [hex] at hi hk <;> simp only [run_bind', run_run, hex] <;>
      exact ⟨rfl, rfl, rfl, by simp [PlusWriter.nextNumber], fun k v h => hk k v (hs ▸ h),
        fun k hk => (hi k hk).imp (fun h => hs ▸ h) fun h => by subst h; simp [PlusWriter.nextNumber]⟩

theorem uploadRel_appends : UploadRel Appends :=
  ⟨fun _ _ => Appends.of_segments rfl, Appends.trans, PlusWriter.write_appends⟩

theorem BufferedWriter.flush_appends (b : BufferedWriter) (w : World) :
    Appends b.fw ((b.flush).run w).1.2.fw w ((b.flush).run w).2 :=
  uploadRel_appends.flush b w

/-- `bufferedWriter.Write`, whatever it answers. -/
theorem BufferedWriter.write_appends (b : BufferedWriter) (p : Bytes) (w : World) :
    Appends b.fw ((b.write p).run w).1.2.fw w ((b.write p).run w).2 :=
  uploadRel_appends.bufWrite b p w

/-! ## `Commit`, `Cancel` and `Close` -/

/-- What `Commit`, `Cancel` and `Close` of a `plusWriter` leave: its location, the `segments`
    table as it was, and, while the writer is live, its segments. -/
structure Finishes (fw fw' : PlusWriter) (w w' : World) : Prop where
  location : fw'.location = fw.location
  segments : w'.store.segments = w.store.segments
  live : fw'.Live → fw.Live ∧ fw'.segments = fw.segments

theorem Finishes.next {fw fw' : PlusWriter} {w w' : World} (h : Finishes fw fw' w w') (hl : fw'.Live) :
    fw'.nextNumber = fw.nextNumber := by
  rw [PlusWriter.nextNumber, (h.live hl).2, PlusWriter.nextNumber]

theorem Finishes.of_segments {fw : PlusWriter} {w w' : World} (h : w'.store.segments = w.store.segments) :
    Finishes fw fw w w' :=
  ⟨rfl, h, fun h => ⟨h, rfl⟩⟩

theorem PlusWriter.commit_finishes (fw : PlusWriter) (w : World) :
    Finishes fw ((fw.commit).run w).1.2 w ((fw.commit).run w).2 := by
  unfold PlusWriter.commit
  split; · exact Finishes.of_segments rfl
  split; · exact Finishes.of_segments rfl
  split; · exact Finishes.of_segments rfl
  simp only [run_bind', run_run, run_pure']
  have hk : Keeps SameSegments (do
      swiftWriteSLO (FileInfo.objectPath ⟨pathDir fw.fullPath, pathBase fw.fullPath, fw.size, [], fw.location⟩)
        fw.segments
      writeFileInfo ⟨pathDir fw.fullPath, pathBase fw.fullPath, fw.size, [], fw.location⟩) :=
    .bind (.swiftWriteSLO _ _) fun _ => .writeFileInfo _
  replace hk := hk w
  split
  · exact Finishes.of_segments hk
  · exact ⟨rfl, hk, fun h => absurd h.1 (by simp)⟩

theorem PlusWriter.close_finishes (fw : PlusWriter) (w : World) :
    Finishes fw ((fw.close).run w).1.2 w ((fw.close).run w).2 := by
  unfold PlusWriter.close
  cases fw.closed
  · simp only [Bool.false_eq_true, if_false, run_bind']
    split
    · exact fw.commit_finishes w
    · exact Finishes.of_segments rfl
  · exact Finishes.of_segments rfl

theorem PlusWriter.cancel_finishes (fw : PlusWriter) (w : World) :
    Finishes fw ((fw.cancel).run w).1.2 w ((fw.cancel).run w).2 := by
  unfold PlusWriter.cancel
  cases fw.closed
  · simp only [Bool.false_eq_true, if_false, run_bind', run_run]
    exact ⟨rfl, SameSegments.delete _ w, fun h => absurd h.2 (by simp)⟩
  · exact Finishes.of_segments rfl

/-! ## One call of a writer -/

/-- What one call of a writer does to it and to the `segments` table: its location stays, it
    does not become live again, its next number does not go down while it is live, a row the
    table gained is at its location and was inserted while it was live, below its next number
    if it still is, and a writer that is no longer live holds no buffered bytes. -/
structure WriterCall (b b' : BufferedWriter) (w w' : World) : Prop where
  location : b'.fw.location = b.fw.location
  live : b'.fw.Live → b.fw.Live
  next : b'.fw.Live → b.fw.nextNumber ≤ b'.fw.nextNumber
  rows : ∀ k ∈ w'.store.segments, k ∈ w.store.segments ∨
    b.fw.Live ∧ k.1 = b.fw.location ∧ (b'.fw.Live → k.2 < b'.fw.nextNumber)
  idle : ¬b'.fw.Live → b'.buf = []

theorem Appends.live {fw fw' : PlusWriter} {w w' : World} (h : Appends fw fw' w w') : fw'.Live ↔ fw.Live := by
  rw [PlusWriter.Live, PlusWriter.Live, h.committed, h.cancelled]

/-- `Write` of a live writer. -/
theorem BufferedWriter.write_call {b : BufferedWriter} (hb : b.fw.Live) (p : Bytes) (w : World) :
    WriterCall b ((b.write p).run w).1.2 w ((b.write p).run w).2 :=
  have h := b.write_appends p w
  ⟨h.location, fun _ => hb, fun _ => h.next, fun k hk => (h.rows k hk).imp_right fun ⟨hl, hn⟩ => ⟨hb, hl, fun _ => hn⟩,
    fun hn => absurd (h.live.mpr hb) hn⟩

/-- A flush of an empty buffer does nothing. -/
theorem BufferedWriter.flush_idle {b : BufferedWriter} (h : b.buf = []) (w : World) :
    (b.flush).run w = ((b.err, b), w) := by
  rcases he : b.err with _ | e <;> simp [BufferedWriter.flush, he, h]

/-- `Commit`, `Cancel` or `Close` of a writer that is live or holds no bytes. -/
theorem BufferedWriter.andThen_call {m : PlusWriter → StateM World (Option Err × PlusWriter)}
    (hm : ∀ fw w, Finishes fw ((m fw).run w).1.2 w ((m fw).run w).2) {b : BufferedWriter}
    (hb : b.fw.Live ∨ b.buf = []) (w : World) :
    WriterCall b ((b.andThen m).run w).1.2 w ((b.andThen m).run w).2 := by
  unfold BufferedWriter.andThen
  simp only [run_bind']
  by_cases hl : b.fw.Live
  · have hf := b.flush_appends w
    rcases hfl : (b.flush).run w with ⟨⟨_ | e, b₁⟩, w₁⟩ <;> rw [hfl] at hf <;>
      simp only [Option.isSome_none, Option.isSome_some, Bool.false_eq_true, if_false, if_true, run_bind', run_pure']
    · obtain ⟨-, hb₁, -, -⟩ := flush_ok hfl
      have hm' := hm b₁.fw w₁
      exact ⟨hm'.location.trans hf.location, fun _ => hl, fun h => (hm'.next h).symm ▸ hf.next,
        fun k hk => (hf.rows k (hm'.segments ▸ hk)).imp_right fun ⟨hl', hn⟩ =>
          ⟨hl, hl', fun h => (hm'.next h).symm ▸ hn⟩, fun _ => hb₁⟩
    · exact ⟨hf.location, fun _ => hl, fun _ => hf.next,
        fun k hk => (hf.rows k hk).imp_right fun ⟨hl', hn⟩ => ⟨hl, hl', fun _ => hn⟩,
        fun hn => absurd (hf.live.mpr hl) hn⟩
  · have hbuf := hb.resolve_left hl
    rw [b.flush_idle hbuf w]
    rcases he : b.err with _ | e <;>
      simp only [Option.isSome_none, Option.isSome_some, Bool.false_eq_true, if_false, if_true, run_bind', run_pure']
    · have hm' := hm b.fw w
      exact ⟨hm'.location, fun h => absurd (hm'.live h).1 hl, fun h => absurd (hm'.live h).1 hl,
        fun k hk => .inl (hm'.segments ▸ hk), fun _ => hbuf⟩
    · exact ⟨rfl, id, fun _ => le_rfl, fun k hk => .inl hk, fun _ => hbuf⟩

/-! ## The rows `readSegmentInfo` returns -/

theorem mem_segmentsAt {L : String} {t : Segments} {n : Nat} (h : (L, n) ∈ t) :
    ∃ seg ∈ segmentsAt L t, seg.number = n := by
  obtain ⟨e, he, hk⟩ : ∃ e ∈ t.entries, e.1 = (L, n) := by
    simpa [AList.mem_keys, AList.keys, List.keys] using h
  refine ⟨⟨L, n, e.2.sizeBytes, e.2.hash⟩, (List.perm_insertionSort _ _).mem_iff.mpr ?_, rfl⟩
  exact List.mem_map.mpr ⟨e, List.mem_filter.mpr ⟨he, by simp [hk]⟩, by rw [hk]⟩

theorem number_le_last {l : List Segment} (hs : l.Sorted (·.number ≤ ·.number)) {seg last : Segment}
    (hm : seg ∈ l) (hl : l.getLast? = some last) : seg.number ≤ last.number := by
  obtain ⟨init, rfl⟩ := List.getLast?_eq_some_iff.mp hl
  rcases List.mem_append.mp hm with hm | hm
  · exact (List.pairwise_append.mp hs).2.2 seg hm last (List.mem_singleton_self _)
  · rw [List.mem_singleton.mp hm]

/-- A writer that holds the rows of its location, in the order `readSegmentInfo` returns them,
    numbers its next segment above every one of them. -/
theorem lt_nextNumber {fw : PlusWriter} {t : Segments} (h : fw.segments = segmentsAt fw.location t) {n : Nat}
    (hn : (fw.location, n) ∈ t) : n < fw.nextNumber := by
  obtain ⟨seg, hm, rfl⟩ := mem_segmentsAt hn
  have : IsTotal Segment (·.number ≤ ·.number) := ⟨fun _ _ => le_total _ _⟩
  have : IsTrans Segment (·.number ≤ ·.number) := ⟨fun _ _ _ => le_trans⟩
  rw [← h] at hm
  rcases hl : fw.segments.getLast? with _ | last
  · simp [List.getLast?_eq_none_iff.mp hl] at hm
  · have hs : fw.segments.Sorted (·.number ≤ ·.number) := h ▸ List.sorted_insertionSort _ _
    simp only [PlusWriter.nextNumber, hl]
    exact Nat.lt_succ_of_le (number_le_last hs hm hl)

theorem segmentsAt_eq_nil {L : String} {t : Segments} (h : ∀ n, (L, n) ∉ t) : segmentsAt L t = [] := by
  refine List.eq_nil_iff_forall_not_mem.mpr fun seg hs => ?_
  obtain ⟨e, he, -⟩ := List.mem_map.mp ((List.perm_insertionSort _ _).mem_iff.mp hs)
  obtain ⟨he, hL⟩ := List.mem_filter.mp he
  refine h e.1.2 ?_
  rw [show (L, e.1.2) = e.1 from Prod.ext (of_decide_eq_true hL).symm rfl]
  exact AList.mem_keys.mp (List.mem_map_of_mem Sigma.fst he)

/-! ## The invariant -/

theorem getElem?_set_cases {α : Type} {l : List α} {i j : Nat} {a b : α} (h : (l.set i a)[j]? = some b) :
    j = i ∧ b = a ∨ j ≠ i ∧ l[j]? = some b := by
  rw [List.getElem?_set] at h
  split_ifs at h with h₁
  · exact .inl ⟨h₁.symm, (Option.some.inj h).symm⟩
  · exact .inr ⟨Ne.symm h₁, h⟩

theorem getElem?_concat_cases {α : Type} {l : List α} {a b : α} {j : Nat} (h : (l ++ [a])[j]? = some b) :
    j = l.length ∧ b = a ∨ j < l.length ∧ l[j]? = some b := by
  rcases Nat.lt_or_ge j l.length with hj | hj
  · exact .inr ⟨hj, by rwa [List.getElem?_append_left hj] at h⟩
  · rw [List.getElem?_append_right hj] at h
    rcases hk : j - l.length with _ | k <;> rw [hk] at h
    · exact .inl ⟨by omega, (Option.some.inj h).symm⟩
    · simp at h

/-- A location new to the system: no segment row is recorded there and no live writer holds it. -/
def FreshSegments (s : Sys) (L : String) : Prop :=
  (∀ n, (L, n) ∉ s.store.segments) ∧ ∀ b ∈ s.writers, b.fw.Live → b.fw.location ≠ L

/-- What a call needs: a `Writer` call sees no result stream break, the location it may draw
    is new, and, appending, it is not given the location of a live writer; a `Write` goes to a
    live writer. -/
def SegAllowed (s : Sys) (env : Env) : Op → Prop
  | .writer p a => NoBreaks env ∧ (∀ r, env.rand = some r → FreshSegments s (hexEncode (List.ofFn r))) ∧
      (a = true → ∀ row, s.store.files.lookup (keyOf p) = some row → row.location ≠ "" →
        ∀ b ∈ s.writers, b.fw.Live → b.fw.location ≠ row.location)
  | .write i _ => ∀ b, s.writers[i]? = some b → b.fw.Live
  | _ => True

/-- Every live writer's next segment number is above every number recorded at its location; no
    two live writers share a location; a writer no longer live holds no buffered bytes. -/
structure SegSound (s : Sys) : Prop where
  below : ∀ (i : Nat) (b : BufferedWriter), s.writers[i]? = some b → b.fw.Live →
    ∀ n, (b.fw.location, n) ∈ s.store.segments → n < b.fw.nextNumber
  apart : ∀ (i j : Nat) (b₁ b₂ : BufferedWriter), s.writers[i]? = some b₁ → s.writers[j]? = some b₂ →
    b₁.fw.Live → b₂.fw.Live → b₁.fw.location = b₂.fw.location → i = j
  idle : ∀ (i : Nat) (b : BufferedWriter), s.writers[i]? = some b → ¬b.fw.Live → b.buf = []

theorem SegSound.init : SegSound Sys.init :=
  ⟨fun _ _ h => by simp [Sys.init] at h, fun _ _ _ _ h => by simp [Sys.init] at h, fun _ _ h => by simp [Sys.init] at h⟩

section Steps
variable {s : Sys} {env : Env}

theorem SegSound.store (h : SegSound s) {st : Store} (hs : st.segments = s.store.segments) : SegSound { s with store := st } :=
  ⟨fun i b hi hl n hn => h.below i b hi hl n (hs ▸ hn), h.apart, h.idle⟩

theorem SegSound.set (h : SegSound s) {i : Nat} {b b' : BufferedWriter} {w' : World} (hi : s.writers[i]? = some b)
    (hw : WriterCall b b' (s.world env) w') : SegSound ⟨w'.store, s.writers.set i b'⟩ := by
  refine ⟨fun j c hj hl n hn => ?_, fun j k c₁ c₂ hj hk hl₁ hl₂ he => ?_, fun j c hj hl => ?_⟩
  · rcases getElem?_set_cases hj with ⟨rfl, rfl⟩ | ⟨hji, hj⟩
    · rcases hw.rows _ hn with hn | ⟨-, -, hn⟩
      · exact (h.below j b hi (hw.live hl) n (hw.location ▸ hn)).trans_le (hw.next hl)
      · exact hn hl
    · rcases hw.rows _ hn with hn | ⟨hlb, hL, -⟩
      · exact h.below j c hj hl n hn
      · exact absurd (h.apart i j b c hi hj hlb hl hL.symm).symm hji
  · have key : ∀ {j : Nat} {c : BufferedWriter}, (s.writers.set i b')[j]? = some c → c.fw.Live →
        ∃ c₀, s.writers[j]? = some c₀ ∧ c₀.fw.Live ∧ c₀.fw.location = c.fw.location := fun hj hl => by
      rcases getElem?_set_cases hj with ⟨rfl, rfl⟩ | ⟨-, hj⟩
      · exact ⟨b, hi, hw.live hl, hw.location.symm⟩
      · exact ⟨_, hj, hl, rfl⟩
    obtain ⟨c₁', h₁, hl₁', he₁⟩ := key hj hl₁
    obtain ⟨c₂', h₂, hl₂', he₂⟩ := key hk hl₂
    exact h.apart j k c₁' c₂' h₁ h₂ hl₁' hl₂' (he₁.trans (he.trans he₂.symm))
  · rcases getElem?_set_cases hj with ⟨rfl, rfl⟩ | ⟨-, hj⟩
    · exact hw.idle hl
    · exact h.idle j c hj hl

theorem SegSound.push (h : SegSound s) {st : Store} (hs : st.segments = s.store.segments) {b : BufferedWriter}
    (hl : b.fw.Live) (hb : ∀ n, (b.fw.location, n) ∈ st.segments → n < b.fw.nextNumber)
    (ha : ∀ c ∈ s.writers, c.fw.Live → c.fw.location ≠ b.fw.location) : SegSound ⟨st, s.writers ++ [b]⟩ := by
  have cases : ∀ {j : Nat} {c : BufferedWriter}, (s.writers ++ [b])[j]? = some c → j = s.writers.length ∧ c = b ∨ s.writers[j]? = some c :=
    fun hj => (getElem?_concat_cases hj).imp_right And.right
  refine ⟨fun j c hj hl' n hn => ?_, fun j k c₁ c₂ hj hk hl₁ hl₂ he => ?_, fun j c hj hl' => ?_⟩
  · rcases cases hj with ⟨-, rfl⟩ | hj
    · exact hb n hn
    · exact h.below j c hj hl' n (hs ▸ hn)
  · rcases getElem?_concat_cases hj with ⟨rfl, rfl⟩ | ⟨-, hj'⟩ <;>
      rcases getElem?_concat_cases hk with ⟨rfl, rfl⟩ | ⟨-, hk'⟩
    · rfl
    · exact absurd he.symm (ha c₂ (List.mem_iff_getElem?.mpr ⟨_, hk'⟩) hl₂)
    · exact absurd he (ha c₁ (List.mem_iff_getElem?.mpr ⟨_, hj'⟩) hl₁)
    · exact h.apart j k c₁ c₂ hj' hk' hl₁ hl₂ he
  · rcases cases hj with ⟨-, rfl⟩ | hj
    · exact absurd hl hl'
    · exact h.idle j c hj hl'

theorem SegSound.live_or_idle (h : SegSound s) {i : Nat} {b : BufferedWriter} (hi : s.writers[i]? = some b) :
    b.fw.Live ∨ b.buf = [] :=
  or_iff_not_imp_left.mpr (h.idle i b hi)

theorem Sys.runOp_snd (s : Sys) (env : Env) (x : Drv Unit) :
    (s.runOp env x).2 = { s with store := (x.go (s.world env)).2.store } := by
  unfold Sys.runOp
  rcases x.go (s.world env) with ⟨_, _⟩
  rfl

/-- A driver operation that leaves the `segments` table alone keeps the invariant. -/
theorem SegSound.runOp (h : SegSound s) {x : Drv Unit} (hx : Keeps SameSegments x) : SegSound (s.runOp env x).2 := by
  rw [Sys.runOp_snd]
  exact h.store (hx _)

theorem SegSound.runWriter (h : SegSound s) {i : Nat} {m : BufferedWriter → StateM World (Option Err × BufferedWriter)}
    (hm : ∀ b, s.writers[i]? = some b →
      WriterCall b ((m b).run (s.world env)).1.2 (s.world env) ((m b).run (s.world env)).2) :
    SegSound (s.runWriter env i m).2 := by
  unfold Sys.runWriter
  rcases hi : s.writers[i]? with _ | b
  · exact h
  · exact h.set hi (hm b hi)

/-- A new writer numbers its segments above those of its location: a drawn location has none,
    and an appending writer holds all of them. -/
theorem SegSound.writer (h : SegSound s) {cfg : Config} {p : List String} {a : Bool} (ha : SegAllowed s env (.writer p a))
    {b : BufferedWriter} {w' : World} (hw : (writer cfg p a).go (s.world env) = (.ok b, w')) :
    SegSound ⟨w'.store, s.writers ++ [b]⟩ := by
  obtain ⟨hnp, -, -⟩ := writer_ok hw
  obtain ⟨hfw, hseg, -, -, -, -, hcont, hne, hloc, -⟩ := newPlusWriter_ok hnp
  obtain ⟨hnb, hfresh, hinh⟩ := ha
  have hlive : b.fw.Live := by rw [hfw]; exact ⟨rfl, rfl⟩
  refine h.push hseg hlive (fun n hn => ?_) fun c hc hl => ?_ <;>
    rcases hloc with ⟨r, hr, hL⟩ | ⟨rfl, row, hrow, hL⟩
  · exact absurd (hseg ▸ hn) (hL ▸ (hfresh r hr).1 n)
  · have hsegs : b.fw.segments = segmentsAt b.fw.location s.store.segments := by
      rw [hcont hnb fun r hr => segmentsAt_eq_nil (hfresh r hr).1]
      simp only [continued, if_true, Sys.world] at hrow ⊢
      rw [hrow]; dsimp only; rw [hL, if_neg hne]
    exact lt_nextNumber hsegs (hseg ▸ hn)
  · exact hL ▸ (hfresh r hr).2 c hc hl
  · exact hL ▸ hinh rfl row hrow (hL ▸ hne) c hc hl

/-- Every call that is allowed keeps the invariant, whatever the backends answer. -/
theorem SegSound.step (cfg : Config) {op : Op} (h : SegSound s) (ha : SegAllowed s env op) :
    SegSound (s.step cfg env op).2 := by
  cases op with
  | putContent p c => exact h.runOp (.putContent p c)
  | move src dst => exact h.runOp (.move src dst)
  | delete p => exact h.runOp (SameSegments.delete p)
  | writer p a =>
    simp only [Sys.step]
    rcases hw : (Keppel.Swiftplus.writer cfg p a).go (s.world env) with ⟨_ | b, w'⟩
    · exact h.store (by simpa [hw] using SameSegments.writer cfg p a (s.world env))
    · exact h.writer ha hw
  | write i data =>
    refine h.runWriter fun b hi => ?_
    have hw := BufferedWriter.write_call (ha b hi) data (s.world env)
    rcases hx : (b.write data).run (s.world env) with ⟨⟨⟨n, err⟩, b₁⟩, w₁⟩
    rw [hx] at hw
    simp only [run_bind', hx]
    exact hw
  | commit i => exact h.runWriter fun b hi => b.andThen_call PlusWriter.commit_finishes (h.live_or_idle hi) _
  | cancel i => exact h.runWriter fun b hi => b.andThen_call PlusWriter.cancel_finishes (h.live_or_idle hi) _
  | close i => exact h.runWriter fun b hi => b.andThen_call PlusWriter.close_finishes (h.live_or_idle hi) _

end Steps

/-! ## Every history -/

/-- The systems reachable from the empty store by allowed calls, each in any environment. -/
inductive SegReachable (cfg : Config) : Sys → Prop
  | init : SegReachable cfg Sys.init
  | step {s : Sys} {env : Env} {op : Op} : SegReachable cfg s → SegAllowed s env op →
      SegReachable cfg (s.step cfg env op).2

theorem SegReachable.segSound {cfg : Config} {s : Sys} (h : SegReachable cfg s) : SegSound s := by
  induction h with
  | init => exact SegSound.init
  | step _ ha ih => exact ih.step cfg ha

/-- In every system reachable by allowed calls, whatever the backends answered, every live
    writer's next segment number is above every number recorded at its location, so its next
    `INSERT INTO segments` is on a key no row holds; and no two live writers share a
    location. -/
theorem segReachable_fresh {cfg : Config} {s : Sys} (h : SegReachable cfg s) :
    (∀ b ∈ s.writers, b.fw.Live →
      (∀ n, (b.fw.location, n) ∈ s.store.segments → n < b.fw.nextNumber) ∧
        (b.fw.location, b.fw.nextNumber) ∉ s.store.segments) ∧
      ∀ (i j : Nat) (b₁ b₂ : BufferedWriter), s.writers[i]? = some b₁ → s.writers[j]? = some b₂ →
        b₁.fw.Live → b₂.fw.Live → b₁.fw.location = b₂.fw.location → i = j := by
  have hs := h.segSound
  refine ⟨fun b hb hl => ?_, hs.apart⟩
  obtain ⟨i, hi⟩ := List.mem_iff_getElem?.mp hb
  exact ⟨hs.below i b hi hl, fun hn => lt_irrefl _ (hs.below i b hi hl _ hn)⟩


/-- A session that opens `/a` and writes two bytes to it in chunks of one byte. -/
def segSession : Sys :=
  ((Sys.init.step cfgChunk1 envOk (.writer ["a"] false)).2.step cfgChunk1 envOk (.write 0 [1, 2])).2

theorem envOk_noBreaks : NoBreaks envOk := fun _ h => by simp [envOk, Env.ok] at h

theorem segReachable_fresh_session :
    SegReachable cfgChunk1 segSession ∧
      (∀ b ∈ segSession.writers, b.fw.Live →
        (∀ n, (b.fw.location, n) ∈ segSession.store.segments → n < b.fw.nextNumber) ∧
          (b.fw.location, b.fw.nextNumber) ∉ segSession.store.segments) ∧
        ∀ (i j : Nat) (b₁ b₂ : BufferedWriter), segSession.writers[i]? = some b₁ → segSession.writers[j]? = some b₂ →
          b₁.fw.Live → b₂.fw.Live → b₁.fw.location = b₂.fw.location → i = j :=
  have hw : ∀ b, (Sys.init.step cfgChunk1 envOk (.writer ["a"] false)).2.writers[0]? = some b → b.fw.Live :=
    fun b hb => by
      obtain rfl := Option.some.inj ((rfl : (Sys.init.step cfgChunk1 envOk (.writer ["a"] false)).2.writers[0]? =
        some ⟨⟨false, false, false, ["a"], zeroLocation, []⟩, [], none, 1⟩).symm.trans hb)
      exact ⟨rfl, rfl⟩
  have hr : SegReachable cfgChunk1 segSession :=
    .step (.step .init ⟨envOk_noBreaks, fun _ _ => ⟨fun _ h => by simp [Sys.init, Store.empty] at h,
      fun _ h => by simp [Sys.init] at h⟩, fun h => absurd h Bool.false_ne_true⟩) hw
  ⟨hr, segReachable_fresh hr⟩

/-! ## Rows are never removed -/

/-- Every row of the `segments` table stays, unchanged. -/
def RowsKept (s s' : Store) : Prop := ∀ k v, s.segments.lookup k = some v → s'.segments.lookup k = some v

instance : IsRefl Store RowsKept := ⟨fun _ _ _ h => h⟩

theorem RowsKept.of_eq {s s' : Store} (h : s'.segments = s.segments) : RowsKept s s' := fun _ _ hk => h ▸ hk

/-- `Commit`, `Cancel` or `Close` of a `bufferedWriter`: its flush adds rows, the rest none. -/
theorem BufferedWriter.andThen_kept {m : PlusWriter → StateM World (Option Err × PlusWriter)}
    (hm : ∀ fw w, Finishes fw ((m fw).run w).1.2 w ((m fw).run w).2) (b : BufferedWriter) (w : World) :
    RowsKept w.store ((b.andThen m).run w).2.store := by
  unfold BufferedWriter.andThen
  simp only [run_bind']
  have hf := (b.flush_appends w).kept
  rcases hfl : (b.flush).run w with ⟨⟨_ | e, b₁⟩, w₁⟩ <;> rw [hfl] at hf <;>
    simp only [Option.isSome_none, Option.isSome_some, Bool.false_eq_true, if_false, if_true, run_bind', run_pure']
  · exact fun k v h => (hm b₁.fw w₁).segments ▸ hf k v h
  · exact hf

/-- Every call keeps every row of the `segments` table, whatever the backends answer. -/
theorem Sys.step_kept (cfg : Config) (s : Sys) (env : Env) (op : Op) : RowsKept s.store (s.step cfg env op).2.store := by
  cases op with
  | putContent p c => rw [Sys.step, Sys.runOp_snd]; exact .of_eq (SameSegments.putContent p c _)
  | move src dst => rw [Sys.step, Sys.runOp_snd]; exact .of_eq (SameSegments.move src dst _)
  | delete p => rw [Sys.step, Sys.runOp_snd]; exact .of_eq (SameSegments.delete p _)
  | writer p a =>
    have hw := SameSegments.writer cfg p a (s.world env)
    simp only [Sys.step]
    rcases hgo : (Keppel.Swiftplus.writer cfg p a).go (s.world env) with ⟨_ | b, w'⟩ <;> rw [hgo] at hw <;> exact .of_eq hw
  | write i data => exact Sys.step_write_keeps cfg (fun b w => (b.write_appends data w).kept) s env i
  | commit i => exact Sys.runWriter_keeps (fun b => b.andThen_kept PlusWriter.commit_finishes) s env i
  | cancel i => exact Sys.runWriter_keeps (fun b => b.andThen_kept PlusWriter.cancel_finishes) s env i
  | close i => exact Sys.runWriter_keeps (fun b => b.andThen_kept PlusWriter.close_finishes) s env i

/-- No row of the `segments` table is ever removed or changed, whatever the calls and whatever
    the backends answer: `Delete`, `Cancel` and an overwriting `PutContent` or `Writer`
    remove a file's objects but never its segment rows. -/
theorem run_keeps_segment_rows (cfg : Config) : ∀ (s : Sys) (ops : List (Op × Env)) (k : String × Nat) (v : SegRow),
    s.store.segments.lookup k = some v → (s.run cfg ops).store.segments.lookup k = some v
  | _, [], _, _, h => h
  | s, (op, env) :: ops, k, v, h => run_keeps_segment_rows cfg _ ops k v (Sys.step_kept cfg s env op k v h)

/-! ## As built: a `Write` after `Cancel` -/

/-- A writer on `/a` takes one byte and is cancelled; its flush on `Cancel` inserts segment `1`. -/
def cancelRewrite : List (Op × Env) :=
  [(.writer ["a"] false, envOk), (.write 0 [1], envOk), (.cancel 0, envOk)]

theorem write_after_cancel_collides :
    Sys.Succeeds cfgChunk1 Sys.init cancelRewrite ∧
      (Sys.init.run cfgChunk1 cancelRewrite).writers = [⟨⟨true, false, false, ["a"], zeroLocation, []⟩, [], none, 1⟩] ∧
      (Sys.init.run cfgChunk1 cancelRewrite).store.segments.lookup (zeroLocation, 1) = some ⟨1, [1]⟩ ∧
      ((Sys.init.run cfgChunk1 cancelRewrite).step cfgChunk1 envOk (.write 0 [2, 3])).1 =
        some (.sql .uniqueViolation) :=
  ⟨⟨rfl, rfl, rfl, trivial⟩, rfl, rfl, rfl⟩

end Keppel.Swiftplus
