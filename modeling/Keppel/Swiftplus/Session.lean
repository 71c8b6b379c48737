/-
  Keppel.Swiftplus.Session — the writers `Writer` hands out, call after call.

  A session is what a caller of `Writer` does with one: `Writer(p, a)`, a `Write` of
  each chunk, then `Commit` or `Close`. `newPlusWriter` chooses what the session
  continues: with `a` set and a row at `p`, the segments recorded at the row's location,
  or at a new location when the row has none; otherwise nothing, once `deleteDownwards`
  has removed the row when `a` is not set. `Commit` writes the manifest of the writer's
  segments, which reads back as their bytes in order, then the file's row.

  (1) What a session writes (`session_appends`). When no query's result stream breaks
  off and the location a writer draws holds no segment, a session whose every call
  succeeded leaves at `p` the bytes of the segments it continued followed by all its
  chunks, with their total as the size; after each `Write`, `Size()` counts the
  continued bytes and those taken so far. A file `PutContent` wrote has no segment rows,
  so a session appending to it drops its bytes (`append_drops_putContent_bytes`).

  (2) Flags and numbers, as built. A writer's methods check the flags `cancelled`,
  `closed` and `committed` in three places only: `Commit` checks all three, `Close` only
  `closed`, `Cancel` only `closed`; `Write` checks none, and nothing ever sets `closed`
  (`writer_after_commit`). A writer numbers its next segment one past the last segment
  it holds: those it loaded when it was opened to append, and those it has written
  since; `readSegmentInfo` never reads `rows.Err()`, so a stream that breaks off makes
  an appending writer reuse a number (`append_after_broken_stream_collides`).

  (3) A rewrite is not atomic. Only `PutContent`, `Move`, `Commit` and `Close` write rows
  of the `files` table: every other call, whatever the backends answer, leaves only rows
  the table held (`run_adds_no_row`). `Writer(p, false)` has deleted the file at `p` when
  it returns, so until a `Commit` or `Close` writes the new row, and after a `Cancel`,
  `GetContent(p)` and `Stat(p)` report `p` missing (`rewrite_hides_path`).
-/
import Keppel.Swiftplus.System
import Keppel.Swiftplus.Tree
import Keppel.Swiftplus.Content

namespace Keppel.Swiftplus

/-! ## A session -/

/-- `Write` of each chunk in turn, as the writer's caller makes them; the first error ends
    the run. -/
def BufferedWriter.writeAll : BufferedWriter → List Bytes → StateM World (Option Err × BufferedWriter)
  | b, [] => pure (none, b)
  | b, d :: ds => do
    let ((_, err), b) ← b.write d
    match err with
    | some e => pure (some e, b)
    | none => b.writeAll ds

/-- A writer session: `Writer(p, a)`, a `Write` of each chunk, then `Commit`, or `Close`
    when `close` is set; the first call that fails ends it with its error. -/
def session (cfg : Config) (p : List String) (a : Bool) (chunks : List Bytes) (close : Bool) :
    StateM World (Option Err) := do
  match ← (writer cfg p a).run with
  | .error e => return some e
  | .ok b =>
    match ← b.writeAll chunks with
    | (some e, _) => return some e
    | (none, b) => return (← if close then b.close else b.commit).1

/-- The segments an appending writer continues: when `a` is set and `p` holds a row with a
    location, the segments recorded there, by their numbers. -/
def continued (s : Store) (p : List String) (a : Bool) : List Segment :=
  if a then
    match s.files.lookup (keyOf p) with
    | some r => if r.location = "" then [] else segmentsAt r.location s.segments
    | none => []
  else []

/-- Their bytes, as a manifest of them reads back. -/
def continuedBytes (s : Store) (p : List String) (a : Bool) : Bytes := ((continued s p a).map (·.hash)).flatten

/-! ## What each call of a successful session does -/

/-- What a successful `newPlusWriter p a` does, from any world: a writer on `p` with no flag
    set; the table loses at most the rows `deleteDownwards` reaches from `p`'s row, and only
    when `a` is not set, after which `p` has no row; no segment changes. With no broken
    stream the writer holds the segments it continues. Its location is a new one drawn from
    crypto/rand, or, when appending, that of `p`'s row; the store is left as it was, or as a
    successful `deleteDownwards` of `p`'s row leaves it. -/
theorem newPlusWriter_ok {p : List String} {a : Bool} {fw : PlusWriter} {w w' : World}
    (h : (newPlusWriter p a).go w = (.ok fw, w')) :
    fw = ⟨false, false, false, p, fw.location, fw.segments⟩ ∧ w'.store.segments = w.store.segments ∧
      SubTable w'.store.files w.store.files ∧ (a = true → w'.store.files = w.store.files) ∧
      (a = false → w'.store.files.lookup (keyOf p) = none) ∧
      (NoBreaks w.env → WF w.store.files → WF w'.store.files) ∧
      (NoBreaks w.env → (∀ r, w.env.rand = some r → segmentsAt (hexEncode (List.ofFn r)) w.store.segments = []) →
        fw.segments = continued w.store p a) ∧
      fw.location ≠ "" ∧
      ((∃ r, w.env.rand = some r ∧ fw.location = hexEncode (List.ofFn r)) ∨
        (a = true ∧ ∃ r, w.store.files.lookup (keyOf p) = some r ∧ r.location = fw.location)) ∧
      (w'.store = w.store ∨ ∃ r, w.store.files.lookup (keyOf p) = some r ∧
        (deleteDownwards (FileInfo.ofRow (keyOf p) r)).go w.popDb = (.ok (), w')) := by
  simp only [newPlusWriter] at h
  obtain ⟨⟨fi, err⟩, w₁, h1, h2⟩ := go_bind_ok.mp h
  obtain ⟨e1, rfl⟩ := Prod.mk.inj (readFileInfo_go p w ▸ h1)
  rcases readResult_cases w (keyOf p) with ⟨he, hn⟩ | ⟨r, he, hr⟩ | ⟨e, he⟩ <;>
    rw [← Except.ok.inj e1, he] at h2 <;> dsimp only at h2
  · simp only [ne_eq, not_true_eq_false, decide_False, Bool.false_eq_true, if_false, false_and, pure_bind,
      not_false_eq_true, true_or, if_true] at h2
    obtain ⟨L, w₂, h3, h4⟩ := go_bind_ok.mp h2
    obtain ⟨rfl, hne, r, hr, rfl⟩ := plusRandLocation_ok h3
    obtain ⟨rfl, rfl⟩ := go_pure_ok.mp h4
    exact ⟨rfl, rfl, fun _ _ h => h, fun _ => rfl, fun _ => hn, fun _ h => h, fun _ _ => by simp [continued, hn],
      hne, .inl ⟨r, hr, rfl⟩, .inl rfl⟩
  · cases a <;>
      simp only [ne_eq, reduceCtorEq, not_false_eq_true, decide_True, if_true, pure_bind, true_and,
        Bool.false_eq_true, not_true_eq_false, if_false, and_true, and_false, false_or, true_or] at h2
    · -- not appending: the row and what it reaches are deleted
      obtain ⟨fe, w₂, h3, h4⟩ := go_bind_ok.mp h2
      obtain ⟨_, w₃, h5, h6⟩ := go_bind_ok.mp h3
      obtain ⟨rfl, rfl⟩ := go_pure_ok.mp h6
      simp only [Bool.false_eq_true, not_false_eq_true, true_or, if_true] at h4
      obtain ⟨L, w₄, h7, h8⟩ := go_bind_ok.mp h4
      obtain ⟨rfl, hne, r', hr', rfl⟩ := plusRandLocation_ok h7
      obtain ⟨rfl, rfl⟩ := go_pure_ok.mp h8
      have hp := deleteDownwards_prunes (FileInfo.ofRow (keyOf p) r) w.popDb
      rw [h5] at hp
      refine ⟨rfl, hp.segments, hp.rows, by simp, fun _ => ?_, fun hb hw => ?_, fun _ _ => by simp [continued],
        hne, .inl ⟨r', hp.rand ▸ hr', rfl⟩, .inr ⟨r, hr, h5⟩⟩
      · exact AList.lookup_eq_none.mpr (deleteDownwards_ok_absent h5)
      · have := deleteDownwards_keeps (canPrune_read hb hw hr)
        rw [h5] at this
        exact this.wf
    · -- appending: the row's location, or a new one, and the segments recorded there
      obtain ⟨L, w₂, h3, h4⟩ := go_bind_ok.mp h2
      obtain ⟨segs, w₃, h5, h6⟩ := go_bind_ok.mp h4
      obtain ⟨rfl, rfl⟩ := go_pure_ok.mp h6
      have hL : w₂ = w.popDb ∧ L ≠ "" ∧ (r.location = "" → ∃ r', w.env.rand = some r' ∧ L = hexEncode (List.ofFn r')) ∧
          (r.location ≠ "" → L = r.location) := by
        simp only [FileInfo.ofRow] at h3
        split at h3
        · obtain ⟨rfl, hne, r', hr', rfl⟩ := plusRandLocation_ok h3
          exact ⟨rfl, hne, fun _ => ⟨r', hr', rfl⟩, absurd ‹_›⟩
        · obtain ⟨rfl, rfl⟩ := go_pure_ok.mp h3
          exact ⟨rfl, ‹_›, fun h => absurd h ‹_›, fun _ => rfl⟩
      obtain ⟨rfl, hne, hrand, hloc⟩ := hL
      have hs := readSegmentInfo_store L w.popDb
      rw [h5] at hs
      refine ⟨rfl, by rw [hs]; rfl, fun _ _ h => by rwa [hs] at h, fun _ => by rw [hs]; rfl, by simp,
        fun _ hw => by rw [hs]; exact hw, fun hb hfresh => ?_, hne, ?_, .inl hs⟩
      swap
      · by_cases hl : r.location = ""
        · exact .inl (hrand hl)
        · exact .inr ⟨rfl, r, hr, (hloc hl).symm⟩
      rw [readSegmentInfo_full hb.popDb h5, if_neg hne]
      simp only [continued, hr, if_true]
      split
      · obtain ⟨r', hr', rfl⟩ := hrand ‹_›
        exact hfresh r' hr'
      · rw [hloc ‹_›]; rfl
  · simp only [ne_eq, reduceCtorEq, not_false_eq_true, decide_True, if_true, go_bind, go_throw] at h2
    cases h2

theorem writer_ok {cfg : Config} {p : List String} {a : Bool} {b : BufferedWriter} {w w' : World}
    (h : (writer cfg p a).go w = (.ok b, w')) :
    (newPlusWriter p a).go w = (.ok b.fw, w') ∧ b.buf = [] ∧ b.err = none := by
  obtain ⟨fw, w₁, h1, h2⟩ := go_bind_ok.mp h
  obtain ⟨rfl, rfl⟩ := go_pure_ok.mp h2
  exact ⟨h1, rfl, rfl⟩

theorem writeAll_ok {ds : List Bytes} : ∀ {b b' : BufferedWriter} {w w' : World},
    (b.writeAll ds).run w = ((none, b'), w') → Takes b b' ds.flatten ∧ w'.store.files = w.store.files := by
  induction ds with
  | nil => intro b b' w w' h; cases h; exact ⟨Takes.refl b, rfl⟩
  | cons d ds ih =>
    intro b b' w w' h
    simp only [BufferedWriter.writeAll, run_bind'] at h
    rcases hw : (b.write d).run w with ⟨⟨⟨m, _ | e⟩, b₁⟩, w₁⟩ <;> rw [hw] at h
    · obtain ⟨ht, -, hf⟩ := write_ok hw
      obtain ⟨ht', hf'⟩ := ih h
      exact ⟨by simpa using ht.trans ht', hf'.trans hf⟩
    · cases h

/-- The calls of a successful run up to any chunk succeed too. -/
theorem writeAll_take {ds : List Bytes} : ∀ {b b' : BufferedWriter} {w w' : World} (k : Nat),
    (b.writeAll ds).run w = ((none, b'), w') → ∃ b'' w'', (b.writeAll (ds.take k)).run w = ((none, b''), w'') := by
  induction ds with
  | nil => intro b b' w w' k h; exact ⟨b', w', by simpa using h⟩
  | cons d ds ih =>
    intro b b' w w' k h
    cases k with
    | zero => exact ⟨b, w, rfl⟩
    | succ k =>
      simp only [BufferedWriter.writeAll, run_bind', List.take_succ_cons] at h ⊢
      rcases hw : (b.write d).run w with ⟨⟨⟨m, _ | e⟩, b₁⟩, w₁⟩ <;> rw [hw] at h
      · exact ih k h
      · cases h

theorem session_ok {cfg : Config} {p : List String} {a : Bool} {chunks : List Bytes} {close : Bool} {w w' : World}
    (h : (session cfg p a chunks close).run w = (none, w')) :
    ∃ b w₁ b₁ w₂ b₂, (writer cfg p a).go w = (.ok b, w₁) ∧ (b.writeAll chunks).run w₁ = ((none, b₁), w₂) ∧
      (if close then b₁.close else b₁.commit).run w₂ = ((none, b₂), w') := by
  simp only [session, run_bind', run_run] at h
  rcases h1 : (writer cfg p a).go w with ⟨_ | b, w₁⟩ <;> rw [h1] at h
  · cases h
  rcases h2 : (b.writeAll chunks).run w₁ with ⟨⟨_ | e, b₁⟩, w₂⟩ <;> simp only [h2, run_bind', run_pure'] at h
  · rcases h3 : (if close then b₁.close else b₁.commit).run w₂ with ⟨⟨err, b₂⟩, w₃⟩
    rw [h3] at h
    cases h
    exact ⟨b, w₁, b₁, w₂, b₂, rfl, h2, h3⟩
  · cases h

/-- Every segment a manifest accepted records the size of its bytes. -/
theorem sizes_of_valid {objs : ObjPath → Option Bytes} {segs : List Segment}
    (h : segs.all (segmentValid objs) = true) : (segs.map (·.sizeBytes)).sum = ((segs.map (·.hash)).flatten).length := by
  induction segs with
  | nil => rfl
  | cons s segs ih =>
    simp only [List.all_cons, Bool.and_eq_true, segmentValid, decide_eq_true_eq] at h
    simp [ih h.2, h.1.2]

/-! ## (1) What a session writes -/

/-- A configuration with a chunk size of one byte. -/
def cfgChunk1 : Config := ⟨"", 1⟩

/-- Every call succeeds, and crypto/rand yields zeros. -/
def envOk : Env := Env.ok fun _ => 0

/-- A session that succeeds, with no broken result stream and a fresh location for a
    writer that draws one, leaves at `p` the bytes it continued followed by its chunks:
    `GetContent(p)` and `Stat(p)` in a later call where every backend call succeeds return
    them and their length; `Size()` after the first `k` writes is the length of the
    continued bytes and the first `k` chunks. -/
theorem session_appends (cfg : Config) {p : List String} (hp : Admitted p) (a : Bool) (chunks : List Bytes)
    {w w' : World} (hb : NoBreaks w.env)
    (hfresh : ∀ r, w.env.rand = some r → segmentsAt (hexEncode (List.ofFn r)) w.store.segments = [])
    (h : (session cfg p a chunks false).run w = (none, w')) (r : Fin 8 → UInt8) :
    ((getContent cfg p).go ⟨w'.store, Env.ok r, 0⟩).1 = .ok (continuedBytes w.store p a ++ chunks.flatten) ∧
      (∃ fi, ((stat p).go ⟨w'.store, Env.ok r, 0⟩).1 = .ok fi ∧
        fi.sizeBytes = (continuedBytes w.store p a).length + chunks.flatten.length) ∧
      ∃ b w₁, (writer cfg p a).go w = (.ok b, w₁) ∧ ∀ k, ∃ b' w₂,
        (b.writeAll (chunks.take k)).run w₁ = ((none, b'), w₂) ∧
        b'.sizeNow = (continuedBytes w.store p a).length + (chunks.take k).flatten.length := by
  obtain ⟨b, w₁, b₁, w₂, b₂, hw, hall, hc⟩ := session_ok h
  simp only [Bool.false_eq_true, if_false] at hc
  obtain ⟨hnp, hbuf, -⟩ := writer_ok hw
  obtain ⟨hfw, -, -, -, -, -, hcont, -⟩ := newPlusWriter_ok hnp
  obtain ⟨b₃, w₃, fw, ht₃, hbuf₃, -, hcommit⟩ := BufferedWriter.commit_ok hc
  obtain ⟨-, -, -, -, w₄, hslo, hwfi⟩ := PlusWriter.commit_ok hcommit
  obtain ⟨hvalid, hobj⟩ := swiftWriteSLO_ok hslo
  obtain ⟨hadd, -, -⟩ := writeFileInfo_ok hwfi
  obtain ⟨⟨new, hfw₃, -, hnew⟩, -, -⟩ := (writeAll_ok hall).1.trans ht₃
  rw [hbuf₃, hbuf, List.append_nil, List.nil_append, List.append_nil] at hnew
  -- the writer's segments in the end: those it continued, then those its chunks filled
  have hsegs : b₃.fw.segments = continued w.store p a ++ new := by rw [hfw₃, ← hcont hb hfresh]
  have hpath : b₃.fw.fullPath = p := by rw [hfw₃]; exact congrArg PlusWriter.fullPath hfw
  have hbytes : (b₃.fw.segments.map (·.hash)).flatten = continuedBytes w.store p a ++ chunks.flatten := by
    rw [hsegs, List.map_append, List.flatten_append, hnew]; rfl
  have hsize : b₃.fw.size = (continuedBytes w.store p a ++ chunks.flatten).length := by
    rw [PlusWriter.size, sizes_of_valid hvalid, hbytes]
  have hvalid' : (continued w.store p a).all (segmentValid w₃.store.objects) = true := by
    rw [hsegs, List.all_append, Bool.and_eq_true] at hvalid; exact hvalid.1
  -- the row and the manifest `Commit` left at `p`
  have hrow : w'.store.files.lookup (keyOf p) = some ⟨b₃.fw.size, [], b₃.fw.location⟩ := by
    rw [← hpath]; exact hadd.rows _ _ (AList.lookup_insert _)
  have hman : w'.store.objects ⟨b₃.fw.location, .content⟩ = some (continuedBytes w.store p a ++ chunks.flatten) := by
    rw [hadd.objects, hobj, ← hbytes]; simp [setObject]
  refine ⟨?_, ⟨_, stat_okEnv _ r 0 hp.1 hrow, by simp [FileInfo.ofRow, hsize]⟩, b, w₁, hw, fun k => ?_⟩
  · rw [getContent_okEnv cfg _ r 0 hrow (Int.natCast_nonneg _), hman]
    dsimp only
    rw [hsize]
    split_ifs with h0 h1
    · rw [List.length_eq_zero.mp (show (continuedBytes w.store p a ++ chunks.flatten).length = 0 by exact_mod_cast h0)]
    · simp at h1
    · rfl
  · obtain ⟨b', w₂', hk⟩ := writeAll_take k hall
    refine ⟨b', w₂', hk, ?_⟩
    rw [((writeAll_ok hk).1).sizeNow, BufferedWriter.sizeNow, hbuf, PlusWriter.size, hcont hb hfresh,
      sizes_of_valid hvalid']
    rfl

/-- A writer session on `/a` that commits two segments of two bytes. -/
def twoSegmentSession : List (Op × Env) :=
  [(.writer ["a"] false, envOk), (.write 0 [1, 2], envOk), (.write 0 [3, 4], envOk), (.commit 0, envOk)]

theorem session_appends_sample :
    ((session cfgChunk1 ["a"] false [[1, 2]] false).run ⟨Store.empty, envOk, 0⟩).1 = none ∧
      ((getContent cfgChunk1 ["a"]).go
        ⟨((session cfgChunk1 ["a"] false [[1, 2]] false).run ⟨Store.empty, envOk, 0⟩).2.store, envOk, 0⟩).1 =
          .ok (continuedBytes Store.empty ["a"] false ++ [[1, 2]].flatten) ∧
      continuedBytes (Sys.init.run cfgChunk1 twoSegmentSession).store ["a"] true = [1, 2, 3, 4] ∧
      ((session cfgChunk1 ["a"] true [[5, 6]] false).run
        ⟨(Sys.init.run cfgChunk1 twoSegmentSession).store, Env.ok fun _ => 1, 0⟩).1 = none ∧
      ((getContent cfgChunk1 ["a"]).go ⟨((session cfgChunk1 ["a"] true [[5, 6]] false).run
        ⟨(Sys.init.run cfgChunk1 twoSegmentSession).store, Env.ok fun _ => 1, 0⟩).2.store, envOk, 0⟩).1 =
          .ok (continuedBytes (Sys.init.run cfgChunk1 twoSegmentSession).store ["a"] true ++ [[5, 6]].flatten) :=
  have h₂ : (session cfgChunk1 ["a"] true [[5, 6]] false).run
      ⟨(Sys.init.run cfgChunk1 twoSegmentSession).store, Env.ok fun _ => 1, 0⟩ =
      (none, ((session cfgChunk1 ["a"] true [[5, 6]] false).run
        ⟨(Sys.init.run cfgChunk1 twoSegmentSession).store, Env.ok fun _ => 1, 0⟩).2) := rfl
  ⟨rfl, (@session_appends cfgChunk1 ["a"] (by decide) false [[1, 2]] ⟨Store.empty, envOk, 0⟩ _
    (fun _ h => absurd h (List.not_mem_nil _)) (fun _ _ => rfl) rfl fun _ => 0).1, rfl, rfl,
    (@session_appends cfgChunk1 ["a"] (by decide) true [[5, 6]]
      ⟨(Sys.init.run cfgChunk1 twoSegmentSession).store, Env.ok fun _ => 1, 0⟩ _
      (fun _ h => absurd h (List.not_mem_nil _)) (fun _ h => by cases h; rfl) h₂ fun _ => 0).1⟩

/-- The file `/a` that `PutContent("/a", [1])` leaves in the empty store, inline. -/
def inlineFileA : Store := ((putContent ["a"] [1]).go ⟨Store.empty, envOk, 0⟩).2.store

theorem append_drops_putContent_bytes :
    ((getContent cfgChunk1 ["a"]).go ⟨inlineFileA, envOk, 0⟩).1 = .ok [1] ∧
      ((session cfgChunk1 ["a"] true [[2]] false).run ⟨inlineFileA, envOk, 0⟩).1 = none ∧
      ((getContent cfgChunk1 ["a"]).go
        ⟨((session cfgChunk1 ["a"] true [[2]] false).run ⟨inlineFileA, envOk, 0⟩).2.store, envOk, 0⟩).1 = .ok [2] :=
  ⟨rfl, rfl, rfl⟩

/-! ## As built -/

theorem writer_after_commit :
    (Sys.init.trace cfgChunk1 envOk [.writer ["a"] false, .commit 0, .write 0 [1], .close 0, .close 0]).1 =
        [none, none, none, none, none] ∧
      ((Sys.init.trace cfgChunk1 envOk [.writer ["a"] false, .commit 0, .write 0 [1]]).2.step cfgChunk1 envOk
        (.commit 0)).1 = some .committed ∧
      (Sys.init.trace cfgChunk1 envOk [.writer ["a"] false, .commit 0, .write 0 [1]]).2.store.segments.entries = [] ∧
      ((Sys.init.trace cfgChunk1 envOk [.writer ["a"] false, .commit 0, .write 0 [1]]).2.step cfgChunk1 envOk
        (.commit 0)).2.store.segments.entries.length = 1 :=
  ⟨rfl, rfl, rfl, rfl⟩

theorem append_after_broken_stream_collides :
    (Sys.init.run cfgChunk1 twoSegmentSession).store.segments.entries.map (·.1.2) = [2, 1] ∧
      ((Sys.init.run cfgChunk1 twoSegmentSession).step cfgChunk1 ⟨[.ok, .breaks 1 (.other 0)], [], none⟩
        (.writer ["a"] true)).2.writers.map (·.fw.segments.map (·.number)) = [[1, 2], [1]] ∧
      (((Sys.init.run cfgChunk1 twoSegmentSession).step cfgChunk1 ⟨[.ok, .breaks 1 (.other 0)], [], none⟩
        (.writer ["a"] true)).2.step cfgChunk1 envOk (.write 1 [5, 6])).1 = some (.sql .uniqueViolation) :=
  ⟨rfl, rfl, rfl⟩

/-! ## (3) A rewrite is not atomic -/

/-- The calls that may add or change a row of the `files` table: `PutContent` and `Move`, and
    a writer's `Commit` and `Close`, which write the file's row. -/
def Op.writesRows : Op → Bool
  | .putContent _ _ | .move _ _ | .commit _ | .close _ => true
  | .delete _ | .writer _ _ | .write _ _ | .cancel _ => false

theorem NoNewRows.delete (p : List String) : Keeps NoNewRows (delete p) := .delete NoNewRows.deleteDownwards p

theorem PlusWriter.cancel_noNewRows (fw : PlusWriter) (w : World) : NoNewRows w.store ((fw.cancel).run w).2.store := by
  unfold PlusWriter.cancel
  cases fw.closed
  · simp only [Bool.false_eq_true, if_false, run_bind', run_run]
    exact NoNewRows.delete _ w
  · exact refl_of NoNewRows _

/-- `Cancel` of a `bufferedWriter`: its flush uploads, then `plusWriter.Cancel` deletes. -/
theorem BufferedWriter.cancel_noNewRows (b : BufferedWriter) (w : World) : NoNewRows w.store ((b.cancel).run w).2.store := by
  unfold BufferedWriter.cancel BufferedWriter.andThen
  simp only [run_bind']
  have hf : NoNewRows w.store ((b.flush).run w).2.store := fun k r h => (b.flush_uploads w).files ▸ h
  rcases hfl : (b.flush).run w with ⟨⟨_ | e, b₁⟩, w₁⟩ <;> rw [hfl] at hf <;>
    simp only [Option.isSome_none, Option.isSome_some, Bool.false_eq_true, if_false, if_true, run_bind', run_pure']
  · exact trans_of NoNewRows hf (b₁.fw.cancel_noNewRows w₁)
  · exact hf

theorem Sys.step_noNewRows (cfg : Config) (s : Sys) (env : Env) {op : Op} (h : op.writesRows = false) :
    NoNewRows s.store (s.step cfg env op).2.store := by
  cases op with
  | delete p => rw [Sys.step]; exact Sys.runOp_keeps (NoNewRows.delete p) s env
  | writer p a =>
    have hw := Keeps.writer NoNewRows.deleteDownwards cfg p a (s.world env)
    simp only [Sys.step]
    rcases hgo : (writer cfg p a).go (s.world env) with ⟨_ | b, w'⟩ <;> rw [hgo] at hw <;> exact hw
  | write i d => exact Sys.step_write_keeps cfg (fun b w _ _ h => (b.write_uploads d w).files ▸ h) s env i
  | cancel i => exact Sys.runWriter_keeps BufferedWriter.cancel_noNewRows s env i
  | putContent _ _ | move _ _ | commit _ | close _ => cases h

/-- Only `PutContent`, `Move`, `Commit` and `Close` write rows: after any run of the other calls,
    whatever the backends answer, every row of the `files` table is one it held at the start. -/
theorem run_adds_no_row (cfg : Config) (s : Sys) (ops : List (Op × Env)) (h : ∀ x ∈ ops, x.1.writesRows = false) :
    SubTable (s.run cfg ops).store.files s.store.files :=
  Sys.run_keeps cfg (fun s env _ h => Sys.step_noNewRows cfg s env h) s ops h

/-- `Writer(p, false)` deletes the file at `p` before its first byte is uploaded, and only the
    writer's `Commit` or `Close` writes the new row: from a successful `Writer(p, false)` on,
    through any calls but `PutContent`, `Move`, `Commit` and `Close`, whatever the backends
    answer, `GetContent(p)` and `Stat(p)` report `p` missing. -/
theorem rewrite_hides_path (cfg : Config) {s : Sys} {env : Env} {p : List String} (hp : p ≠ [])
    (h : (s.step cfg env (.writer p false)).1 = none) (ops : List (Op × Env))
    (hops : ∀ x ∈ ops, x.1.writesRows = false) (r : Fin 8 → UInt8) (n : Nat) :
    ((getContent cfg p).go ⟨((s.step cfg env (.writer p false)).2.run cfg ops).store, Env.ok r, n⟩).1 =
        .error (.pathNotFound (render p)) ∧
      ((stat p).go ⟨((s.step cfg env (.writer p false)).2.run cfg ops).store, Env.ok r, n⟩).1 =
        .error (.pathNotFound (render p)) := by
  have hdel : ((s.step cfg env (.writer p false)).2.store.files.lookup (keyOf p)) = none := by
    simp only [Sys.step] at h ⊢
    rcases hgo : (writer cfg p false).go (s.world env) with ⟨_ | b, w'⟩
    · rw [hgo] at h; cases h
    · exact (newPlusWriter_ok (writer_ok hgo).1).2.2.2.2.1 rfl
  have hl : ((s.step cfg env (.writer p false)).2.run cfg ops).store.files.lookup (keyOf p) = none :=
    Option.eq_none_iff_forall_not_mem.mpr fun row hrow => by
      rw [Sys.run_keeps cfg (fun s env _ h => Sys.step_noNewRows cfg s env h) _ ops hops _ _ (Option.mem_def.mp hrow)]
        at hdel
      cases hdel
  exact okEnv_missing_not_found cfg _ r n hp hl

end Keppel.Swiftplus
