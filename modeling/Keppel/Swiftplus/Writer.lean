/-
  Keppel.Swiftplus.Writer — the writer `Writer` returns (src/unnamed/part_000): a
  `plusWriter` wrapped in a `bufferedWriter`, whose `bufio.Writer` (Go's standard
  library) collects the caller's bytes into chunks of the configured size.

  A writer is a value its caller holds, so its methods take it and give it back with
  the Go `error` they return: a method changes its writer's fields whether or not it
  fails. `plusWriter.Write` uploads one segment and records it; `Commit` composes the
  manifest and writes the file's row; `Cancel` deletes the path; `Close` commits what
  is neither committed nor cancelled. The state flags are read as the source reads
  them: only `Commit` and `Close` look at them, and nothing sets `closed`.

  `bufio.Writer` keeps the first error of the writer below it and answers every later
  call with it. `Write`'s loop takes a turn while the bytes left do not fit the rest of
  the buffer and no error is kept: an empty buffer sends them to the writer at once,
  a partly filled one is filled up and flushed. The writer below takes all the bytes
  or fails, so two turns always end the loop.

  What every run of `Write`, of `bufio.Writer`'s `Write` and of `Flush` leaves, whether
  it fails or not, is `Uploads`: the `files` table and every manifest as they were; it
  adds segments and their objects only. `cancel_ok` says what a successful `Cancel` ran.
-/
import Mathlib.Algebra.BigOperators.Group.List
import Mathlib.Algebra.Order.Ring.Nat
import Keppel.Swiftplus.Driver

namespace Keppel.Swiftplus

/-- `plusWriter`. -/
structure PlusWriter where
  cancelled : Bool
  closed : Bool
  committed : Bool
  fullPath : List String
  location : String
  segments : List Segment

/-- `newPlusWriter`. -/
def newPlusWriter (fullPath : List String) (appendFlag : Bool) : Drv PlusWriter := do
  let (fi, err) ← readFileInfo fullPath
  let fileExists := decide (err ≠ some .noRows)
  (if fileExists then
    if let some e := err then throw e else pure ()
   else pure ())
  -- delete previous file unless we intend to append
  let fileExists ← (if fileExists ∧ ¬appendFlag then do deleteDownwards fi; pure false else pure fileExists)
  let location ← (if ¬fileExists ∨ fi.location = "" then plusRandLocation else pure fi.location)
  let segments ← (if fileExists ∧ appendFlag then readSegmentInfo location else pure [])
  return ⟨false, false, false, fullPath, location, segments⟩

/-- The number `plusWriter.Write` gives its next segment. -/
def PlusWriter.nextNumber (w : PlusWriter) : Nat :=
  match w.segments.getLast? with
  | some s => s.number + 1
  | none => 1

/-- `plusWriter.Write`: how many bytes were taken, and the error. -/
def PlusWriter.write (w : PlusWriter) (buf : Bytes) : StateM World ((Nat × Option Err) × PlusWriter) := do
  let s : Segment := ⟨w.location, w.nextNumber, buf.length, []⟩
  match ← (swiftWrite s.objectPath buf).run with
  | .error e => return ((0, some (setReportedPath e (render w.fullPath))), w)
  | .ok hash =>
    let s := { s with hash }
    let w := { w with segments := w.segments ++ [s] }
    match ← (exec (insertSegment s)).run with
    | .error e => return ((buf.length, some e), w)
    | .ok () => return ((buf.length, none), w)

/-- `plusWriter.Size`. -/
def PlusWriter.size (w : PlusWriter) : Nat := (w.segments.map (·.sizeBytes)).sum

/-- `plusWriter.Commit`. -/
def PlusWriter.commit (w : PlusWriter) : StateM World (Option Err × PlusWriter) := do
  if w.closed then return (some .closed, w)
  else if w.cancelled then return (some .cancelled, w)
  else if w.committed then return (some .committed, w)
  let fi : FileInfo := ⟨pathDir w.fullPath, pathBase w.fullPath, w.size, [], w.location⟩
  match ← (do swiftWriteSLO fi.objectPath w.segments; writeFileInfo fi).run with
  | .error e => return (some e, w)
  | .ok () => return (none, { w with committed := true })

/-- `plusWriter.Close`. -/
def PlusWriter.close (w : PlusWriter) : StateM World (Option Err × PlusWriter) := do
  if w.closed then return (some .closed, w)
  if !w.committed && !w.cancelled then w.commit
  else return (none, w)

/-- `plusWriter.Cancel`. -/
def PlusWriter.cancel (w : PlusWriter) : StateM World (Option Err × PlusWriter) := do
  if w.closed then return (some .closed, w)
  let w := { w with cancelled := true }
  let r ← (delete w.fullPath).run
  return (match r with | .ok () => none | .error e => some e, { w with segments := [] })

/-! ## `bufio.Writer` and `bufferedWriter` -/

/-- `bufferedWriter`: the `plusWriter` and the state of its `bufio.Writer`. -/
structure BufferedWriter where
  fw : PlusWriter
  /-- the bytes held, `buf[0:n]` -/
  buf : Bytes
  /-- the error kept -/
  err : Option Err
  /-- the buffer's length -/
  size : Nat

def BufferedWriter.available (b : BufferedWriter) : Nat := b.size - b.buf.length

/-- `bufio.Writer.Flush`. -/
def BufferedWriter.flush (b : BufferedWriter) : StateM World (Option Err × BufferedWriter) := do
  if let some e := b.err then return (some e, b)
  if b.buf = [] then return (none, b)
  let ((n, err), fw) ← b.fw.write b.buf
  let err := if n < b.buf.length ∧ err = none then some .shortWrite else err
  match err with
  | some e => return (some e, { b with fw, buf := b.buf.drop n, err := some e })
  | none => return (none, { b with fw, buf := [] })

/-- One turn of `bufio.Writer.Write`'s loop; the bytes of `p` it used. -/
def BufferedWriter.turn (b : BufferedWriter) (p : Bytes) : StateM World (Nat × BufferedWriter) := do
  if b.buf = [] then
    let ((n, err), fw) ← b.fw.write p
    return (n, { b with fw, err })
  else
    let n := b.available
    let (_, b) ← ({ b with buf := b.buf ++ p.take n } : BufferedWriter).flush
    return (n, b)

/-- The end of `bufio.Writer.Write`: the kept error, or the rest copied into the buffer. -/
def BufferedWriter.writeRest (b : BufferedWriter) (p : Bytes) (nn : Nat) :
    (Nat × Option Err) × BufferedWriter :=
  match b.err with
  | some e => ((nn, some e), b)
  | none =>
    let n := min b.available p.length
    ((nn + n, none), { b with buf := b.buf ++ p.take n })

def BufferedWriter.writeLoop :
    Nat → BufferedWriter → Bytes → Nat → StateM World ((Nat × Option Err) × BufferedWriter)
  | fuel + 1, b, p, nn =>
    if p.length > b.available ∧ b.err = none then do
      let (n, b) ← b.turn p
      writeLoop fuel b (p.drop n) (nn + n)
    else return b.writeRest p nn
  | 0, b, p, nn => return b.writeRest p nn

/-- `bufio.Writer.Write`, whose loop ends within two turns. -/
def BufferedWriter.write (b : BufferedWriter) (p : Bytes) : StateM World ((Nat × Option Err) × BufferedWriter) :=
  b.writeLoop 2 p 0

/-- `bufferedWriter.Size`. -/
def BufferedWriter.sizeNow (b : BufferedWriter) : Nat := b.fw.size + b.buf.length

/-- `bufferedWriter.Close`, `Cancel` and `Commit`: flush, then the writer's own. -/
def BufferedWriter.andThen (b : BufferedWriter)
    (m : PlusWriter → StateM World (Option Err × PlusWriter)) : StateM World (Option Err × BufferedWriter) := do
  let (err, b) ← b.flush
  if err.isSome then return (err, b)
  let (err, fw) ← m b.fw
  return (err, { b with fw })

def BufferedWriter.close (b : BufferedWriter) := b.andThen PlusWriter.close

def BufferedWriter.cancel (b : BufferedWriter) := b.andThen PlusWriter.cancel

def BufferedWriter.commit (b : BufferedWriter) := b.andThen PlusWriter.commit

/-- `bufio.NewWriterSize`: a size that is not positive gives the default, 4096. -/
def bufSize (chunkSize : Int) : Nat := if chunkSize ≤ 0 then 4096 else chunkSize.toNat

/-- `Writer`. -/
def writer (cfg : Config) (fullPath : List String) (append : Bool) : Drv BufferedWriter := do
  let w ← newPlusWriter fullPath append
  return ⟨w, [], none, bufSize cfg.chunkSize⟩

/-! ## What a successful call does

A method answers with the error it returns, so each lemma below starts from the answer
`none`, whatever the backends answered, and says what the writer and the `files` table
look like afterwards. -/

theorem run_bind' {α β : Type} (x : StateM World α) (f : α → StateM World β) (w : World) :
    (x >>= f).run w = (f (x.run w).1).run (x.run w).2 := rfl

theorem run_pure' {α : Type} (a : α) (w : World) : (pure a : StateM World α).run w = (a, w) := rfl

theorem run_run {α : Type} (x : Drv α) (w : World) : x.run.run w = x.go w := rfl

/-- A successful `plusWriter.Write` took all of `buf` as one new segment, numbered one past
    the last, whose etag is `buf` itself. -/
theorem PlusWriter.write_ok {fw fw' : PlusWriter} {buf : Bytes} {w w' : World} {n : Nat}
    (h : (fw.write buf).run w = (((n, none), fw'), w')) :
    n = buf.length ∧ fw' = { fw with segments := fw.segments ++ [⟨fw.location, fw.nextNumber, buf.length, buf⟩] } ∧
      w'.store.files = w.store.files := by
  simp only [PlusWriter.write, run_bind', run_run] at h
  rcases hs : (swiftWrite (Segment.objectPath ⟨fw.location, fw.nextNumber, buf.length, []⟩) buf).go w with
    ⟨_ | hash, w₁⟩ <;> rw [hs] at h
  · cases h
  obtain ⟨hx, hf₁, -⟩ := swiftWrite_ok hs
  subst hash
  rcases hi : (exec (insertSegment ⟨fw.location, fw.nextNumber, buf.length, buf⟩)).go w₁ with ⟨_ | _, w₂⟩ <;>
    simp only [run_bind', run_run, hi] at h <;> cases h
  obtain ⟨e, -, -⟩ := exec_ok hi
  simp only [insertSegment] at e
  split at e <;> simp only [reduceCtorEq, Except.ok.injEq] at e
  exact ⟨rfl, rfl, by rw [← e, hf₁]⟩

/-- A successful stretch of a writer's calls from `b` to `b'` that took the bytes `data`:
    the `plusWriter` gained segments, each of the size it records, whose bytes followed by
    what is buffered are what was buffered before followed by `data`. -/
structure Takes (b b' : BufferedWriter) (data : Bytes) : Prop where
  segments : ∃ new : List Segment, b'.fw = { b.fw with segments := b.fw.segments ++ new } ∧
    (∀ s ∈ new, s.sizeBytes = s.hash.length) ∧ (new.map (·.hash)).flatten ++ b'.buf = b.buf ++ data
  err : b'.err = b.err
  size : b'.size = b.size

theorem Takes.refl (b : BufferedWriter) : Takes b b [] :=
  ⟨⟨[], by simp, by simp, by simp⟩, rfl, rfl⟩

theorem Takes.trans {b₁ b₂ b₃ : BufferedWriter} {d₁ d₂ : Bytes} (h₁ : Takes b₁ b₂ d₁) (h₂ : Takes b₂ b₃ d₂) :
    Takes b₁ b₃ (d₁ ++ d₂) := by
  obtain ⟨⟨n₁, e₁, s₁, c₁⟩, r₁, z₁⟩ := h₁
  obtain ⟨⟨n₂, e₂, s₂, c₂⟩, r₂, z₂⟩ := h₂
  refine ⟨⟨n₁ ++ n₂, by rw [e₂, e₁]; simp, fun s hs => ?_, ?_⟩, r₂.trans r₁, z₂.trans z₁⟩
  · rcases List.mem_append.mp hs with hs | hs
    · exact s₁ s hs
    · exact s₂ s hs
  · rw [List.map_append, List.flatten_append, List.append_assoc, c₂, ← List.append_assoc, c₁, List.append_assoc]

/-- Bytes copied into the buffer and then taken count as taken. -/
theorem Takes.of_fill {b b' : BufferedWriter} {d : Bytes} (h : Takes { b with buf := b.buf ++ d } b' []) :
    Takes b b' d := by
  obtain ⟨⟨new, e, s, c⟩, r, z⟩ := h
  exact ⟨⟨new, e, s, by rw [c, List.append_nil]⟩, r, z⟩

/-- `Size()` grows by the bytes taken. -/
theorem Takes.sizeNow {b b' : BufferedWriter} {d : Bytes} (h : Takes b b' d) :
    b'.sizeNow = b.sizeNow + d.length := by
  obtain ⟨⟨new, e, s, c⟩, -, -⟩ := h
  have hs : (new.map (·.sizeBytes)).sum = ((new.map (·.hash)).flatten).length := by
    rw [List.length_flatten, List.map_map]
    exact congrArg List.sum (List.map_congr_left s)
  have hc := congrArg List.length c
  simp only [List.length_append] at hc
  simp only [BufferedWriter.sizeNow, PlusWriter.size, e, List.map_append, List.sum_append, hs, List.length_append]
  omega

/-- A flush answers with the error its writer then keeps. -/
theorem flush_err (b : BufferedWriter) (w : World) : ((b.flush).run w).1.1 = ((b.flush).run w).1.2.err := by
  rcases he : b.err with _ | e <;> simp only [BufferedWriter.flush, he]
  · split
    · exact he.symm
    · simp only [run_bind', run_pure']
      split <;> rfl
  · exact he.symm

theorem flush_ok {b b' : BufferedWriter} {w w' : World} (h : (b.flush).run w = ((none, b'), w')) :
    Takes b b' [] ∧ b'.buf = [] ∧ b.err = none ∧ w'.store.files = w.store.files := by
  rcases he : b.err with _ | e <;> simp only [BufferedWriter.flush, he] at h
  · split at h
    · cases h; exact ⟨Takes.refl b, ‹_›, rfl, rfl⟩
    · simp only [run_bind', run_pure'] at h
      rcases hw : (b.fw.write b.buf).run w with ⟨⟨⟨n, _ | e⟩, fw⟩, w₁⟩ <;> rw [hw] at h
      · obtain ⟨rfl, rfl, hf⟩ := PlusWriter.write_ok hw
        simp only [lt_self_iff_false, false_and, if_false] at h
        cases h
        exact ⟨⟨⟨[_], rfl, by simp, by simp⟩, he.symm, rfl⟩, rfl, rfl, hf⟩
      · simp only [reduceCtorEq, and_false, if_false, run_pure'] at h
        cases h
  · cases h

theorem turn_ok {b b' : BufferedWriter} {p : Bytes} {n : Nat} {w w' : World} (h : (b.turn p).run w = ((n, b'), w'))
    (he : b.err = none) (he' : b'.err = none) :
    Takes b b' (p.take n) ∧ b'.buf = [] ∧ (b.buf = [] → n = p.length) ∧ (b.buf ≠ [] → n = b.available) ∧
      w'.store.files = w.store.files := by
  unfold BufferedWriter.turn at h
  split at h
  · rename_i hb
    simp only [run_bind', run_pure'] at h
    rcases hw : (b.fw.write p).run w with ⟨⟨⟨m, err⟩, fw⟩, w₁⟩
    rw [hw] at h
    cases h
    subst he'
    obtain ⟨rfl, rfl, hf⟩ := PlusWriter.write_ok hw
    exact ⟨⟨⟨[_], rfl, by simp, by simp [hb]⟩, he.symm, rfl⟩, hb, fun _ => rfl, fun h => absurd hb h, hf⟩
  · rename_i hb
    simp only [run_bind', run_pure'] at h
    rcases hw : (({ b with buf := b.buf ++ p.take b.available } : BufferedWriter).flush).run w with ⟨⟨e, b₁⟩, w₁⟩
    rw [hw] at h
    cases h
    have := flush_err { b with buf := b.buf ++ p.take b.available } w
    rw [hw] at this
    dsimp only at this
    rw [he'] at this
    subst this
    obtain ⟨ht, hbuf, -, hf⟩ := flush_ok hw
    exact ⟨ht.of_fill, hbuf, fun h => absurd h hb, fun _ => rfl, hf⟩

theorem writeRest_ok {b b' : BufferedWriter} {p : Bytes} {nn m : Nat} (h : b.writeRest p nn = ((m, none), b')) :
    b.err = none ∧ m = nn + min b.available p.length ∧ Takes b b' (p.take (min b.available p.length)) := by
  unfold BufferedWriter.writeRest at h
  split at h
  · cases h
  · cases h
    exact ⟨‹_›, rfl, ⟨[], by simp, by simp, by simp⟩, rfl, rfl⟩

/-- The loop ends in success only from a writer that kept no error. -/
theorem writeLoop_err {b b' : BufferedWriter} {f nn m : Nat} {p : Bytes} {w w' : World}
    (h : (b.writeLoop f p nn).run w = (((m, none), b'), w')) : b.err = none := by
  cases f with
  | zero => exact (writeRest_ok (congrArg Prod.fst h)).1
  | succ f =>
    unfold BufferedWriter.writeLoop at h
    split at h
    · exact ‹_ ∧ _›.2
    · exact (writeRest_ok (congrArg Prod.fst h)).1

/-- With the fuel the loop needs, a successful loop takes every byte: one turn empties the
    buffer, and a turn from an empty buffer sends the rest at once. -/
theorem writeLoop_ok (f : Nat) : ∀ {b b' : BufferedWriter} {p : Bytes} {nn m : Nat} {w w' : World},
    (p.length ≤ b.available ∨ (1 ≤ f ∧ b.buf = []) ∨ 2 ≤ f) → (b.writeLoop f p nn).run w = (((m, none), b'), w') →
      Takes b b' p ∧ m = nn + p.length ∧ w'.store.files = w.store.files := by
  induction f with
  | zero =>
    intro b b' p nn m w w' hfit h
    obtain ⟨-, rfl, ht⟩ := writeRest_ok (congrArg Prod.fst h)
    have hp : min b.available p.length = p.length := by omega
    rw [hp, List.take_length] at ht
    exact ⟨ht, by rw [hp], congrArg (·.store.files) (congrArg Prod.snd h).symm⟩
  | succ f ih =>
    intro b b' p nn m w w' hfit h
    unfold BufferedWriter.writeLoop at h
    split at h
    · rename_i hc
      simp only [run_bind'] at h
      rcases hw : (b.turn p).run w with ⟨⟨n, b₁⟩, w₁⟩
      rw [hw] at h
      dsimp only at h
      obtain ⟨ht, hbuf, hd, hbf, hf⟩ := turn_ok hw hc.2 (writeLoop_err h)
      have hn : n ≤ p.length := by
        by_cases hb : b.buf = []
        · exact (hd hb).le
        · rw [hbf hb]; omega
      have hfit' : (p.drop n).length ≤ b₁.available ∨ (1 ≤ f ∧ b₁.buf = []) ∨ 2 ≤ f := by
        by_cases hb : b.buf = []
        · left; simp [hd hb]
        · right; left
          rcases hfit with h | ⟨-, h⟩ | h
          · omega
          · exact absurd h hb
          · exact ⟨by omega, hbuf⟩
      obtain ⟨ht', rfl, hf'⟩ := ih hfit' h
      refine ⟨by simpa only [List.take_append_drop] using ht.trans ht', ?_, hf'.trans hf⟩
      rw [List.length_drop]; omega
    · rename_i hc
      obtain ⟨he, rfl, ht⟩ := writeRest_ok (congrArg Prod.fst h)
      have hp : min b.available p.length = p.length := by simp only [he, and_true] at hc; omega
      rw [hp, List.take_length] at ht
      exact ⟨ht, by rw [hp], congrArg (·.store.files) (congrArg Prod.snd h).symm⟩

/-- A successful `Write` takes every byte it is given. -/
theorem write_ok {b b' : BufferedWriter} {p : Bytes} {m : Nat} {w w' : World}
    (h : (b.write p).run w = (((m, none), b'), w')) :
    Takes b b' p ∧ m = p.length ∧ w'.store.files = w.store.files := by
  obtain ⟨ht, hm, hf⟩ := writeLoop_ok 2 (Or.inr (Or.inr le_rfl)) h
  exact ⟨ht, by omega, hf⟩

theorem andThen_ok {b b' : BufferedWriter} {m : PlusWriter → StateM World (Option Err × PlusWriter)} {w w' : World}
    (h : (b.andThen m).run w = ((none, b'), w')) :
    ∃ b₁ w₁ fw, (b.flush).run w = ((none, b₁), w₁) ∧ (m b₁.fw).run w₁ = ((none, fw), w') ∧ b' = { b₁ with fw } := by
  unfold BufferedWriter.andThen at h
  simp only [run_bind'] at h
  rcases hf : (b.flush).run w with ⟨⟨_ | e, b₁⟩, w₁⟩ <;> rw [hf] at h
  · simp only [Option.isSome_none, Bool.false_eq_true, if_false, run_bind', run_pure'] at h
    rcases hm : (m b₁.fw).run w₁ with ⟨⟨err, fw⟩, w₂⟩
    rw [hm] at h
    cases h
    exact ⟨b₁, w₁, fw, rfl, hm, rfl⟩
  · simp only [Option.isSome_some, if_true, run_pure'] at h
    cases h

/-- A successful `plusWriter.Commit` found no flag set, wrote the manifest of its segments
    at its location, then the file's row. -/
theorem PlusWriter.commit_ok {fw fw' : PlusWriter} {w w' : World} (h : (fw.commit).run w = ((none, fw'), w')) :
    fw.closed = false ∧ fw.cancelled = false ∧ fw.committed = false ∧ fw' = { fw with committed := true } ∧
      ∃ w₁, (swiftWriteSLO ⟨fw.location, .content⟩ fw.segments).go w = (.ok (), w₁) ∧
        (writeFileInfo ⟨pathDir fw.fullPath, pathBase fw.fullPath, fw.size, [], fw.location⟩).go w₁ = (.ok (), w') := by
  unfold PlusWriter.commit at h
  split at h; · cases h
  rename_i h₁
  split at h; · cases h
  rename_i h₂
  split at h; · cases h
  rename_i h₃
  simp only [run_bind', run_run, go_bind, run_pure'] at h
  rcases hs : (swiftWriteSLO ⟨fw.location, .content⟩ fw.segments).go w with ⟨_ | _, w₁⟩ <;>
    simp only [FileInfo.objectPath, hs] at h
  · cases h
  rcases hf : (writeFileInfo ⟨pathDir fw.fullPath, pathBase fw.fullPath, fw.size, [], fw.location⟩).go w₁ with
    ⟨_ | _, w₂⟩ <;> simp only [hf] at h <;> cases h
  exact ⟨Bool.eq_false_iff.mpr h₁, Bool.eq_false_iff.mpr h₂, Bool.eq_false_iff.mpr h₃, rfl, w₁, rfl, hf⟩

/-- A successful `plusWriter.Close` committed, or found the writer committed or cancelled
    and did nothing. -/
theorem PlusWriter.close_ok {fw fw' : PlusWriter} {w w' : World} (h : (fw.close).run w = ((none, fw'), w')) :
    (fw.commit).run w = ((none, fw'), w') ∨ fw' = fw ∧ w' = w := by
  unfold PlusWriter.close at h
  cases hc : fw.closed <;> simp only [hc, if_true, run_pure', Bool.false_eq_true, if_false, run_bind'] at h
  · split at h
    · exact .inl h
    · cases h; exact .inr ⟨rfl, rfl⟩
  · cases h

/-- A successful `Commit` of a `bufferedWriter`: the flush took what was buffered, then
    the `plusWriter` committed. -/
theorem BufferedWriter.commit_ok {b b' : BufferedWriter} {w w' : World} (h : (b.commit).run w = ((none, b'), w')) :
    ∃ b₁ w₁ fw, Takes b b₁ [] ∧ b₁.buf = [] ∧ w₁.store.files = w.store.files ∧
      (b₁.fw.commit).run w₁ = ((none, fw), w') := by
  obtain ⟨b₁, w₁, fw, hf, hc, -⟩ := andThen_ok h
  obtain ⟨ht, hb, -, hfiles⟩ := flush_ok hf
  exact ⟨b₁, w₁, fw, ht, hb, hfiles, hc⟩

/-- A successful `Close` of a `bufferedWriter`: the flush, then a commit or nothing. -/
theorem BufferedWriter.close_ok {b b' : BufferedWriter} {w w' : World} (h : (b.close).run w = ((none, b'), w')) :
    ∃ b₁ w₁, Takes b b₁ [] ∧ b₁.buf = [] ∧ w₁.store.files = w.store.files ∧
      ((∃ fw, (b₁.fw.commit).run w₁ = ((none, fw), w')) ∨ w' = w₁) := by
  obtain ⟨b₁, w₁, fw, hf, hc, -⟩ := andThen_ok h
  obtain ⟨ht, hb, -, hfiles⟩ := flush_ok hf
  exact ⟨b₁, w₁, ht, hb, hfiles, (PlusWriter.close_ok hc).imp (fun h => ⟨fw, h⟩) fun h => h.2⟩

/-- A successful `plusWriter.Cancel` found the writer not closed, marked it cancelled with
    no segments, and `Delete` of its path succeeded. -/
theorem PlusWriter.cancel_ok {fw fw' : PlusWriter} {w w' : World} (h : (fw.cancel).run w = ((none, fw'), w')) :
    fw' = { fw with cancelled := true, segments := [] } ∧ (delete fw.fullPath).go w = (.ok (), w') := by
  unfold PlusWriter.cancel at h
  cases hc : fw.closed <;> simp only [hc, if_true, run_pure', Bool.false_eq_true, if_false, run_bind', run_run] at h
  · rcases hd : (delete fw.fullPath).go w with ⟨_ | _, w₁⟩ <;> simp only [hd, run_pure'] at h <;> cases h
    exact ⟨rfl, rfl⟩
  · cases h

/-- `newPlusWriter` keeps every relation between stores that `deleteDownwards` keeps. -/
theorem Keeps.newPlusWriter {R : Store → Store → Prop} [IsRefl Store R] [IsTrans Store R]
    (h : ∀ fi, Keeps R (deleteDownwards fi)) (p : List String) (a : Bool) : Keeps R (newPlusWriter p a) := by
  unfold Keppel.Swiftplus.newPlusWriter
  refine .bind (.readFileInfo p) fun ⟨fi, err⟩ => .bind (.ite ?_ (.pure' _)) fun _ =>
    .bind (.ite (.bind (h fi) fun _ => .pure' _) (.pure' _)) fun _ =>
      .bind (.ite .plusRandLocation (.pure' _)) fun L => .bind (.ite (.readSegmentInfo L) (.pure' _)) fun _ => .pure' _
  rcases err with _ | e
  · exact .pure' _
  · exact .throw' e

theorem Keeps.writer {R : Store → Store → Prop} [IsRefl Store R] [IsTrans Store R]
    (h : ∀ fi, Keeps R (deleteDownwards fi)) (cfg : Config) (p : List String) (a : Bool) :
    Keeps R (writer cfg p a) :=
  .bind (.newPlusWriter h p a) fun _ => .pure' _

/-! ## Relations kept along the uploads

`bufio.Writer` reaches the store only through `plusWriter.Write`, so a relation between a
writer and world before and after that holds of doing nothing, composes, and holds of each
`plusWriter.Write` holds of every `Flush`, turn and run of `Write`. -/

/-- A relation between a `plusWriter` and world before and after that every `plusWriter.Write`
    keeps. -/
structure UploadRel (R : PlusWriter → PlusWriter → World → World → Prop) : Prop where
  refl : ∀ fw w, R fw fw w w
  trans : ∀ {fw₁ fw₂ fw₃ : PlusWriter} {w₁ w₂ w₃ : World}, R fw₁ fw₂ w₁ w₂ → R fw₂ fw₃ w₂ w₃ → R fw₁ fw₃ w₁ w₃
  write : ∀ fw buf w, R fw ((fw.write buf).run w).1.2 w ((fw.write buf).run w).2

namespace UploadRel
variable {R : PlusWriter → PlusWriter → World → World → Prop} (hR : UploadRel R)
include hR

theorem flush (b : BufferedWriter) (w : World) : R b.fw ((b.flush).run w).1.2.fw w ((b.flush).run w).2 := by
  rcases he : b.err with _ | e <;> simp only [BufferedWriter.flush, he]
  · split
    · exact hR.refl _ _
    · simp only [pure_bind, run_bind']
      have := hR.write b.fw b.buf w
      split <;> exact this
  · exact hR.refl _ _

theorem turn (b : BufferedWriter) (p : Bytes) (w : World) : R b.fw ((b.turn p).run w).1.2.fw w ((b.turn p).run w).2 := by
  unfold BufferedWriter.turn
  split
  · exact hR.write b.fw p w
  · exact hR.flush { b with buf := b.buf ++ p.take b.available } w

theorem writeLoop : ∀ (f : Nat) (b : BufferedWriter) (p : Bytes) (nn : Nat) (w : World),
    R b.fw ((b.writeLoop f p nn).run w).1.2.fw w ((b.writeLoop f p nn).run w).2
  | 0, _, _, _, _ => by
    simp only [BufferedWriter.writeLoop, BufferedWriter.writeRest]
    split <;> exact hR.refl _ _
  | f + 1, b, p, nn, w => by
    unfold BufferedWriter.writeLoop
    split
    · simp only [run_bind']
      exact hR.trans (hR.turn b p w) (writeLoop f _ _ _ _)
    · simp only [BufferedWriter.writeRest]
      split <;> exact hR.refl _ _

/-- `bufferedWriter.Write`, whatever it answers. -/
theorem bufWrite (b : BufferedWriter) (p : Bytes) (w : World) : R b.fw ((b.write p).run w).1.2.fw w ((b.write p).run w).2 :=
  hR.writeLoop 2 b p 0 w

end UploadRel

/-! ## What the uploads leave

`Write` uploads segment objects and records them; the `files` table and the manifest
objects are left alone, whatever the backends answer. -/

/-- What a writer's uploads leave of the store: the `files` table, and the manifest object of
    every location. -/
structure Uploads (w w' : World) : Prop where
  files : w'.store.files = w.store.files
  manifests : ∀ L, w'.store.objects ⟨L, .content⟩ = w.store.objects ⟨L, .content⟩

theorem Uploads.of_store {w w' : World} (h : w'.store = w.store) : Uploads w w' :=
  ⟨by rw [h], fun _ => by rw [h]⟩

theorem Uploads.trans {w₁ w₂ w₃ : World} (h₁ : Uploads w₁ w₂) (h₂ : Uploads w₂ w₃) : Uploads w₁ w₃ :=
  ⟨h₂.files.trans h₁.files, fun L => (h₂.manifests L).trans (h₁.manifests L)⟩

theorem Uploads.bind {α β : Type} {x : StateM World α} {f : α → StateM World β} {w : World}
    (hx : Uploads w (x.run w).2) (hf : ∀ a w', Uploads w' ((f a).run w').2) : Uploads w ((x >>= f).run w).2 :=
  hx.trans (hf _ _)

theorem swiftWrite_segment_uploads (s : Segment) (d : Bytes) (w : World) :
    Uploads w ((swiftWrite s.objectPath d).go w).2 := by
  rw [swiftWrite_go]
  split
  · exact Uploads.of_store rfl
  · exact ⟨rfl, fun L => by simp [setObject, Segment.objectPath]⟩

theorem exec_uploads {f : Store → Except SqlError Store}
    (hf : ∀ st st', f st = .ok st' → st'.files = st.files ∧ st'.objects = st.objects) (w : World) :
    Uploads w ((exec f).go w).2 := by
  rw [exec_go]
  split
  · split
    · rename_i st' he
      obtain ⟨h₁, h₂⟩ := hf _ _ he
      exact ⟨h₁, fun _ => congrFun h₂ _⟩
    · exact Uploads.of_store rfl
  all_goals exact Uploads.of_store rfl

theorem insertSegment_uploads (s : Segment) (w : World) : Uploads w ((exec (insertSegment s)).go w).2 :=
  exec_uploads (fun _ _ h => by unfold insertSegment at h; split at h <;> cases h; exact ⟨rfl, rfl⟩) w

theorem PlusWriter.write_uploads (fw : PlusWriter) (buf : Bytes) (w : World) : Uploads w ((fw.write buf).run w).2 := by
  unfold PlusWriter.write
  refine Uploads.bind (swiftWrite_segment_uploads _ _ w) fun r w₁ => ?_
  rcases r with e | hash
  · exact Uploads.of_store rfl
  · exact Uploads.bind (insertSegment_uploads _ w₁) fun r _ => by rcases r with _ | _ <;> exact Uploads.of_store rfl

theorem uploadRel_uploads : UploadRel fun _ _ w w' => Uploads w w' :=
  ⟨fun _ _ => Uploads.of_store rfl, Uploads.trans, PlusWriter.write_uploads⟩

theorem BufferedWriter.flush_uploads (b : BufferedWriter) (w : World) : Uploads w ((b.flush).run w).2 :=
  uploadRel_uploads.flush b w

/-- `Write`, whatever it answers, changes neither the `files` table nor a manifest. -/
theorem BufferedWriter.write_uploads (b : BufferedWriter) (p : Bytes) (w : World) :
    Uploads w ((b.write p).run w).2 :=
  uploadRel_uploads.bufWrite b p w

end Keppel.Swiftplus
