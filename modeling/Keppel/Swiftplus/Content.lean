/-
  Keppel.Swiftplus.Content — what `PutContent` leaves, and what `GetContent`, `Stat`
  and `Reader` read back.

  `PutContent(p, c)` keeps `c` in its row when `c` has at most `maxInlineSizeBytes`
  bytes, and otherwise writes it to a new location in Swift and keeps only the
  location; the reads choose between the two from the row alone (`GetContent` by the
  length of the inline contents, `Reader` by the location). Every call `PutContent`
  makes either succeeds or ends it with an error, so a `PutContent` that returns
  success made all of them, whatever the backends were going to answer.

  Proved:
  - `putContent_ok`: after a successful `PutContent(p, c)` the row at `p`'s key holds
    `c` inline, or an empty inline part and a non-empty location whose object is `c`;
    exactly the second kind made a `Write` call, at the location crypto/rand drew, and
    left the objects of every location that neither is nor was the row's as they were.
  - `getContent_okEnv` / `reader_okEnv` / `stat_okEnv` / `urlFor_okEnv`: the reads of a row
    when every call succeeds.
  - `putContent_reads_back`: after a successful `PutContent(p, c)`, `GetContent(p)`
    returns `c`, `Stat(p)` a size of `|c|`, and `Reader(p, k)` the bytes of `c` from
    `k` on, for every offset; `Write` was called once when `|c| > 256` and never
    otherwise.
  - `putContent_reports_object_path`: `deleteBlobs` returns `DeleteAll`'s error as it
    is, without `setReportedPath`, so a `PathNotFoundError` for the old location's
    objects reaches the caller of `PutContent` naming the object path.
-/
import Keppel.Swiftplus.Driver

namespace Keppel.Swiftplus

/-- What a successful `PutContent(p, c)` leaves at `p`, from any world: the row, the one
    call that changed the `files` table (a `writeFileInfo` of the row), where its location
    came from, and every manifest object left as it was but the new location's and the
    old row's. -/
theorem putContent_ok {p : List String} {c : Bytes} {w w' : World} (h : (putContent p c).go w = (.ok (), w')) :
    ∃ L, w'.store.files.lookup (keyOf p) =
        some ⟨c.length, if c.length > maxInlineSizeBytes then [] else c, L⟩ ∧
      (c.length > maxInlineSizeBytes → L ≠ "" ∧ w'.store.objects ⟨L, .content⟩ = some c ∧ w'.writes = w.writes + 1) ∧
      (c.length ≤ maxInlineSizeBytes → L = "" ∧ w'.writes = w.writes) ∧
      ∃ w₁ w₂, w₁.store.files = w.store.files ∧
        (writeFileInfo ⟨pathDir p, pathBase p, c.length, if c.length > maxInlineSizeBytes then [] else c, L⟩).go w₁ =
          (.ok (), w₂) ∧ w'.store.files = w₂.store.files ∧
      (c.length > maxInlineSizeBytes → ∃ r, w.env.rand = some r ∧ L = hexEncode (List.ofFn r)) ∧
      ∀ L', L' ≠ L → (∀ r, w.store.files.lookup (keyOf p) = some r → r.location ≠ L') →
        w'.store.objects ⟨L', .content⟩ = w.store.objects ⟨L', .content⟩ := by
  simp only [putContent] at h
  obtain ⟨⟨fi, err⟩, w₁, h1, h2⟩ := go_bind_ok.mp h
  obtain ⟨e1, rfl⟩ := Prod.mk.inj (readFileInfo_go p w ▸ h1)
  obtain ⟨_, w₂, h3, h4⟩ := go_bind_ok.mp h2
  obtain ⟨L, w₃, h5, h6⟩ := go_bind_ok.mp h4
  obtain ⟨_, w₄, h7, h8⟩ := go_bind_ok.mp h6
  -- reading the row and deleting its objects: nothing else changed
  have hw₂ : w₂.writes = w.writes ∧ w₂.store.files = w.store.files ∧ w₂.env.rand = w.env.rand ∧
      ∀ L', (∀ r, w.store.files.lookup (keyOf p) = some r → r.location ≠ L') →
        w₂.store.objects ⟨L', .content⟩ = w.store.objects ⟨L', .content⟩ := by
    rcases readResult_cases w (keyOf p) with ⟨he, -⟩ | ⟨r, he, hr⟩ | ⟨e, he⟩ <;>
      rw [← Except.ok.inj e1, he] at h3 <;>
      simp only [go_throw, go_pure, Prod.mk.injEq, reduceCtorEq, false_and] at h3
    · exact h3.2 ▸ ⟨rfl, rfl, rfl, fun _ _ => rfl⟩
    · have hf := deleteBlobs_frame (FileInfo.ofRow (keyOf p) r) w.popDb
      have hr' := deleteBlobs_rest (FileInfo.ofRow (keyOf p) r) w.popDb
      rw [h3] at hf hr'
      exact ⟨hf.2.2.1, hf.1, hr'.1, fun L' hL' => hr'.2 _ (hL' r hr).symm⟩
  obtain ⟨hadd, hw₄, -⟩ := writeFileInfo_ok h7
  have hrow := hadd.rows _ _ (AList.lookup_insert _)
  by_cases hu : c.length > maxInlineSizeBytes
  · simp only [hu, decide_True, if_true] at h5 h7 h8 hrow ⊢
    obtain ⟨rfl, hL, r, hr, rfl⟩ := plusRandLocation_ok h5
    obtain ⟨_, hx⟩ := go_discard_ok (go_tryCatch_rethrow_ok h8)
    obtain ⟨-, hs, hw⟩ := swiftWrite_ok hx
    refine ⟨_, hs ▸ hrow, fun _ => ⟨hL, by simp [hs, setObject, FileInfo.objectPath], by omega⟩,
      fun h => absurd hu (by omega), w₃, w₄, hw₂.2.1, h7, by rw [hs], fun _ => ⟨r, hw₂.2.2.1 ▸ hr, rfl⟩,
      fun L' hne hL' => ?_⟩
    simp only [hs, setObject, FileInfo.objectPath, ObjPath.mk.injEq, hne, false_and, if_false, hadd.objects]
    exact hw₂.2.2.2 L' hL'
  · simp only [hu, decide_False, if_false, go_pure, Prod.mk.injEq, Except.ok.injEq] at h5 h7 h8 hrow ⊢
    obtain ⟨rfl, rfl⟩ := h5
    obtain ⟨-, rfl⟩ := h8
    exact ⟨"", hrow, False.elim, fun _ => ⟨rfl, by omega⟩, w₂, w', hw₂.2.1, h7, rfl, False.elim,
      fun L' _ hL' => by rw [hadd.objects]; exact hw₂.2.2.2 L' hL'⟩

/-! ## Reads of a file row when every call succeeds -/

section Reads
variable (cfg : Config) (s : Store) (r : Fin 8 → UInt8) (n : Nat) {p : List String} {row : Row}

theorem getContent_okEnv (hrow : s.files.lookup (keyOf p) = some row) (hf : 0 ≤ row.sizeBytes) :
    ((getContent cfg p).go ⟨s, Env.ok r, n⟩).1 =
      if row.sizeBytes = 0 then .ok [] else if row.contents.length > 0 then .ok row.contents
      else match s.objects ⟨row.location, .content⟩ with
        | some d => .ok d
        | none => .error (.pathNotFound (render (FileInfo.ofRow (keyOf p) row).path.1)) := by
  have hd : ¬ row.sizeBytes < 0 := by omega
  simp [getContent, go_bind, readFileInfo_go, hrow, FileInfo.isDir, hd, FileInfo.ofRow]
  split_ifs <;> simp [go_tryCatch, swiftReader_go, FileInfo.objectPath]
  cases s.objects ⟨row.location, .content⟩ <;> rfl

theorem reader_okEnv (k : Nat) (hrow : s.files.lookup (keyOf p) = some row) (hf : 0 ≤ row.sizeBytes) :
    ((reader cfg p k).go ⟨s, Env.ok r, n⟩).1 =
      if (k : Int) > row.sizeBytes then .ok []
      else if row.location = "" then
        .ok (if k > 0 then (if k > row.contents.length then [] else row.contents.drop k) else row.contents)
      else match s.objects ⟨row.location, .content⟩ with
        | some d => .ok (d.drop k)
        | none => .error (.pathNotFound (render (FileInfo.ofRow (keyOf p) row).path.1)) := by
  have hd : ¬ row.sizeBytes < 0 := by omega
  simp [reader, go_bind, readFileInfo_go, hrow, FileInfo.isDir, hd, FileInfo.ofRow]
  split_ifs <;> simp [go_tryCatch, swiftReader_go, FileInfo.objectPath]
  cases s.objects ⟨row.location, .content⟩ <;> rfl

theorem stat_okEnv (hp : p ≠ []) (hrow : s.files.lookup (keyOf p) = some row) :
    ((stat p).go ⟨s, Env.ok r, n⟩).1 = .ok (FileInfo.ofRow (keyOf p) row) := by
  simp [stat, go_bind, readFileInfo_go, hrow, hp]

theorem getContent_okEnv_row {c : Bytes} (h : ((getContent cfg p).go ⟨s, Env.ok r, n⟩).1 = .ok c) :
    ∃ row, s.files.lookup (keyOf p) = some row ∧ 0 ≤ row.sizeBytes := by
  simp only [getContent, go_bind, readFileInfo_go, readResult_ok] at h
  rcases hr : s.files.lookup (keyOf p) with _ | row
  · simp [hr] at h
  · refine ⟨row, rfl, ?_⟩
    by_contra hd
    simp [hr, FileInfo.isDir, FileInfo.ofRow, show row.sizeBytes < 0 by omega] at h

/-- `GetContent` in a world where every call succeeds depends on the row and its object
    only. -/
theorem getContent_okEnv_transfer {q : List String} {s' : Store} {c : Bytes}
    (hp : s.files.lookup (keyOf p) = some row) (hq : s'.files.lookup (keyOf q) = some row)
    (hf : 0 ≤ row.sizeBytes) (ho : s'.objects ⟨row.location, .content⟩ = s.objects ⟨row.location, .content⟩)
    (h : ((getContent cfg p).go ⟨s, Env.ok r, n⟩).1 = .ok c) : ((getContent cfg q).go ⟨s', Env.ok r, n⟩).1 = .ok c := by
  rw [getContent_okEnv cfg s r n hp hf] at h
  rw [getContent_okEnv cfg s' r n hq hf, ho]
  split_ifs at h ⊢
  · exact h
  · exact h
  · split at h <;> simp_all

/-- With no row, or a directory row, at `p`'s key, `GetContent(p)` reports `p` missing. -/
theorem getContent_okEnv_missing (h : ∀ row, s.files.lookup (keyOf p) = some row → row.sizeBytes < 0) :
    ((getContent cfg p).go ⟨s, Env.ok r, n⟩).1 = .error (.pathNotFound (render p)) := by
  rcases hrow : s.files.lookup (keyOf p) with _ | row
  · simp [getContent, go_bind, readFileInfo_go, hrow]
  · simp [getContent, go_bind, readFileInfo_go, hrow, FileInfo.isDir, FileInfo.ofRow, h row hrow]

/-- So does `Reader(p, k)`. -/
theorem reader_okEnv_missing (k : Nat) (h : ∀ row, s.files.lookup (keyOf p) = some row → row.sizeBytes < 0) :
    ((reader cfg p k).go ⟨s, Env.ok r, n⟩).1 = .error (.pathNotFound (render p)) := by
  rcases hrow : s.files.lookup (keyOf p) with _ | row
  · simp [reader, go_bind, readFileInfo_go, hrow]
  · simp [reader, go_bind, readFileInfo_go, hrow, FileInfo.isDir, FileInfo.ofRow, h row hrow]

/-- `URLFor(p)` designates the manifest object of `p`'s row, when the row has a location; it
    does not look at the size, so a directory row is refused only for having none. -/
theorem urlFor_okEnv : ((urlFor p).go ⟨s, Env.ok r, n⟩).1 = match s.files.lookup (keyOf p) with
    | none => .error (.pathNotFound (render p))
    | some row => if row.location = "" then .error .unsupportedMethod else .ok ⟨row.location, .content⟩ := by
  rcases hrow : s.files.lookup (keyOf p) with _ | row
  · simp [urlFor, go_bind, readFileInfo_go, hrow]
  · by_cases hl : row.location = ""
    · simp [urlFor, go_bind, readFileInfo_go, hrow, FileInfo.ofRow, hl]
    · simp [urlFor, go_bind, readFileInfo_go, hrow, FileInfo.ofRow, hl, swiftMakeTempURL_go, FileInfo.objectPath]

/-- With no row at `p`'s key, `GetContent(p)` and, below the root, `Stat(p)` report `p`
    missing. -/
theorem okEnv_missing_not_found (hp : p ≠ []) (h : s.files.lookup (keyOf p) = none) :
    ((getContent cfg p).go ⟨s, Env.ok r, n⟩).1 = .error (.pathNotFound (render p)) ∧
      ((stat p).go ⟨s, Env.ok r, n⟩).1 = .error (.pathNotFound (render p)) :=
  ⟨getContent_okEnv_missing cfg s r n fun _ h' => (by rw [h] at h'; cases h'),
    by simp [stat, go_bind, readFileInfo_go, readResult, queryRow_go, lookupFile, h, hp]⟩

end Reads

/-- `PutContent(p, c)` reads back: once it has succeeded, whatever the backends answered
    to it, `GetContent(p)`, `Stat(p)` and `Reader(p, k)` in a later call where every
    backend call succeeds return `c`, its length and `c` from `k` on; and it made one
    `Write` call exactly when `c` is longer than `maxInlineSizeBytes`. -/
theorem putContent_reads_back (cfg : Config) {p : List String} (hp : Admitted p) (c : Bytes) {w w' : World}
    (h : (putContent p c).go w = (.ok (), w')) (r : Fin 8 → UInt8) :
    ((getContent cfg p).go ⟨w'.store, Env.ok r, 0⟩).1 = .ok c ∧
      (∃ fi, ((stat p).go ⟨w'.store, Env.ok r, 0⟩).1 = .ok fi ∧ fi.sizeBytes = c.length) ∧
      (∀ k, ((reader cfg p k).go ⟨w'.store, Env.ok r, 0⟩).1 = .ok (c.drop k)) ∧
      w'.writes = w.writes + if c.length > maxInlineSizeBytes then 1 else 0 := by
  obtain ⟨L, hrow, hbig, hsmall, -⟩ := putContent_ok h
  have hf : (0 : Int) ≤ c.length := by omega
  by_cases hu : c.length > maxInlineSizeBytes
  · obtain ⟨hL, hobj, hw⟩ := hbig hu
    rw [if_pos hu] at hrow
    have h0 : (c.length : Int) ≠ 0 := by omega
    refine ⟨?_, ⟨_, stat_okEnv _ r 0 hp.1 hrow, rfl⟩, fun k => ?_, by rw [if_pos hu, hw]⟩
    · simp [getContent_okEnv cfg _ r 0 hrow hf, h0, hobj]
    · rw [reader_okEnv cfg _ r 0 k hrow hf]
      simp only [if_neg hL, hobj]
      split_ifs with hk
      · rw [List.drop_eq_nil_of_le (by omega)]
      · rfl
  · obtain ⟨rfl, hw⟩ := hsmall (by omega)
    rw [if_neg hu] at hrow
    refine ⟨?_, ⟨_, stat_okEnv _ r 0 hp.1 hrow, rfl⟩, fun k => ?_, by rw [if_neg hu, hw]; rfl⟩
    · rw [getContent_okEnv cfg _ r 0 hrow hf]
      rcases c with _ | ⟨b, c⟩
      · rfl
      · simp; omega
    · rw [reader_okEnv cfg _ r 0 k hrow hf]
      simp only [if_true]
      split_ifs
      · rw [List.drop_eq_nil_of_le (by omega)]
      · rw [List.drop_eq_nil_of_le (by omega)]
      · rfl
      · rw [show k = 0 by omega]; rfl

set_option maxRecDepth 4000 in
theorem putContent_reads_back_sample :
    Admitted ["a"] ∧
      (putContent ["a"] [7]).go ⟨Store.empty, Env.ok fun _ => 0, 0⟩ =
        (.ok (), ((putContent ["a"] [7]).go ⟨Store.empty, Env.ok fun _ => 0, 0⟩).2) ∧
      ((((getContent ⟨"", 0⟩ ["a"]).go
          ⟨((putContent ["a"] [7]).go ⟨Store.empty, Env.ok fun _ => 0, 0⟩).2.store, Env.ok fun _ => 0, 0⟩).1 =
            .ok [7] ∧
        (∃ fi, ((stat ["a"]).go
          ⟨((putContent ["a"] [7]).go ⟨Store.empty, Env.ok fun _ => 0, 0⟩).2.store, Env.ok fun _ => 0, 0⟩).1 =
            .ok fi ∧ fi.sizeBytes = [7].length) ∧
        (∀ k, ((reader ⟨"", 0⟩ ["a"] k).go
          ⟨((putContent ["a"] [7]).go ⟨Store.empty, Env.ok fun _ => 0, 0⟩).2.store, Env.ok fun _ => 0, 0⟩).1 =
            .ok ([7].drop k)) ∧
        ((putContent ["a"] [7]).go ⟨Store.empty, Env.ok fun _ => 0, 0⟩).2.writes =
          0 + if [7].length > maxInlineSizeBytes then 1 else 0)) ∧
      (putContent ["a"] (List.replicate 257 7)).go ⟨Store.empty, Env.ok fun _ => 0, 0⟩ =
        (.ok (), ((putContent ["a"] (List.replicate 257 7)).go ⟨Store.empty, Env.ok fun _ => 0, 0⟩).2) ∧
      ((((getContent ⟨"", 0⟩ ["a"]).go
          ⟨((putContent ["a"] (List.replicate 257 7)).go ⟨Store.empty, Env.ok fun _ => 0, 0⟩).2.store, Env.ok fun _ => 0, 0⟩).1 =
            .ok (List.replicate 257 7) ∧
        (∃ fi, ((stat ["a"]).go
          ⟨((putContent ["a"] (List.replicate 257 7)).go ⟨Store.empty, Env.ok fun _ => 0, 0⟩).2.store, Env.ok fun _ => 0, 0⟩).1 =
            .ok fi ∧ fi.sizeBytes = (List.replicate 257 7).length) ∧
        (∀ k, ((reader ⟨"", 0⟩ ["a"] k).go
          ⟨((putContent ["a"] (List.replicate 257 7)).go ⟨Store.empty, Env.ok fun _ => 0, 0⟩).2.store, Env.ok fun _ => 0, 0⟩).1 =
            .ok ((List.replicate 257 7).drop k)) ∧
        ((putContent ["a"] (List.replicate 257 7)).go ⟨Store.empty, Env.ok fun _ => 0, 0⟩).2.writes =
          0 + if (List.replicate 257 7).length > maxInlineSizeBytes then 1 else 0)) :=
  ⟨by decide, rfl, @putContent_reads_back ⟨"", 0⟩ ["a"] (by decide) [7] ⟨Store.empty, Env.ok fun _ => 0, 0⟩ _ rfl
    fun _ => 0, rfl, @putContent_reads_back ⟨"", 0⟩ ["a"] (by decide) (List.replicate 257 7) ⟨Store.empty, Env.ok fun _ => 0, 0⟩ _
    rfl fun _ => 0⟩

/-! ## As built: errors of `DeleteAll` -/

/-- The file `/a` stored in Swift at location `L`. -/
def externalFile : Store :=
  ⟨(∅ : Files).insert (keyOf ["a"]) ⟨300, [], "L"⟩, ∅,
    setObject (fun _ => none) ⟨"L", .content⟩ (List.replicate 300 0)⟩

theorem putContent_reports_object_path :
    ((putContent ["a"] [1]).go
        ⟨externalFile, ⟨[], [some (.pathNotFound (prependPrefix "registry" "L" ++ "/"))], none⟩, 0⟩).1 =
      .error (.pathNotFound "registry/L/") := rfl

end Keppel.Swiftplus
