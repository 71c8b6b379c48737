/-
  Keppel.Swiftplus.Driver — `plusDriver` (src/unnamed/part_000): the statements it
  issues, its helpers (`readFileInfo`, `writeFileInfo`, `mkdirAll`, `readSegmentInfo`,
  `deleteDownwards`, `deleteBlobs`) and the storage-driver operations `GetContent`,
  `PutContent`, `Reader`, `Stat`, `List`, `Move`, `Delete` and `URLFor`.

  Each Go function is a `Drv` computation of the same shape: a Go `error` returned early
  is a `throw`, a helper returning `(fi, err)` returns the pair. Paths are those
  `base.Base` admits (see `Path`); offsets are natural numbers because `base.Base`
  refuses negative ones.

  `deleteDownwards` calls itself once per directory it finds. When the table holds a
  chain of directories whose paths lead back to one of them, the Go recursion never
  returns; a chain without repetition is no longer than the table. The model gives the
  recursion as many levels as the table has rows, plus one, and reports `diverged` past
  them.
-/
import Keppel.Swiftplus.Backend

namespace Keppel.Swiftplus

/-- `maxInlineSizeBytes`: files up to this size are stored in the database. -/
def maxInlineSizeBytes : Nat := 256

/-- `fileInfo`, without `ModifiedAt`. -/
structure FileInfo where
  dirName : CleanPath
  baseName : String
  sizeBytes : Int
  contents : Bytes
  location : String

def FileInfo.key (fi : FileInfo) : Key := ⟨fi.dirName, fi.baseName⟩

def FileInfo.row (fi : FileInfo) : Row := ⟨fi.sizeBytes, fi.contents, fi.location⟩

def FileInfo.ofRow (k : Key) (r : Row) : FileInfo := ⟨k.dir, k.base, r.sizeBytes, r.contents, r.location⟩

/-- `fileInfo.Path`. -/
def FileInfo.path (fi : FileInfo) : CleanPath := pathJoin fi.dirName.1 fi.baseName

/-- `fileInfo.IsDir`. -/
def FileInfo.isDir (fi : FileInfo) : Bool := decide (fi.sizeBytes < 0)

/-- `fileInfo.ObjectPath`. -/
def FileInfo.objectPath (fi : FileInfo) : ObjPath := ⟨fi.location, .content⟩

/-- The key `readFileInfo` and `writeFileInfo` use for a path. -/
def keyOf (p : List String) : Key := ⟨pathDir p, pathBase p⟩

/-- The fields `Scan` leaves at their zero value when it fails. -/
def zeroRow : Row := ⟨0, [], ""⟩

/-- The directory marker `mkdirAll` inserts. -/
def dirRow : Row := ⟨-1, [], ""⟩

/-- `setReportedPath`. -/
def setReportedPath (e : Err) (path : String) : Err :=
  match e with
  | .pathNotFound _ => .pathNotFound path
  | e => e

/-! ## The statements -/

/-- `INSERT INTO files ... ON CONFLICT (dirname, basename) DO UPDATE SET ...`. -/
def upsertFile (k : Key) (r : Row) (s : Store) : Except SqlError Store :=
  .ok { s with files := s.files.insert k r }

/-- `INSERT INTO files ... VALUES ($1,$2,-1,NOW(),'','') ON CONFLICT (dirname, basename)
    DO NOTHING`. -/
def insertDir (k : Key) (s : Store) : Except SqlError Store :=
  .ok (if k ∈ s.files then s else { s with files := s.files.insert k dirRow })

/-- `DELETE FROM files WHERE dirname = $1 AND basename = $2`. -/
def deleteFile (k : Key) (s : Store) : Except SqlError Store :=
  .ok { s with files := s.files.erase k }

/-- `UPDATE files SET dirname = $1, basename = $2 WHERE dirname = $3 AND basename = $4`;
    the primary key refuses a key another row holds. -/
def moveFile (src dst : Key) (s : Store) : Except SqlError Store :=
  match s.files.lookup src with
  | none => .ok s
  | some r =>
    if src = dst then .ok s
    else if dst ∈ s.files then .error .uniqueViolation
    else .ok { s with files := (s.files.erase src).insert dst r }

/-- `INSERT INTO segments (location, number, size_bytes, hash) VALUES ($1, $2, $3, $4)`. -/
def insertSegment (seg : Segment) (s : Store) : Except SqlError Store :=
  if (seg.location, seg.number) ∈ s.segments then .error .uniqueViolation
  else .ok { s with segments := s.segments.insert (seg.location, seg.number) ⟨seg.sizeBytes, seg.hash⟩ }

/-- `SELECT size_bytes, mtime, content, location FROM files WHERE dirname = $1 AND
    basename = $2`. -/
def lookupFile (k : Key) (t : Files) : Option Row := t.lookup k

/-- `SELECT basename, size_bytes, mtime, content, location FROM files WHERE dirname = $1`. -/
def childrenOf (d : CleanPath) (t : Files) : List (String × Row) :=
  (t.entries.filter fun e => decide (e.1.dir = d)).map fun e => (e.1.base, e.2)

/-- `SELECT basename FROM files WHERE dirname = $1`. -/
def basenamesIn (p : List String) (t : Files) : List String :=
  (t.entries.filter fun e => decide (e.1.dir.1 = p)).map (·.1.base)

/-- `SELECT number, size_bytes, hash FROM segments WHERE location = $1 ORDER BY number`. -/
def segmentsAt (location : String) (t : Segments) : List Segment :=
  ((t.entries.filter fun e => decide (e.1.1 = location)).map fun e =>
    (⟨location, e.1.2, e.2.sizeBytes, e.2.hash⟩ : Segment)).insertionSort (·.number ≤ ·.number)

/-! ## Helpers -/

/-- `plusRandLocation`: eight bytes of crypto/rand, hex-encoded. -/
def hexEncode (bs : List UInt8) : String :=
  String.mk (bs.flatMap fun b => [Nat.digitChar (b.toNat / 16), Nat.digitChar (b.toNat % 16)])

def plusRandLocation : Drv String := do
  match (← get).env.rand with
  | some r => return hexEncode (List.ofFn r)
  | none => throw .rand

/-- `readFileInfo`: the key is set whether or not the row is found. -/
def readFileInfo (fullPath : List String) : Drv (FileInfo × Option Err) := do
  let k := keyOf fullPath
  try
    let r ← queryRow fun s => lookupFile k s.files
    return (FileInfo.ofRow k r, none)
  catch e =>
    return (FileInfo.ofRow k zeroRow, some e)

/-- `mkdirAll`: a directory marker at `(path.Dir d, path.Base d)`, then the same for
    `path.Dir d`, up to the root. -/
def mkdirAll (fullPath : CleanPath) : Drv Unit := go fullPath.1.length fullPath
where
  /-- The recursion, on a fuel its depth never exceeds. -/
  go : Nat → CleanPath → Drv Unit
  | 0, _ => pure ()
  | n + 1, d =>
    if d.1 = [] then pure ()
    else do
      exec (insertDir (keyOf d.1))
      go n (pathDir d.1)

/-- `writeFileInfo`. -/
def writeFileInfo (fi : FileInfo) : Drv Unit := do
  exec (upsertFile fi.key fi.row)
  mkdirAll fi.dirName

/-- `readSegmentInfo`. -/
def readSegmentInfo (location : String) : Drv (List Segment) :=
  if location = "" then pure [] else queryRows fun s => segmentsAt location s.segments

/-- `deleteBlobs`: everything in Swift under the file's location. -/
def deleteBlobs (fi : FileInfo) : Drv Unit :=
  if fi.location = "" then pure () else swiftDeleteAll fi.location

/-- `deleteDownwards`, given the levels of recursion it may still take. -/
def deleteDownwardsN : Nat → FileInfo → Drv Unit
  | 0, _ => throw .diverged
  | n + 1, fi => do
    deleteBlobs fi
    if fi.isDir then
      let rows ← queryRows fun s => childrenOf fi.path s.files
      rows.forM fun c => deleteDownwardsN n (FileInfo.ofRow ⟨fi.path, c.1⟩ c.2)
    exec (deleteFile fi.key)

/-- `deleteDownwards`. -/
def deleteDownwards (fi : FileInfo) : Drv Unit := do
  deleteDownwardsN ((← get).store.files.entries.length + 1) fi

/-! ## What the helpers do -/

/-- What `readFileInfo` returns from a world. -/
def readResult (w : World) (k : Key) : FileInfo × Option Err :=
  match ((queryRow fun s => lookupFile k s.files).go w).1 with
  | .ok r => (FileInfo.ofRow k r, none)
  | .error e => (FileInfo.ofRow k zeroRow, some e)

theorem readFileInfo_go (p : List String) (w : World) :
    (readFileInfo p).go w = (.ok (readResult w (keyOf p)), w.popDb) := by
  simp only [readFileInfo, go_tryCatch, go_bind, readResult]
  rw [queryRow_go]
  rcases h : w.dbHead with _ | e | ⟨_ | k, e⟩ <;> simp <;> cases lookupFile (keyOf p) w.store.files <;> rfl

@[simp] theorem ofRow_key (k : Key) (r : Row) : (FileInfo.ofRow k r).key = k := rfl

@[simp] theorem ofRow_row (k : Key) (r : Row) : (FileInfo.ofRow k r).row = r := rfl

@[simp] theorem readResult_key (w : World) (k : Key) : (readResult w k).1.key = k := by
  unfold readResult; split <;> rfl

theorem readResult_cases (w : World) (k : Key) :
    (readResult w k = (FileInfo.ofRow k zeroRow, some .noRows) ∧ w.store.files.lookup k = none) ∨
    (∃ r, readResult w k = (FileInfo.ofRow k r, none) ∧ w.store.files.lookup k = some r) ∨
    (∃ e, readResult w k = (FileInfo.ofRow k zeroRow, some (.sql e))) := by
  unfold readResult
  rw [queryRow_go]
  rcases w.dbHead with _ | e | ⟨_ | n, e⟩ <;> simp only [lookupFile] <;>
    rcases h : w.store.files.lookup k with _ | r <;> simp [h]

/-- In a world where every call succeeds, `readFileInfo` reads the row. -/
@[simp] theorem readResult_ok (s : Store) (r : Fin 8 → UInt8) (n : Nat) (k : Key) :
    readResult ⟨s, Env.ok r, n⟩ k = match s.files.lookup k with
      | some row => (FileInfo.ofRow k row, none)
      | none => (FileInfo.ofRow k zeroRow, some .noRows) := by
  simp only [readResult, queryRow_go, dbHead_ok, lookupFile]
  cases s.files.lookup k <;> rfl

/-- A location `plusRandLocation` draws is never empty. -/
theorem hexEncode_ne (r : Fin 8 → UInt8) : hexEncode (List.ofFn r) ≠ "" := by
  intro h
  have := congrArg String.data h
  simp [hexEncode, List.ofFn_succ] at this

theorem plusRandLocation_go (w : World) : plusRandLocation.go w = match w.env.rand with
    | some r => (.ok (hexEncode (List.ofFn r)), w)
    | none => (.error .rand, w) := by
  rcases h : w.env.rand with _ | r <;> simp [plusRandLocation, go_bind, h]

/-- A location drawn is the hex encoding of what crypto/rand yields, and not empty. -/
theorem plusRandLocation_ok {L : String} {w w' : World} (h : plusRandLocation.go w = (.ok L, w')) :
    w' = w ∧ L ≠ "" ∧ ∃ r, w.env.rand = some r ∧ L = hexEncode (List.ofFn r) := by
  rw [plusRandLocation_go] at h
  split at h <;> simp only [Prod.mk.injEq, reduceCtorEq, false_and, Except.ok.injEq] at h
  obtain ⟨rfl, rfl⟩ := h
  exact ⟨rfl, hexEncode_ne _, _, ‹_›, rfl⟩

theorem deleteBlobs_go (fi : FileInfo) (w : World) : (deleteBlobs fi).go w =
    if fi.location = "" then (.ok (), w) else (swiftDeleteAll fi.location).go w := by
  unfold deleteBlobs; split <;> rfl

/-- `deleteBlobs` touches only objects, and asks the database nothing. -/
theorem deleteBlobs_frame (fi : FileInfo) (w : World) :
    ((deleteBlobs fi).go w).2.store.files = w.store.files ∧
      ((deleteBlobs fi).go w).2.store.segments = w.store.segments ∧
      ((deleteBlobs fi).go w).2.writes = w.writes ∧ ((deleteBlobs fi).go w).2.env.db = w.env.db := by
  rw [deleteBlobs_go]
  split
  · exact ⟨rfl, rfl, rfl, rfl⟩
  · rw [swiftDeleteAll_go]; split <;> exact ⟨rfl, rfl, rfl, rfl⟩

/-- `deleteBlobs` leaves what crypto/rand yields, and every object outside the file's
    location. -/
theorem deleteBlobs_rest (fi : FileInfo) (w : World) :
    ((deleteBlobs fi).go w).2.env.rand = w.env.rand ∧
      ∀ o, o.location ≠ fi.location → ((deleteBlobs fi).go w).2.store.objects o = w.store.objects o := by
  rw [deleteBlobs_go]
  split
  · exact ⟨rfl, fun _ _ => rfl⟩
  · rw [swiftDeleteAll_go]
    split
    · exact ⟨rfl, fun _ _ => rfl⟩
    · exact ⟨rfl, fun o ho => if_neg ho⟩

theorem deleteFile_ok {k : Key} {w w' : World} (h : (exec (deleteFile k)).go w = (.ok (), w')) :
    w'.store.files = w.store.files.erase k ∧ w'.env = w.popDb.env := by
  obtain ⟨e, -, he⟩ := exec_ok h
  simp only [deleteFile, Except.ok.injEq] at e
  exact ⟨e ▸ rfl, he⟩

theorem mem_childrenOf {d : CleanPath} {t : Files} {c : String × Row} :
    c ∈ childrenOf d t ↔ t.lookup ⟨d, c.1⟩ = some c.2 := by
  simp only [childrenOf, List.mem_map, List.mem_filter, decide_eq_true_eq]
  constructor
  · rintro ⟨⟨k, r⟩, ⟨hm, rfl⟩, rfl⟩
    exact AList.mem_lookup_iff.mpr hm
  · intro h
    exact ⟨⟨⟨d, c.1⟩, c.2⟩, ⟨AList.mem_lookup_iff.mp h, rfl⟩, rfl⟩

/-- The keys of the directory markers `mkdirAll d` inserts: `d`'s and those above it. -/
def Above (d : CleanPath) (k : Key) : Prop := k.dir.1 ++ [k.base] <+: d.1

/-- What a call leaves of a store: every row, the segments and the objects. -/
structure Grows (s s' : Store) : Prop where
  rows : ∀ k r, s.files.lookup k = some r → s'.files.lookup k = some r
  segments : s'.segments = s.segments
  objects : s'.objects = s.objects

/-- What `mkdirAll d` does to a store: it adds directory markers above-or-at `d`. -/
structure AddsDirs (d : CleanPath) (s s' : Store) extends Grows s s' : Prop where
  added : ∀ k r, s.files.lookup k = none → s'.files.lookup k = some r → Above d k ∧ r = dirRow

theorem not_mem_of_lookup_none {t : Files} {k : Key} (h : t.lookup k = none) : k ∉ t := fun hm => by
  have := AList.lookup_isSome.mpr hm
  rw [h] at this
  cases this

theorem mem_of_lookup_some {t : Files} {k : Key} {r : Row} (h : t.lookup k = some r) : k ∈ t :=
  AList.lookup_isSome.mp (by rw [h]; rfl)

theorem Grows.mem {s s' : Store} (h : Grows s s') {k : Key} (hk : k ∈ s.files) : k ∈ s'.files := by
  obtain ⟨r, hr⟩ := Option.isSome_iff_exists.mp (AList.lookup_isSome.mpr hk)
  exact AList.lookup_isSome.mp (by rw [h.rows k r hr]; rfl)

theorem AddsDirs.refl (d : CleanPath) (s : Store) : AddsDirs d s s :=
  ⟨⟨fun _ _ h => h, rfl, rfl⟩, fun _ _ h h' => by simp [h] at h'⟩

theorem AddsDirs.trans {d : CleanPath} {s₁ s₂ s₃ : Store} (h₁ : AddsDirs d s₁ s₂) (h₂ : AddsDirs d s₂ s₃) :
    AddsDirs d s₁ s₃ := by
  refine ⟨⟨fun k r h => h₂.rows k r (h₁.rows k r h), h₂.segments.trans h₁.segments,
    h₂.objects.trans h₁.objects⟩, fun k r h h' => ?_⟩
  cases h₂' : s₂.files.lookup k with
  | none => exact h₂.added k r h₂' h'
  | some r' =>
    rw [h₂.rows k r' h₂', Option.some.injEq] at h'
    subst h'
    exact h₁.added k _ h h₂'

theorem Above.of_pathDir {d : CleanPath} {k : Key} (h : Above (pathDir d.1) k) : Above d k := by
  unfold Above at *
  rw [pathDir_clean] at h
  exact h.trans (List.dropLast_prefix _)

theorem keyOf_append (k : Key) : keyOf (k.dir.1 ++ [k.base]) = k := by
  simp only [keyOf, pathDir_append, pathBase_append]

theorem above_keyOf {d : CleanPath} (hd : d.1 ≠ []) : Above d (keyOf d.1) := by
  simp only [Above, keyOf, pathDir_clean, pathBase, List.getLast?_eq_getLast _ hd, Option.getD_some]
  exact ⟨[], by rw [List.append_nil, List.dropLast_append_getLast hd]⟩

theorem exec_writes (f : Store → Except SqlError Store) (w : World) : ((exec f).go w).2.writes = w.writes := by
  rw [exec_go]
  split
  · split <;> rfl
  all_goals rfl

theorem insertDir_adds {d : CleanPath} {k : Key} (hk : Above d k) (w : World) :
    AddsDirs d w.store ((exec (insertDir k)).go w).2.store := by
  rw [exec_go]
  rcases w.dbHead with _ | e | ⟨_, e⟩ <;> simp only [insertDir, popDb_store, setStore_store]
  · split
    · exact AddsDirs.refl d _
    · rename_i hn
      refine ⟨⟨fun k' r h => ?_, rfl, rfl⟩, fun k' r h h' => ?_⟩
      · have hne : k' ≠ k := by
          rintro rfl
          exact hn (AList.lookup_isSome.mp (by simp [h]))
        rw [AList.lookup_insert_ne hne]
        exact h
      · by_cases e : k' = k
        · subst e
          simp only [AList.lookup_insert, Option.some.injEq] at h'
          exact ⟨hk, h'.symm⟩
        · rw [AList.lookup_insert_ne e] at h'
          simp [h] at h'
  all_goals exact AddsDirs.refl d _

theorem insertDir_mem {k : Key} {w w₁ : World} (h : (exec (insertDir k)).go w = (.ok (), w₁)) :
    k ∈ w₁.store.files := by
  rw [exec_go] at h
  rcases hh : w.dbHead with _ | e | ⟨_, e⟩ <;> simp only [hh, insertDir, Prod.mk.injEq] at h
  · obtain ⟨-, rfl⟩ := h
    simp only [setStore_store]
    split
    · assumption
    · exact (AList.mem_insert _).mpr (Or.inl rfl)
  all_goals simp at h

theorem mkdirAll_go_adds (n : Nat) : ∀ (d : CleanPath) (w : World),
    AddsDirs d w.store ((mkdirAll.go n d).go w).2.store ∧ ((mkdirAll.go n d).go w).2.writes = w.writes := by
  induction n with
  | zero => exact fun d w => ⟨AddsDirs.refl d _, rfl⟩
  | succ n ih =>
    intro d w
    simp only [mkdirAll.go]
    split
    · exact ⟨AddsDirs.refl d _, rfl⟩
    · rename_i hd
      have h1 := insertDir_adds (above_keyOf hd) w
      have hw := exec_writes (insertDir (keyOf d.1)) w
      rw [go_bind]
      revert h1 hw
      rcases (exec (insertDir (keyOf d.1))).go w with ⟨_ | _, w₁⟩ <;> intro h1 hw
      · exact ⟨h1, hw⟩
      · obtain ⟨h2, h3⟩ := ih (pathDir d.1) w₁
        exact ⟨h1.trans ⟨h2.toGrows, fun k r h h' => (h2.added k r h h').imp_left Above.of_pathDir⟩,
          h3.trans hw⟩

theorem mkdirAll_adds (d : CleanPath) (w : World) :
    AddsDirs d w.store ((mkdirAll d).go w).2.store ∧ ((mkdirAll d).go w).2.writes = w.writes :=
  mkdirAll_go_adds _ d w

/-- A successful `mkdirAll d` leaves a row at every key above-or-at `d`. -/
theorem mkdirAll_go_ok (n : Nat) : ∀ (d : CleanPath) (w w' : World), d.1.length ≤ n →
    (mkdirAll.go n d).go w = (.ok (), w') → ∀ k, Above d k → k ∈ w'.store.files := by
  induction n with
  | zero =>
    intro d w w' hn _ k hk
    have := hk.length_le
    simp at this; omega
  | succ n ih =>
    intro d w w' hn h k hk
    simp only [mkdirAll.go] at h
    split at h
    · rename_i hd
      have := hk.length_le
      simp [hd] at this
    · rename_i hd
      obtain ⟨_, w₁, h1, h2⟩ := go_bind_ok.mp h
      have hlen : (pathDir d.1).1.length ≤ n := by
        rw [pathDir_clean, List.length_dropLast]; omega
      have hk' := hk
      rw [Above, ← List.dropLast_append_getLast hd] at hk'
      rcases List.prefix_concat_iff.mp hk' with e | e
      · have hkd : keyOf d.1 = k := by
          rw [← List.dropLast_append_getLast hd, ← e, keyOf_append]
        subst hkd
        have := (mkdirAll_go_adds n (pathDir d.1) w₁).1.mem (insertDir_mem h1)
        rwa [h2] at this
      · exact ih (pathDir d.1) w₁ w' hlen h2 k (by rw [Above, pathDir_clean]; exact e)

theorem mkdirAll_ok {d : CleanPath} {w w' : World} (h : (mkdirAll d).go w = (.ok (), w')) :
    ∀ k, Above d k → k ∈ w'.store.files :=
  mkdirAll_go_ok _ d w w' le_rfl h

/-- A successful `writeFileInfo fi` upserts `fi`'s row and adds directory markers above
    it, every one of them. -/
theorem writeFileInfo_ok {fi : FileInfo} {w w' : World} (h : (writeFileInfo fi).go w = (.ok (), w')) :
    AddsDirs fi.dirName { w.store with files := w.store.files.insert fi.key fi.row } w'.store ∧
      w'.writes = w.writes ∧ ∀ k, Above fi.dirName k → k ∈ w'.store.files := by
  obtain ⟨_, w₁, h1, h2⟩ := go_bind_ok.mp h
  obtain ⟨e1, hw1, -⟩ := exec_ok h1
  simp only [upsertFile, Except.ok.injEq] at e1
  have := mkdirAll_adds fi.dirName w₁
  rw [h2] at this
  exact ⟨e1 ▸ this.1, this.2.trans hw1, mkdirAll_ok h2⟩

theorem readSegmentInfo_store (L : String) (w : World) : ((readSegmentInfo L).go w).2.store = w.store := by
  unfold readSegmentInfo
  split
  · rfl
  · rw [queryRows_store]; rfl

/-- Without broken streams `readSegmentInfo` returns every segment of the location. -/
theorem readSegmentInfo_full {L : String} {w w' : World} {segs : List Segment} (hb : NoBreaks w.env)
    (h : (readSegmentInfo L).go w = (.ok segs, w')) : segs = if L = "" then [] else segmentsAt L w.store.segments := by
  unfold readSegmentInfo at h
  split at h
  · rename_i hL; simp [hL, (go_pure_ok.mp h).1]
  · rename_i hL; simp [hL, (queryRows_full hb h).1]

/-! The reads keep every relation between stores that holds of a store and itself. -/

section Reads
variable {R : Store → Store → Prop} [IsRefl Store R]

theorem Keeps.readFileInfo (p : List String) : Keeps R (readFileInfo p) := .of_store fun w => by
  rw [readFileInfo_go]; rfl

theorem Keeps.plusRandLocation : Keeps R plusRandLocation := .of_store fun w => by
  rw [plusRandLocation_go]; split <;> rfl

theorem Keeps.readSegmentInfo (L : String) : Keeps R (readSegmentInfo L) := .of_store (readSegmentInfo_store L)

end Reads

/-! ## The operations -/

section Operations
variable (cfg : Config)

/-- `GetContent`. -/
def getContent (fullPath : List String) : Drv Bytes := do
  let (fi, err) ← readFileInfo fullPath
  if err = some .noRows ∨ fi.isDir then throw (.pathNotFound (render fullPath))
  if let some e := err then throw e
  if fi.sizeBytes = 0 then return []
  if fi.contents.length > 0 then return fi.contents
  try
    swiftReader cfg fi.objectPath 0
  catch e =>
    throw (setReportedPath e (render fi.path.1))

/-- `PutContent`. -/
def putContent (fullPath : List String) (contents : Bytes) : Drv Unit := do
  let (fi, err) ← readFileInfo fullPath
  (match err with
    | none => deleteBlobs fi
    | some .noRows => pure ()
    | some e => throw e)
  let uploadToSwift := decide (contents.length > maxInlineSizeBytes)
  let location ← (if uploadToSwift then plusRandLocation else pure "")
  let fi : FileInfo :=
    ⟨pathDir fullPath, pathBase fullPath, contents.length, if uploadToSwift then [] else contents, location⟩
  writeFileInfo fi
  if uploadToSwift then
    try
      discard (swiftWrite fi.objectPath contents)
    catch e =>
      throw (setReportedPath e (render fullPath))

/-- `Reader`: the bytes the returned stream yields. -/
def reader (fullPath : List String) (offset : Nat) : Drv Bytes := do
  let (fi, err) ← readFileInfo fullPath
  if err = some .noRows ∨ fi.isDir then throw (.pathNotFound (render fullPath))
  if let some e := err then throw e
  if (offset : Int) > fi.sizeBytes then return []
  if fi.location = "" then
    let data := fi.contents
    return if offset > 0 then (if offset > data.length then [] else data.drop offset) else data
  try
    swiftReader cfg fi.objectPath offset
  catch e =>
    throw (setReportedPath e (render fi.path.1))

/-- `Stat`; the root is answered without a query. -/
def stat (fullPath : List String) : Drv FileInfo := do
  if fullPath = [] then return ⟨CleanPath.root, "/", -1, [], ""⟩
  let (fi, err) ← readFileInfo fullPath
  if err = some .noRows then throw (.pathNotFound (render fullPath))
  if let some e := err then throw e
  return fi

/-- `List`. -/
def list (fullPath : List String) : Drv (List CleanPath) := do
  let names ← queryRows fun s => basenamesIn fullPath s.files
  return names.map (pathJoin fullPath)

/-- `Move`. -/
def move (sourcePath destPath : List String) : Drv Unit := do
  let (fi1, err) ← readFileInfo sourcePath
  if err = some .noRows then throw (.pathNotFound (render sourcePath))
  let (fi2, err) ← readFileInfo destPath
  (match err with
    | none => deleteDownwards fi2
    | some .noRows => pure ()
    | some e => throw e)
  exec (moveFile fi1.key (keyOf destPath))
  mkdirAll (pathDir destPath)

/-- `Delete`. -/
def delete (fullPath : List String) : Drv Unit := do
  let (fi, err) ← readFileInfo fullPath
  match err with
  | none => deleteDownwards fi
  | some .noRows => pure ()
  | some e => throw e

/-- `URLFor`. -/
def urlFor (fullPath : List String) : Drv ObjPath := do
  let (fi, err) ← readFileInfo fullPath
  if err = some .noRows then throw (.pathNotFound (render fullPath))
  if let some e := err then throw e
  if fi.location = "" then throw .unsupportedMethod
  swiftMakeTempURL fi.objectPath

end Operations

/-- `Delete` keeps every relation between stores that `deleteDownwards` keeps. -/
theorem Keeps.delete {R : Store → Store → Prop} [IsRefl Store R] [IsTrans Store R]
    (h : ∀ fi, Keeps R (deleteDownwards fi)) (p : List String) : Keeps R (delete p) := by
  unfold Keppel.Swiftplus.delete
  refine .bind (.readFileInfo p) fun ⟨fi, err⟩ => ?_
  dsimp only
  split
  exacts [h fi, .pure' _, .throw' _]

end Keppel.Swiftplus
