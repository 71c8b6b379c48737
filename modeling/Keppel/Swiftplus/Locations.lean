/-
  Keppel.Swiftplus.Locations — where a file's bytes are, across every history of the
  driver and the writers it hands out.

  A file row holds its bytes in one of two places (`Materializes`): inline, when it has
  no location, or, with no inline part, in the manifest object `<prefix>/<location>/content`.
  The store is consistent (`Consistent`) when every file row holds as many bytes as its
  size says and no two rows carry one location, so that deleting one row's objects never
  takes another row's bytes.

  A writer takes its location when `Writer` opens it, and `Commit` writes the manifest
  there and the row at whatever key its path has by then; nothing locks the path. A writer
  neither committed nor cancelled (`Live`) owns its location (`Owns`): no row but the one
  at its path's key carries it. The system is sound (`Sound`) when the store is
  consistent, every live writer owns its location, and two live writers on one location
  have one key.

  Proved:
  (1) `Sound.step`: a call that succeeds keeps the system sound, when a location it may
      draw is carried by no row and no live writer, and a `Move` does not take the row at
      a live writer's path (`Allowed`). By induction, every system `Reachable` by such
      calls from the empty store is sound, and `GetContent(p)` then returns as many bytes
      as `Stat(p)` reports (`reachable_consistent`).
  (2) In a consistent store the reads agree: `Reader(p, k)` returns `GetContent(p)` from `k`
      on (`Consistent.reader_getContent`), and the object `URLFor(p)` designates holds the
      bytes of `GetContent(p)` (`Consistent.urlFor_getContent`).
  (3) The conditions are needed (`open_writers_share_locations`). After `Move(/a, /b)`
      under a writer appending to `/a`, the writer commits `/a` at the location `/b` now
      carries, and `/b` keeps its old size over the longer manifest. Two writers opened
      before either writes may draw one location, which no row, segment or object holds
      yet; both commit with it.
-/
import Keppel.Swiftplus.Session
import Keppel.Swiftplus.Move

namespace Keppel.Swiftplus

/-! ## A store that holds its files' bytes -/

/-- A file row holds its bytes: inline when it has no location; otherwise, with no inline
    part, in the manifest object of its location. -/
def Materializes (objs : ObjPath → Option Bytes) (r : Row) : Prop :=
  if r.location = "" then (r.contents.length : Int) = r.sizeBytes
  else r.contents = [] ∧ ∃ d, objs ⟨r.location, .content⟩ = some d ∧ (d.length : Int) = r.sizeBytes

/-- No two rows carry one location, and every file row holds its bytes. -/
structure Consistent (t : Files) (objs : ObjPath → Option Bytes) : Prop where
  unique : LocationsUnique t
  holds : ∀ k r, t.lookup k = some r → 0 ≤ r.sizeBytes → Materializes objs r

theorem Materializes.congr {objs objs' : ObjPath → Option Bytes} {r : Row} (h : Materializes objs r)
    (ho : r.location ≠ "" → objs' ⟨r.location, .content⟩ = objs ⟨r.location, .content⟩) : Materializes objs' r := by
  unfold Materializes at *
  split_ifs at h ⊢ with hl
  · exact h
  · rw [ho hl]; exact h

theorem lookup_insert_cases {t : Files} {k k' : Key} {r r' : Row} (h : (t.insert k r).lookup k' = some r') :
    (k' = k ∧ r' = r) ∨ (k' ≠ k ∧ t.lookup k' = some r') := by
  by_cases e : k' = k
  · subst e
    rw [AList.lookup_insert, Option.some.injEq] at h
    exact .inl ⟨rfl, h.symm⟩
  · rw [AList.lookup_insert_ne e] at h
    exact .inr ⟨e, h⟩

/-- Every row `mkdirAll` leaves was there before, or is a directory marker. -/
theorem AddsDirs.row_cases {d : CleanPath} {s s' : Store} (ha : AddsDirs d s s') {k : Key} {r : Row}
    (h : s'.files.lookup k = some r) : s.files.lookup k = some r ∨ r = dirRow := by
  cases hk : s.files.lookup k with
  | none => exact .inr (ha.added k r hk h).2
  | some r' => exact .inl (by rw [← Option.some.inj ((ha.rows k r' hk).symm.trans h)])

section Consistent
variable {t : Files} {objs : ObjPath → Option Bytes}

theorem Consistent.empty : Consistent (∅ : Files) objs :=
  ⟨fun _ _ _ _ h => by simp at h, fun _ _ h => by simp at h⟩

/-- Removing rows keeps a store consistent, when every row left finds its manifest as it
    was. -/
theorem Consistent.sub (h : Consistent t objs) {t' : Files} {objs' : ObjPath → Option Bytes} (hs : SubTable t' t)
    (ho : ∀ k r, t'.lookup k = some r → r.location ≠ "" → objs' ⟨r.location, .content⟩ = objs ⟨r.location, .content⟩) :
    Consistent t' objs' :=
  ⟨h.unique.sub hs, fun k r hr hf => (h.holds k r (hs k r hr) hf).congr (ho k r hr)⟩

theorem Consistent.keeps {w w' : World} (h : Consistent w.store.files w.store.objects) (hk : KeepsObjects w w') :
    Consistent w'.store.files w'.store.objects :=
  h.sub hk.rows hk.objects

theorem Consistent.uploads {w w' : World} (h : Consistent w.store.files w.store.objects) (hu : Uploads w w') :
    Consistent w'.store.files w'.store.objects :=
  h.sub (fun k r hr => by rw [← hu.files]; exact hr) fun _ _ _ _ => hu.manifests _

/-- Directory markers hold no bytes and carry no location. -/
theorem Consistent.addsDirs {d : CleanPath} {s s' : Store} (h : Consistent s.files objs) (ha : AddsDirs d s s') :
    Consistent s'.files objs := by
  refine ⟨fun k₁ k₂ r₁ r₂ h₁ h₂ he hL => ?_, fun k r hr hf => ?_⟩
  · rcases ha.row_cases h₁ with h₁ | rfl
    · rcases ha.row_cases h₂ with h₂ | rfl
      · exact h.unique k₁ k₂ r₁ r₂ h₁ h₂ he hL
      · exact absurd he hL
    · exact absurd rfl hL
  · rcases ha.row_cases hr with hr | rfl
    · exact h.holds k r hr hf
    · exact absurd hf (by decide)

/-- Putting a row at `k` keeps a store consistent when the row holds its bytes, no other row
    carries its location, and every other row finds its manifest as it was. -/
theorem Consistent.insert (h : Consistent t objs) {k : Key} {r : Row} {objs' : ObjPath → Option Bytes}
    (ho : ∀ k' r', t.lookup k' = some r' → k' ≠ k → r'.location ≠ "" →
      objs' ⟨r'.location, .content⟩ = objs ⟨r'.location, .content⟩)
    (hu : r.location ≠ "" → ∀ k' r', t.lookup k' = some r' → r'.location = r.location → k' = k)
    (hm : 0 ≤ r.sizeBytes → Materializes objs' r) : Consistent (t.insert k r) objs' := by
  refine ⟨fun k₁ k₂ r₁ r₂ h₁ h₂ he hL => ?_, fun k' r' hr hf => ?_⟩
  · rcases lookup_insert_cases h₁ with ⟨rfl, rfl⟩ | ⟨hk₁, h₁'⟩ <;>
      rcases lookup_insert_cases h₂ with ⟨rfl, rfl⟩ | ⟨hk₂, h₂'⟩
    · rfl
    · exact absurd (hu hL k₂ r₂ h₂' he.symm) hk₂
    · exact absurd (hu (he ▸ hL) k₁ r₁ h₁' he) hk₁
    · exact h.unique k₁ k₂ r₁ r₂ h₁' h₂' he hL
  · rcases lookup_insert_cases hr with ⟨-, rfl⟩ | ⟨hk, hr⟩
    · exact hm hf
    · exact (h.holds k' r' hr hf).congr (ho k' r' hr hk)

/-- In a consistent store, `GetContent(p)` returns as many bytes as `Stat(p)` reports for a
    file, in a call where every backend call succeeds. -/
theorem Consistent.getContent_stat (h : Consistent t objs) (cfg : Config) (segs : Segments) (p : List String)
    (r : Fin 8 → UInt8) (n : Nat) {fi : FileInfo} (hs : ((stat p).go ⟨⟨t, segs, objs⟩, Env.ok r, n⟩).1 = .ok fi)
    (hf : 0 ≤ fi.sizeBytes) :
    ∃ c, ((getContent cfg p).go ⟨⟨t, segs, objs⟩, Env.ok r, n⟩).1 = .ok c ∧ (c.length : Int) = fi.sizeBytes := by
  have hp : p ≠ [] := by
    rintro rfl
    simp only [stat, go_pure, if_true, Except.ok.injEq] at hs
    rw [← hs] at hf
    exact absurd hf (by decide)
  rcases hrow : t.lookup (keyOf p) with _ | row
  · simp [stat, go_bind, readFileInfo_go, hrow, hp] at hs
  rw [stat_okEnv _ r n hp hrow, Except.ok.injEq] at hs
  subst hs
  have hm := h.holds _ _ hrow hf
  rw [getContent_okEnv cfg _ r n hrow hf]
  simp only [FileInfo.ofRow] at hm ⊢
  unfold Materializes at hm
  by_cases h0 : row.sizeBytes = 0
  · exact ⟨[], by rw [if_pos h0], by rw [h0]; rfl⟩
  by_cases hc : row.contents.length > 0
  · -- inline bytes: the row has no location
    refine ⟨row.contents, by rw [if_neg h0, if_pos hc], ?_⟩
    split_ifs at hm
    · exact hm
    · exact absurd hm.1 (List.ne_nil_of_length_pos hc)
  · -- no inline bytes and a size: the manifest holds them
    split_ifs at hm
    · exact absurd hm (by omega)
    · obtain ⟨-, d, hd, hlen⟩ := hm
      exact ⟨d, by rw [if_neg h0, if_neg hc, hd], hlen⟩

/-- A store holding `/a` in Swift: two bytes in the manifest object of the location `L`. -/
def swiftFileA : Store :=
  ⟨(∅ : Files).insert (keyOf ["a"]) ⟨2, [], "L"⟩, ∅, fun o => if o = ⟨"L", .content⟩ then some [1, 2] else none⟩

theorem swiftFileA_consistent : Consistent swiftFileA.files swiftFileA.objects :=
  (@Consistent.empty swiftFileA.objects).insert (fun _ _ h => by simp at h) (fun _ _ _ h => by simp at h) fun _ => by
    simp [Materializes, swiftFileA]

/-- In a consistent store, with every backend call succeeding, `Reader(p, k)` returns the bytes
    of `GetContent(p)` from `k` on, and fails exactly when `GetContent(p)` does, with the same
    error: the two reads choose their source differently (by the location, by the inline
    part) but find the same bytes. -/
theorem Consistent.reader_getContent {s : Store} (h : Consistent s.files s.objects) (cfg : Config) (p : List String) (k : Nat)
    (r : Fin 8 → UInt8) (n : Nat) :
    ((reader cfg p k).go ⟨s, Env.ok r, n⟩).1 = ((getContent cfg p).go ⟨s, Env.ok r, n⟩).1.map (List.drop k) := by
  by_cases hd : ∀ row, s.files.lookup (keyOf p) = some row → row.sizeBytes < 0
  · rw [reader_okEnv_missing cfg s r n k hd, getContent_okEnv_missing cfg s r n hd]; rfl
  push_neg at hd
  obtain ⟨row, hrow, hf⟩ := hd
  rw [reader_okEnv cfg s r n k hrow hf, getContent_okEnv cfg s r n hrow hf]
  have hm := h.holds _ _ hrow hf
  unfold Materializes at hm
  split_ifs at hm with hl
  · -- inline: the row holds its bytes
    rw [if_pos hl]
    by_cases h0 : row.sizeBytes = 0
    · have hc : row.contents = [] := List.eq_nil_of_length_eq_zero (by omega)
      simp [h0, hc, Except.map]
    · have hc : row.contents.length > 0 := by omega
      rw [if_neg h0, if_pos hc]
      by_cases hk : (k : Int) > row.sizeBytes
      · rw [if_pos hk]
        simp only [Except.map, List.drop_eq_nil_of_le (by omega : row.contents.length ≤ k)]
      · rw [if_neg hk, if_neg (by omega : ¬k > row.contents.length)]
        split_ifs with hk0
        · rfl
        · simp [Except.map, show k = 0 by omega]
  · -- in Swift: the manifest holds them
    obtain ⟨hc, d, hd, hlen⟩ := hm
    rw [if_neg hl, hd, hc]
    by_cases h0 : row.sizeBytes = 0
    · have hd0 : d = [] := List.eq_nil_of_length_eq_zero (by omega)
      simp [h0, hd0, Except.map]
    · rw [if_neg h0, if_neg (show ¬([] : Bytes).length > 0 by simp)]
      by_cases hk : (k : Int) > row.sizeBytes
      · rw [if_pos hk]
        simp only [Except.map, List.drop_eq_nil_of_le (by omega : d.length ≤ k)]
      · rw [if_neg hk]; rfl

theorem reader_getContent_swiftFileA :
    Consistent swiftFileA.files swiftFileA.objects ∧
      ((reader cfgChunk1 ["a"] 1).go ⟨swiftFileA, Env.ok fun _ => 0, 0⟩).1 =
        ((getContent cfgChunk1 ["a"]).go ⟨swiftFileA, Env.ok fun _ => 0, 0⟩).1.map (List.drop 1) :=
  ⟨swiftFileA_consistent, Consistent.reader_getContent swiftFileA_consistent cfgChunk1 ["a"] 1 _ 0⟩

/-- In a consistent store, with every backend call succeeding, `URLFor(p)` returns a URL
    exactly when `p`'s row has a location, designating its manifest object; for a file, that
    object holds exactly the bytes `GetContent(p)` returns. -/
theorem Consistent.urlFor_getContent {s : Store} (h : Consistent s.files s.objects) (cfg : Config) (p : List String)
    (r : Fin 8 → UInt8) (n : Nat) (o : ObjPath) :
    (((urlFor p).go ⟨s, Env.ok r, n⟩).1 = .ok o ↔
      ∃ row, s.files.lookup (keyOf p) = some row ∧ row.location ≠ "" ∧ o = ⟨row.location, .content⟩) ∧
    (((urlFor p).go ⟨s, Env.ok r, n⟩).1 = .ok o → ∀ row, s.files.lookup (keyOf p) = some row →
      0 ≤ row.sizeBytes → ∃ c, ((getContent cfg p).go ⟨s, Env.ok r, n⟩).1 = .ok c ∧ s.objects o = some c) := by
  have hu : ((urlFor p).go ⟨s, Env.ok r, n⟩).1 = .ok o ↔
      ∃ row, s.files.lookup (keyOf p) = some row ∧ row.location ≠ "" ∧ o = ⟨row.location, .content⟩ := by
    rw [urlFor_okEnv]
    rcases s.files.lookup (keyOf p) with _ | row
    · simp
    · by_cases hl : row.location = ""
      · simp [hl]
      · simp [hl, eq_comm, Ne.symm hl]
  refine ⟨hu, fun ho row' hrow' hf => ?_⟩
  obtain ⟨row, hrow, hl, rfl⟩ := hu.mp ho
  obtain rfl : row = row' := Option.some.inj (hrow.symm.trans hrow')
  have hm := h.holds _ _ hrow hf
  rw [Materializes, if_neg hl] at hm
  obtain ⟨hc, d, hd, hlen⟩ := hm
  refine ⟨d, ?_, hd⟩
  rw [getContent_okEnv cfg s r n hrow hf, hc, hd]
  by_cases h0 : row.sizeBytes = 0
  · rw [if_pos h0, List.eq_nil_of_length_eq_zero (by omega : d.length = 0)]
  · rw [if_neg h0, if_neg (show ¬([] : Bytes).length > 0 by simp)]

theorem urlFor_getContent_swiftFileA :
    Consistent swiftFileA.files swiftFileA.objects ∧
      ((((urlFor ["a"]).go ⟨swiftFileA, Env.ok fun _ => 0, 0⟩).1 = .ok ⟨"L", .content⟩ ↔
        ∃ row, swiftFileA.files.lookup (keyOf ["a"]) = some row ∧ row.location ≠ "" ∧
          (⟨"L", .content⟩ : ObjPath) = ⟨row.location, .content⟩) ∧
      (((urlFor ["a"]).go ⟨swiftFileA, Env.ok fun _ => 0, 0⟩).1 = .ok ⟨"L", .content⟩ →
        ∀ row, swiftFileA.files.lookup (keyOf ["a"]) = some row → 0 ≤ row.sizeBytes →
          ∃ c, ((getContent cfgChunk1 ["a"]).go ⟨swiftFileA, Env.ok fun _ => 0, 0⟩).1 = .ok c ∧
            swiftFileA.objects ⟨"L", .content⟩ = some c)) :=
  ⟨swiftFileA_consistent, Consistent.urlFor_getContent swiftFileA_consistent cfgChunk1 ["a"] _ 0 ⟨"L", .content⟩⟩

end Consistent

/-! ## Writers that own their locations -/

/-- A writer neither committed nor cancelled. -/
def PlusWriter.Live (fw : PlusWriter) : Prop := fw.committed = false ∧ fw.cancelled = false

/-- A live writer's location: not empty, and carried by no row but the one at its path's
    key, the row its `Commit` writes. -/
structure Owns (t : Files) (fw : PlusWriter) : Prop where
  nonempty : fw.location ≠ ""
  rows : ∀ k r, t.lookup k = some r → r.location = fw.location → k = keyOf fw.fullPath

section Owns
variable {t : Files} {fw : PlusWriter}

theorem Owns.sub (h : Owns t fw) {t' : Files} (hs : SubTable t' t) : Owns t' fw :=
  ⟨h.nonempty, fun k r hr => h.rows k r (hs k r hr)⟩

theorem Owns.addsDirs {d : CleanPath} {s s' : Store} (h : Owns s.files fw) (ha : AddsDirs d s s') : Owns s'.files fw :=
  ⟨h.nonempty, fun k r hr he => by
    rcases ha.row_cases hr with hr | rfl
    · exact h.rows k r hr he
    · exact absurd he.symm h.nonempty⟩

theorem Owns.insert (h : Owns t fw) {k : Key} {r : Row} (hk : r.location = fw.location → k = keyOf fw.fullPath) :
    Owns (t.insert k r) fw :=
  ⟨h.nonempty, fun k' r' hr he => by
    rcases lookup_insert_cases hr with ⟨rfl, rfl⟩ | ⟨-, hr⟩
    · exact hk he
    · exact h.rows k' r' hr he⟩

theorem Owns.congr (h : Owns t fw) {fw' : PlusWriter} (hl : fw'.location = fw.location)
    (hp : fw'.fullPath = fw.fullPath) : Owns t fw' :=
  ⟨hl ▸ h.nonempty, fun k r hr he => hp ▸ h.rows k r hr (he.trans hl)⟩

end Owns

/-- A successful `plusWriter.Commit` from a consistent store, of a writer owning its
    location, keeps the store consistent and leaves the writer committed; a writer that
    owned its location still does, when it has another location or the same key. -/
theorem PlusWriter.commit_sound {fw fw' : PlusWriter} {w w' : World} (h : (fw.commit).run w = ((none, fw'), w'))
    (hc : Consistent w.store.files w.store.objects) (hown : fw.Live → Owns w.store.files fw) :
    fw.Live ∧ Consistent w'.store.files w'.store.objects ∧ fw'.committed = true ∧
      ∀ fw₂, Owns w.store.files fw₂ → (fw₂.location = fw.location → keyOf fw₂.fullPath = keyOf fw.fullPath) →
        Owns w'.store.files fw₂ := by
  obtain ⟨-, hcan, hcom, rfl, w₁, hslo, hwfi⟩ := PlusWriter.commit_ok h
  have hown := hown ⟨hcom, hcan⟩
  obtain ⟨hvalid, hs₁⟩ := swiftWriteSLO_ok hslo
  obtain ⟨hadd, -, -⟩ := writeFileInfo_ok hwfi
  have hf₁ : w₁.store.files = w.store.files := by rw [hs₁]
  have ho' : w'.store.objects = w₁.store.objects := hadd.objects
  -- the row `Commit` writes holds the manifest it wrote just before
  have hc' : Consistent (w.store.files.insert (keyOf fw.fullPath) ⟨fw.size, [], fw.location⟩) w₁.store.objects := by
    refine hc.insert (fun k' r' hr' hk' _ => ?_) (fun _ k' r' hr' he => hown.rows k' r' hr' he) fun _ => ?_
    · rw [hs₁]
      exact if_neg fun he => hk' (hown.rows k' r' hr' (ObjPath.mk.inj he).1)
    · simp only [Materializes, hown.nonempty, if_false, true_and, hs₁, setObject, if_true]
      exact ⟨_, rfl, by rw [PlusWriter.size, sizes_of_valid hvalid]⟩
  refine ⟨⟨hcom, hcan⟩, ?_, rfl, fun fw₂ h₂ hk => ?_⟩
  · rw [ho']
    exact Consistent.addsDirs (by rw [hf₁]; exact hc') hadd
  · refine Owns.addsDirs ?_ hadd
    rw [hf₁]
    exact h₂.insert fun he => (hk he.symm).symm

/-! ## The system -/

/-- The bookkeeping of a system: the store is consistent, every live writer owns its
    location, and two live writers on one location have one key. -/
structure Sound (s : Sys) : Prop where
  store : Consistent s.store.files s.store.objects
  owns : ∀ b ∈ s.writers, b.fw.Live → Owns s.store.files b.fw
  shared : ∀ b₁ ∈ s.writers, ∀ b₂ ∈ s.writers, b₁.fw.Live → b₂.fw.Live → b₁.fw.location = b₂.fw.location →
    keyOf b₁.fw.fullPath = keyOf b₂.fw.fullPath

/-- A location no row and no live writer carries. -/
def NewLocation (s : Sys) (L : String) : Prop :=
  (∀ k r, s.store.files.lookup k = some r → r.location ≠ L) ∧ ∀ b ∈ s.writers, b.fw.Live → b.fw.location ≠ L

/-- What a call needs beyond succeeding: a location it may draw is new, and a `Move` does
    not take the row at a live writer's path. -/
def Allowed (s : Sys) (env : Env) : Op → Prop
  | .putContent _ _ | .writer _ _ => ∀ r, env.rand = some r → NewLocation s (hexEncode (List.ofFn r))
  | .move src _ => ∀ b ∈ s.writers, b.fw.Live → keyOf b.fw.fullPath ≠ keyOf src
  | _ => True

theorem Sound.init : Sound Sys.init :=
  ⟨Consistent.empty, fun _ h => by simp [Sys.init] at h, fun _ h => by simp [Sys.init] at h⟩

theorem Sys.runOp_ok {s : Sys} {env : Env} {x : Drv Unit} (h : (s.runOp env x).1 = none) :
    ∃ w', x.go (s.world env) = (.ok (), w') ∧ (s.runOp env x).2 = { s with store := w'.store } := by
  unfold Sys.runOp at h ⊢
  rcases hx : x.go (s.world env) with ⟨_ | ⟨⟩, w'⟩ <;> simp only [hx, errOf] at h ⊢
  · cases h
  · exact ⟨w', rfl, rfl⟩

theorem Sys.runWriter_ok {s : Sys} {env : Env} {i : Nat}
    {m : BufferedWriter → StateM World (Option Err × BufferedWriter)} (h : (s.runWriter env i m).1 = none) :
    (s.runWriter env i m).2 = s ∨ ∃ b₀ b' w', s.writers[i]? = some b₀ ∧ (m b₀).run (s.world env) = ((none, b'), w') ∧
      (s.runWriter env i m).2 = ⟨w'.store, s.writers.set i b'⟩ := by
  unfold Sys.runWriter at h ⊢
  rcases hi : s.writers[i]? with _ | b₀
  · exact .inl rfl
  · rcases hm : (m b₀).run (s.world env) with ⟨⟨err, b'⟩, w'⟩
    simp only [hi, hm] at h ⊢
    subst h
    exact .inr ⟨b₀, b', w', rfl, hm, rfl⟩

section Steps
variable {s : Sys} {env : Env}

/-- A call of the driver that changes the store as `deleteDownwards` does, or not at all. -/
theorem Sound.keeps (h : Sound s) {w' : World} (hk : KeepsObjects (s.world env) w') :
    Sound { s with store := w'.store } :=
  ⟨h.store.keeps hk, fun b hb hl => (h.owns b hb hl).sub hk.rows, h.shared⟩

theorem keeps_of_deleteDownwards {w w' : World} {k : Key} (hu : LocationsUnique w.store.files)
    (h : w'.store = w.store ∨ ∃ r, w.store.files.lookup k = some r ∧
      (deleteDownwards (FileInfo.ofRow k r)).go w.popDb = (.ok (), w')) : KeepsObjects w w' := by
  rcases h with h | ⟨r, hr, h⟩
  · exact KeepsObjects.of_store h
  · exact (@KeepsObjects.of_store w w.popDb rfl).trans (deleteDownwards_ok_keeps hu hr h)

theorem Sound.putContent (h : Sound s) (hfresh : ∀ r, env.rand = some r → NewLocation s (hexEncode (List.ofFn r)))
    {p : List String} {c : Bytes} {w' : World} (hok : (putContent p c).go (s.world env) = (.ok (), w')) :
    Sound { s with store := w'.store } := by
  obtain ⟨L, -, hbig, hsmall, w₁, w₂, hf₁, hwfi, hf', hrand, hobj⟩ := putContent_ok hok
  obtain ⟨hadd, -, -⟩ := writeFileInfo_ok hwfi
  -- the row's location is new, or empty
  have hnew : L ≠ "" → NewLocation s L := fun hL => by
    by_cases hu : c.length > maxInlineSizeBytes
    · obtain ⟨r, hr, rfl⟩ := hrand hu
      exact hfresh r hr
    · exact absurd (hsmall (by omega)).1 hL
  have hc : Consistent (s.store.files.insert (keyOf p)
      ⟨c.length, if c.length > maxInlineSizeBytes then [] else c, L⟩) w'.store.objects := by
    refine h.store.insert (fun k' r' hr' hk' hL' => hobj _ (fun he => ?_) fun r₀ hr₀ he => ?_)
      (fun hL k' r' hr' he => absurd he ((hnew hL).1 k' r' hr')) fun _ => ?_
    · exact (hnew (he ▸ hL')).1 k' r' hr' he
    · exact hk' (h.store.unique k' _ r' r₀ hr' hr₀ he.symm hL')
    · unfold Materializes
      by_cases hu : c.length > maxInlineSizeBytes
      · obtain ⟨hL, ho, -⟩ := hbig hu
        simp only [hL, if_false, hu, if_true, true_and]
        exact ⟨c, ho, rfl⟩
      · obtain ⟨rfl, -⟩ := hsmall (by omega)
        simp [hu]
  have hc₂ : Consistent w₂.store.files w'.store.objects :=
    Consistent.addsDirs (by show Consistent (w₁.store.files.insert _ _) _; rw [hf₁]; exact hc) hadd
  refine ⟨by rw [hf']; exact hc₂, fun b hb hl => ?_, h.shared⟩
  rw [hf']
  refine Owns.addsDirs ?_ hadd
  show Owns (w₁.store.files.insert _ _) b.fw
  rw [hf₁]
  refine (h.owns b hb hl).insert fun he => ?_
  -- a live writer's location is not empty, so the row's would be new
  change L = b.fw.location at he
  have hL : L ≠ "" := by rw [he]; exact (h.owns b hb hl).nonempty
  exact absurd he.symm ((hnew hL).2 b hb hl)

/-- `moveFile` re-keys one row: a consistent store stays consistent, and a writer still owns
    its location unless the row moved is at its key. -/
theorem moveFile_sound {ks kd : Key} {st st' : Store} (h : moveFile ks kd st = .ok st')
    (hc : Consistent st.files st.objects) :
    Consistent st'.files st'.objects ∧ ∀ fw, Owns st.files fw → keyOf fw.fullPath ≠ ks → Owns st'.files fw := by
  unfold moveFile at h
  split at h
  · cases h
    exact ⟨hc, fun _ h _ => h⟩
  · rename_i r hr
    by_cases he : ks = kd
    · rw [if_pos he] at h
      cases h
      exact ⟨hc, fun _ h _ => h⟩
    by_cases hm : kd ∈ st.files
    · rw [if_neg he, if_pos hm] at h
      cases h
    · rw [if_neg he, if_neg hm] at h
      cases h
      have hsub : SubTable (st.files.erase ks) st.files := fun _ _ h => (lookup_erase_some h).2
      refine ⟨(hc.sub hsub fun _ _ _ _ => rfl).insert (fun _ _ _ _ _ => rfl) (fun hL k' r' hr' he => ?_)
        fun hf => hc.holds ks r hr hf, fun fw hown hne => (hown.sub hsub).insert fun he => ?_⟩
      · -- the moved row was the only one with its location
        exact absurd (hc.unique k' ks r' r (lookup_erase_some hr').2 hr he (he ▸ hL)) (lookup_erase_some hr').1
      · exact absurd (hown.rows ks r hr he).symm hne

theorem Sound.move {src dst : List String} (h : Sound s)
    (hsrc : ∀ b ∈ s.writers, b.fw.Live → keyOf b.fw.fullPath ≠ keyOf src) {w' : World}
    (hok : (move src dst).go (s.world env) = (.ok (), w')) : Sound { s with store := w'.store } := by
  obtain ⟨w₃, w₄, hdel, hnone, -, -, hmf, -, hadd, -, -⟩ := move_ok hok
  -- first `dst`'s previous row goes, with whatever `deleteDownwards` reaches from it
  have hk : KeepsObjects (s.world env) w₃ := by
    rcases hd : s.store.files.lookup (keyOf dst) with _ | r₂
    · exact KeepsObjects.of_store (hnone hd).1
    · exact (@KeepsObjects.of_store (s.world env) (s.world env).popDb.popDb rfl).trans
        (deleteDownwards_ok_keeps h.store.unique hd (hdel r₂ hd).1)
  have h₃ := h.keeps hk
  obtain ⟨hc₄, hown₄⟩ := moveFile_sound hmf h₃.store
  refine ⟨by rw [hadd.objects]; exact hc₄.addsDirs hadd, fun b hb hl => ?_, h.shared⟩
  exact (hown₄ _ (h₃.owns b hb hl) (hsrc b hb hl)).addsDirs hadd

theorem Sound.delete (h : Sound s) {p : List String} {w' : World} (hok : (delete p).go (s.world env) = (.ok (), w')) :
    Sound { s with store := w'.store } :=
  h.keeps (keeps_of_deleteDownwards h.store.unique (delete_ok hok))

theorem Sound.writer (h : Sound s) (hfresh : ∀ r, env.rand = some r → NewLocation s (hexEncode (List.ofFn r)))
    {cfg : Config} {p : List String} {a : Bool} {b : BufferedWriter} {w' : World}
    (hok : (writer cfg p a).go (s.world env) = (.ok b, w')) : Sound ⟨w'.store, s.writers ++ [b]⟩ := by
  obtain ⟨hnp, -, -⟩ := writer_ok hok
  obtain ⟨hfw, -, -, -, -, -, -, hne, horig, hstore⟩ := newPlusWriter_ok hnp
  have hk := keeps_of_deleteDownwards h.store.unique hstore
  have h' := h.keeps hk
  have hpath : b.fw.fullPath = p := by rw [hfw]
  -- its location is new, or that of `p`'s row, which no other row carries
  have hown : Owns w'.store.files b.fw := by
    refine ⟨hne, fun k r hr he => ?_⟩
    rcases horig with ⟨r₀, hr₀, hloc⟩ | ⟨-, r₁, hr₁, hloc⟩
    · exact absurd (he.trans hloc) ((hfresh r₀ hr₀).1 k r (hk.rows k r hr))
    · rw [hpath]
      exact h.store.unique k (keyOf p) r r₁ (hk.rows k r hr) hr₁ (he.trans hloc.symm) (he ▸ hne)
  -- a live writer on the same location was opened on `p`'s key
  have hkey : ∀ b₂ ∈ s.writers, b₂.fw.Live → b₂.fw.location = b.fw.location →
      keyOf b₂.fw.fullPath = keyOf b.fw.fullPath := by
    intro b₂ hb₂ hl₂ he
    rcases horig with ⟨r₀, hr₀, hloc⟩ | ⟨-, r₁, hr₁, hloc⟩
    · exact absurd (he.trans hloc) ((hfresh r₀ hr₀).2 b₂ hb₂ hl₂)
    · rw [hpath]
      exact ((h.owns b₂ hb₂ hl₂).rows (keyOf p) r₁ hr₁ (hloc.trans he.symm)).symm
  refine ⟨h'.store, fun b₂ hb₂ hl₂ => ?_, fun b₁ hb₁ b₂ hb₂ hl₁ hl₂ he => ?_⟩
  · rcases List.mem_append.mp hb₂ with hb₂ | hb₂
    · exact h'.owns b₂ hb₂ hl₂
    · exact List.mem_singleton.mp hb₂ ▸ hown
  · simp only [List.mem_append, List.mem_singleton] at hb₁ hb₂
    rcases hb₁ with hb₁ | rfl <;> rcases hb₂ with hb₂ | rfl
    · exact h.shared b₁ hb₁ b₂ hb₂ hl₁ hl₂ he
    · exact hkey b₁ hb₁ hl₁ he
    · exact (hkey b₂ hb₂ hl₂ he.symm).symm
    · rfl

/-- A call of writer `i` keeps the system sound when the store stays consistent, every live
    writer still owns its location, and writer `i` stays live only with its location and
    path. -/
theorem Sound.set (h : Sound s) {i : Nat} {b₀ b' : BufferedWriter} {st : Store} (hi : s.writers[i]? = some b₀)
    (hc : Consistent st.files st.objects) (ho : ∀ b ∈ s.writers, b.fw.Live → Owns st.files b.fw)
    (hb' : b'.fw.Live → b₀.fw.Live ∧ b'.fw.location = b₀.fw.location ∧ b'.fw.fullPath = b₀.fw.fullPath) :
    Sound ⟨st, s.writers.set i b'⟩ := by
  -- every live writer of the new list stands for a live writer of the old one
  have hrep : ∀ b ∈ s.writers.set i b', b.fw.Live →
      ∃ c ∈ s.writers, c.fw.Live ∧ b.fw.location = c.fw.location ∧ b.fw.fullPath = c.fw.fullPath := by
    intro b hb hl
    rcases List.mem_or_eq_of_mem_set hb with hb | rfl
    · exact ⟨b, hb, hl, rfl, rfl⟩
    · obtain ⟨hl₀, hloc, hp⟩ := hb' hl
      exact ⟨b₀, List.getElem?_mem hi, hl₀, hloc, hp⟩
  refine ⟨hc, fun b hb hl => ?_, fun b₁ hb₁ b₂ hb₂ hl₁ hl₂ he => ?_⟩
  · obtain ⟨c, hc', hlc, hloc, hp⟩ := hrep b hb hl
    exact (ho c hc' hlc).congr hloc hp
  · obtain ⟨c₁, hc₁, hl₁', hloc₁, hp₁⟩ := hrep b₁ hb₁ hl₁
    obtain ⟨c₂, hc₂, hl₂', hloc₂, hp₂⟩ := hrep b₂ hb₂ hl₂
    rw [hp₁, hp₂]
    exact h.shared c₁ hc₁ c₂ hc₂ hl₁' hl₂' (hloc₁.symm.trans (he.trans hloc₂))

/-- Uploads by writer `i` that only add segments to it keep the system sound. -/
theorem Sound.uploads (h : Sound s) {i : Nat} {b₀ b' : BufferedWriter} {w' : World} (hi : s.writers[i]? = some b₀)
    (hu : Uploads (s.world env) w') (hfw : ∃ new, b'.fw = { b₀.fw with segments := b₀.fw.segments ++ new }) :
    Sound ⟨w'.store, s.writers.set i b'⟩ := by
  obtain ⟨new, hfw⟩ := hfw
  refine h.set hi (h.store.uploads hu) (fun b hb hl => hu.files ▸ h.owns b hb hl) fun hl => ?_
  rw [hfw] at hl ⊢
  exact ⟨hl, rfl, rfl⟩

/-- What a successful flush leaves: uploads only, and the writer's location, path and flags. -/
theorem flush_keeps {b b₁ : BufferedWriter} {w w₁ : World} (h : (b.flush).run w = ((none, b₁), w₁)) :
    Uploads w w₁ ∧ ∃ new, b₁.fw = { b.fw with segments := b.fw.segments ++ new } :=
  ⟨by simpa only [h] using b.flush_uploads w, (flush_ok h).1.segments.imp fun _ h => h.1⟩

theorem Sound.write (h : Sound s) {i : Nat} {b₀ b' : BufferedWriter} {data : Bytes} {n : Nat} {w' : World}
    (hi : s.writers[i]? = some b₀) (hok : (b₀.write data).run (s.world env) = (((n, none), b'), w')) :
    Sound ⟨w'.store, s.writers.set i b'⟩ :=
  h.uploads hi (by simpa only [hok] using b₀.write_uploads data (s.world env))
    ((write_ok hok).1.segments.imp fun _ h => h.1)

/-- A `Commit` of writer `i`, or a `Close` that commits: the flush, then the `plusWriter`'s
    `Commit`. -/
theorem Sound.commit (h : Sound s) {i : Nat} {b₀ b₁ : BufferedWriter} {fw : PlusWriter} {w₁ w' : World}
    (hi : s.writers[i]? = some b₀) (hf : (b₀.flush).run (s.world env) = ((none, b₁), w₁))
    (hc : (b₁.fw.commit).run w₁ = ((none, fw), w')) : Sound ⟨w'.store, s.writers.set i { b₁ with fw }⟩ := by
  obtain ⟨hu, new, hfw⟩ := flush_keeps hf
  have hb₀ := List.getElem?_mem hi
  -- the flush leaves the writer's flags, location and path
  have hl₀ : b₁.fw.Live ↔ b₀.fw.Live := by rw [hfw]; rfl
  obtain ⟨hlive, hcw, hdone, hown⟩ := PlusWriter.commit_sound hc (h.store.uploads hu) fun hl =>
    (hu.files ▸ h.owns b₀ hb₀ (hl₀.mp hl)).congr (by rw [hfw]) (by rw [hfw])
  refine h.set hi hcw (fun b hb hl => hown _ (hu.files ▸ h.owns b hb hl) fun he => ?_) fun hl => absurd hl.1 (by simp [hdone])
  rw [hfw] at he ⊢
  exact h.shared b hb b₀ hb₀ hl (hl₀.mp hlive) he

theorem Sound.cancel (h : Sound s) {i : Nat} {b₀ b₁ : BufferedWriter} {fw : PlusWriter} {w₁ w' : World}
    (hi : s.writers[i]? = some b₀) (hf : (b₀.flush).run (s.world env) = ((none, b₁), w₁))
    (hc : (b₁.fw.cancel).run w₁ = ((none, fw), w')) : Sound ⟨w'.store, s.writers.set i { b₁ with fw }⟩ := by
  obtain ⟨hu, -, -⟩ := flush_keeps hf
  obtain ⟨rfl, hdel⟩ := PlusWriter.cancel_ok hc
  have hc₁ := h.store.uploads hu
  have hk := keeps_of_deleteDownwards hc₁.unique (delete_ok hdel)
  exact h.set hi (hc₁.keeps hk) (fun b hb hl => (hu.files ▸ h.owns b hb hl).sub hk.rows) fun hl => absurd hl.2 (by simp)

/-- An operation that hands out no writer keeps the system sound when each of its successful
    runs does. -/
theorem Sound.runOp {x : Drv Unit} (hx : ∀ w', x.go (s.world env) = (.ok (), w') → Sound { s with store := w'.store })
    (hok : (s.runOp env x).1 = none) : Sound (s.runOp env x).2 := by
  obtain ⟨w', hw, he⟩ := Sys.runOp_ok hok
  exact he ▸ hx w' hw

/-- A method of writer `i` keeps a sound system sound when each of its successful runs does. -/
theorem Sound.runWriter (h : Sound s) {i : Nat} {m : BufferedWriter → StateM World (Option Err × BufferedWriter)}
    (hm : ∀ b₀ b' w', s.writers[i]? = some b₀ → (m b₀).run (s.world env) = ((none, b'), w') →
      Sound ⟨w'.store, s.writers.set i b'⟩)
    (hok : (s.runWriter env i m).1 = none) : Sound (s.runWriter env i m).2 := by
  rcases Sys.runWriter_ok hok with he | ⟨b₀, b', w', hi, hb, he⟩ <;> rw [he]
  · exact h
  · exact hm b₀ b' w' hi hb

/-- One call of the system that succeeds and is allowed keeps it sound. -/
theorem Sound.step (cfg : Config) {op : Op} (h : Sound s) (ha : Allowed s env op)
    (hok : (s.step cfg env op).1 = none) : Sound (s.step cfg env op).2 := by
  cases op with
  | putContent p c => exact Sound.runOp (fun _ hw => h.putContent ha hw) hok
  | move src dst => exact Sound.runOp (fun _ hw => h.move ha hw) hok
  | delete p => exact Sound.runOp (fun _ hw => h.delete hw) hok
  | writer p a =>
    simp only [Sys.step] at hok ⊢
    rcases hw : (Keppel.Swiftplus.writer cfg p a).go (s.world env) with ⟨_ | b, w'⟩ <;> rw [hw] at hok
    · cases hok
    · exact h.writer ha hw
  | write i data =>
    refine h.runWriter (fun b₀ b' w' hi hm => ?_) hok
    simp only [run_bind'] at hm
    rcases hx : (b₀.write data).run (s.world env) with ⟨⟨⟨n, err⟩, b₁⟩, w₁⟩
    rw [hx] at hm
    cases hm
    exact h.write hi hx
  | commit i =>
    refine h.runWriter (fun b₀ b' w' hi hm => ?_) hok
    obtain ⟨b₁, w₁, fw, hf, hc, rfl⟩ := andThen_ok hm
    exact h.commit hi hf hc
  | cancel i =>
    refine h.runWriter (fun b₀ b' w' hi hm => ?_) hok
    obtain ⟨b₁, w₁, fw, hf, hc, rfl⟩ := andThen_ok hm
    exact h.cancel hi hf hc
  | close i =>
    refine h.runWriter (fun b₀ b' w' hi hm => ?_) hok
    obtain ⟨b₁, w₁, fw, hf, hc, rfl⟩ := andThen_ok hm
    rcases PlusWriter.close_ok hc with hc | ⟨rfl, rfl⟩
    · exact h.commit hi hf hc
    · exact h.uploads hi (flush_keeps hf).1 (flush_keeps hf).2

end Steps

/-! ## Every history -/

/-- The systems reachable from the empty store by calls that succeed and are allowed. -/
inductive Reachable (cfg : Config) : Sys → Prop
  | init : Reachable cfg Sys.init
  | step {s : Sys} {env : Env} {op : Op} : Reachable cfg s → Allowed s env op → (s.step cfg env op).1 = none →
      Reachable cfg (s.step cfg env op).2

theorem Reachable.sound {cfg : Config} {s : Sys} (h : Reachable cfg s) : Sound s := by
  induction h with
  | init => exact Sound.init
  | step _ ha hok ih => exact ih.step cfg ha hok

/-- In every system reachable by calls that succeed and are allowed, no two rows carry one
    location and every file row holds as many bytes as its size says; so `GetContent(p)`,
    in a later call where every backend call succeeds, returns as many bytes as `Stat(p)`
    reports for a file. -/
theorem reachable_consistent {cfg : Config} {s : Sys} (h : Reachable cfg s) :
    Consistent s.store.files s.store.objects ∧
      ∀ p r n fi, ((stat p).go ⟨s.store, Env.ok r, n⟩).1 = .ok fi → 0 ≤ fi.sizeBytes →
        ∃ c, ((getContent cfg p).go ⟨s.store, Env.ok r, n⟩).1 = .ok c ∧ (c.length : Int) = fi.sizeBytes :=
  ⟨h.sound.store, fun p r n _ hs hf => h.sound.store.getContent_stat cfg s.store.segments p r n hs hf⟩

/-- A session that writes `[1, 2]` to `/a` in chunks of one byte. -/
def sessionA : Sys :=
  (((Sys.init.step cfgChunk1 envOk (.writer ["a"] false)).2.step cfgChunk1 envOk (.write 0 [1, 2])).2.step
    cfgChunk1 envOk (.commit 0)).2

theorem reachable_consistent_sample :
    Reachable cfgChunk1 sessionA ∧ Consistent sessionA.store.files sessionA.store.objects :=
  have hr : Reachable cfgChunk1 sessionA :=
    .step (.step (.step .init (fun _ _ => ⟨fun _ _ h => by simp [Sys.init, Store.empty] at h,
      fun _ h => by simp [Sys.init] at h⟩) rfl) trivial rfl) trivial rfl
  ⟨hr, (reachable_consistent hr).1⟩

/-! ## As built: open writers and locations -/

/-- Every call of a history succeeds. -/
def Sys.Succeeds (cfg : Config) : Sys → List (Op × Env) → Prop
  | _, [] => True
  | s, (op, env) :: rest => (s.step cfg env op).1 = none ∧ Sys.Succeeds cfg (s.step cfg env op).2 rest

/-- The location crypto/rand yields in `envOk`. -/
def zeroLocation : String := hexEncode (List.ofFn fun _ : Fin 8 => (0 : UInt8))

/-- `/a` written by a session; then writer `1` opened to append to `/a`, `Move(/a, /b)`,
    and a `Write` and `Commit` of writer `1`. -/
def moveUnderWriter : List (Op × Env) :=
  [(.writer ["a"] false, envOk), (.write 0 [1], envOk), (.commit 0, envOk), (.writer ["a"] true, envOk),
    (.move ["a"] ["b"], envOk), (.write 1 [2], envOk), (.commit 1, envOk)]

/-- Two writers opened before either writes, then both committed. -/
def twoFreshWriters : List (Op × Env) :=
  [(.writer ["a"] false, envOk), (.writer ["b"] false, envOk), (.commit 0, envOk), (.commit 1, envOk)]

theorem open_writers_share_locations :
    Sys.Succeeds cfgChunk1 Sys.init moveUnderWriter ∧
      (Sys.init.run cfgChunk1 moveUnderWriter).store.files.lookup (keyOf ["a"]) = some ⟨2, [], zeroLocation⟩ ∧
      (Sys.init.run cfgChunk1 moveUnderWriter).store.files.lookup (keyOf ["b"]) = some ⟨1, [], zeroLocation⟩ ∧
      ((getContent cfgChunk1 ["b"]).go ⟨(Sys.init.run cfgChunk1 moveUnderWriter).store, envOk, 0⟩).1 = .ok [1, 2] ∧
      ((getContent cfgChunk1 ["a"]).go ⟨((Sys.init.run cfgChunk1 moveUnderWriter).step cfgChunk1 envOk
        (.delete ["b"])).2.store, envOk, 0⟩).1 = .error (.pathNotFound "/a") ∧
      Sys.Succeeds cfgChunk1 Sys.init twoFreshWriters ∧
      (Sys.init.step cfgChunk1 envOk (.writer ["a"] false)).2.store = Store.empty ∧
      (Sys.init.run cfgChunk1 twoFreshWriters).store.files.lookup (keyOf ["a"]) = some ⟨0, [], zeroLocation⟩ ∧
      (Sys.init.run cfgChunk1 twoFreshWriters).store.files.lookup (keyOf ["b"]) = some ⟨0, [], zeroLocation⟩ :=
  ⟨⟨rfl, rfl, rfl, rfl, rfl, rfl, rfl, trivial⟩, rfl, rfl, rfl, rfl, ⟨rfl, rfl, rfl, rfl, trivial⟩, rfl, rfl, rfl⟩

end Keppel.Swiftplus
