/-
  Keppel.Swiftplus.Names — the names the driver gives its objects in Swift, and why the model
  may keep Swift's container by `ObjPath`.

  Swift keeps objects by name. A file's content is at
  `prependPrefix(ObjectPrefix, Location + "/content")`, its segment `n` at
  `prependPrefix(ObjectPrefix, Location) + "/" + %016d`, and `deleteBlobs` removes every
  object whose name starts with `prependPrefix(ObjectPrefix, Location) + "/"`. The model keys
  objects by location and name instead, and deletes by location. A location that
  `plusRandLocation` draws is 16 hex digits (`HexLocation`): no slash, a fixed length.

  Proved:
  - `render_injective`: two objects at such locations never share a name.
  - `deleteAll_prefix`: the `DeleteAll` prefix of a location starts the name of exactly
    the objects of that location.
  - `represents_swiftCalls`: `Write`, `DeleteAll`, `Reader` and `WriteSLO` of the
    model, at such locations, are Swift's calls on the container by names (`Represents`):
    the same answers, and the correspondence kept.
-/

import Keppel.Swiftplus.Driver
import Mathlib.Data.Nat.Digits

namespace Keppel.Swiftplus

/-! ## Hex locations -/

/-- A location that `plusRandLocation` can draw: the hex text of 8 random bytes. -/
def HexLocation (L : String) : Prop := ∃ r : Fin 8 → UInt8, L = hexEncode (List.ofFn r)

theorem digitChar_ne_slash : ∀ d < 16, Nat.digitChar d ≠ '/' := by decide

theorem hexEncode_data (bs : List UInt8) :
    (hexEncode bs).data.length = 2 * bs.length ∧ '/' ∉ (hexEncode bs).data := by
  induction bs with
  | nil => simp [hexEncode]
  | cons b bs ih =>
    have hb : b.toNat < 256 := b.val.isLt
    simp only [hexEncode, List.flatMap_cons, List.length_append, List.length_cons, List.length_nil, List.mem_append,
      List.mem_cons, not_or] at ih ⊢
    refine ⟨by omega, ⟨(digitChar_ne_slash _ (Nat.div_lt_of_lt_mul (by omega))).symm,
      (digitChar_ne_slash _ (Nat.mod_lt _ (by omega))).symm, List.not_mem_nil _⟩, ih.2⟩

theorem HexLocation.data {L : String} (h : HexLocation L) : L.data.length = 16 ∧ '/' ∉ L.data := by
  obtain ⟨r, rfl⟩ := h
  obtain ⟨h₁, h₂⟩ := hexEncode_data (List.ofFn r)
  exact ⟨by simpa using h₁, h₂⟩

/-! ## `prependPrefix` of a name without slashes at its ends -/

theorem dropWhile_slash {l : List Char} (h : l.head? ≠ some '/') : l.dropWhile (· = '/') = l := by
  cases l with
  | nil => rfl
  | cons a l => exact List.dropWhile_cons_of_neg (by simpa using h)

/-- What `prependPrefix` puts before a name. -/
def pfxPart (pfx : String) : List Char := if pfx = "" then [] else pfx.data ++ ['/']

theorem prependPrefix_data (pfx : String) {x : String} (h₁ : x.data.head? ≠ some '/')
    (h₂ : x.data.getLast? ≠ some '/') : (prependPrefix pfx x).data = pfxPart pfx ++ x.data := by
  have ht : ((x.data.dropWhile (· = '/')).reverse.dropWhile (· = '/')).reverse = x.data := by
    rw [dropWhile_slash h₁, dropWhile_slash (by rwa [List.head?_reverse]), List.reverse_reverse]
  unfold prependPrefix pfxPart
  split_ifs <;> simp [ht, String.data_append]

/-! ## `%016d` -/

/-- The value of a decimal digit. -/
def digitVal (c : Char) : Nat := c.toNat - 48

/-- The number a string of decimal digits denotes. -/
def digitsVal (l : List Char) : Nat := l.foldl (fun acc c => 10 * acc + digitVal c) 0

theorem digitsVal_concat (l : List Char) (c : Char) : digitsVal (l ++ [c]) = 10 * digitsVal l + digitVal c := by
  simp [digitsVal, List.foldl_append]

theorem digitVal_digitChar : ∀ d < 10, digitVal (Nat.digitChar d) = d := by decide

theorem toDigitsCore_append (f : Nat) : ∀ n ds, Nat.toDigitsCore 10 f n ds = Nat.toDigitsCore 10 f n [] ++ ds := by
  induction f with
  | zero => intro n ds; rfl
  | succ f ih =>
    intro n ds
    simp only [Nat.toDigitsCore]
    split
    · rfl
    · rw [ih _ (_ :: ds), ih _ [_], List.append_assoc, List.singleton_append]

theorem digitsVal_toDigitsCore (f : Nat) : ∀ n < f, digitsVal (Nat.toDigitsCore 10 f n []) = n := by
  induction f with
  | zero => intro n h; omega
  | succ f ih =>
    intro n hn
    simp only [Nat.toDigitsCore]
    split
    · rw [show [Nat.digitChar (n % 10)] = [] ++ [Nat.digitChar (n % 10)] from rfl, digitsVal_concat,
        digitVal_digitChar _ (Nat.mod_lt _ (by omega))]
      simp [digitsVal]; omega
    · rw [toDigitsCore_append, digitsVal_concat, ih _ (by omega), digitVal_digitChar _ (Nat.mod_lt _ (by omega))]
      omega

theorem digitsVal_zeros (k : Nat) (l : List Char) : digitsVal (List.replicate k '0' ++ l) = digitsVal l := by
  have : ∀ k, (List.replicate k '0').foldl (fun acc c => 10 * acc + digitVal c) 0 = 0 := by
    intro k
    induction k with
    | zero => rfl
    | succ k ih => rw [List.replicate_succ', List.foldl_append, ih]; rfl
  simp only [digitsVal, List.foldl_append, this]

theorem digitsVal_pad16 (n : Nat) : digitsVal (pad16 n).data = n := by
  simp only [pad16, digitsVal_zeros, Nat.toDigits]
  exact digitsVal_toDigitsCore _ n (by omega)

theorem pad16_length (n : Nat) : 16 ≤ (pad16 n).data.length := by
  simp only [pad16, List.length_append, List.length_replicate]
  omega

/-! ## Object names -/

/-- What follows `<prefix>/<location>/` in an object's name. -/
def ObjName.suffix : ObjName → List Char
  | .content => "content".data
  | .segment n => (pad16 n).data

theorem ObjName.suffix_injective {a b : ObjName} (h : a.suffix = b.suffix) : a = b := by
  cases a with
  | content => cases b with
    | content => rfl
    | segment n => have := pad16_length n; simp only [ObjName.suffix] at h; rw [← h] at this; simp at this
  | segment m => cases b with
    | content => have := pad16_length m; simp only [ObjName.suffix] at h; rw [h] at this; simp at this
    | segment n => rw [← digitsVal_pad16 m, ← digitsVal_pad16 n]; exact congrArg _ (congrArg digitsVal h)

theorem head?_ne_slash {l : List Char} (h : '/' ∉ l) : l.head? ≠ some '/' := fun he => h (List.mem_of_mem_head? he)

/-- `prependPrefix` of a drawn location trims nothing. -/
theorem HexLocation.prependPrefix_data {L : String} (h : HexLocation L) (pfx : String) :
    (prependPrefix pfx L).data = pfxPart pfx ++ L.data :=
  Keppel.Swiftplus.prependPrefix_data pfx (head?_ne_slash h.data.2) fun he => h.data.2 (List.mem_of_getLast?_eq_some he)

theorem render_data (pfx : String) {o : ObjPath} (h : HexLocation o.location) :
    (o.render pfx).data = pfxPart pfx ++ o.location.data ++ '/' :: o.name.suffix := by
  obtain ⟨hlen, hs⟩ := h.data
  have hne : o.location.data ≠ [] := List.ne_nil_of_length_pos (by omega)
  rcases o with ⟨L, _ | n⟩ <;> simp only [ObjPath.render, ObjName.suffix] at hne hs ⊢
  · rw [prependPrefix_data pfx (by simpa [String.data_append, List.head?_append_of_ne_nil _ hne] using head?_ne_slash hs)
      (by simp [String.data_append]), String.data_append, List.append_assoc]
  · rw [String.data_append, String.data_append, h.prependPrefix_data pfx]
    simp

/-- Two objects at drawn locations never share a name in Swift. -/
theorem render_injective (pfx : String) {o o' : ObjPath} (h : HexLocation o.location) (h' : HexLocation o'.location)
    (he : o.render pfx = o'.render pfx) : o = o' := by
  have hd := congrArg String.data he
  rw [render_data pfx h, render_data pfx h', List.append_assoc, List.append_assoc, List.append_cancel_left_eq] at hd
  obtain ⟨hL, hs⟩ := List.append_inj hd (by rw [h.data.1, h'.data.1])
  rcases o with ⟨L, a⟩
  rcases o' with ⟨L', b⟩
  obtain rfl : L = L' := String.ext hL
  exact congrArg _ (ObjName.suffix_injective (List.cons.inj hs).2)

/-- `DeleteAll(<prefix>/<location>/)` takes exactly the objects of that location. -/
theorem deleteAll_prefix (pfx : String) {L : String} {o : ObjPath} (hL : HexLocation L) (ho : HexLocation o.location) :
    (prependPrefix pfx L ++ "/").data <+: (o.render pfx).data ↔ o.location = L := by
  have hlen := hL.data.1
  rw [render_data pfx ho, String.data_append, hL.prependPrefix_data pfx, List.append_assoc, List.append_assoc,
    List.prefix_append_right_inj]
  constructor
  · intro hp
    rw [List.prefix_iff_eq_take] at hp
    have : (o.location.data ++ '/' :: o.name.suffix).take (L.data ++ "/".data).length =
        o.location.data ++ ['/'] := by
      rw [List.length_append, hlen, ← ho.data.1, List.take_append_eq_append_take]
      simp
    obtain ⟨hL', -⟩ := List.append_inj (hp.trans this) (by rw [hlen, ho.data.1])
    exact (String.ext hL').symm
  · intro he
    rw [he]
    exact List.prefix_append_right_inj _ |>.mpr (by simp)

/-! ## The container by names -/

/-- Swift's container: objects by their name. -/
abbrev Container := String → Option Bytes

/-- Swift's `Write` of an object under a name. -/
def Container.write (c : Container) (name : String) (d : Bytes) : Container :=
  fun m => if m = name then some d else c m

/-- Swift's `DeleteAll`: every object whose name starts with the given text. -/
def Container.deleteAll (c : Container) (start : String) : Container :=
  fun m => if start.data <+: m.data then none else c m

/-- Swift's `Reader` of an object from an offset on. -/
def Container.reader (c : Container) (name : String) (offset : Nat) : Except Err Bytes :=
  match c name with
  | some d => .ok (d.drop offset)
  | none => .error (.pathNotFound name)

/-- Swift's `WriteSLO`: a manifest of segments, each given by its name, size and etag, which Swift
    accepts when every segment is present with that etag and size. -/
def Container.writeSLO (c : Container) (name : String) (segments : List (String × Nat × Bytes)) :
    Except Err Container :=
  if segments.all (fun (n, size, hash) => c n = some hash && hash.length = size) then
    .ok (c.write name (segments.map (·.2.2)).flatten)
  else .error (.swift 400)

/-- A segment as the manifest names it: `ObjectPath()`, `SizeBytes`, `Hash`. -/
def Segment.named (pfx : String) (s : Segment) : String × Nat × Bytes :=
  (s.objectPath.render pfx, s.sizeBytes, s.hash)

/-- The model's objects are the container's, under their names, at every location that
    `plusRandLocation` can draw. -/
def Represents (pfx : String) (objs : ObjPath → Option Bytes) (c : Container) : Prop :=
  ∀ o, HexLocation o.location → c (o.render pfx) = objs o

section Represents

variable {pfx : String} {objs : ObjPath → Option Bytes} {c : Container}

theorem Represents.write (h : Represents pfx objs c) {o : ObjPath} (ho : HexLocation o.location) (d : Bytes) :
    Represents pfx (setObject objs o d) (c.write (o.render pfx) d) := fun o' ho' => by
  simp only [Container.write, setObject]
  by_cases he : o' = o
  · simp [he]
  · rw [if_neg (fun e => he (render_injective pfx ho' ho e)), if_neg he, h o' ho']

theorem Represents.deleteAll (h : Represents pfx objs c) {L : String} (hL : HexLocation L) :
    Represents pfx (fun o => if o.location = L then none else objs o)
      (c.deleteAll (prependPrefix pfx L ++ "/")) := fun o ho => by
  simp only [Container.deleteAll, deleteAll_prefix pfx hL ho]
  split_ifs <;> simp [h o ho]

theorem Represents.segmentValid (h : Represents pfx objs c) {segs : List Segment}
    (hs : ∀ s ∈ segs, HexLocation s.location) :
    segs.all (segmentValid objs) = (segs.map (Segment.named pfx)).all
      (fun (n, size, hash) => c n = some hash && hash.length = size) := by
  induction segs with
  | nil => rfl
  | cons s segs ih =>
    simp only [List.all_cons, List.map_cons, ih fun t ht => hs t (.tail _ ht), Keppel.Swiftplus.segmentValid,
      Segment.named, h s.objectPath (hs s (.head _))]

/-- Every call of the model on Swift, at a location that `plusRandLocation` can draw, is the
    container's call at the object's name: the same answer, and the container stays represented. -/
theorem represents_swiftCalls {cfg : Config} {w : World} {c : Container}
    (h : Represents cfg.objectPrefix w.store.objects c) :
    (∀ o d, HexLocation o.location → Represents cfg.objectPrefix ((swiftWrite o d).go w).2.store.objects
      (if w.swiftHead = none then c.write (o.render cfg.objectPrefix) d else c)) ∧
    (∀ L, HexLocation L → Represents cfg.objectPrefix ((swiftDeleteAll L).go w).2.store.objects
      (if w.swiftHead = none then c.deleteAll (prependPrefix cfg.objectPrefix L ++ "/") else c)) ∧
    (∀ o n, HexLocation o.location → ((swiftReader cfg o n).go w).1 =
      match w.swiftHead with
      | some e => .error e
      | none => c.reader (o.render cfg.objectPrefix) n) ∧
    (∀ o segs, HexLocation o.location → (∀ s ∈ segs, HexLocation s.location) →
      match w.swiftHead, c.writeSLO (o.render cfg.objectPrefix) (segs.map (Segment.named cfg.objectPrefix)) with
      | some e, _ => ((swiftWriteSLO o segs).go w).1 = .error e
      | none, .error e => ((swiftWriteSLO o segs).go w).1 = .error e
      | none, .ok c' => ((swiftWriteSLO o segs).go w).1 = .ok () ∧
          Represents cfg.objectPrefix ((swiftWriteSLO o segs).go w).2.store.objects c') := by
  refine ⟨fun o d ho => ?_, fun L hL => ?_, fun o n ho => ?_, fun o segs ho hs => ?_⟩
  · rw [swiftWrite_go]; cases w.swiftHead <;> simp only [if_true, reduceCtorEq, if_false]
    exacts [h.write ho d, h]
  · rw [swiftDeleteAll_go]; cases w.swiftHead <;> simp only [if_true, reduceCtorEq, if_false]
    exacts [h.deleteAll hL, h]
  · rw [swiftReader_go, Container.reader, h o ho]
    cases w.swiftHead <;> cases w.store.objects o <;> rfl
  · rw [swiftWriteSLO_go, Container.writeSLO, ← h.segmentValid hs]
    cases w.swiftHead with
    | some e => rfl
    | none =>
      by_cases hv : segs.all (segmentValid w.store.objects) = true
      · rw [if_pos hv, if_pos hv, List.map_map]
        exact ⟨rfl, h.write ho _⟩
      · simp only [if_neg hv]

end Represents

theorem represents_swiftCalls_empty :
    Represents "keppel" Store.empty.objects (fun _ => none) ∧ let w : World := ⟨Store.empty, Env.ok fun _ => 0, 0⟩
    let cfg : Config := ⟨"keppel", 1⟩
    (∀ o d, HexLocation o.location → Represents cfg.objectPrefix ((swiftWrite o d).go w).2.store.objects
      (if w.swiftHead = none then Container.write (fun _ => none) (o.render cfg.objectPrefix) d else fun _ => none)) ∧
    (∀ L, HexLocation L → Represents cfg.objectPrefix ((swiftDeleteAll L).go w).2.store.objects
      (if w.swiftHead = none then Container.deleteAll (fun _ => none) (prependPrefix cfg.objectPrefix L ++ "/")
        else fun _ => none)) ∧
    (∀ o n, HexLocation o.location → ((swiftReader cfg o n).go w).1 =
      match w.swiftHead with
      | some e => .error e
      | none => Container.reader (fun _ => none) (o.render cfg.objectPrefix) n) ∧
    (∀ o segs, HexLocation o.location → (∀ s ∈ segs, HexLocation s.location) →
      match w.swiftHead, Container.writeSLO (fun _ => none) (o.render cfg.objectPrefix)
        (segs.map (Segment.named cfg.objectPrefix)) with
      | some e, _ => ((swiftWriteSLO o segs).go w).1 = .error e
      | none, .error e => ((swiftWriteSLO o segs).go w).1 = .error e
      | none, .ok c' => ((swiftWriteSLO o segs).go w).1 = .ok () ∧
          Represents cfg.objectPrefix ((swiftWriteSLO o segs).go w).2.store.objects c') :=
  ⟨fun _ _ => rfl, @represents_swiftCalls ⟨"keppel", 1⟩ ⟨Store.empty, Env.ok fun _ => 0, 0⟩ _ fun _ _ => rfl⟩

end Keppel.Swiftplus
