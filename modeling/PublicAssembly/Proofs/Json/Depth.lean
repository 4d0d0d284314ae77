import Mathlib.Data.List.Basic
import PublicAssembly.Document.ToJson
import PublicAssembly.Json.Decode

/-!
# How deep values may be nested

A decoder looks at containers down to a given depth. So it reads back what was written for a value
exactly if that is not nested deeper (`Decoder.Inverts`). Conversely, something that a decoder reads
can mostly be written without nesting it deeper than the decoder looks (`Decoder.Fits`); what cannot
are fields that may be missing and are written all the same.

## Main definitions

* `Json.depth`: how deep containers are nested in a value;
* `Decoder.Inverts`, `Decoder.Fits`: what is read of what was written, and written of what was read.

## Main statements

* `Decoder.Inverts.list`, `Decoder.Inverts.optional`: decoders that are made of others.
-/

namespace PublicAssembly.Json

mutual

/-- How deep containers are nested in a value: an empty container has depth 1. -/
def depth : Json → Nat
  | array items => depthOfItems items + 1
  | object members => depthOfMembers members + 1
  | _ => 0

/-- How deep containers are nested in some values. -/
def depthOfItems : List Json → Nat
  | [] => 0
  | item :: items => max item.depth (depthOfItems items)

/-- How deep containers are nested in the values under some keys. -/
def depthOfMembers : List (Option String × Json) → Nat
  | [] => 0
  | (_, value) :: members => max value.depth (depthOfMembers members)

end

@[simp]
theorem depth_ofText (text : String) : (ofText text).depth = 0 := by
  simp [ofText, depth]

@[simp]
theorem depth_ofNat (value : Nat) : (ofNat value).depth = 0 := by
  simp [ofNat, depth]

/-- Some values are nested at most so deep if each of them is. -/
theorem depthOfItems_le_iff {items : List Json} {n : Nat} :
    depthOfItems items ≤ n ↔ ∀ item ∈ items, item.depth ≤ n := by
  induction items with
  | nil => simp [depthOfItems]
  | cons item items ih => rw [depthOfItems, Nat.max_le, ih, List.forall_mem_cons]

/-- Values that are nested equally deep one by one are so together. -/
theorem depthOfItems_map_congr {α : Type} {f g : α → Json} {xs : List α}
    (h : ∀ x ∈ xs, (f x).depth = (g x).depth) :
    depthOfItems (xs.map f) = depthOfItems (xs.map g) := by
  induction xs with
  | nil => rfl
  | cons x xs ih =>
    rw [List.forall_mem_cons] at h
    rw [List.map_cons, List.map_cons, depthOfItems, depthOfItems, h.1, ih h.2]

@[simp]
theorem depth_array (items : List Json) : (array items).depth = depthOfItems items + 1 := by
  rw [depth]

@[simp]
theorem depth_ofMembers (members : List (String × Json)) :
    (ofMembers members).depth = depthOfItems (members.map Prod.snd) + 1 := by
  rw [ofMembers, depth]
  congr 1
  induction members with
  | nil => rfl
  | cons member members ih =>
    rw [List.map_cons, depthOfMembers, ih, List.map_cons, depthOfItems]

namespace Decoder

variable {α : Type} {decode : Decoder α} {toJson : α → Json}

/-- What was written for a value is read as the value exactly if it is not nested too deep. -/
def Inverts (decode : Decoder α) (toJson : α → Json) : Prop :=
  ∀ room x y, decode room (toJson x) = some y ↔ (toJson x).depth ≤ room ∧ x = y

/-- What was read can be written without nesting it deeper than was looked. -/
def Fits (decode : Decoder α) (toJson : α → Json) : Prop :=
  ∀ room json x, decode room json = some x → (toJson x).depth ≤ room

/-! ### Values without containers -/

@[simp]
theorem text_ofText (room : Nat) (string : String) : text room (ofText string) = some string := rfl

/-- A number below the bound is read back. -/
theorem naturalBelow_ofNat {bound value : Nat} (h : value < bound) (room : Nat) :
    naturalBelow bound room (ofNat value) = some value :=
  if_pos h

@[simp]
theorem byte_ofNat (room : Nat) (value : UInt8) : byte room (ofNat value.toNat) = some value := by
  rw [byte, naturalBelow_ofNat value.toNat_lt, Option.map_some, UInt8.ofNat_toNat]

@[simp]
theorem word_ofNat (room : Nat) (value : UInt16) : word room (ofNat value.toNat) = some value := by
  rw [word, naturalBelow_ofNat value.toNat_lt, Option.map_some, UInt16.ofNat_toNat]

@[simp]
theorem doubleWord_ofNat (room : Nat) (value : UInt32) :
    doubleWord room (ofNat value.toNat) = some value := by
  rw [doubleWord, naturalBelow_ofNat value.toNat_lt, Option.map_some, UInt32.ofNat_toNat]

/-- A name is read as what it is found as. -/
@[simp]
theorem keyword_ofText (ofKey? : String → Option α) (room : Nat) (key : String) :
    keyword ofKey? room (ofText key) = ofKey? key := rfl

/-- A value without containers is read back if it is read back at all. -/
theorem Inverts.of_scalar (hdepth : ∀ x, (toJson x).depth = 0)
    (hread : ∀ room x, decode room (toJson x) = some x) : Inverts decode toJson := by
  intro room x y
  simp [hread, hdepth]

/-- A decoder that looks into a container reads back what is one if it does with room for it. -/
theorem Inverts.of_container (hdepth : ∀ x, 0 < (toJson x).depth)
    (hzero : ∀ json, decode 0 json = none)
    (hsucc : ∀ room x y, decode (room + 1) (toJson x) = some y ↔
      (toJson x).depth ≤ room + 1 ∧ x = y) : Inverts decode toJson := by
  intro room x y
  cases room with
  | zero =>
    rw [hzero]
    exact iff_of_false nofun fun h => Nat.not_le.2 (hdepth x) h.1
  | succ room => exact hsucc room x y

/-- A record of values without containers can be written as deep as it was read. -/
theorem Fits.of_record (hdepth : ∀ x, (toJson x).depth = 1) (hzero : ∀ json, decode 0 json = none) :
    Fits decode toJson := by
  intro room json x h
  cases room with
  | zero =>
    rw [hzero] at h
    cases h
  | succ room => simp [hdepth]

/-! ### Decoders made of others -/

/-- Something that may be absent is read back if it is never null itself. -/
theorem Inverts.optional (h : Inverts decode toJson) (hnull : ∀ x, toJson x ≠ .null) :
    Inverts (optional decode) (.ofOption toJson) := by
  intro room x y
  cases x with
  | none =>
    have hread : Decoder.optional decode room .null = some none := rfl
    simp [ofOption, hread, depth]
  | some x =>
    -- what was written is not null, and so it is not taken for something absent
    have hread : Decoder.optional decode room (toJson x) = (decode room (toJson x)).map some := by
      rw [Decoder.optional]
      exact hnull x
    rw [ofOption, hread, Option.map_eq_some_iff]
    constructor
    · rintro ⟨z, hz, rfl⟩
      obtain ⟨hdepth, rfl⟩ := (h room x z).1 hz
      exact ⟨hdepth, rfl⟩
    · rintro ⟨hdepth, rfl⟩
      exact ⟨x, (h room x x).2 ⟨hdepth, rfl⟩, rfl⟩

/-- Values one after another are read back if each is. -/
theorem Inverts.mapM (h : Inverts decode toJson) (room : Nat) (xs ys : List α) :
    (xs.map toJson).mapM (decode room) = some ys ↔
      (∀ x ∈ xs, (toJson x).depth ≤ room) ∧ xs = ys := by
  induction xs generalizing ys with
  | nil => simp [eq_comm]
  | cons x xs ih =>
    simp only [List.map_cons, List.mapM_cons, Option.bind_eq_bind, Option.bind_eq_some_iff,
      Option.pure_def, Option.some.injEq, h room, ih, List.forall_mem_cons]
    constructor
    · rintro ⟨y, ⟨hx, rfl⟩, zs, ⟨hxs, rfl⟩, rfl⟩
      exact ⟨⟨hx, hxs⟩, rfl⟩
    · rintro ⟨⟨hx, hxs⟩, rfl⟩
      exact ⟨x, ⟨hx, rfl⟩, xs, ⟨hxs, rfl⟩, rfl⟩

/-- An array is read back if its items are. -/
theorem Inverts.list (h : Inverts decode toJson) :
    Inverts (list decode) fun xs => .array (xs.map toJson) := by
  refine .of_container (fun xs => by simp) (fun _ => rfl) fun room xs ys => ?_
  rw [Decoder.list, h.mapM, depth_array, Nat.add_le_add_iff_right, depthOfItems_le_iff]
  simp

/-- Something that was read as a field, or that is absent, can be written as deep as the reader
looked. -/
theorem Fits.orElse_optional (h : Fits decode toJson) {room : Nat} {field : Option Json}
    {x : Option α} (hread : orElse (Decoder.optional decode) none room field = some x) :
    (ofOption toJson x).depth ≤ room := by
  cases x with
  | none => simp [ofOption, depth]
  | some x =>
    -- a field that is absent gives nothing, and null gives nothing either
    cases field with
    | none => cases hread
    | some json =>
      rw [orElse, Decoder.optional.eq_def] at hread
      split at hread
      · cases hread
      · obtain ⟨y, hy, hxy⟩ := Option.map_eq_some_iff.1 hread
        cases hxy
        exact h room json x hy

/-- What was read one after another can be written as deep as each was. -/
theorem Fits.mapM (h : Fits decode toJson) {room : Nat} {items : List Json} {xs : List α}
    (hread : items.mapM (decode room) = some xs) : ∀ x ∈ xs, (toJson x).depth ≤ room := by
  induction items generalizing xs with
  | nil =>
    cases hread
    simp
  | cons item items ih =>
    simp only [List.mapM_cons, Option.bind_eq_bind, Option.bind_eq_some_iff, Option.pure_def,
      Option.some.injEq] at hread
    obtain ⟨x, hx, rest, hrest, rfl⟩ := hread
    exact List.forall_mem_cons.2 ⟨h room item x hx, ih hrest⟩

/-- No array is read without room for it. -/
theorem required_list_zero (field : Option Json) : required (list decode) 0 field = none := by
  cases field with
  | none => rfl
  | some json => cases json <;> rfl

/-- A list that was read as a field, or that was missing, was read of some items. -/
theorem exists_mapM_of_orElse_list {room : Nat} {field : Option Json} {xs : List α}
    (hread : orElse (list decode) [] (room + 1) field = some xs) :
    ∃ items : List Json, items.mapM (decode room) = some xs := by
  cases field with
  | none =>
    cases hread
    exact ⟨[], rfl⟩
  | some json =>
    cases json with
    | array items => exact ⟨items, hread⟩
    | _ => cases hread

/-- A list that was read as a field, or that was missing, can be written as deep as the reader looked
into it. -/
theorem Fits.orElse_list (h : Fits decode toJson) {room : Nat} {field : Option Json} {xs : List α}
    (hread : orElse (list decode) [] room field = some xs) :
    ∀ x ∈ xs, (toJson x).depth ≤ room - 1 := by
  cases room with
  | zero =>
    -- there is no room for an array, so the list was missing
    cases field with
    | none =>
      cases hread
      simp
    | some json => cases json <;> cases hread
  | succ room =>
    obtain ⟨items, hitems⟩ := exists_mapM_of_orElse_list hread
    exact h.mapM hitems

end Decoder

end PublicAssembly.Json
