import GuardedActions.Bits
import GuardedActions.Shape

/-!
# Records

A record holds one value per field of its shape, each of exactly the field's width; that fact is
part of the type.  Setting a field fits the new value to the field.  Packing lays the fields side by
side, the first in the lowest bits, and unpacking cuts a value up again.
-/

set_option autoImplicit false

namespace GuardedActions

/-- Values for the fields of a shape. -/
structure Record where
  /-- shape of the record -/
  shape : Shape
  /-- one value per field, in shape order -/
  values : List Bits
  /-- every value has the width of its field -/
  widths : values.map Bits.width = shape.fields.map Field.width
  deriving DecidableEq, Repr

namespace Record

/-! ## Lists of values along a list of fields -/

/-- The value of the first field with the given name. -/
def find? (name : String) : List Field → List Bits → Option Bits
  | f :: fields, v :: values => if f.name = name then some v else find? name fields values
  | _, _ => none

/-- The value that a field takes when a value is assigned to the fields of the given name. -/
def assign (name : String) (value : Bits) (f : Field) (old : Bits) : Bits :=
  if f.name = name then Bits.fit f.width value else old

/-- The values cut out of a packed value, from bit `offset` upwards. -/
def cut (packed : Bits) : (offset : Nat) → List Field → List Bits
  | _, [] => []
  | offset, f :: fields => Bits.slice offset f.width packed :: cut packed (offset + f.width) fields

/-- The values laid side by side, the first in the lowest bits. -/
def join : List Bits → Bits
  | [] => ⟨0, 0#0⟩
  | v :: values => Bits.join (join values) v

theorem map_width_zero {fields : List Field} :
    (fields.map fun f => Bits.ofNat f.width 0).map Bits.width = fields.map Field.width := by
  simp [Function.comp_def]

theorem map_width_zipWith_fit {fields : List Field} (h : ∀ f ∈ fields, 0 < f.width)
    {sources : List Bits} (hlen : sources.length = fields.length) :
    (List.zipWith (fun f v => Bits.fit f.width v) fields sources).map Bits.width
      = fields.map Field.width := by
  induction fields generalizing sources with
  | nil => simp
  | cons f fields ih =>
    cases sources with
    | nil => simp at hlen
    | cons v sources =>
      simp only [List.zipWith_cons_cons, List.map_cons,
        Bits.width_fit_of_pos (h f List.mem_cons_self)]
      rw [ih (fun g hg => h g (List.mem_cons_of_mem _ hg)) (by simpa using hlen)]

theorem map_width_assign {fields : List Field} (h : ∀ f ∈ fields, 0 < f.width) {values : List Bits}
    (hwidths : values.map Bits.width = fields.map Field.width) (name : String) (value : Bits) :
    (List.zipWith (assign name value) fields values).map Bits.width = fields.map Field.width := by
  induction fields generalizing values with
  | nil => simp
  | cons f fields ih =>
    cases values with
    | nil => simp at hwidths
    | cons v values =>
      simp only [List.map_cons, List.cons.injEq] at hwidths
      simp only [List.zipWith_cons_cons, List.map_cons, List.cons.injEq]
      refine ⟨?_, ih (fun g hg => h g (List.mem_cons_of_mem _ hg)) hwidths.2⟩
      unfold assign
      split
      · exact Bits.width_fit_of_pos (h f List.mem_cons_self) value
      · exact hwidths.1

@[simp] theorem map_width_cut (packed : Bits) (offset : Nat) (fields : List Field) :
    (cut packed offset fields).map Bits.width = fields.map Field.width := by
  induction fields generalizing offset with
  | nil => rfl
  | cons f fields ih => simp [cut, ih]

/-! ## Building records -/

/-- The record of a shape whose fields are all zero. -/
def zero (shape : Shape) : Record :=
  ⟨shape, shape.fields.map fun f => Bits.ofNat f.width 0, map_width_zero⟩

/-- There is one record of a shape without fields. -/
theorem eq_zero_of_isEmpty {shape : Shape} {r : Record} (hempty : shape.isEmpty = true)
    (h : r.shape = shape) : r = zero shape := by
  obtain ⟨own, values, hwidths⟩ := r
  obtain rfl : own = shape := h
  have hfields : own.fields = [] := List.isEmpty_iff.mp hempty
  have hvalues : values = own.fields.map fun f => Bits.ofNat f.width 0 := by
    have hwidths := hwidths
    rw [hfields] at hwidths ⊢
    exact List.map_eq_nil_iff.mp hwidths
  unfold zero
  congr 1

/-- The record without fields. -/
def empty : Record := zero Shape.empty

instance : Inhabited Record := ⟨empty⟩

/-- The record whose fields hold the given words in order, cut to the field widths. -/
def ofWords (shape : Shape) (words : List UInt64) : Except Fault Record :=
  if h : words.length = shape.fields.length then
    .ok ⟨shape,
      List.zipWith (fun f v => Bits.fit f.width v) shape.fields
        (words.map fun w => Bits.ofNat 64 w.toNat),
      map_width_zipWith_fit shape.width_pos (by simpa using h)⟩
  else
    .error (.valueCount words.length shape.fields.length)

/-- The record whose fields hold the given values in order; a field without a value is zero, and
values past the last field are dropped. -/
def fill (shape : Shape) (values : List Bits) : Record :=
  ⟨shape,
    List.zipWith (fun f v => Bits.fit f.width v) shape.fields
      (values.take shape.fields.length
        ++ List.replicate (shape.fields.length - values.length) (Bits.ofNat 64 0)),
    map_width_zipWith_fit shape.width_pos (by simp; omega)⟩

/-- The record of a packed value; the value is fitted to the shape first. -/
def unpack (shape : Shape) (packed : Bits) : Record :=
  ⟨shape, cut (Bits.fit shape.width packed) 0 shape.fields, map_width_cut _ _ _⟩

/-! ## Fields -/

/-- The value of a field. -/
def get (r : Record) (name : String) : Except Fault Bits :=
  match find? name r.shape.fields r.values with
  | some v => .ok v
  | none => .error (.missingField name r.shape.fields)

/-- The value of the field at a position. -/
def at? (r : Record) (index : Nat) : Option Bits := r.values[index]?

/-- The value of a field as a machine word. -/
def getWord (r : Record) (name : String) : Except Fault UInt64 := do
  let v ← r.get name
  if v.toNat < UInt64.size then .ok v.toWord else .error (.wideField name)

/-- Set a field; the value is fitted to the field's width. -/
def set (r : Record) (name : String) (value : Bits) : Except Fault Record :=
  if r.shape.has name then
    .ok ⟨r.shape, List.zipWith (assign name value) r.shape.fields r.values,
      map_width_assign r.shape.width_pos r.widths name value⟩
  else
    .error (.missingField name r.shape.fields)

/-- Set a field to a machine word. -/
def setWord (r : Record) (name : String) (word : UInt64) : Except Fault Record :=
  r.set name (Bits.ofNat 64 word.toNat)

/-- The fields laid side by side, the first in the lowest bits. -/
def pack (r : Record) : Bits := Bits.fit r.shape.width (join r.values)

/-- Fields and values in order, between braces. -/
def text (r : Record) : String :=
  "\x7b" ++ ", ".intercalate (List.zipWith (fun f v => f.name ++ "=" ++ v.text) r.shape.fields r.values)
    ++ "\x7d"

@[simp] theorem shape_zero (shape : Shape) : (zero shape).shape = shape := rfl

@[simp] theorem shape_unpack (shape : Shape) (packed : Bits) :
    (unpack shape packed).shape = shape := rfl

@[simp] theorem shape_fill (shape : Shape) (values : List Bits) : (fill shape values).shape = shape :=
  rfl

theorem find?_of_mem {fields : List Field} {values : List Bits}
    (hnodup : (fields.map Field.name).Nodup)
    (hwidths : values.map Bits.width = fields.map Field.width) {f : Field} (hf : f ∈ fields) :
    ∃ v, find? f.name fields values = some v ∧ v.width = f.width := by
  induction fields generalizing values with
  | nil => cases hf
  | cons g fields ih =>
    cases values with
    | nil => cases hwidths
    | cons w values =>
      rw [List.map_cons, List.nodup_cons] at hnodup
      obtain ⟨hwidth, hrest⟩ := List.cons.inj hwidths
      rw [find?]
      rcases List.mem_cons.mp hf with rfl | hf
      · exact ⟨w, if_pos rfl, hwidth⟩
      · have hne : g.name ≠ f.name := fun h => hnodup.1 (h ▸ List.mem_map_of_mem hf)
        rw [if_neg hne]
        exact ih hnodup.2 hrest hf

/-- Every field of the shape has a value, of the width of the field. -/
theorem exists_get (r : Record) {f : Field} (hf : f ∈ r.shape.fields) :
    ∃ v, r.get f.name = .ok v ∧ v.width = f.width := by
  obtain ⟨v, hv, hwidth⟩ := find?_of_mem r.shape.names_nodup r.widths hf
  exact ⟨v, by rw [get, hv], hwidth⟩

theorem shape_set {r r' : Record} {name : String} {value : Bits} (h : r.set name value = .ok r') :
    r'.shape = r.shape := by
  unfold set at h
  split at h
  · cases h
    rfl
  · cases h

end Record

end GuardedActions
