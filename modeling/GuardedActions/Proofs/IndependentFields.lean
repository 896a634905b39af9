import GuardedActions.Proofs.Packing
import Mathlib.Data.List.Induction

/-!
# Fields as cells of their own

A record is made, and then its fields are set, in any order and any number of times, to values of any width.  After
every such history the fields are cells that know nothing of each other (`Record.Cells`): each holds what it was
given last, cut to its width, setting one leaves the others alone, and in the packed value each stands at its own
place.  A name that no field has is refused by reading and by writing, and a field is read as a machine word just if
its value is one (`Record.cells_of_history`).
-/

set_option autoImplicit false

namespace GuardedActions

/-! ## Histories -/

/-- What a field is set to. -/
inductive Source where
  /-- a value of a width of its own -/
  | bits (value : Bits)
  /-- a machine word -/
  | word (value : UInt64)
  deriving DecidableEq, Repr, Inhabited

/-- The number that a field is set to. -/
def Source.number : Source → Nat
  | .bits value => value.toNat
  | .word value => value.toNat

/-- The value that a field is set to. -/
def Source.value : Source → Bits
  | .bits value => value
  | .word value => Bits.ofNat 64 value.toNat

@[simp] theorem Source.toNat_value (source : Source) : source.value.toNat = source.number := by
  cases source with
  | bits value => rfl
  | word w => exact (Bits.toNat_ofNat 64 w.toNat).trans (Nat.mod_eq_of_lt w.toNat_lt)

/-- A field is set. -/
structure Assignment where
  /-- name of the field -/
  field : String
  /-- what it is set to -/
  source : Source
  deriving DecidableEq, Repr, Inhabited

/-- The number that a field was given last, or the one that it began with. -/
def Assignment.latest (field : String) (initial : Nat) (history : List Assignment) : Nat :=
  ((history.filter fun a => a.field = field).getLast?.map fun a => a.source.number).getD initial

theorem Assignment.latest_concat (field : String) (initial : Nat) (history : List Assignment) (a : Assignment) :
    latest field initial (history ++ [a]) =
      if a.field = field then a.source.number else latest field initial history := by
  unfold latest
  rw [List.filter_append]
  by_cases ha : a.field = field
  · simp [ha]
  · simp [ha]

/-- A way to make a record of a shape. -/
inductive Construction (shape : Shape) where
  /-- all fields are zero -/
  | zeros
  /-- one word per field -/
  | words (values : List UInt64) (fits : values.length = shape.fields.length)

namespace Construction

variable {shape : Shape}

/-- Make the record. -/
def make : Construction shape → Except Fault Record
  | .zeros => .ok (Record.zero shape)
  | .words values _ => Record.ofWords shape values

/-- The number that the field at a position begins with. -/
def initial : Construction shape → (position : Nat) → Nat
  | .zeros, _ => 0
  | .words values _, position => (values[position]?.map UInt64.toNat).getD 0

end Construction

theorem Shape.has_eq_true {shape : Shape} {name : String} :
    shape.has name = true ↔ ∃ f ∈ shape.fields, f.name = name := by
  unfold has
  rw [List.any_eq_true]
  simp only [beq_iff_eq]

namespace Record

/-- Set a field to a value or to a word. -/
def assignTo (r : Record) (a : Assignment) : Except Fault Record :=
  match a.source with
  | .bits value => r.set a.field value
  | .word value => r.setWord a.field value

/-- Set fields one after the other. -/
def assignAll (history : List Assignment) (r : Record) : Except Fault Record := history.foldlM assignTo r

theorem assignAll_concat (history : List Assignment) (a : Assignment) (r : Record) :
    assignAll (history ++ [a]) r = assignAll history r >>= fun r => r.assignTo a := by
  unfold assignAll
  rw [List.foldlM_append]
  congr 1
  funext r'
  rw [List.foldlM_cons]
  cases r'.assignTo a with
  | ok _ => rfl
  | error _ => rfl

/-! ## One assignment -/

theorem find?_zipWith_assign_self {fields : List Field} {values : List Bits} {name : String} (value : Bits)
    (hnodup : (fields.map Field.name).Nodup) (hlength : values.length = fields.length) {f : Field}
    (hf : f ∈ fields) (hname : f.name = name) :
    find? name fields (List.zipWith (assign name value) fields values) = some (Bits.fit f.width value) := by
  induction fields generalizing values with
  | nil => cases hf
  | cons g fields ih =>
    cases values with
    | nil => cases hlength
    | cons v values =>
      rw [List.map_cons, List.nodup_cons] at hnodup
      rw [List.zipWith_cons_cons, find?]
      rcases List.mem_cons.mp hf with rfl | hf
      · rw [if_pos hname, assign, if_pos hname]
      · have hne : g.name ≠ name := fun h => hnodup.1 (by rw [h, ← hname]; exact List.mem_map_of_mem hf)
        rw [if_neg hne]
        exact ih hnodup.2 (Nat.succ.inj hlength) hf

theorem find?_zipWith_assign_other {name other : String} (hne : other ≠ name) (value : Bits)
    (fields : List Field) (values : List Bits) :
    find? other fields (List.zipWith (assign name value) fields values) = find? other fields values := by
  induction fields generalizing values with
  | nil => rfl
  | cons g fields ih =>
    cases values with
    | nil => rfl
    | cons v values =>
      rw [List.zipWith_cons_cons, find?, find?, ih]
      by_cases hg : g.name = other
      · rw [if_pos hg, if_pos hg, assign, if_neg (hg ▸ hne)]
      · rw [if_neg hg, if_neg hg]

theorem zipWith_assign_comm {a b : String} (hne : a ≠ b) (x y : Bits) (fields : List Field)
    (values : List Bits) :
    List.zipWith (assign b y) fields (List.zipWith (assign a x) fields values) =
      List.zipWith (assign a x) fields (List.zipWith (assign b y) fields values) := by
  induction fields generalizing values with
  | nil => rfl
  | cons g fields ih =>
    cases values with
    | nil => rfl
    | cons v values =>
      simp only [List.zipWith_cons_cons, ih, List.cons.injEq, and_true]
      unfold assign
      by_cases hga : g.name = a
      · have hgb : g.name ≠ b := fun hgb => hne (hga.symm.trans hgb)
        rw [if_pos hga, if_neg hgb, if_pos hga]
      · rw [if_neg hga, if_neg hga]

variable {r r' : Record} {name : String} {value : Bits}

theorem length_values (r : Record) : r.values.length = r.shape.fields.length := by
  simpa using congrArg List.length r.widths

theorem find?_eq_none {fields : List Field} (values : List Bits) (h : ∀ f ∈ fields, f.name ≠ name) :
    find? name fields values = none := by
  induction fields generalizing values with
  | nil => cases values <;> rfl
  | cons g fields ih =>
    cases values with
    | nil => rfl
    | cons v values =>
      rw [find?, if_neg (h g List.mem_cons_self)]
      exact ih values fun f hf => h f (List.mem_cons_of_mem _ hf)

theorem assignTo_eq (r : Record) (a : Assignment) : r.assignTo a = r.set a.field a.source.value := by
  unfold assignTo
  cases a.source <;> rfl

/-- What there is to know about a record in which a field was set. -/
theorem set_eq_ok : r.set name value = .ok r' ↔ r.shape.has name = true ∧ r'.shape = r.shape ∧
    r'.values = List.zipWith (assign name value) r.shape.fields r.values := by
  unfold set
  by_cases hhas : r.shape.has name = true
  · rw [if_pos hhas, Except.ok.injEq]
    obtain ⟨shape, values, hwidths⟩ := r'
    constructor
    · rintro h
      obtain ⟨rfl, rfl⟩ := Record.mk.inj h
      exact ⟨hhas, rfl, rfl⟩
    · rintro ⟨-, rfl, hvalues⟩
      congr 1
      exact hvalues.symm
  · rw [if_neg hhas]
    exact ⟨nofun, fun h => absurd h.1 hhas⟩

theorem exists_set (hhas : r.shape.has name = true) (value : Bits) : ∃ r', r.set name value = .ok r' :=
  ⟨_, by
    unfold set
    exact if_pos hhas⟩

/-- The field that was set holds the value, fitted to its width. -/
theorem get_set_self (h : r.set name value = .ok r') {f : Field} (hf : f ∈ r.shape.fields)
    (hname : f.name = name) : r'.get name = .ok (Bits.fit f.width value) := by
  obtain ⟨-, hshape, hvalues⟩ := set_eq_ok.mp h
  unfold get
  rw [hshape, hvalues, find?_zipWith_assign_self value r.shape.names_nodup r.length_values hf hname]

/-- No other name is affected. -/
theorem get_set_other (h : r.set name value = .ok r') {other : String} (hne : other ≠ name) :
    r'.get other = r.get other := by
  obtain ⟨-, hshape, hvalues⟩ := set_eq_ok.mp h
  unfold get
  rw [hshape, hvalues, find?_zipWith_assign_other hne]

/-- Two fields may be set in either order. -/
theorem exists_set_comm {a b : String} (hne : a ≠ b) (ha : r.shape.has a = true) (hb : r.shape.has b = true)
    (x y : Bits) : ∃ r', (r.set a x >>= fun r => r.set b y) = .ok r' ∧
      (r.set b y >>= fun r => r.set a x) = .ok r' := by
  obtain ⟨s, hs⟩ := exists_set ha x
  obtain ⟨t, ht⟩ := exists_set hb y
  obtain ⟨-, hs_shape, hs_values⟩ := set_eq_ok.mp hs
  obtain ⟨-, ht_shape, ht_values⟩ := set_eq_ok.mp ht
  have hb' : s.shape.has b = true := hs_shape ▸ hb
  obtain ⟨r', hr'⟩ := exists_set hb' y
  obtain ⟨-, hr'_shape, hr'_values⟩ := set_eq_ok.mp hr'
  refine ⟨r', by rw [hs, ok_bind, hr'], ?_⟩
  rw [ht, ok_bind, set_eq_ok, ht_shape, ht_values]
  refine ⟨ha, hr'_shape.trans hs_shape, ?_⟩
  rw [hr'_values, hs_shape, hs_values]
  exact zipWith_assign_comm hne x y r.shape.fields r.values

theorem get_of_not_has (hhas : r.shape.has name = false) :
    r.get name = .error (.missingField name r.shape.fields) := by
  have hnone : find? name r.shape.fields r.values = none := find?_eq_none r.values fun f hf hname => by
    rw [Shape.has_eq_true.mpr ⟨f, hf, hname⟩] at hhas
    cases hhas
  unfold get
  rw [hnone]

/-- A field is read by its position as it is read by its name. -/
theorem at?_of_get {i : Nat} {f : Field} {v : Bits} (hf : r.shape.fields[i]? = some f)
    (hv : r.get f.name = .ok v) : r.at? i = some v := by
  obtain ⟨hi, -⟩ := List.getElem?_eq_some_iff.mp hf
  have hi : i < r.values.length := r.length_values ▸ hi
  have hat : r.values[i]? = some r.values[i] := List.getElem?_eq_getElem hi
  unfold get at hv
  rw [find?_of_getElem? r.shape.names_nodup hf hat] at hv
  unfold at?
  rw [hat]
  exact congrArg some (Except.ok.inj hv)

theorem getElem?_cut (packed : Bits) (offset : Nat) (fields : List Field) {i : Nat} {f : Field}
    (hf : fields[i]? = some f) : (cut packed offset fields)[i]? =
      some (Bits.slice (offset + Field.totalWidth (fields.take i)) f.width packed) := by
  induction fields generalizing offset i with
  | nil => cases hf
  | cons g fields ih =>
    cases i with
    | zero =>
      obtain rfl : g = f := Option.some.inj hf
      rfl
    | succ i =>
      rw [cut, List.getElem?_cons_succ, ih _ hf, List.take_succ_cons, Field.totalWidth, Nat.add_assoc]

/-- A field stands in the packed value above the fields before it. -/
theorem slice_pack (hsmall : Field.totalWidth r.shape.fields < 2 ^ 32) {i : Nat} {f : Field} {v : Bits}
    (hf : r.shape.fields[i]? = some f) (hv : r.get f.name = .ok v) :
    Bits.slice (Field.totalWidth (r.shape.fields.take i)) f.width r.pack = v := by
  have hvalues : cut r.pack 0 r.shape.fields = r.values := by
    have hfit : Bits.fit r.shape.width r.pack = r.pack := Bits.fit_fit _ _
    calc cut r.pack 0 r.shape.fields = cut (Bits.fit r.shape.width r.pack) 0 r.shape.fields := by rw [hfit]
      _ = (unpack r.shape r.pack).values := rfl
      _ = r.values := by rw [unpack_pack hsmall]
  have hat : r.values[i]? = some v := at?_of_get hf hv
  rw [← hvalues, getElem?_cut _ _ _ hf, Nat.zero_add] at hat
  exact Option.some.inj hat

/-- A field is read as a word just if its value is one. -/
theorem getWord_of_get {v : Bits} (hv : r.get name = .ok v) :
    if v.toNat < 2 ^ 64 then ∃ word, r.getWord name = .ok word ∧ word.toNat = v.toNat
    else r.getWord name = .error (.wideField name) := by
  split
  · rename_i hlt
    exact ⟨v.toWord, getWord_eq_ok.mpr ⟨v, hv, hlt, rfl⟩, Bits.toNat_toWord hlt⟩
  · rename_i hlt
    unfold getWord
    rw [hv, ok_bind]
    exact if_neg hlt

/-! ## A record and its history -/

/-- The fields of a record with a history are cells of their own. -/
structure Cells (shape : Shape) (initial : Nat → Nat) (history : List Assignment) (r : Record) : Prop where
  /-- the shape stays -/
  shape_eq : r.shape = shape
  /-- a field holds what it was given last, at its own width -/
  stored : ∀ {i f}, shape.fields[i]? = some f → ∃ v, r.get f.name = .ok v ∧ r.at? i = some v ∧
    v.width = f.width ∧ v.toNat = Assignment.latest f.name (initial i) history % 2 ^ f.width
  /-- it stands in the packed value above the fields before it -/
  packed : ∀ {i f v}, shape.fields[i]? = some f → r.get f.name = .ok v →
    Bits.slice (Field.totalWidth (shape.fields.take i)) f.width r.pack = v
  /-- it is read as a word, unless its value is none -/
  word : ∀ {f v}, f ∈ shape.fields → r.get f.name = .ok v →
    if v.toNat < 2 ^ 64 then ∃ word, r.getWord f.name = .ok word ∧ word.toNat = v.toNat
    else r.getWord f.name = .error (.wideField f.name)
  /-- setting it changes no other field -/
  alone : ∀ {a r'}, r.assignTo a = .ok r' → ∀ {other}, other ≠ a.field → r'.get other = r.get other
  /-- two fields may be set in either order -/
  commute : ∀ {a b}, shape.has a.field = true → shape.has b.field = true → a.field ≠ b.field →
    ∃ r', (r.assignTo a >>= fun r => r.assignTo b) = .ok r' ∧
      (r.assignTo b >>= fun r => r.assignTo a) = .ok r'
  /-- a name that no field has is refused -/
  unknown : ∀ {name}, shape.has name = false →
    r.get name = .error (.missingField name shape.fields) ∧
      r.getWord name = .error (.missingField name shape.fields) ∧
        ∀ source, r.assignTo ⟨name, source⟩ = .error (.missingField name shape.fields)

theorem exists_ofWords {shape : Shape} {words : List UInt64} (fits : words.length = shape.fields.length) :
    ∃ r, ofWords shape words = .ok r ∧ r.shape = shape ∧ r.values =
      List.zipWith (fun f v => Bits.fit f.width v) shape.fields (words.map fun w => Bits.ofNat 64 w.toNat) := by
  unfold ofWords
  rw [dif_pos fits]
  exact ⟨_, rfl, rfl, rfl⟩

/-- A field of a new record holds what it begins with. -/
theorem exists_make {shape : Shape} (c : Construction shape) : ∃ r, c.make = .ok r ∧ r.shape = shape ∧
    ∀ {i f}, shape.fields[i]? = some f → ∃ v, r.get f.name = .ok v ∧ v.toNat = c.initial i % 2 ^ f.width := by
  cases c with
  | zeros =>
    refine ⟨zero shape, rfl, rfl, fun {i f} hf => ⟨Bits.ofNat f.width 0, ?_, Bits.toNat_ofNat _ _⟩⟩
    have hvalue : (zero shape).values[i]? = some (Bits.ofNat f.width 0) := by
      rw [zero, List.getElem?_map, hf, Option.map_some]
    rw [get, shape_zero, find?_of_getElem? shape.names_nodup hf hvalue]
  | words values fits =>
    obtain ⟨r, hr, hshape, hvalues⟩ := exists_ofWords fits
    refine ⟨r, hr, hshape, fun {i f} hf => ?_⟩
    obtain ⟨hi, -⟩ := List.getElem?_eq_some_iff.mp hf
    obtain ⟨w, hword⟩ : ∃ w, values[i]? = some w := ⟨_, List.getElem?_eq_getElem (fits ▸ hi)⟩
    have hvalue : r.values[i]? = some (Bits.fit f.width (Source.word w).value) := by
      rw [hvalues, List.getElem?_zipWith, hf, List.getElem?_map, hword]
      rfl
    refine ⟨_, by rw [get, hshape, find?_of_getElem? shape.names_nodup hf hvalue], ?_⟩
    rw [Bits.toNat_fit (shape.width_pos f (List.mem_of_getElem? hf)), Source.toNat_value, Construction.initial,
      hword]
    rfl

/-- Every history of a record can be gone through, and leaves in every field what it was given last. -/
theorem exists_assignAll {shape : Shape} (c : Construction shape) (history : List Assignment)
    (hnames : ∀ a ∈ history, shape.has a.field = true) :
    ∃ r, (c.make >>= assignAll history) = .ok r ∧ r.shape = shape ∧ ∀ {i f}, shape.fields[i]? = some f →
      ∃ v, r.get f.name = .ok v ∧ v.toNat = Assignment.latest f.name (c.initial i) history % 2 ^ f.width := by
  obtain ⟨start, hstart, hshape, hinitial⟩ := exists_make c
  rw [hstart, ok_bind]
  induction history using List.reverseRecOn with
  | nil => exact ⟨start, rfl, hshape, hinitial⟩
  | append_singleton history a ih =>
    obtain ⟨r, hr, hshape, hstored⟩ := ih fun b hb => hnames b (List.mem_append_left _ hb)
    have hhas : r.shape.has a.field = true := by
      rw [hshape]
      exact hnames a (List.mem_append_right _ List.mem_cons_self)
    obtain ⟨r', hr'⟩ := exists_set hhas a.source.value
    have hshape' : r'.shape = shape := (shape_set hr').trans hshape
    refine ⟨r', by rw [assignAll_concat, hr, ok_bind, assignTo_eq, hr'], hshape', fun {i f} hf => ?_⟩
    have hmem : f ∈ shape.fields := List.mem_of_getElem? hf
    rw [Assignment.latest_concat]
    by_cases hname : f.name = a.field
    · rw [if_pos hname.symm, hname]
      refine ⟨_, get_set_self hr' (hshape ▸ hmem) hname, ?_⟩
      rw [Bits.toNat_fit (shape.width_pos f hmem), Source.toNat_value]
    · rw [if_neg (Ne.symm hname), get_set_other hr' hname]
      exact hstored hf

/-- However a record is made and whatever its fields are set to afterwards, they are cells of their own. -/
theorem cells_of_history (shape : Shape) (hsmall : Field.totalWidth shape.fields < 2 ^ 32)
    (c : Construction shape) (history : List Assignment)
    (hnames : ∀ a ∈ history, shape.has a.field = true) :
    ∃ r, (c.make >>= assignAll history) = .ok r ∧ r.Cells shape c.initial history := by
  obtain ⟨r, hr, rfl, hstored⟩ := exists_assignAll c history hnames
  refine ⟨r, hr, ?_⟩
  constructor
  case shape_eq => rfl
  case stored =>
    intro i f hf
    obtain ⟨v, hv, hnumber⟩ := hstored hf
    obtain ⟨v', hv', hwidth⟩ := r.exists_get (List.mem_of_getElem? hf)
    obtain rfl : v = v' := Except.ok.inj (hv.symm.trans hv')
    exact ⟨v, hv, at?_of_get hf hv, hwidth, hnumber⟩
  case packed => exact fun hf hv => slice_pack hsmall hf hv
  case word => exact fun _ hv => getWord_of_get hv
  case alone =>
    intro a r' hset other hne
    rw [assignTo_eq] at hset
    exact get_set_other hset hne
  case commute =>
    intro a b ha hb hne
    simp only [assignTo_eq]
    exact exists_set_comm hne ha hb a.source.value b.source.value
  case unknown =>
    intro name hhas
    refine ⟨get_of_not_has hhas, ?_, fun source => ?_⟩
    · unfold getWord
      rw [get_of_not_has hhas]
      rfl
    · rw [assignTo_eq]
      unfold set
      rw [if_neg (by rw [hhas]; exact Bool.false_ne_true)]

end Record

/-! ## A command that is edited -/

namespace Command

/-- The operand is set to a value that is wider than it and keeps its highest bit, and the tag is set twice. -/
def edits : List Assignment :=
  [⟨"tag", .word 0xFF⟩, ⟨"operand", .bits (Bits.ofNat 128 (2 ^ 99 + 2 ^ 100))⟩, ⟨"tag", .bits (Bits.ofNat 3 5)⟩]

/-- The command before that. -/
def start : Construction shape := .words [7, 2, 3] rfl

/-- The tag holds its second value at its own width, the flag what it began with, and the operand is no word. -/
theorem cells_after_edits : Field.totalWidth shape.fields < 2 ^ 32 ∧
    (∀ a ∈ edits, shape.has a.field = true) ∧
    ∃ r, (start.make >>= Record.assignAll edits) = .ok r ∧
      r.Cells shape start.initial edits ∧
      r.get "last" = .ok ⟨1, 1#1⟩ ∧ r.get "tag" = .ok ⟨5, 5#5⟩ ∧
      r.getWord "operand" = .error (.wideField "operand") := by
  have hsmall : Field.totalWidth shape.fields < 2 ^ 32 := by decide
  have hnames : ∀ a ∈ edits, shape.has a.field = true := by decide
  obtain ⟨r, hr, hcells⟩ := Record.cells_of_history shape hsmall start edits hnames
  refine ⟨hsmall, hnames, r, hr, hcells, ?_, ?_, ?_⟩
  · obtain ⟨v, hv, -, hwidth, hnumber⟩ := hcells.stored (i := 0) rfl
    rw [show v = ⟨1, 1#1⟩ from Bits.ext_toNat hwidth hnumber] at hv
    exact hv
  · obtain ⟨v, hv, -, hwidth, hnumber⟩ := hcells.stored (i := 2) rfl
    rw [show v = ⟨5, 5#5⟩ from Bits.ext_toNat hwidth hnumber] at hv
    exact hv
  · obtain ⟨v, hv, -, -, hnumber⟩ := hcells.stored (i := 1) rfl
    have hbig : v.toNat = 2 ^ 99 := hnumber
    have hword := hcells.word (List.mem_of_getElem? (i := 1) rfl) hv
    rwa [if_neg (by rw [hbig]; decide)] at hword

end Command

end GuardedActions
