import GuardedActions.Proofs.Block.Merge
import GuardedActions.Proofs.Record
import Mathlib.Algebra.BigOperators.Ring.Finset
import Mathlib.Tactic.Ring

/-!
# Packing

A packed record is a number whose digits are the values of its fields, each field in the base that its width
gives.  The values are the digits of only one number, so a record can be recovered from it, and every number of
the right width comes from some record.  Both directions are also what one gets by going through the fields one
by one: values are inserted above each other, and fields are set to what is cut out at their place.
-/

set_option autoImplicit false

namespace GuardedActions

namespace Bits

theorem toNat_slice (offset width : Nat) (b : Bits) :
    (slice offset width b).toNat = b.toNat / 2 ^ offset % 2 ^ width := by
  unfold slice toNat
  rw [BitVec.extractLsb'_toNat, Nat.shiftRight_eq_div_pow]

theorem toNat_join (high low : Bits) :
    (join high low).toNat = low.toNat + 2 ^ low.width * high.toNat := by
  have hlow : low.toNat < 2 ^ low.width := low.toNat_lt
  have happend : (join high low).toNat = high.toNat <<< low.width ||| low.toNat :=
    BitVec.toNat_append high.value low.value
  rw [happend, ← Nat.shiftLeft_add_eq_or_of_lt hlow, Nat.shiftLeft_eq, Nat.add_comm, Nat.mul_comm]

theorem testBit_toNat (b : Bits) (p : Nat) : b.toNat.testBit p = b.test p := rfl

/-- A value that was fitted to a width has it. -/
theorem fit_fit (width : Nat) (b : Bits) : fit width (fit width b) = fit width b := by
  rcases Nat.eq_zero_or_pos width with rfl | hpos
  · rw [fit_zero, fit_zero]
  · have hkeep := fit_width (b := fit width b)
    rw [width_fit_of_pos hpos] at hkeep
    exact hkeep hpos

/-- What is inserted above everything that is there is added to it. -/
theorem toNat_overwrite {b part : Bits} {offset : Nat} (hfree : b.toNat < 2 ^ offset)
    (hroom : offset + part.width ≤ b.width) :
    (b.overwrite offset part).toNat = b.toNat + 2 ^ offset * part.toNat := by
  have hor : b.toNat + 2 ^ offset * part.toNat = part.toNat <<< offset ||| b.toNat := by
    rw [← Nat.shiftLeft_add_eq_or_of_lt hfree, Nat.shiftLeft_eq, Nat.add_comm, Nat.mul_comm]
  have hpart : ∀ q, part.width ≤ q → part.test q = false := fun q hq => BitVec.getLsbD_of_ge _ _ hq
  rw [hor]
  refine Nat.eq_of_testBit_eq fun p => ?_
  rw [Nat.testBit_or, Nat.testBit_shiftLeft, testBit_toNat, testBit_toNat, testBit_toNat]
  by_cases hp : p < b.width
  · rw [test_overwrite hp]
    by_cases hlow : offset ≤ p
    · have hnone : b.test p = false :=
        Nat.testBit_lt_two_pow (Nat.lt_of_lt_of_le hfree (Nat.pow_le_pow_right (by decide) hlow))
      by_cases hhigh : p < offset + part.width
      · simp [hlow, hhigh, hnone]
      · simp [hlow, hhigh, hnone, hpart (p - offset) (by omega)]
    · simp [hlow]
  · have hout : (b.overwrite offset part).test p = false :=
      BitVec.getLsbD_of_ge _ _ (by rw [width_overwrite]; omega)
    have hnone : b.test p = false := BitVec.getLsbD_of_ge _ _ (Nat.le_of_not_lt hp)
    rw [hout, hnone, hpart (p - offset) (by omega)]
    simp

end Bits

/-! ## Widths -/

namespace Shape

variable {shape : Shape}

theorem totalWidth_pos (hempty : shape.isEmpty = false) : 0 < Field.totalWidth shape.fields := by
  cases hfields : shape.fields with
  | nil =>
    rw [Shape.isEmpty, hfields] at hempty
    cases hempty
  | cons f fields =>
    have hpos : 0 < f.width := shape.width_pos f (hfields ▸ List.mem_cons_self)
    exact Nat.add_pos_left hpos _

theorem width_eq (hsmall : Field.totalWidth shape.fields < 2 ^ 32) :
    shape.width = Field.totalWidth shape.fields := Nat.mod_eq_of_lt hsmall

theorem totalWidth_eq_zero (hempty : shape.isEmpty = true) : Field.totalWidth shape.fields = 0 := by
  rw [List.isEmpty_iff.mp hempty]
  rfl

end Shape

/-! ## Values side by side -/

namespace Record

theorem width_join (values : List Bits) {fields : List Field}
    (hwidths : values.map Bits.width = fields.map Field.width) :
    (join values).width = Field.totalWidth fields := by
  induction fields generalizing values with
  | nil =>
    rw [List.map_nil, List.map_eq_nil_iff] at hwidths
    rw [hwidths]
    rfl
  | cons f fields ih =>
    cases values with
    | nil => cases hwidths
    | cons v values =>
      obtain ⟨hwidth, hrest⟩ := List.cons.inj hwidths
      rw [join, Bits.width_join, ih values hrest, hwidth, Field.totalWidth, Nat.add_comm]

/-- The value that stands lowest is the last digit. -/
theorem toNat_join_cons (v : Bits) (values : List Bits) :
    (join (v :: values)).toNat = v.toNat + 2 ^ v.width * (join values).toNat :=
  Bits.toNat_join (join values) v

/-- What is cut out of a number, put together again. -/
theorem toNat_join_cut (packed : Bits) (offset : Nat) (fields : List Field) :
    (join (cut packed offset fields)).toNat =
      packed.toNat / 2 ^ offset % 2 ^ Field.totalWidth fields := by
  induction fields generalizing offset with
  | nil => exact (Nat.mod_one _).symm
  | cons f fields ih =>
    rw [cut, toNat_join_cons, ih, Bits.toNat_slice, Bits.width_slice, Field.totalWidth, Nat.pow_add,
      Nat.pow_add, Nat.mod_mul, Nat.div_div_eq_div_mul]

/-- Values are cut out of a number whose digits they are. -/
theorem cut_eq {packed : Bits} {offset : Nat} {fields : List Field} {values : List Bits}
    (hwidths : values.map Bits.width = fields.map Field.width)
    (hdigits : packed.toNat / 2 ^ offset % 2 ^ Field.totalWidth fields = (join values).toNat) :
    cut packed offset fields = values := by
  induction fields generalizing offset values with
  | nil => exact (List.map_eq_nil_iff.mp hwidths).symm
  | cons f fields ih =>
    cases values with
    | nil => cases hwidths
    | cons v values =>
      obtain ⟨hwidth, hrest⟩ := List.cons.inj hwidths
      have hv : v.toNat < 2 ^ f.width := hwidth ▸ v.toNat_lt
      rw [toNat_join_cons, Field.totalWidth, Nat.pow_add, Nat.mod_mul, Nat.div_div_eq_div_mul,
        ← Nat.pow_add, hwidth] at hdigits
      have hlow : packed.toNat / 2 ^ offset % 2 ^ f.width = v.toNat := by
        have hmod := congrArg (· % 2 ^ f.width) hdigits
        simpa only [Nat.add_mul_mod_self_left, Nat.mod_mod, Nat.mod_eq_of_lt hv] using hmod
      have hhigh : packed.toNat / 2 ^ (offset + f.width) % 2 ^ Field.totalWidth fields =
          (join values).toNat := by
        rw [hlow] at hdigits
        exact Nat.eq_of_mul_eq_mul_left (Nat.two_pow_pos f.width) (Nat.add_left_cancel hdigits)
      rw [cut, ih hrest hhigh]
      congr 1
      exact Bits.ext_toNat hwidth.symm ((Bits.toNat_slice ..).trans hlow)

/-! ## Packing a record -/

variable {r : Record} {shape : Shape}

theorem toNat_join_lt (r : Record) : (join r.values).toNat < 2 ^ Field.totalWidth r.shape.fields :=
  width_join r.values r.widths ▸ (join r.values).toNat_lt

/-- Nothing of the fields is lost in the packed number. -/
theorem toNat_pack (hsmall : Field.totalWidth r.shape.fields < 2 ^ 32) :
    r.pack.toNat = (join r.values).toNat := by
  have hlt := r.toNat_join_lt
  unfold pack
  rw [Shape.width_eq hsmall]
  rcases Nat.eq_zero_or_pos (Field.totalWidth r.shape.fields) with hzero | hpos
  · rw [hzero, Bits.fit_zero]
    rw [hzero, Nat.pow_zero, Nat.lt_one_iff] at hlt
    exact hlt.symm
  · rw [Bits.toNat_fit hpos, Nat.mod_eq_of_lt hlt]

theorem width_pack (hsmall : Field.totalWidth r.shape.fields < 2 ^ 32) :
    r.pack.width = if r.shape.isEmpty then 1 else Field.totalWidth r.shape.fields := by
  unfold pack
  rw [Shape.width_eq hsmall]
  cases hempty : r.shape.isEmpty with
  | true =>
    rw [List.isEmpty_iff.mp hempty]
    rfl
  | false => exact Bits.width_fit_of_pos (Shape.totalWidth_pos hempty) _

theorem unpack_pack (hsmall : Field.totalWidth r.shape.fields < 2 ^ 32) : unpack r.shape r.pack = r := by
  have hvalues : cut (Bits.fit r.shape.width r.pack) 0 r.shape.fields = r.values := by
    have hfit : Bits.fit r.shape.width r.pack = r.pack := Bits.fit_fit r.shape.width (join r.values)
    refine cut_eq r.widths ?_
    rw [hfit, toNat_pack hsmall, Nat.pow_zero, Nat.div_one, Nat.mod_eq_of_lt r.toNat_join_lt]
  obtain ⟨shape, values, hwidths⟩ := r
  unfold unpack
  congr 1

/-- Cutting a value up and packing the pieces fits the value to the shape. -/
theorem pack_unpack (hsmall : Field.totalWidth shape.fields < 2 ^ 32) (packed : Bits) :
    (unpack shape packed).pack = Bits.fit (Field.totalWidth shape.fields) packed := by
  have hsmall' : Field.totalWidth (unpack shape packed).shape.fields < 2 ^ 32 := hsmall
  cases hempty : shape.isEmpty with
  | true =>
    unfold pack
    rw [shape_unpack, Shape.width_eq hsmall, Shape.totalWidth_eq_zero hempty, Bits.fit_zero, Bits.fit_zero]
  | false =>
    have hpos := Shape.totalWidth_pos hempty
    refine Bits.ext_toNat ?_ ?_
    · rw [width_pack hsmall', shape_unpack, hempty, Bits.width_fit_of_pos hpos]
      rfl
    · rw [toNat_pack hsmall', Bits.toNat_fit hpos]
      unfold unpack
      rw [toNat_join_cut, Shape.width_eq hsmall, Bits.toNat_fit hpos, Nat.pow_zero, Nat.div_one, Nat.mod_mod]

/-! ## The digits -/

/-- The number that a field denotes, by its position. -/
def numberAt (r : Record) (i : Nat) : Nat := ((r.at? i).map Bits.toNat).getD 0

theorem toNat_join_eq_sum (values : List Bits) {fields : List Field}
    (hwidths : values.map Bits.width = fields.map Field.width) :
    (join values).toNat = ∑ i ∈ Finset.range fields.length,
      (values[i]?.map Bits.toNat).getD 0 * 2 ^ Field.totalWidth (fields.take i) := by
  induction fields generalizing values with
  | nil =>
    rw [List.map_nil, List.map_eq_nil_iff] at hwidths
    rw [hwidths]
    rfl
  | cons f fields ih =>
    cases values with
    | nil => cases hwidths
    | cons v values =>
      obtain ⟨hwidth, hrest⟩ := List.cons.inj hwidths
      rw [toNat_join_cons, ih values hrest, hwidth, List.length_cons, Finset.sum_range_succ', Finset.mul_sum,
        Nat.add_comm]
      congr 1
      · refine Finset.sum_congr rfl fun i _ => ?_
        rw [List.getElem?_cons_succ, List.take_succ_cons, Field.totalWidth, Nat.pow_add]
        ring
      · simp [Field.totalWidth]

/-! ## Field by field -/

/-- Insert values one above the other, from bit `offset` upwards. -/
def insertAll : (offset : Nat) → List Bits → Bits → Bits
  | _, [], packed => packed
  | offset, v :: values, packed => insertAll (offset + v.width) values (packed.overwrite offset v)

/-- Set fields one after the other to what is cut out of a packed value, from bit `offset` upwards. -/
def setAll (packed : Bits) : (offset : Nat) → List Field → Record → Except Fault Record
  | _, [], r => .ok r
  | offset, f :: fields, r =>
    r.set f.name (Bits.slice offset f.width packed) >>= setAll packed (offset + f.width) fields

theorem insertAll_spec (offset : Nat) (values : List Bits) (packed : Bits)
    (hfree : packed.toNat < 2 ^ offset) (hroom : offset + (join values).width ≤ packed.width) :
    (insertAll offset values packed).width = packed.width ∧
      (insertAll offset values packed).toNat = packed.toNat + 2 ^ offset * (join values).toNat := by
  induction values generalizing offset packed with
  | nil => exact ⟨rfl, rfl⟩
  | cons v values ih =>
    have hjoin : (join (v :: values)).width = (join values).width + v.width := rfl
    have hfits : offset + v.width ≤ packed.width := by omega
    have hinsert := Bits.toNat_overwrite hfree hfits
    have hv : v.toNat + 1 ≤ 2 ^ v.width := v.toNat_lt
    have hfree' : (packed.overwrite offset v).toNat < 2 ^ (offset + v.width) := by
      rw [hinsert, Nat.pow_add]
      calc packed.toNat + 2 ^ offset * v.toNat < 2 ^ offset + 2 ^ offset * v.toNat :=
            Nat.add_lt_add_right hfree _
        _ = 2 ^ offset * (v.toNat + 1) := by ring
        _ ≤ 2 ^ offset * 2 ^ v.width := Nat.mul_le_mul_left _ hv
    obtain ⟨hwidth, hnumber⟩ := ih _ _ hfree' (by rw [Bits.width_overwrite]; omega)
    refine ⟨hwidth, ?_⟩
    rw [insertAll, hnumber, hinsert, toNat_join_cons, Nat.pow_add]
    ring

/-- Packing inserts the values one above the other. -/
theorem pack_eq_insertAll (hsmall : Field.totalWidth r.shape.fields < 2 ^ 32)
    (hempty : r.shape.isEmpty = false) :
    r.pack = insertAll 0 r.values (Bits.ofNat (Field.totalWidth r.shape.fields) 0) := by
  have hzero : (Bits.ofNat (Field.totalWidth r.shape.fields) 0).toNat = 0 := by
    rw [Bits.toNat_ofNat, Nat.zero_mod]
  obtain ⟨hwidth, hnumber⟩ := insertAll_spec 0 r.values (Bits.ofNat (Field.totalWidth r.shape.fields) 0)
    (by rw [hzero]; exact Nat.one_pos) (by rw [width_join r.values r.widths, Bits.width_ofNat, Nat.zero_add])
  refine Bits.ext_toNat ?_ ?_
  · rw [width_pack hsmall, hempty, hwidth]
    rfl
  · rw [toNat_pack hsmall, hnumber, hzero, Nat.pow_zero, Nat.one_mul, Nat.zero_add]

/-- Assigning to the first field that is left changes the value there. -/
theorem zipWith_assign {done todo : List Field} {f : Field}
    (hnodup : ((done ++ f :: todo).map Field.name).Nodup) {before after : List Bits}
    (hbefore : before.map Bits.width = done.map Field.width)
    (hafter : after.map Bits.width = todo.map Field.width) (old value : Bits) :
    List.zipWith (assign f.name value) (done ++ f :: todo) (before ++ old :: after) =
      before ++ Bits.fit f.width value :: after := by
  have hkeep : ∀ (fields : List Field) (values : List Bits), (∀ g ∈ fields, g.name ≠ f.name) →
      values.map Bits.width = fields.map Field.width →
      List.zipWith (assign f.name value) fields values = values := by
    intro fields
    induction fields with
    | nil => exact fun values _ hwidths => (List.map_eq_nil_iff.mp hwidths).symm
    | cons g fields ih =>
      intro values hne hwidths
      cases values with
      | nil => rfl
      | cons v values =>
        rw [List.zipWith_cons_cons, assign, if_neg (hne g List.mem_cons_self),
          ih values (fun g' hg' => hne g' (List.mem_cons_of_mem _ hg')) (List.cons.inj hwidths).2]
  rw [List.map_append, List.map_cons, List.nodup_append] at hnodup
  obtain ⟨-, hnodup, hapart⟩ := hnodup
  rw [List.nodup_cons] at hnodup
  have hlength : done.length = before.length := by
    simpa using (congrArg List.length hbefore).symm
  rw [List.zipWith_append hlength, List.zipWith_cons_cons, assign, if_pos rfl,
    hkeep done before ?_ hbefore, hkeep todo after ?_ hafter]
  · exact fun g hg heq => hnodup.1 (heq ▸ List.mem_map_of_mem hg)
  · exact fun g hg heq => hapart _ (List.mem_map_of_mem hg) _ List.mem_cons_self heq

/-- After some fields are set, the others are still zero. -/
theorem setAll_spec (packed : Bits) (offset : Nat) (done todo : List Field) (before : List Bits) (r : Record)
    (hfields : shape.fields = done ++ todo) (hbefore : before.map Bits.width = done.map Field.width)
    (hvalues : r.values = before ++ todo.map fun f => Bits.ofNat f.width 0) (hshape : r.shape = shape) :
    ∃ r' : Record, setAll packed offset todo r = .ok r' ∧ r'.shape = shape ∧
      r'.values = before ++ cut packed offset todo := by
  induction todo generalizing done before offset r with
  | nil => exact ⟨r, rfl, hshape, hvalues⟩
  | cons f todo ih =>
    have hmem : f ∈ shape.fields := hfields ▸ List.mem_append_right _ List.mem_cons_self
    have hhas : r.shape.has f.name = true := by
      rw [hshape, Shape.has, List.any_eq_true]
      exact ⟨f, hmem, beq_self_eq_true _⟩
    have hslice : Bits.fit f.width (Bits.slice offset f.width packed) = Bits.slice offset f.width packed :=
      Bits.fit_width (b := Bits.slice offset f.width packed) (shape.width_pos f hmem)
    have hset : List.zipWith (assign f.name (Bits.slice offset f.width packed)) r.shape.fields r.values =
        (before ++ [Bits.slice offset f.width packed]) ++ todo.map fun f => Bits.ofNat f.width 0 := by
      rw [hshape, hfields, hvalues, List.map_cons,
        zipWith_assign (hfields ▸ shape.names_nodup) hbefore map_width_zero, hslice, List.append_assoc,
        List.singleton_append]
    unfold setAll set
    rw [if_pos hhas, ok_bind]
    have hnext := ih (offset + f.width) (done ++ [f]) (before ++ [Bits.slice offset f.width packed])
      ⟨r.shape, _, map_width_assign r.shape.width_pos r.widths f.name (Bits.slice offset f.width packed)⟩
      (by rw [hfields, List.append_assoc]; rfl) (by rw [List.map_append, List.map_append, hbefore]; rfl) hset hshape
    rwa [List.append_assoc, List.singleton_append] at hnext

/-- Unpacking sets one field after the other. -/
theorem setAll_eq_unpack (packed : Bits) :
    setAll (Bits.fit shape.width packed) 0 shape.fields (zero shape) = .ok (unpack shape packed) := by
  obtain ⟨⟨shape', values, hwidths⟩, hset, rfl, hvalues⟩ :=
    setAll_spec (Bits.fit shape.width packed) 0 [] shape.fields [] (zero shape) rfl rfl rfl rfl
  rw [hset]
  unfold unpack
  congr 2

end Record

/-! ## Both directions -/

/-- Packing and unpacking the records of a shape. -/
structure Shape.Packs (shape : Shape) : Prop where
  /-- a record can be recovered from its packed value -/
  recovered : ∀ r : Record, r.shape = shape → Record.unpack shape r.pack = r
  /-- every value is packed again up to its width: it is cut, or zeros are added, and without fields it is the
  one-bit zero -/
  fitted : ∀ packed : Bits, (Record.unpack shape packed).pack =
    if shape.isEmpty then ⟨1, 0#1⟩
    else ⟨Field.totalWidth shape.fields, packed.value.setWidth (Field.totalWidth shape.fields)⟩
  /-- every field counts by what the widths of the fields before it make -/
  number : ∀ r : Record, r.shape = shape → r.pack.toNat =
    ∑ i ∈ Finset.range shape.size, r.numberAt i * 2 ^ Field.totalWidth (shape.fields.take i)
  /-- the packed value is as wide as all fields together, and has at least one bit -/
  width : ∀ r : Record, r.shape = shape →
    r.pack.width = if shape.isEmpty then 1 else Field.totalWidth shape.fields
  /-- records are equal if their packed values are -/
  eq_iff : ∀ r r' : Record, r.shape = shape → r'.shape = shape → (r = r' ↔ r.pack = r'.pack)
  /-- packing inserts the values into zeros, each above those before it -/
  inserted : ∀ r : Record, r.shape = shape → shape.isEmpty = false →
    r.pack = Record.insertAll 0 r.values (Bits.ofNat (Field.totalWidth shape.fields) 0)
  /-- unpacking sets the fields of a zero record, each to what stands above the fields before it -/
  assigned : ∀ packed : Bits, Record.setAll (Bits.fit (Field.totalWidth shape.fields) packed) 0 shape.fields
    (Record.zero shape) = .ok (Record.unpack shape packed)

namespace Record

/-- Packing and unpacking are inverse to each other, for every shape whose width is a 32-bit number. -/
theorem packs_of_totalWidth_lt (shape : Shape) (hsmall : Field.totalWidth shape.fields < 2 ^ 32) :
    shape.Packs where
  recovered := by
    rintro r rfl
    exact unpack_pack hsmall
  fitted := by
    intro packed
    rw [pack_unpack hsmall, Bits.fit]
    cases hempty : shape.isEmpty with
    | true => exact if_pos (Shape.totalWidth_eq_zero hempty)
    | false => exact if_neg (Shape.totalWidth_pos hempty).ne'
  number := by
    rintro r rfl
    rw [toNat_pack hsmall]
    exact toNat_join_eq_sum r.values r.widths
  width := by
    rintro r rfl
    exact width_pack hsmall
  eq_iff := by
    rintro r r' rfl hshape
    refine ⟨congrArg pack, fun hpack => ?_⟩
    rw [← unpack_pack hsmall, hpack, ← hshape]
    exact unpack_pack (hshape ▸ hsmall)
  inserted := by
    rintro r rfl hempty
    exact pack_eq_insertAll hsmall hempty
  assigned := by
    intro packed
    have hset : setAll (Bits.fit shape.width packed) 0 shape.fields (zero shape) = _ := setAll_eq_unpack packed
    rwa [Shape.width_eq hsmall] at hset

end Record

/-! ## A command -/

namespace Command

/-- A flag below a field that is wider than a machine word, and a short one above it. -/
def fields : List Field := [⟨"last", 1⟩, ⟨"operand", 100⟩, ⟨"tag", 5⟩]

/-- The shape of a command. -/
def shape : Shape := ⟨fields, by decide, by decide⟩

/-- A command. -/
def command : Record := Record.fill shape [Bits.ofNat 1 1, Bits.ofNat 100 (3 * 2 ^ 98), Bits.ofNat 5 21]

/-- The command is recovered from its 106 bits, and a wider value loses all bits above them. -/
theorem packs_command : Field.totalWidth shape.fields < 2 ^ 32 ∧ shape.Packs ∧
    Record.unpack shape ⟨106, 0x2B8000000000000000000000001#106⟩ = command ∧
    (Record.unpack shape ⟨128, 0x152DAB8000000000000000000000001#128⟩).pack =
      ⟨106, 0x2B8000000000000000000000001#106⟩ := by
  have hsmall : Field.totalWidth shape.fields < 2 ^ 32 := by decide
  have hpacks := Record.packs_of_totalWidth_lt shape hsmall
  have hcommand : command.pack = ⟨106, 0x2B8000000000000000000000001#106⟩ := by decide
  refine ⟨hsmall, hpacks, ?_, ?_⟩
  · rw [← hcommand]
    exact hpacks.recovered command rfl
  · rw [hpacks.fitted]
    decide

end Command

end GuardedActions
