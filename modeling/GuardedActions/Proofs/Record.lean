import GuardedActions.Record
import GuardedActions.Proofs.Computation
import Mathlib.Algebra.Group.Nat.Defs
import Mathlib.Data.Nat.Basic

/-!
# Reading records

The fields of a record that was filled in order, and fields that are read as machine words.
-/

set_option autoImplicit false

namespace GuardedActions

theorem Bits.toNat_fit {width : Nat} (h : 0 < width) (b : Bits) :
    (fit width b).toNat = b.toNat % 2 ^ width := by
  rw [fit, if_neg (Nat.pos_iff_ne_zero.mp h)]
  exact BitVec.toNat_setWidth width b.value

theorem Bits.toNat_toWord {b : Bits} (h : b.toNat < UInt64.size) : b.toWord.toNat = b.toNat :=
  UInt64.toNat_ofNat_of_lt h

/-- A number that is small enough for a field is kept by it. -/
theorem Bits.toNat_fit_ofNat {width n : Nat} (hpos : 0 < width) (hn : n < 2 ^ width)
    (hword : n < UInt64.size) : (fit width (ofNat 64 n)).toNat = n := by
  have hword' : n < 2 ^ 64 := hword
  rw [toNat_fit hpos, toNat_ofNat, Nat.pow_eq, Nat.mod_eq_of_lt hword', Nat.mod_eq_of_lt hn]

/-- Fields with bits and with names of their own make a shape. -/
theorem Shape.exists_ofFields {fields : List Field} (hpos : ∀ f ∈ fields, 0 < f.width)
    (hnodup : (fields.map Field.name).Nodup) : ∃ shape, ofFields fields = .ok shape := by
  have hsound : flaw? [] fields = none := flaw?_eq_none hpos hnodup fun f _ => List.not_mem_nil
  refine ⟨⟨fields, hpos, hnodup⟩, ?_⟩
  unfold ofFields
  split
  · rename_i fault hflaw
    rw [hsound] at hflaw
    cases hflaw
  · rfl

namespace Record

theorem find?_of_getElem? {fields : List Field} {values : List Bits}
    (hnodup : (fields.map Field.name).Nodup) {i : Nat} {f : Field} {v : Bits}
    (hf : fields[i]? = some f) (hv : values[i]? = some v) : find? f.name fields values = some v := by
  induction fields generalizing values i with
  | nil => cases hf
  | cons g fields ih =>
    rw [List.map_cons, List.nodup_cons] at hnodup
    cases values with
    | nil => cases hv
    | cons w values =>
      rw [find?]
      cases i with
      | zero =>
        obtain rfl : g = f := Option.some.inj hf
        rw [if_pos rfl]
        exact hv
      | succ i =>
        have hmem : f ∈ fields := List.mem_of_getElem? hf
        have hne : g.name ≠ f.name := fun h => hnodup.1 (h ▸ List.mem_map_of_mem hmem)
        rw [if_neg hne]
        exact ih hnodup.2 hf hv

/-- A field of a record that was filled holds its value, fitted to the field. -/
theorem get_fill {shape : Shape} {values : List Bits} {i : Nat} {f : Field} {v : Bits}
    (hf : shape.fields[i]? = some f) (hv : values[i]? = some v) :
    (fill shape values).get f.name = .ok (Bits.fit f.width v) := by
  obtain ⟨hi, -⟩ := List.getElem?_eq_some_iff.mp hf
  have hsource : (values.take shape.fields.length
      ++ List.replicate (shape.fields.length - values.length) (Bits.ofNat 64 0))[i]? = some v := by
    obtain ⟨hi', -⟩ := List.getElem?_eq_some_iff.mp hv
    rw [List.getElem?_append_left (by rw [List.length_take]; omega), List.getElem?_take_of_lt hi, hv]
  have hvalue : (fill shape values).values[i]? = some (Bits.fit f.width v) := by
    unfold fill
    rw [List.getElem?_zipWith, hf, hsource]
  have hfind := find?_of_getElem? shape.names_nodup hf hvalue
  unfold get
  rw [shape_fill, hfind]

theorem getWord_eq_ok {r : Record} {name : String} {word : UInt64} :
    r.getWord name = .ok word ↔
      ∃ v, r.get name = .ok v ∧ v.toNat < UInt64.size ∧ v.toWord = word := by
  unfold getWord
  rw [bind_eq_ok]
  refine exists_congr fun v => and_congr_right fun _ => ?_
  by_cases hlt : v.toNat < UInt64.size
  · rw [if_pos hlt, Except.ok.injEq]
    exact ⟨fun h => ⟨hlt, h⟩, fun h => h.2⟩
  · rw [if_neg hlt]
    exact ⟨nofun, fun h => absurd h.1 hlt⟩

/-- A field of at most 64 bits can be read as a machine word. -/
theorem exists_getWord (r : Record) {f : Field} (hf : f ∈ r.shape.fields) (hwidth : f.width ≤ 64) :
    ∃ word, r.getWord f.name = .ok word ∧ word.toNat < 2 ^ f.width := by
  obtain ⟨v, hv, hvwidth⟩ := r.exists_get hf
  have hlt : v.toNat < 2 ^ f.width := hvwidth ▸ v.toNat_lt
  have hword : v.toNat < UInt64.size :=
    Nat.lt_of_lt_of_le hlt (Nat.pow_le_pow_right (by decide) hwidth)
  refine ⟨v.toWord, getWord_eq_ok.mpr ⟨v, hv, hword, rfl⟩, ?_⟩
  rwa [Bits.toNat_toWord hword]

/-- A word that fits a field is read from the record that was filled with it. -/
theorem getWord_fill {shape : Shape} {values : List Bits} {i : Nat} {f : Field} {word : UInt64}
    (hf : shape.fields[i]? = some f) (hv : values[i]? = some (Bits.ofNat 64 word.toNat))
    (hword : word.toNat < 2 ^ f.width) : (fill shape values).getWord f.name = .ok word := by
  have hpos : 0 < f.width := shape.width_pos f (List.mem_of_getElem? hf)
  have hkept := Bits.toNat_fit_ofNat hpos hword word.toNat_lt
  refine getWord_eq_ok.mpr ⟨_, get_fill hf hv, ?_, ?_⟩
  · rw [hkept]
    exact word.toNat_lt
  · rw [Bits.toWord, hkept]
    exact UInt64.ofNat_toNat

end Record

end GuardedActions
