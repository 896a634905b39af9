import GuardedActions.Fault

/-!
# Shapes

A shape is a list of fields whose widths are positive and whose names are distinct; both facts are
part of the type.  `Shape.ofFields` builds one and blames the first field that breaks a rule.
-/

set_option autoImplicit false

namespace GuardedActions

/-- The shape of a record. -/
structure Shape where
  /-- the fields, lowest bits first -/
  fields : List Field
  /-- every field has bits -/
  width_pos : ∀ f ∈ fields, 0 < f.width
  /-- no two fields share a name -/
  names_nodup : (fields.map Field.name).Nodup
  deriving DecidableEq, Repr

namespace Shape

/-- The shape without fields. -/
def empty : Shape := ⟨[], by simp, by simp⟩

instance : Inhabited Shape := ⟨empty⟩

/-- The first rule that the fields break, given the names of the fields before them.  Of one field
the width is looked at before the name. -/
def flaw? (seen : List String) : List Field → Option Fault
  | [] => none
  | f :: rest =>
    if f.width = 0 then some (.zeroWidth f.name)
    else if f.name ∈ seen then some (.duplicateField f.name)
    else flaw? (f.name :: seen) rest

theorem sound_of_flaw?_eq_none {seen : List String} {fields : List Field}
    (h : flaw? seen fields = none) :
    (∀ f ∈ fields, 0 < f.width) ∧ (fields.map Field.name).Nodup ∧
      ∀ f ∈ fields, f.name ∉ seen := by
  induction fields generalizing seen with
  | nil => simp
  | cons f rest ih =>
    unfold flaw? at h
    split at h
    · cases h
    · rename_i hw
      split at h
      · cases h
      · rename_i hs
        obtain ⟨hpos, hnodup, hfresh⟩ := ih h
        refine ⟨?_, ?_, ?_⟩
        · intro g hg
          cases List.mem_cons.mp hg with
          | inl e => subst e; exact Nat.pos_iff_ne_zero.mpr hw
          | inr m => exact hpos g m
        · rw [List.map_cons, List.nodup_cons]
          refine ⟨?_, hnodup⟩
          intro hmem
          obtain ⟨g, hg, hname⟩ := List.mem_map.mp hmem
          exact hfresh g hg (hname ▸ List.mem_cons_self)
        · intro g hg
          cases List.mem_cons.mp hg with
          | inl e => subst e; exact hs
          | inr m => exact fun hmem => hfresh g m (List.mem_cons_of_mem _ hmem)

/-- The shape of the given fields, or the first rule that they break. -/
def ofFields (fields : List Field) : Except Fault Shape :=
  match h : flaw? [] fields with
  | some fault => .error fault
  | none =>
    .ok ⟨fields, (sound_of_flaw?_eq_none h).1, (sound_of_flaw?_eq_none h).2.1⟩

/-- A shape of a single field. -/
def single (name : String) (width : Nat) : Except Fault Shape := ofFields [⟨name, width⟩]

/-- Number of fields. -/
def size (s : Shape) : Nat := s.fields.length

/-- Whether there are no fields. -/
def isEmpty (s : Shape) : Bool := s.fields.isEmpty

/-- Sum of the field widths as a 32-bit count, which wraps. -/
def width (s : Shape) : Nat := Field.totalWidth s.fields % UInt32.size

/-- Position of the field with the given name. -/
def indexOf? (s : Shape) (name : String) : Option Nat :=
  s.fields.findIdx? fun f => f.name == name

/-- Whether some field has the given name. -/
def has (s : Shape) (name : String) : Bool := s.fields.any fun f => f.name == name

/-- The fields in order, between braces. -/
def text (s : Shape) : String := Field.listText s.fields

@[simp] theorem fields_empty : empty.fields = [] := rfl

theorem ofFields_fields {fields : List Field} {s : Shape} (h : ofFields fields = .ok s) :
    s.fields = fields := by
  unfold ofFields at h
  split at h
  · cases h
  · cases h
    rfl

/-- The fields of a shape are themselves accepted. -/
theorem flaw?_eq_none {fields : List Field} {seen : List String}
    (hpos : ∀ f ∈ fields, 0 < f.width) (hnodup : (fields.map Field.name).Nodup)
    (hfresh : ∀ f ∈ fields, f.name ∉ seen) : flaw? seen fields = none := by
  induction fields generalizing seen with
  | nil => rfl
  | cons f rest ih =>
    have hw : f.width ≠ 0 := Nat.pos_iff_ne_zero.mp (hpos f List.mem_cons_self)
    have hs : f.name ∉ seen := hfresh f List.mem_cons_self
    rw [List.map_cons, List.nodup_cons] at hnodup
    rw [flaw?, if_neg hw, if_neg hs]
    refine ih (fun g hg => hpos g (List.mem_cons_of_mem _ hg)) hnodup.2 ?_
    intro g hg hmem
    cases List.mem_cons.mp hmem with
    | inl e => exact hnodup.1 (List.mem_map.mpr ⟨g, hg, e⟩)
    | inr m => exact hfresh g (List.mem_cons_of_mem _ hg) m

end Shape

end GuardedActions
