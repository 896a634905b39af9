import GuardedActions.Block.AssociativeMemory
import GuardedActions.Proofs.Block.Cycle
import GuardedActions.Proofs.Element
import GuardedActions.Proofs.Mask
import GuardedActions.Proofs.Record
import Mathlib.Algebra.Order.Group.Multiset
import Mathlib.Data.Multiset.Filter
import Mathlib.Data.Multiset.Range
import Mathlib.Tactic.Convert

/-!
# A cycle of an associative memory

A slot of an associative memory is free or holds a pair.  A push fills the lowest free slot and a pop
empties the lowest one that holds its key, so that the two never meet; `exists_cycle` says what a cycle
returns and what it makes of the pairs in the slots.
-/

set_option autoImplicit false

namespace GuardedActions

/-- Filling a position adds the value to those that a function finds below a bound. -/
theorem filterMap_range_update {α : Type} {n i : Nat} (hi : i < n) (f : Nat → Option α) (a : α) :
    (Multiset.range n).filterMap (Function.update f i (some a)) =
      a ::ₘ (Multiset.range n).filterMap (Function.update f i none) := by
  obtain ⟨rest, hrest⟩ := Multiset.exists_cons_of_mem (Multiset.mem_range.mpr hi)
  have hnotin : i ∉ rest := by
    have hnodup := Multiset.nodup_range n
    rw [hrest] at hnodup
    exact (Multiset.nodup_cons.mp hnodup).1
  have hsame : rest.filterMap (Function.update f i (some a)) =
      rest.filterMap (Function.update f i none) := by
    induction rest using Quotient.inductionOn with
    | h l =>
      refine congrArg _ (List.filterMap_congr fun j hj => ?_)
      have hne : j ≠ i := fun h => hnotin (h ▸ hj)
      rw [Function.update_of_ne hne, Function.update_of_ne hne]
  rw [hrest, Multiset.filterMap_cons_some _ _ _ (Function.update_self i (some a) f),
    Multiset.filterMap_cons_none _ _ (Function.update_self i none f), hsame]

namespace AssociativeMemory

/-! ## Moves -/

/-- What a cycle asks of an associative memory. -/
inductive Move where
  /-- call `push` -/
  | push (args : Record)
  /-- call `pop` -/
  | pop (args : Record)
  deriving DecidableEq, Repr

namespace Move

/-- The action of the memory that makes the move. -/
def action : Move → String
  | .push _ => "push"
  | .pop _ => "pop"

/-- The move as a use of the block. -/
def use : Move → Block.Use
  | .push args => .call "push" args
  | .pop args => .call "pop" args

end Move

variable {σ : Type}

/-- The arguments of the move are of the shape of the method. -/
def Fits (x : AssociativeMemory) : Move → Prop
  | .push args => args.shape = x.pushInput
  | .pop args => args.shape = x.popInput

/-- A cycle of a memory may make these moves: each is ready and fits, and no method is called twice. -/
structure Allows (memory : AssociativeMemory) (view : View σ) (x : AssociativeMemory)
    (moves : List Move) : Prop where
  /-- the methods are ready -/
  offered : ∀ move ∈ moves, memory.block.offers view x move.use = .ok true
  /-- the arguments have their shapes -/
  fits : ∀ move ∈ moves, x.Fits move
  /-- every method is called at most once -/
  once : (moves.map Move.action).Nodup

theorem offers_push (memory : AssociativeMemory) (view : View σ) (x : AssociativeMemory) (args : Record) :
    memory.block.offers view x (Move.push args).use = .ok x.hasRoom := by
  simp [Block.offers, Move.use, block]

theorem offers_pop (memory : AssociativeMemory) (view : View σ) (x : AssociativeMemory) (args : Record) :
    memory.block.offers view x (Move.pop args).use = .ok true := by
  simp [Block.offers, Move.use, block]

theorem use_push (memory : AssociativeMemory) (view : View σ) (x : AssociativeMemory) (args : Record) :
    memory.block.use view x (Move.push args).use = (x.push args).map fun x => (Record.empty, x) := by
  cases hpush : x.push args with
  | error e => simp [Block.use, Move.use, block, hpush, Except.map, bind, Except.bind]
  | ok y => simp [Block.use, Move.use, block, hpush, Except.map]

theorem use_pop (memory : AssociativeMemory) (view : View σ) (x : AssociativeMemory) (args : Record) :
    memory.block.use view x (Move.pop args).use = (do
      let (datum, x) ← x.pop (← args.get "addr")
      .ok (x.popResult datum, x)) := by
  simp [Block.use, Move.use, block]

/-! ## Slots -/

/-- The key and the datum in some arguments of a push. -/
def pairOf (args : Record) : Option (Bits × Bits) :=
  match args.get "addr", args.get "data" with
  | .ok key, .ok datum => some (key, datum)
  | _, _ => none

/-- The pair in a slot, if the slot is in use. -/
def slot? (x : AssociativeMemory) (i : Nat) : Option (Bits × Bits) :=
  if x.valid.value? i = some true then
    (x.keys.value? i).bind fun key => (x.data.value? i).map fun datum => (key, datum)
  else none

/-- The pairs in all slots. -/
def contents (x : AssociativeMemory) : Multiset (Bits × Bits) :=
  (Multiset.range x.entries).filterMap x.slot?

/-- The slot that a push fills. -/
def freeSlot? (x : AssociativeMemory) : Option Nat := Encoder.lowest x.validMask.complement

/-- The slot that a pop of a key empties. -/
def hit? (x : AssociativeMemory) (key : Bits) : Option Nat := Encoder.lowest (x.matching key)

/-- Shapes and widths fit together. -/
structure Formed (x : AssociativeMemory) : Prop where
  /-- a push has a key and a datum -/
  pushInput : x.pushInput.fields = [⟨"addr", x.keyShape.width⟩, ⟨"data", x.dataShape.width⟩]
  /-- a pop has a key -/
  popInput : x.popInput.fields = [⟨"addr", x.keyShape.width⟩]
  /-- a pop returns a datum and a flag -/
  popOutput : x.popOutput.fields = [⟨"data", x.dataShape.width⟩, ⟨"not_found", 1⟩]

/-- A memory between two cycles: no write waits. -/
structure Rests (x : AssociativeMemory) : Prop where
  /-- no write waits, and every slot has its bit -/
  valid : x.valid.Idle ∧ x.valid.cells.size = x.entries
  /-- no write waits, and every slot has its key -/
  keys : x.keys.Idle ∧ x.keys.cells.size = x.entries
  /-- no write waits, and every slot has its datum -/
  data : x.data.Idle ∧ x.data.cells.size = x.entries
  /-- the data have their width -/
  width : ∀ {i : Nat} {datum : Bits}, x.data.value? i = some datum → datum.width = x.dataShape.width

section Slots

variable {x : AssociativeMemory}

theorem validMask_eq (x : AssociativeMemory) :
    x.validMask = Mask.ofTest x.entries fun i => (x.valid.value? i).any id := by
  simp only [validMask, RegisterArray.value?, Option.any_map, id]

theorem matching_eq (x : AssociativeMemory) (key : Bits) : x.matching key =
    Mask.ofTest x.entries fun i => (x.valid.value? i).any id && (x.keys.value? i).any (· = key) := by
  simp only [matching, RegisterArray.value?, Option.any_map, id]

theorem Rests.slot?_eq (h : x.Rests) {i : Nat} (hi : i < x.entries) :
    ∃ used key datum, x.valid.value? i = some used ∧ x.keys.value? i = some key ∧
      x.data.value? i = some datum ∧ x.slot? i = if used then some (key, datum) else none := by
  obtain ⟨used, hused⟩ := RegisterArray.exists_value? (h.valid.2 ▸ hi)
  obtain ⟨key, hkey⟩ := RegisterArray.exists_value? (h.keys.2 ▸ hi)
  obtain ⟨datum, hdatum⟩ := RegisterArray.exists_value? (h.data.2 ▸ hi)
  refine ⟨used, key, datum, hused, hkey, hdatum, ?_⟩
  rw [slot?, hused, hkey, hdatum]
  cases used with
  | true => rfl
  | false => rfl

theorem Rests.lt_of_slot? (h : x.Rests) {i : Nat} {pair : Bits × Bits} (hi : x.slot? i = some pair) :
    i < x.entries := by
  unfold slot? at hi
  split at hi
  · rename_i hvalid
    rw [← h.valid.2]
    exact RegisterArray.lt_size_of_value? hvalid
  · cases hi

/-- The mask of used slots has the slots that hold a pair. -/
theorem Rests.test_validMask (h : x.Rests) (i : Nat) : x.validMask.test i = (x.slot? i).isSome := by
  rw [validMask_eq, Mask.test_ofTest]
  by_cases hi : i < x.entries
  · obtain ⟨used, key, datum, hused, -, -, hslot⟩ := h.slot?_eq hi
    rw [hslot, hused, decide_eq_true hi]
    cases used with
    | true => rfl
    | false => rfl
  · rw [decide_eq_false hi, Bool.false_and]
    cases hslot : x.slot? i with
    | none => rfl
    | some pair => exact absurd (h.lt_of_slot? hslot) hi

theorem Rests.test_complement (h : x.Rests) {i : Nat} :
    x.validMask.complement.test i = true ↔ i < x.entries ∧ x.slot? i = none := by
  rw [Mask.test_complement, h.test_validMask, validMask_eq, Mask.size_ofTest]
  simp

/-- The slots that match a key are those that hold a pair with it. -/
theorem Rests.test_matching (h : x.Rests) {key : Bits} {i : Nat} :
    (x.matching key).test i = true ↔ ∃ datum, x.slot? i = some (key, datum) := by
  rw [matching_eq, Mask.test_ofTest]
  by_cases hi : i < x.entries
  · obtain ⟨used, key', datum, hused, hkey, -, hslot⟩ := h.slot?_eq hi
    rw [hslot, hused, hkey, decide_eq_true hi]
    cases used with
    | true => simp
    | false => simp
  · rw [decide_eq_false hi, Bool.false_and]
    refine ⟨nofun, ?_⟩
    rintro ⟨datum, hslot⟩
    exact absurd (h.lt_of_slot? hslot) hi

/-- The slot that a push fills is free, and those below it are not. -/
theorem Rests.of_freeSlot? (h : x.Rests) {i : Nat} (hfree : x.freeSlot? = some i) :
    i < x.entries ∧ x.slot? i = none ∧ ∀ j < i, x.slot? j ≠ none := by
  obtain ⟨htest, hleast⟩ := Encoder.lowest_eq_some hfree
  obtain ⟨hi, hnone⟩ := h.test_complement.mp htest
  refine ⟨hi, hnone, fun j hj hjnone => ?_⟩
  have hle := hleast j (h.test_complement.mpr ⟨Nat.lt_trans hj hi, hjnone⟩)
  omega

/-- The slot that a pop empties is the lowest one that holds the key. -/
theorem Rests.of_hit? (h : x.Rests) {key : Bits} {i : Nat} (hhit : x.hit? key = some i) :
    ∃ datum, x.slot? i = some (key, datum) ∧ ∀ j < i, ∀ datum', x.slot? j ≠ some (key, datum') := by
  obtain ⟨htest, hleast⟩ := Encoder.lowest_eq_some hhit
  obtain ⟨datum, hdatum⟩ := h.test_matching.mp htest
  refine ⟨datum, hdatum, fun j hj datum' hslot => ?_⟩
  have hle := hleast j (h.test_matching.mpr ⟨datum', hslot⟩)
  omega

/-- A pop finds a slot if some pair has its key. -/
theorem Rests.isSome_hit? (h : x.Rests) {key : Bits} :
    (x.hit? key).isSome = true ↔ ∃ datum, (key, datum) ∈ x.contents := by
  rw [hit?, Encoder.isSome_lowest]
  simp only [h.test_matching, contents, Multiset.mem_filterMap, Multiset.mem_range]
  constructor
  · rintro ⟨i, datum, hslot⟩
    exact ⟨datum, i, h.lt_of_slot? hslot, hslot⟩
  · rintro ⟨datum, i, -, hslot⟩
    exact ⟨i, datum, hslot⟩

theorem Rests.used_eq (h : x.Rests) : x.used = x.contents.card := by
  have hmembers : x.validMask.members = (List.range x.entries).filter fun i => (x.slot? i).isSome := by
    unfold Mask.members
    rw [validMask_eq, Mask.size_ofTest, ← validMask_eq]
    exact List.filter_congr fun i _ => h.test_validMask i
  have hcontents : x.contents = ((List.range x.entries).filterMap x.slot? : List (Bits × Bits)) := rfl
  rw [used, Mask.count, hmembers, hcontents, Multiset.coe_card, List.length_filterMap_eq_countP,
    List.countP_eq_length_filter]

/-- A push is ready as long as there are fewer pairs than slots. -/
theorem Rests.hasRoom_iff (h : x.Rests) : x.hasRoom = true ↔ x.contents.card < x.entries := by
  have hroom : x.hasRoom = true ↔ ∃ i, i < x.entries ∧ x.slot? i = none := by
    change (Encoder.lowest x.validMask.complement).isSome = true ↔ _
    rw [Encoder.isSome_lowest]
    simp only [h.test_complement]
  have hcard : x.contents.card = (List.range x.entries).countP fun i => (x.slot? i).isSome := by
    rw [← List.length_filterMap_eq_countP]
    rfl
  have hlt := List.countP_lt_length_iff (l := List.range x.entries) (p := fun i => (x.slot? i).isSome)
  rw [List.length_range] at hlt
  rw [hroom, hcard, hlt]
  simp only [List.mem_range, Option.isSome_eq_false_iff, Option.isNone_iff_eq_none]

end Slots

/-! ## The bodies -/

/-- The memory with slots that are about to be filled or emptied. -/
structure Posed (x : AssociativeMemory) (slots : Nat → Option (Option (Bits × Bits)))
    (y : AssociativeMemory) : Prop where
  /-- only the elements are written -/
  frame : y = { x with valid := y.valid, keys := y.keys, data := y.data }
  /-- a slot that is filled gets its bit, and one that is emptied loses it -/
  valid : x.valid.Carries (fun i => (slots i).map Option.isSome) y.valid
  /-- a slot that is filled gets its key -/
  keys : x.keys.Carries (fun i => (slots i).bind (Option.map Prod.fst)) y.keys
  /-- a slot that is filled gets its datum -/
  data : x.data.Carries (fun i => (slots i).bind (Option.map Prod.snd)) y.data

section Posed

variable {x y : AssociativeMemory} {slots : Nat → Option (Option (Bits × Bits))}

theorem Rests.posed (h : x.Rests) : Posed x (fun _ => none) x where
  frame := rfl
  valid := h.valid.1.carries
  keys := h.keys.1.carries
  data := h.data.1.carries

theorem Posed.freeSlot?_eq (h : Posed x slots y) : y.freeSlot? = x.freeSlot? := by
  have hentries : y.entries = x.entries := (congrArg AssociativeMemory.entries h.frame :)
  rw [freeSlot?, freeSlot?, validMask_eq, validMask_eq, h.valid.value?_eq, hentries]

theorem Posed.hit?_eq (h : Posed x slots y) (key : Bits) : y.hit? key = x.hit? key := by
  have hentries : y.entries = x.entries := (congrArg AssociativeMemory.entries h.frame :)
  rw [hit?, hit?, matching_eq, matching_eq, h.valid.value?_eq, h.keys.value?_eq, hentries]

/-- A push fills the free slot. -/
theorem Posed.push (h : Posed x slots y) (hrests : x.Rests) {i : Nat} (hfree : x.freeSlot? = some i)
    (huntouched : slots i = none) {args : Record} {key datum : Bits} (hkey : args.get "addr" = .ok key)
    (hdatum : args.get "data" = .ok datum) : ∃ y', y.push args = .ok y' ∧
      Posed x (Function.update slots i (some (some (key, datum)))) y' := by
  obtain ⟨hi, -, -⟩ := hrests.of_freeSlot? hfree
  have hlowest : Encoder.lowest y.validMask.complement = some i := h.freeSlot?_eq.trans hfree
  obtain ⟨keys, hkeys, hkeys'⟩ := h.keys.write (hrests.keys.2 ▸ hi) (by rw [huntouched]; rfl) key
  obtain ⟨data, hdata, hdata'⟩ := h.data.write (hrests.data.2 ▸ hi) (by rw [huntouched]; rfl) datum
  obtain ⟨valid, hvalid, hvalid'⟩ := h.valid.write (hrests.valid.2 ▸ hi) (by rw [huntouched]; rfl) true
  refine ⟨{ y with keys := keys, data := data, valid := valid }, ?_, ?_, ?_, ?_, ?_⟩
  · unfold AssociativeMemory.push
    rw [hlowest]
    simp only [hkey, hdatum, hkeys, hdata, hvalid, ok_bind]
  · rw [h.frame]
  · convert hvalid' using 1
    exact Function.comp_update (Option.map Option.isSome) slots i _
  · convert hkeys' using 1
    exact Function.comp_update (fun c => Option.bind c (Option.map Prod.fst)) slots i _
  · convert hdata' using 1
    exact Function.comp_update (fun c => Option.bind c (Option.map Prod.snd)) slots i _

/-- A pop empties the slot that it hits. -/
theorem Posed.pop (h : Posed x slots y) (hrests : x.Rests) {key datum : Bits} {i : Nat}
    (hhit : x.hit? key = some i) (hslot : x.slot? i = some (key, datum)) (huntouched : slots i = none) :
    ∃ y', y.pop key = .ok (some datum, y') ∧ Posed x (Function.update slots i (some none)) y' := by
  have hi : i < x.entries := hrests.lt_of_slot? hslot
  have hlowest : Encoder.lowest (y.matching key) = some i := (h.hit?_eq key).trans hhit
  have hread : y.data.read i = .ok datum := by
    obtain ⟨used, key', datum', -, -, hdatum', heq⟩ := hrests.slot?_eq hi
    rw [hslot] at heq
    rw [RegisterArray.read_eq_ok_iff, h.data.value?_eq, hdatum']
    split at heq
    · obtain ⟨-, rfl⟩ := Prod.mk.inj (Option.some.inj heq)
      rfl
    · cases heq
  obtain ⟨valid, hvalid, hvalid'⟩ := h.valid.write (hrests.valid.2 ▸ hi) (by rw [huntouched]; rfl) false
  have hkeys : (fun j => (Function.update slots i (some none) j).bind (Option.map Prod.fst)) =
      fun j => (slots j).bind (Option.map Prod.fst) := by
    refine (Function.comp_update (fun c => Option.bind c (Option.map Prod.fst)) slots i _).trans ?_
    exact Function.update_eq_self_iff.mpr (by rw [Function.comp, huntouched]; rfl)
  have hdata : (fun j => (Function.update slots i (some none) j).bind (Option.map Prod.snd)) =
      fun j => (slots j).bind (Option.map Prod.snd) := by
    refine (Function.comp_update (fun c => Option.bind c (Option.map Prod.snd)) slots i _).trans ?_
    exact Function.update_eq_self_iff.mpr (by rw [Function.comp, huntouched]; rfl)
  refine ⟨{ y with valid := valid }, ?_, ?_, ?_, ?_, ?_⟩
  · unfold AssociativeMemory.pop
    rw [hlowest]
    simp only [hread, hvalid, ok_bind]
  · rw [h.frame]
  · convert hvalid' using 1
    exact Function.comp_update (Option.map Option.isSome) slots i _
  · rw [hkeys]
    exact h.keys
  · rw [hdata]
    exact h.data

/-- After the edge the slots are as posed. -/
theorem Posed.slot?_commit (h : Posed x slots y) (hrests : x.Rests) {i : Nat} (hi : i < x.entries) :
    y.commit.slot? i = (slots i).getD (x.slot? i) := by
  obtain ⟨used, key, datum, hused, hkey, hdatum, hslot⟩ := hrests.slot?_eq hi
  have hcommit : y.commit.slot? i = if y.valid.commit.value? i = some true then
      (y.keys.commit.value? i).bind fun key => (y.data.commit.value? i).map fun datum => (key, datum)
    else none := rfl
  rw [hcommit, h.valid.value?_commit, h.keys.value?_commit, h.data.value?_commit, hslot, hused, hkey,
    hdatum]
  cases slots i with
  | none => cases used <;> rfl
  | some slot =>
    cases slot with
    | none => rfl
    | some pair => rfl

end Posed

/-! ## The cycle -/

/-- The pair that a move brings. -/
def coming? : Move → Option (Bits × Bits)
  | .push args => pairOf args
  | .pop _ => none

/-- The pair that a move takes away. -/
def leaving? (x : AssociativeMemory) : Move → Option (Bits × Bits)
  | .push _ => none
  | .pop args =>
    match args.get "addr" with
    | .ok key => (x.hit? key).bind x.slot?
    | .error _ => none

/-- What the body of a move returns. -/
def answer (x : AssociativeMemory) : Move → Record
  | .push _ => Record.empty
  | .pop args => x.popResult ((x.leaving? (.pop args)).map Prod.snd)

/-- The slots that a move fills or empties. -/
def Touches (x : AssociativeMemory) : Move → Nat → Prop
  | .push _, i => x.freeSlot? = some i
  | .pop args, i => ∃ key, args.get "addr" = .ok key ∧ x.hit? key = some i

/-- What a cycle makes of a memory. -/
structure Outcome (x : AssociativeMemory) (moves : List Move) (x' : AssociativeMemory) : Prop where
  /-- only the elements change -/
  frame : x' = { x with valid := x'.valid, keys := x'.keys, data := x'.data }
  /-- no write waits -/
  rests : x'.Rests
  /-- the pairs of the pushes come, and those of the pops that hit leave -/
  contents : x'.contents + (moves.filterMap x.leaving? : List (Bits × Bits)) =
    x.contents + (moves.filterMap coming? : List (Bits × Bits))

theorem Formed.exists_pair {x : AssociativeMemory} (h : x.Formed) {args : Record}
    (hshape : args.shape = x.pushInput) : ∃ key datum, args.get "addr" = .ok key ∧
      args.get "data" = .ok datum ∧ datum.width = x.dataShape.width ∧
      pairOf args = some (key, datum) := by
  have hkey : (⟨"addr", x.keyShape.width⟩ : Field) ∈ args.shape.fields := by simp [hshape, h.pushInput]
  have hdatum : (⟨"data", x.dataShape.width⟩ : Field) ∈ args.shape.fields := by
    simp [hshape, h.pushInput]
  obtain ⟨key, hkey, -⟩ := args.exists_get hkey
  obtain ⟨datum, hdatum, hwidth⟩ := args.exists_get hdatum
  refine ⟨key, datum, hkey, hdatum, hwidth, ?_⟩
  rw [pairOf, hkey, hdatum]

theorem Formed.exists_key {x : AssociativeMemory} (h : x.Formed) {args : Record}
    (hshape : args.shape = x.popInput) : ∃ key, args.get "addr" = .ok key := by
  have hkey : (⟨"addr", x.keyShape.width⟩ : Field) ∈ args.shape.fields := by simp [hshape, h.popInput]
  exact (args.exists_get hkey).imp fun _ h => h.1

section Cycle

variable {memory x : AssociativeMemory} {view : View σ} {moves : List Move}

/-- The slot that a push fills is not the one that a pop empties. -/
theorem Rests.touches_action (h : x.Rests) {move move' : Move} {i : Nat} (hi : x.Touches move i)
    (hi' : x.Touches move' i) : move.action = move'.action := by
  have hdisjoint : ∀ {args : Record}, x.freeSlot? = some i → ¬ x.Touches (.pop args) i := by
    rintro args hfree ⟨key, -, hhit⟩
    obtain ⟨-, hnone, -⟩ := h.of_freeSlot? hfree
    obtain ⟨datum, hslot, -⟩ := h.of_hit? hhit
    rw [hnone] at hslot
    cases hslot
  cases move with
  | push args =>
    cases move' with
    | push args' => rfl
    | pop args' => exact absurd hi' (hdisjoint hi)
  | pop args =>
    cases move' with
    | push args' => exact absurd hi (hdisjoint hi')
    | pop args' => rfl

/-- The slots that the bodies of some moves are about to change. -/
structure Moved (x : AssociativeMemory) (moves : List Move) (y : AssociativeMemory)
    (slots : Nat → Option (Option (Bits × Bits))) : Prop where
  /-- the bodies have written them -/
  posed : Posed x slots y
  /-- only those that some move touches -/
  touched : ∀ i, slots i ≠ none → ∃ move ∈ moves, x.Touches move i
  /-- the data have their width -/
  width : ∀ {i : Nat} {key datum : Bits}, slots i = some (some (key, datum)) →
    datum.width = x.dataShape.width
  /-- the pairs of the pushes come, and those of the pops that hit leave -/
  contents : (Multiset.range x.entries).filterMap (fun i => (slots i).getD (x.slot? i)) +
    (moves.filterMap x.leaving? : List (Bits × Bits)) =
      x.contents + (moves.filterMap coming? : List (Bits × Bits))

/-- The bodies of one more move. -/
theorem Moved.concat {before : List Move} {move : Move} {y y' : AssociativeMemory}
    {slots slots' : Nat → Option (Option (Bits × Bits))} (h : Moved x before y slots)
    (hposed : Posed x slots' y') (htouched : ∀ i, slots' i ≠ slots i → x.Touches move i)
    (hwidth : ∀ {i : Nat} {key datum : Bits}, slots' i = some (some (key, datum)) →
      datum.width = x.dataShape.width)
    (hcontents : (Multiset.range x.entries).filterMap (fun i => (slots' i).getD (x.slot? i)) +
        ((x.leaving? move).toList : Multiset (Bits × Bits)) =
      (Multiset.range x.entries).filterMap (fun i => (slots i).getD (x.slot? i)) +
        ((coming? move).toList : Multiset (Bits × Bits))) :
    Moved x (before ++ [move]) y' slots' where
  posed := hposed
  touched := by
    intro i hi
    by_cases hsame : slots' i = slots i
    · obtain ⟨move', hmem, htouches⟩ := h.touched i (hsame ▸ hi)
      exact ⟨move', List.mem_append_left _ hmem, htouches⟩
    · exact ⟨move, by simp, htouched i hsame⟩
  width := hwidth
  contents := by
    have hlist : ∀ f : Move → Option (Bits × Bits), (((before ++ [move]).filterMap f :
        List (Bits × Bits)) : Multiset (Bits × Bits)) = before.filterMap f + (f move).toList := by
      intro f
      rw [List.filterMap_append, Multiset.coe_add]
      cases hf : f move with
      | none => rw [List.filterMap_cons_none hf]; rfl
      | some pair => rw [List.filterMap_cons_some hf]; rfl
    rw [hlist, hlist, add_comm (before.filterMap x.leaving? : Multiset (Bits × Bits)), ← add_assoc,
      hcontents, add_right_comm, h.contents, add_assoc]

/-- No earlier move touches the slot of a move. -/
theorem Moved.untouched {before after : List Move} {move : Move} {y : AssociativeMemory}
    {slots : Nat → Option (Option (Bits × Bits))} (h : Moved x before y slots) (hrests : x.Rests)
    (honce : ((before ++ move :: after).map Move.action).Nodup) {i : Nat} (hi : x.Touches move i) :
    slots i = none := by
  by_contra hsome
  obtain ⟨earlier, hearlier, htouches⟩ := h.touched i hsome
  rw [List.map_append, List.map_cons, List.nodup_append] at honce
  exact honce.2.2 _ (List.mem_map_of_mem hearlier) _ List.mem_cons_self
    (hrests.touches_action htouches hi)

theorem getD_update {slots : Nat → Option (Option (Bits × Bits))} {i : Nat}
    (slot : Option (Bits × Bits)) :
    (fun j => (Function.update slots i (some slot) j).getD (x.slot? j)) =
      Function.update (fun j => (slots j).getD (x.slot? j)) i slot := by
  funext j
  by_cases hj : j = i
  · subst hj
    rw [Function.update_self, Function.update_self]
    rfl
  · rw [Function.update_of_ne hj, Function.update_of_ne hj]

theorem Moved.exists_push {before : List Move} {y : AssociativeMemory}
    {slots : Nat → Option (Option (Bits × Bits))} (h : Moved x before y slots) (hformed : x.Formed)
    (hrests : x.Rests) {args : Record} (hshape : args.shape = x.pushInput) {i : Nat}
    (hfree : x.freeSlot? = some i) (huntouched : slots i = none) :
    ∃ y', y.push args = .ok y' ∧ ∃ slots', Moved x (before ++ [.push args]) y' slots' := by
  obtain ⟨key, datum, hkey, hdatum, hwidth, hpair⟩ := hformed.exists_pair hshape
  obtain ⟨y', hpush, hposed⟩ := h.posed.push hrests hfree huntouched hkey hdatum
  obtain ⟨hi, hnone, -⟩ := hrests.of_freeSlot? hfree
  refine ⟨y', hpush, _, h.concat hposed ?_ ?_ ?_⟩
  · intro j hj
    by_cases hij : j = i
    · exact hij ▸ hfree
    · exact absurd (Function.update_of_ne hij _ _) hj
  · intro j key' datum' hj
    by_cases hij : j = i
    · subst hij
      rw [Function.update_self] at hj
      obtain ⟨rfl, rfl⟩ := Prod.mk.inj (Option.some.inj (Option.some.inj hj))
      exact hwidth
    · rw [Function.update_of_ne hij] at hj
      exact h.width hj
  · have hstart : Function.update (fun j => (slots j).getD (x.slot? j)) i none =
        fun j => (slots j).getD (x.slot? j) := by
      rw [Function.update_eq_self_iff, huntouched]
      exact hnone.symm
    rw [getD_update, filterMap_range_update hi, hstart, leaving?, coming?, hpair]
    simp [add_comm, Multiset.singleton_add]

theorem Moved.exists_pop {before : List Move} {y : AssociativeMemory}
    {slots : Nat → Option (Option (Bits × Bits))} (h : Moved x before y slots) (hrests : x.Rests)
    {args : Record} {key : Bits} (hkey : args.get "addr" = .ok key)
    (huntouched : ∀ i, x.hit? key = some i → slots i = none) :
    ∃ y', y.pop key = .ok ((x.leaving? (.pop args)).map Prod.snd, y') ∧
      ∃ slots', Moved x (before ++ [.pop args]) y' slots' := by
  cases hhit : x.hit? key with
  | none =>
    have hleaving : x.leaving? (.pop args) = none := by
      rw [leaving?, hkey]
      simp only [hhit, Option.bind_none]
    refine ⟨y, ?_, slots, h.concat h.posed (fun i hi => absurd rfl hi) h.width ?_⟩
    · have hlowest : Encoder.lowest (y.matching key) = none := (h.posed.hit?_eq key).trans hhit
      rw [pop, hlowest, hleaving]
      rfl
    · rw [hleaving]
      rfl
  | some i =>
    obtain ⟨datum, hslot, -⟩ := hrests.of_hit? hhit
    have hleaving : x.leaving? (.pop args) = some (key, datum) := by
      rw [leaving?, hkey]
      simp only [hhit, Option.bind_some, hslot]
    obtain ⟨y', hpop, hposed⟩ := h.posed.pop hrests hhit hslot (huntouched i hhit)
    refine ⟨y', by rw [hleaving]; exact hpop, _, h.concat hposed ?_ ?_ ?_⟩
    · intro j hj
      by_cases hij : j = i
      · exact ⟨key, hkey, hij ▸ hhit⟩
      · exact absurd (Function.update_of_ne hij _ _) hj
    · intro j key' datum' hj
      by_cases hij : j = i
      · rw [hij, Function.update_self] at hj
        cases hj
      · rw [Function.update_of_ne hij] at hj
        exact h.width hj
    · have hstart : (fun j => (slots j).getD (x.slot? j)) =
          Function.update (fun j => (slots j).getD (x.slot? j)) i (some (key, datum)) := by
        symm
        rw [Function.update_eq_self_iff, huntouched i hhit]
        exact hslot.symm
      rw [getD_update, hleaving]
      conv_rhs => rw [hstart, filterMap_range_update (hrests.lt_of_slot? hslot)]
      simp [coming?, Multiset.singleton_add, add_comm]

/-- After the bodies before it, the body of a move succeeds. -/
theorem Allows.exists_use (hallows : Allows memory view x moves) (hformed : x.Formed)
    (hrests : x.Rests) {before after : List Move} {move : Move} {y : AssociativeMemory}
    (hmoves : moves = before ++ move :: after) (hmoved : ∃ slots, Moved x before y slots) :
    ∃ y', memory.block.use view y move.use = .ok (x.answer move, y') ∧
      ∃ slots, Moved x (before ++ [move]) y' slots := by
  obtain ⟨slots, hmoved⟩ := hmoved
  have hmem : move ∈ moves := by simp [hmoves]
  have honce := hallows.once
  rw [hmoves] at honce
  have huntouched : ∀ {i}, x.Touches move i → slots i = none := hmoved.untouched hrests honce
  cases move with
  | push args =>
    have hoffered := hallows.offered _ hmem
    rw [offers_push, Except.ok.injEq] at hoffered
    obtain ⟨i, hfree⟩ := Option.isSome_iff_exists.mp hoffered
    obtain ⟨y', hpush, hmoved'⟩ :=
      hmoved.exists_push hformed hrests (hallows.fits _ hmem) hfree (huntouched hfree)
    refine ⟨y', ?_, hmoved'⟩
    rw [use_push, hpush]
    rfl
  | pop args =>
    obtain ⟨key, hkey⟩ := hformed.exists_key (hallows.fits _ hmem)
    obtain ⟨y', hpop, hmoved'⟩ :=
      hmoved.exists_pop hrests hkey fun i hhit => huntouched ⟨key, hkey, hhit⟩
    have hresult : y'.popResult = x.popResult := by
      obtain ⟨slots', hmoved'⟩ := hmoved'
      rw [hmoved'.posed.frame]
      rfl
    refine ⟨y', ?_, hmoved'⟩
    rw [use_pop, hkey, ok_bind, hpop, ok_bind, answer, ← hresult]

/-- A cycle that makes allowed moves succeeds; the answers are those of the state before it. -/
theorem exists_cycle (hformed : x.Formed) (hrests : x.Rests) (hallows : Allows memory view x moves) :
    ∃ x', memory.block.cycle view x (moves.map Move.use) = .ok (moves.map x.answer, x') ∧
      Outcome x moves x' := by
  have hstart : Moved x [] x fun _ => none :=
    { posed := hrests.posed
      touched := fun i hi => absurd rfl hi
      width := nofun
      contents := rfl }
  obtain ⟨y, hrun, slots, hmoved⟩ := Block.exists_useEach (fun move => (view, Move.use move)) x.answer
    (fun before y => ∃ slots, Moved x before y slots) ⟨_, hstart⟩
    fun before move after y hmoves hbefore => hallows.exists_use hformed hrests hmoves hbefore
  have hposed := hmoved.posed
  have hframe : y.commit = { x with
      valid := y.commit.valid, keys := y.commit.keys, data := y.commit.data } := by
    rw [hposed.frame]
    rfl
  refine ⟨y.commit, ?_, hframe, ?_, ?_⟩
  · rw [Block.cycle_eq_round, List.map_map]
    exact Block.round_eq_ok rfl hrun
  · have hentries : y.commit.entries = x.entries := (congrArg AssociativeMemory.entries hframe :)
    have hshape : y.commit.dataShape = x.dataShape :=
      (congrArg AssociativeMemory.dataShape hframe :)
    exact
      { valid := ⟨hposed.valid.idle_commit, by
          rw [hentries, ← hrests.valid.2]; exact hposed.valid.size_commit_eq⟩
        keys := ⟨hposed.keys.idle_commit, by
          rw [hentries, ← hrests.keys.2]; exact hposed.keys.size_commit_eq⟩
        data := ⟨hposed.data.idle_commit, by
          rw [hentries, ← hrests.data.2]; exact hposed.data.size_commit_eq⟩
        width := by
          intro i datum hi
          rw [hshape]
          have hi : y.data.commit.value? i = some datum := hi
          rw [hposed.data.value?_commit] at hi
          obtain ⟨old, hold, hnew⟩ := Option.map_eq_some_iff.mp hi
          rcases hslot : slots i with _ | _ | ⟨key, new⟩
          · rw [hslot] at hnew
            exact hnew ▸ hrests.width hold
          · rw [hslot] at hnew
            exact hnew ▸ hrests.width hold
          · rw [hslot] at hnew
            obtain rfl : new = datum := hnew
            exact hmoved.width hslot }
  · have hentries : y.commit.entries = x.entries := (congrArg AssociativeMemory.entries hframe :)
    have hcontents : y.commit.contents =
        (Multiset.range x.entries).filterMap fun i => (slots i).getD (x.slot? i) := by
      unfold contents
      rw [hentries]
      refine congrArg _ (List.filterMap_congr fun i hi => ?_)
      exact hposed.slot?_commit hrests (List.mem_range.mp hi)
    rw [hcontents]
    exact hmoved.contents

end Cycle

end AssociativeMemory

end GuardedActions
