import GuardedActions.Block.Station
import GuardedActions.Proofs.Block.Cycle
import GuardedActions.Proofs.Element
import GuardedActions.Proofs.Mask
import GuardedActions.Proofs.Record
import Mathlib.Tactic.Convert

/-!
# A cycle of a reservation station

An entry is free, reserved, waiting for an operand, or complete.  Every method writes entries of one of
these phases only, so that the methods of a cycle never meet in an entry; `exists_round` says what the
cycle returns and what every entry becomes.
-/

set_option autoImplicit false

namespace GuardedActions

/-! ## Entries -/

namespace StationEntry

/-- How far an entry has come. -/
inductive Phase where
  /-- nobody reserved it -/
  | free
  /-- it is reserved and holds no operation yet -/
  | reserved
  /-- its operation waits for an operand -/
  | waiting
  /-- its operation has both operands -/
  | complete
  deriving DecidableEq, Repr

/-- The phase of an entry. -/
def phase (e : StationEntry) : Phase :=
  if e.full then if e.operandsKnown then .complete else .waiting
  else if e.reserved then .reserved else .free

/-- An entry at a position is as a station keeps it. -/
structure Sound (c : StationConfig) (position : Nat) (e : StationEntry) : Prop where
  /-- an entry that holds an operation is reserved -/
  reserved : e.full = true → e.reserved = true
  /-- an entry that holds no operation is empty up to its reservation -/
  blank : e.full = false → e = { empty c with reserved := e.reserved }
  /-- the first operand has its width -/
  value1 : e.value1.width = c.dataWidth
  /-- the second operand has its width -/
  value2 : e.value2.width = c.dataWidth
  /-- the offset has its width -/
  offset : e.offset.width = c.dataWidth
  /-- the operation has a code of two bits -/
  op : e.op.code.toNat < 2 ^ 2
  /-- the place in the reorder buffer fits its field -/
  robIndex : e.robIndex.toNat < 2 ^ c.robWidth
  /-- the register for the result fits its field -/
  target : e.target.toNat < 2 ^ c.registerWidth
  /-- the entry does not depend on itself -/
  depends : e.depends.test position = false

theorem sound_empty {c : StationConfig} (position : Nat) : (empty c).Sound c position where
  reserved := nofun
  blank _ := rfl
  value1 := rfl
  value2 := rfl
  offset := rfl
  op := Nat.two_pow_pos _
  robIndex := Nat.two_pow_pos _
  target := Nat.two_pow_pos _
  depends := Mask.test_none _ _

variable {c : StationConfig} {position : Nat} {e : StationEntry}

theorem Sound.full_eq_false (h : e.Sound c position) (hreserved : e.reserved = false) :
    e.full = false := by
  cases hfull : e.full with
  | false => rfl
  | true => exact (h.reserved hfull).symm.trans hreserved

theorem Sound.reserve (h : e.Sound c position) (hfull : e.full = false) :
    { e with reserved := true }.Sound c position where
  reserved _ := rfl
  blank _ := by rw [h.blank hfull]
  value1 := h.value1
  value2 := h.value2
  offset := h.offset
  op := h.op
  robIndex := h.robIndex
  target := h.target
  depends := h.depends

/-- What waking an entry does: the operands that wait for the register get its value and wait no
longer. -/
theorem wake_eq (e : StationEntry) (tag : UInt64) (value : Bits) : e.wake tag value = { e with
    tag1 := if e.tag1 = tag then 0 else e.tag1
    value1 := if e.tag1 = tag then value else e.value1
    tag2 := if e.tag2 = tag then 0 else e.tag2
    value2 := if e.tag2 = tag then value else e.value2 } := by
  unfold wake
  by_cases h1 : e.tag1 = tag
  · by_cases h2 : e.tag2 = tag
    · simp [h1, h2]
    · simp [h1, h2]
  · by_cases h2 : e.tag2 = tag
    · simp [h1, h2]
    · simp [h1, h2]

theorem waitsFor_iff {tag : UInt64} :
    e.waitsFor tag = true ↔ e.full = true ∧ (e.tag1 = tag ∨ e.tag2 = tag) := by
  simp [waitsFor]

theorem operandsKnown_iff : e.operandsKnown = true ↔ e.tag1 = 0 ∧ e.tag2 = 0 := by
  simp [operandsKnown]

theorem operandsKnown_of_waits {tag : UInt64} (hzero : tag ≠ 0) (hwaits : e.tag1 = tag ∨ e.tag2 = tag) :
    e.operandsKnown = false := by
  rw [Bool.eq_false_iff, ne_eq, operandsKnown_iff]
  rintro ⟨h1, h2⟩
  rcases hwaits with h | h
  · exact hzero (h.symm.trans h1)
  · exact hzero (h.symm.trans h2)

theorem Sound.wake (h : e.Sound c position) {tag : UInt64} {value : Bits} (hfull : e.full = true)
    (hwidth : value.width = c.dataWidth) : (e.wake tag value).Sound c position := by
  rw [wake_eq]
  exact
    { reserved := h.reserved
      blank := fun hempty => absurd (hfull.symm.trans hempty) Bool.noConfusion
      value1 := by
        change (if e.tag1 = tag then value else e.value1).width = c.dataWidth
        split
        · exact hwidth
        · exact h.value1
      value2 := by
        change (if e.tag2 = tag then value else e.value2).width = c.dataWidth
        split
        · exact hwidth
        · exact h.value2
      offset := h.offset
      op := h.op
      robIndex := h.robIndex
      target := h.target
      depends := h.depends }

end StationEntry

namespace Station

/-! ## Moves -/

/-- What a cycle asks of a station. -/
inductive Move where
  /-- call `select` -/
  | select
  /-- call `insert` -/
  | insert (args : Record)
  /-- call `update` -/
  | update (args : Record)
  /-- call `get_ready_list` -/
  | list
  /-- call `take` -/
  | take (args : Record)
  deriving DecidableEq, Repr

namespace Move

/-- The action of the station that makes the move. -/
def action : Move → String
  | .select => "select"
  | .insert _ => "insert"
  | .update _ => "update"
  | .list => "get_ready_list"
  | .take _ => "take"

/-- The move as a use of the block. -/
def use : Move → Block.Use
  | .select => .call "select" Record.empty
  | .insert args => .call "insert" args
  | .update args => .call "update" args
  | .list => .call "get_ready_list" Record.empty
  | .take args => .call "take" args

/-- The phase of the entries that the move writes, if it writes any. -/
def phase? : Move → Option StationEntry.Phase
  | .select => some .free
  | .insert _ => some .reserved
  | .update _ => some .waiting
  | .list => none
  | .take _ => some .complete

/-- The action that writes the entries of a phase. -/
def actionOf : StationEntry.Phase → String
  | .free => "select"
  | .reserved => "insert"
  | .waiting => "update"
  | .complete => "take"

theorem action_eq_actionOf {move : Move} {phase : StationEntry.Phase} (h : move.phase? = some phase) :
    move.action = actionOf phase := by
  cases move with
  | list => cases h
  | _ =>
    obtain rfl := Option.some.inj h
    rfl

end Move

variable {σ : Type}

/-- A move with what is seen when it is asked for and what its body sees. -/
structure Turn (σ : Type) where
  /-- the move -/
  move : Move
  /-- what the readiness and the validator of the method see -/
  asked : View σ
  /-- what the body of the method sees -/
  seen : View σ

/-- The start of the reorder buffer that the body of a turn reads. -/
def Turn.now (start : σ → UInt64) (t : Turn σ) : UInt64 := start t.seen.state

/-- The arguments of the move are of the shape of the method. -/
def Fits (x : Station) : Move → Prop
  | .select | .list => True
  | .insert args => args.shape = x.insertInput
  | .update args => args.shape = x.updateInput
  | .take args => args.shape = x.idShape

/-- A cycle of a station may take these turns: each is ready, accepted and fits, and no method but that
for the ready list is called twice. -/
structure Allows (station : Station) (start : σ → UInt64) (insertRef : ActionRef) (x : Station)
    (turns : List (Turn σ)) : Prop where
  /-- the methods are ready -/
  offered : ∀ t ∈ turns, (station.block start insertRef).offers t.asked x t.move.use = .ok true
  /-- the arguments are accepted -/
  accepted : ∀ t ∈ turns, (station.block start insertRef).accepts t.asked x t.move.use = .ok true
  /-- the arguments have their shapes -/
  fits : ∀ t ∈ turns, x.Fits t.move
  /-- only the ready list is asked for more than once -/
  once : turns.Pairwise fun t t' => t.move.action = t'.move.action → t.move = .list

section Block

variable (station : Station) (start : σ → UInt64) (insertRef : ActionRef) (view : View σ) (x : Station)

theorem offers_select : (station.block start insertRef).offers view x Move.select.use =
    x.selectReady (view.scene.pending insertRef) := by
  simp [Block.offers, Move.use, block]

theorem accepts_insert (args : Record) :
    (station.block start insertRef).accepts view x (Move.insert args).use = x.acceptsInsert args := by
  simp [Block.accepts, Move.use, block]

theorem accepts_take (args : Record) : (station.block start insertRef).accepts view x (Move.take args).use =
    x.acceptsTake (start view.state) args := by
  simp [Block.accepts, Move.use, block]

theorem use_select : (station.block start insertRef).use view x Move.select.use = x.select := by
  simp [Block.use, Move.use, block]

theorem use_insert (args : Record) : (station.block start insertRef).use view x (Move.insert args).use =
    (x.insert (start view.state) args).map fun x => (Record.empty, x) := by
  cases h : x.insert (start view.state) args with
  | error e => simp [Block.use, Move.use, block, h, Except.map, bind, Except.bind]
  | ok y => simp [Block.use, Move.use, block, h, Except.map]

theorem use_update (args : Record) : (station.block start insertRef).use view x (Move.update args).use =
    (x.update args).map fun x => (Record.empty, x) := by
  cases h : x.update args with
  | error e => simp [Block.use, Move.use, block, h, Except.map, bind, Except.bind]
  | ok y => simp [Block.use, Move.use, block, h, Except.map]

theorem use_list : (station.block start insertRef).use view x Move.list.use =
    .ok (x.readyRecord (start view.state), x) := by
  simp [Block.use, Move.use, block]

theorem use_take (args : Record) :
    (station.block start insertRef).use view x (Move.take args).use = x.take args := by
  simp [Block.use, Move.use, block]

end Block

/-! ## Stations between two cycles -/

/-- Shape and layouts of a station fit together. -/
structure Formed (x : Station) : Prop where
  /-- the shape is accepted -/
  config : x.config.flaw? = none
  /-- the number of entries is a machine word -/
  entries : x.config.entries ≤ UInt64.size
  /-- an entry id -/
  idShape : x.idShape.fields = [⟨"rs_entry_id", x.config.idWidth⟩]
  /-- the arguments of an insertion -/
  insertInput : x.insertInput.fields =
    [⟨"rs_entry_id", x.config.idWidth⟩, ⟨"op", 2⟩, ⟨"rp_s1", x.config.registerWidth⟩,
      ⟨"rp_s2", x.config.registerWidth⟩, ⟨"s1_val", x.config.dataWidth⟩,
      ⟨"s2_val", x.config.dataWidth⟩, ⟨"imm", x.config.dataWidth⟩, ⟨"rob_id", x.config.robWidth⟩,
      ⟨"rp_dst", x.config.registerWidth⟩]
  /-- the arguments of an update -/
  updateInput : x.updateInput.fields =
    [⟨"reg_id", x.config.registerWidth⟩, ⟨"reg_val", x.config.dataWidth⟩]
  /-- the ready list -/
  readyOutput : x.readyOutput.fields = [⟨"ready_list", x.config.entries⟩]
  /-- the results of taking an operation -/
  takeOutput : x.takeOutput.fields =
    [⟨"op", 2⟩, ⟨"s1_val", x.config.dataWidth⟩, ⟨"s2_val", x.config.dataWidth⟩,
      ⟨"imm", x.config.dataWidth⟩, ⟨"rob_id", x.config.robWidth⟩, ⟨"rp_dst", x.config.registerWidth⟩]

/-- A station between two cycles: no write waits, and the entries are sound. -/
structure Rests (x : Station) : Prop where
  /-- no write waits -/
  idle : x.slots.Idle
  /-- the station has its number of entries -/
  size : x.slots.cells.size = x.config.entries
  /-- the entries are sound -/
  sound : ∀ {i : Nat} {e : StationEntry}, x.entry? i = some e → e.Sound x.config i

/-- The entry that a reservation takes. -/
def freeSlot? (x : Station) : Option Nat := Encoder.lowest x.freeMask

section Questions

variable {x : Station} {now : UInt64}

theorem Rests.lt_of_entry? (h : x.Rests) {i : Nat} {e : StationEntry} (he : x.entry? i = some e) :
    i < x.config.entries := by
  rw [← h.size]
  exact RegisterArray.lt_size_of_value? he

theorem Rests.exists_entry? (h : x.Rests) {i : Nat} (hi : i < x.config.entries) :
    ∃ e, x.entry? i = some e :=
  RegisterArray.exists_value? (h.size ▸ hi)

theorem Rests.test_freeMask (h : x.Rests) {i : Nat} :
    x.freeMask.test i = true ↔ ∃ e, x.entry? i = some e ∧ e.reserved = false := by
  rw [freeMask, Mask.test_ofTest, Bool.and_eq_true, decide_eq_true_iff, Option.any_eq_true]
  constructor
  · rintro ⟨-, e, he, hfree⟩
    exact ⟨e, he, by simpa using hfree⟩
  · rintro ⟨e, he, hfree⟩
    exact ⟨h.lt_of_entry? he, e, he, by simpa using hfree⟩

/-- The entry that a reservation takes is the lowest one that is not reserved. -/
theorem Rests.of_freeSlot? (h : x.Rests) {i : Nat} (hfree : x.freeSlot? = some i) :
    (∃ e, x.entry? i = some e ∧ e.reserved = false) ∧
      ∀ j < i, ∀ e, x.entry? j = some e → e.reserved = true := by
  obtain ⟨htest, hleast⟩ := Encoder.lowest_eq_some hfree
  refine ⟨h.test_freeMask.mp htest, fun j hj e he => ?_⟩
  cases hreserved : e.reserved with
  | true => rfl
  | false =>
    have hle := hleast j (h.test_freeMask.mpr ⟨e, he, hreserved⟩)
    omega

theorem Rests.test_readyMask (h : x.Rests) {i : Nat} : (x.readyMask now).test i = true ↔
    ∃ e, x.entry? i = some e ∧ e.full = true ∧ e.operandsKnown = true ∧ x.isBlocked now e = false := by
  rw [readyMask, Mask.test_ofTest, Bool.and_eq_true, decide_eq_true_iff, Option.any_eq_true]
  constructor
  · rintro ⟨-, e, he, hready⟩
    exact ⟨e, he, by simpa [and_assoc] using hready⟩
  · rintro ⟨e, he, hready⟩
    exact ⟨h.lt_of_entry? he, e, he, by simpa [and_assoc] using hready⟩

theorem selectReady_eq_ok {insertions : List Record} (h : x.selectReady insertions = .ok true) :
    ∃ i, x.freeSlot? = some i := by
  unfold selectReady at h
  split at h
  · cases h
  · obtain ⟨fence, -, h⟩ := bind_eq_ok.mp h
    split at h
    · cases h
    · exact Option.isSome_iff_exists.mp (Except.ok.inj h)

theorem acceptsInsert_eq_ok {args : Record} (h : x.acceptsInsert args = .ok true) :
    ∃ i e, idOf args = .ok i ∧ x.entry? i = some e ∧ e.reserved = true ∧ e.full = false := by
  obtain ⟨i, hi, h⟩ := bind_eq_ok.mp h
  obtain ⟨e, he, haccepted⟩ := (Option.any_eq_true _ _).mp (Except.ok.inj h)
  simp only [Bool.and_eq_true, Bool.not_eq_true', decide_eq_true_iff] at haccepted
  exact ⟨i, e, hi, he, haccepted.1.2, haccepted.2⟩

theorem acceptsTake_eq {args : Record} {i : Nat} (hi : idOf args = .ok i) :
    x.acceptsTake now args = .ok ((x.readyMask now).test i) := by
  unfold acceptsTake
  rw [hi, ok_bind]

end Questions

/-! ## Arguments -/

/-- An entry holds the operation in some arguments. -/
structure Holds (args : Record) (e : StationEntry) : Prop where
  /-- the operation -/
  op : args.getWord "op" = .ok e.op.code.toUInt64
  /-- the register that the first operand waits for -/
  tag1 : args.getWord "rp_s1" = .ok e.tag1
  /-- the register that the second operand waits for -/
  tag2 : args.getWord "rp_s2" = .ok e.tag2
  /-- the first operand -/
  value1 : args.get "s1_val" = .ok e.value1
  /-- the second operand -/
  value2 : args.get "s2_val" = .ok e.value2
  /-- the offset -/
  offset : args.get "imm" = .ok e.offset
  /-- the place in the reorder buffer -/
  robIndex : args.getWord "rob_id" = .ok e.robIndex
  /-- the register for the result -/
  target : args.getWord "rp_dst" = .ok e.target

theorem Holds.withDepends {args : Record} {e : StationEntry} (h : Holds args e) (m : Mask) :
    Holds args { e with depends := m } :=
  ⟨h.op, h.tag1, h.tag2, h.value1, h.value2, h.offset, h.robIndex, h.target⟩

/-- A record returns the operation of an entry. -/
structure Returns (answer : Record) (e : StationEntry) : Prop where
  /-- the operation -/
  op : answer.getWord "op" = .ok e.op.code.toUInt64
  /-- the first operand -/
  value1 : answer.get "s1_val" = .ok e.value1
  /-- the second operand -/
  value2 : answer.get "s2_val" = .ok e.value2
  /-- the offset -/
  offset : answer.get "imm" = .ok e.offset
  /-- the place in the reorder buffer -/
  robIndex : answer.getWord "rob_id" = .ok e.robIndex
  /-- the register for the result -/
  target : answer.getWord "rp_dst" = .ok e.target

section Arguments

variable {x : Station}

/-- An entry id of the least number of bits can name every entry. -/
theorem le_two_pow_needed (n : Nat) : n ≤ 2 ^ Bits.needed n := by
  unfold Bits.needed
  split
  · assumption
  · have hlt : n - 1 < 2 ^ ((n - 1).log2 + 1) := Nat.lt_log2_self
    omega

theorem needed_le {n k : Nat} (hn : n ≤ 2 ^ k) : Bits.needed n ≤ k := by
  unfold Bits.needed
  split
  · exact Nat.zero_le k
  · have hpos : n - 1 ≠ 0 := by omega
    have hlog := (Nat.log2_lt hpos).mpr (show n - 1 < 2 ^ k by omega)
    omega

/-- The bounds that an accepted shape keeps. -/
structure Bounded (c : StationConfig) : Prop where
  /-- there are entries -/
  entries : 0 < c.entries
  /-- reorder buffer ids have between 1 and 63 bits -/
  robWidth : 0 < c.robWidth ∧ c.robWidth < 64
  /-- register ids have between 1 and 63 bits -/
  registerWidth : 0 < c.registerWidth ∧ c.registerWidth < 64
  /-- data have bits -/
  dataWidth : 0 < c.dataWidth
  /-- some bits of an address count -/
  alignment : c.alignment < c.dataWidth

theorem bounded_of_flaw? {c : StationConfig} (h : c.flaw? = none) : Bounded c := by
  unfold StationConfig.flaw? at h
  split at h
  · cases h
  split at h
  · cases h
  split at h
  · cases h
  split at h
  · cases h
  split at h
  · cases h
  exact ⟨by omega, by omega, by omega, by omega, by omega⟩

theorem Formed.bounded (h : x.Formed) : Bounded x.config := bounded_of_flaw? h.config

theorem Formed.idWidth_le (h : x.Formed) : x.config.idWidth ≤ 64 := by
  have hneeded : Bits.needed x.config.entries ≤ 64 := needed_le h.entries
  exact Nat.max_le.mpr ⟨by omega, hneeded⟩

/-- An entry id is read from every record that has one. -/
theorem Formed.exists_idOf (h : x.Formed) {args : Record}
    (hfield : (⟨"rs_entry_id", x.config.idWidth⟩ : Field) ∈ args.shape.fields) :
    ∃ i, idOf args = .ok i := by
  obtain ⟨word, hword, -⟩ := args.exists_getWord hfield h.idWidth_le
  refine ⟨word.toNat, ?_⟩
  unfold idOf
  rw [hword, ok_bind]

theorem Formed.exists_update (h : x.Formed) {args : Record} (hshape : args.shape = x.updateInput) :
    ∃ tag value, args.getWord "reg_id" = .ok tag ∧ args.get "reg_val" = .ok value ∧
      value.width = x.config.dataWidth := by
  have htag : (⟨"reg_id", x.config.registerWidth⟩ : Field) ∈ args.shape.fields := by
    simp [hshape, h.updateInput]
  have hvalue : (⟨"reg_val", x.config.dataWidth⟩ : Field) ∈ args.shape.fields := by
    simp [hshape, h.updateInput]
  obtain ⟨tag, htag, -⟩ := args.exists_getWord htag (Nat.le_of_lt h.bounded.registerWidth.2)
  obtain ⟨value, hvalue, hwidth⟩ := args.exists_get hvalue
  exact ⟨tag, value, htag, hvalue, hwidth⟩

theorem toUInt64_code_ofWord {word : UInt64} (h : word.toNat < 2 ^ 2) :
    (MemoryOp.ofWord word).code.toUInt64 = word ∧ (MemoryOp.ofWord word).code.toNat < 2 ^ 2 := by
  have hcode : (MemoryOp.ofWord word).code = word.toUInt32 := MemoryOp.code_ofCode _
  rw [hcode, UInt64.toNat_toUInt32]
  refine ⟨UInt64.toNat_inj.mp ?_, by omega⟩
  rw [UInt32.toNat_toUInt64, UInt64.toNat_toUInt32]
  omega

/-- The arguments of an insertion describe an entry, sound with any dependencies but on itself. -/
theorem Formed.exists_describe (h : x.Formed) {args : Record} (hshape : args.shape = x.insertInput) :
    ∃ e, describe x.config args = .ok e ∧ Holds args e ∧ e.full = true ∧
      ∀ i m, m.test i = false → { e with depends := m }.Sound x.config i := by
  have hmem : ∀ f ∈ x.insertInput.fields, f ∈ args.shape.fields := fun f hf => hshape ▸ hf
  rw [h.insertInput] at hmem
  have hregister := Nat.le_of_lt h.bounded.registerWidth.2
  obtain ⟨op, hop, hoplt⟩ := args.exists_getWord (hmem ⟨"op", 2⟩ (by simp)) (by decide)
  obtain ⟨tag1, htag1, -⟩ :=
    args.exists_getWord (hmem ⟨"rp_s1", x.config.registerWidth⟩ (by simp)) hregister
  obtain ⟨tag2, htag2, -⟩ :=
    args.exists_getWord (hmem ⟨"rp_s2", x.config.registerWidth⟩ (by simp)) hregister
  obtain ⟨value1, hvalue1, hwidth1⟩ := args.exists_get (hmem ⟨"s1_val", x.config.dataWidth⟩ (by simp))
  obtain ⟨value2, hvalue2, hwidth2⟩ := args.exists_get (hmem ⟨"s2_val", x.config.dataWidth⟩ (by simp))
  obtain ⟨offset, hoffset, hwidth3⟩ := args.exists_get (hmem ⟨"imm", x.config.dataWidth⟩ (by simp))
  obtain ⟨robIndex, hrob, hroblt⟩ := args.exists_getWord
    (hmem ⟨"rob_id", x.config.robWidth⟩ (by simp)) (Nat.le_of_lt h.bounded.robWidth.2)
  obtain ⟨target, htarget, htargetlt⟩ :=
    args.exists_getWord (hmem ⟨"rp_dst", x.config.registerWidth⟩ (by simp)) hregister
  obtain ⟨hcode, hcodelt⟩ := toUInt64_code_ofWord hoplt
  refine ⟨⟨true, true, MemoryOp.ofWord op, tag1, tag2, value1, value2, offset, robIndex, target,
    Mask.none x.config.entries⟩, ?_, ?_, rfl, fun i m hm => ?_⟩
  · simp only [describe, hop, htag1, htag2, hvalue1, hvalue2, hoffset, hrob, htarget, ok_bind]
  · exact ⟨hcode.symm ▸ hop, htag1, htag2, hvalue1, hvalue2, hoffset, hrob, htarget⟩
  · exact ⟨fun _ => rfl, nofun, hwidth1, hwidth2, hwidth3, hcodelt, hroblt, htargetlt, hm⟩

end Arguments

/-! ## The bodies -/

/-- The entry that a move writes at a position, if it writes one; `now` is the start of the reorder
buffer. -/
def written? (x : Station) (now : UInt64) : Move → Nat → Option StationEntry
  | .select, j => if x.freeSlot? = some j then
      (x.entry? j).map fun e => { e with reserved := true } else none
  | .insert args, j =>
    match idOf args, describe x.config args with
    | .ok i, .ok e => if i = j then some { e with depends := x.hazards now i e } else none
    | _, _ => none
  | .update args, j =>
    match args.getWord "reg_id", args.get "reg_val" with
    | .ok tag, .ok value =>
      if tag = 0 then none
      else (x.entry? j).bind fun e => if e.waitsFor tag then some (e.wake tag value) else none
    | _, _ => none
  | .list, _ => none
  | .take args, j =>
    match idOf args with
    | .ok i => if i = j then some (StationEntry.empty x.config) else none
    | .error _ => none

/-- The record that shows an operation that is taken. -/
def taken (x : Station) (e : StationEntry) : Record :=
  Record.fill x.takeOutput
    [Bits.ofNat 64 e.op.code.toNat, e.value1, e.value2, e.offset, Bits.ofNat 64 e.robIndex.toNat,
      Bits.ofNat 64 e.target.toNat]

/-- What the body of a move returns. -/
def answer (x : Station) (now : UInt64) : Move → Record
  | .select => Record.fill x.idShape [Bits.ofNat 64 (x.freeSlot?.getD 0)]
  | .insert _ | .update _ => Record.empty
  | .list => x.readyRecord now
  | .take args =>
    match idOf args with
    | .ok i => ((x.entry? i).map x.taken).getD Record.empty
    | .error _ => Record.empty

section Written

variable {x : Station} {now : UInt64} {args : Record} {i j : Nat} {e : StationEntry}

theorem written?_select (hslot : x.freeSlot? = some i) (he : x.entry? i = some e) :
    x.written? now .select j = if i = j then some { e with reserved := true } else none := by
  by_cases hij : i = j
  · subst hij
    simp [written?, hslot, he]
  · simp [written?, hslot, hij]

theorem written?_insert (hi : idOf args = .ok i) (he : describe x.config args = .ok e) :
    x.written? now (.insert args) j =
      if i = j then some { e with depends := x.hazards now i e } else none := by
  simp only [written?, hi, he]

theorem written?_take (hi : idOf args = .ok i) : x.written? now (.take args) j =
    if i = j then some (StationEntry.empty x.config) else none := by
  simp only [written?, hi]

theorem written?_update {tag : UInt64} {value : Bits} (htag : args.getWord "reg_id" = .ok tag)
    (hvalue : args.get "reg_val" = .ok value) (hzero : tag ≠ 0) :
    x.written? now (.update args) j =
      (x.entry? j).bind fun e => if e.waitsFor tag then some (e.wake tag value) else none := by
  simp only [written?, htag, hvalue, if_neg hzero]

theorem written?_update_zero {value : Bits} (htag : args.getWord "reg_id" = .ok 0)
    (hvalue : args.get "reg_val" = .ok value) : x.written? now (.update args) j = none := by
  simp only [written?, htag, hvalue, if_pos]

end Written

/-- The station with entries that are about to change. -/
structure Posed (x : Station) (writes : Nat → Option StationEntry) (y : Station) : Prop where
  /-- only entries are written -/
  frame : y = { x with slots := y.slots }
  /-- the writes wait -/
  slots : x.slots.Carries writes y.slots

section Posed

variable {x y : Station} {writes : Nat → Option StationEntry}

theorem Rests.posed (h : x.Rests) : Posed x (fun _ => none) x where
  frame := rfl
  slots := h.idle.carries

namespace Posed

theorem entry?_eq (h : Posed x writes y) : y.entry? = x.entry? := h.slots.value?_eq

theorem config_eq (h : Posed x writes y) : y.config = x.config :=
  (congrArg Station.config h.frame :)

theorem freeSlot?_eq (h : Posed x writes y) : y.freeSlot? = x.freeSlot? := by
  unfold freeSlot? freeMask
  rw [h.entry?_eq, h.config_eq]

theorem hazards_eq (h : Posed x writes y) (now : UInt64) (i : Nat) (e : StationEntry) :
    y.hazards now i e = x.hazards now i e := by
  unfold hazards
  rw [h.entry?_eq, h.config_eq]

theorem readyRecord_eq (h : Posed x writes y) (now : UInt64) : y.readyRecord now = x.readyRecord now := by
  have hshape : y.readyOutput = x.readyOutput := (congrArg Station.readyOutput h.frame :)
  unfold readyRecord readyMask isBlocked
  rw [h.entry?_eq, h.config_eq, hshape]

/-- One more write, of an entry that is not written yet. -/
theorem write (h : Posed x writes y) {i : Nat} {old : StationEntry} (hold : x.entry? i = some old)
    (hfree : writes i = none) (e : StationEntry) : ∃ slots, y.slots.write i e = .ok slots ∧
      Posed x (fun j => (writes j).or (if i = j then some e else none)) { y with slots := slots } := by
  obtain ⟨slots, hwrite, hcarries⟩ := h.slots.write (RegisterArray.lt_size_of_value? hold) hfree e
  refine ⟨slots, hwrite, by rw [h.frame], ?_⟩
  have hwrites : Function.update writes i (some e) =
      fun j => (writes j).or (if i = j then some e else none) := by
    funext j
    by_cases hij : i = j
    · subst hij
      rw [Function.update_self, if_pos rfl, hfree, Option.none_or]
    · rw [Function.update_of_ne (Ne.symm hij), if_neg hij, Option.or_none]
  exact hwrites ▸ hcarries

end Posed

/-- Waking the entries at some positions writes those that wait for the register. -/
theorem exists_wakeAll {base slots : RegisterArray StationEntry} (tag : UInt64) (value : Bits)
    {positions : List Nat} (hnodup : positions.Nodup) (hlt : ∀ i ∈ positions, i < base.cells.size)
    (h : base.Carries writes slots)
    (hfree : ∀ i ∈ positions, ∀ e, base.value? i = some e → e.waitsFor tag = true → writes i = none) :
    ∃ slots', wakeAll tag value positions slots = .ok slots' ∧
      base.Carries (fun i => (writes i).or (if i ∈ positions then
        (base.value? i).bind fun e => if e.waitsFor tag then some (e.wake tag value) else none
        else none)) slots' := by
  induction positions generalizing writes slots with
  | nil =>
    refine ⟨slots, rfl, ?_⟩
    simpa only [List.not_mem_nil, if_false, Option.or_none] using h
  | cons i rest ih =>
    obtain ⟨hi, hnodup⟩ := List.nodup_cons.mp hnodup
    obtain ⟨e, he⟩ := RegisterArray.exists_value? (hlt i List.mem_cons_self)
    have hread : slots.read i = .ok e := by
      rw [RegisterArray.read_eq_ok_iff, h.value?_eq]
      exact he
    have hlt' : ∀ j ∈ rest, j < base.cells.size := fun j hj => hlt j (List.mem_cons_of_mem _ hj)
    unfold wakeAll
    rw [hread, ok_bind]
    by_cases hwaits : e.waitsFor tag = true
    · have hfreei := hfree i List.mem_cons_self e he hwaits
      obtain ⟨slots₁, hwrite, h₁⟩ := h.write (hlt i List.mem_cons_self) hfreei (e.wake tag value)
      have hfree' : ∀ j ∈ rest, ∀ e', base.value? j = some e' → e'.waitsFor tag = true →
          Function.update writes i (some (e.wake tag value)) j = none := by
        intro j hj e' he' hwaits'
        rw [Function.update_of_ne fun hji : j = i => hi (hji ▸ hj)]
        exact hfree j (List.mem_cons_of_mem _ hj) e' he' hwaits'
      obtain ⟨slots', hrest, h'⟩ := ih hnodup hlt' h₁ hfree'
      refine ⟨slots', ?_, ?_⟩
      · rw [if_pos hwaits, hwrite, ok_bind]
        exact hrest
      · convert h' using 1
        funext j
        by_cases hji : j = i
        · subst hji
          rw [Function.update_self, hfreei, if_pos List.mem_cons_self, he]
          simp [hwaits]
        · rw [Function.update_of_ne hji]
          simp [hji]
    · obtain ⟨slots', hrest, h'⟩ := ih hnodup hlt' h
        fun j hj => hfree j (List.mem_cons_of_mem _ hj)
      refine ⟨slots', ?_, ?_⟩
      · rw [if_neg hwaits]
        exact hrest
      · convert h' using 1
        funext j
        by_cases hji : j = i
        · subst hji
          simp [hi, he, hwaits]
        · simp [hji]

/-- A reservation marks the lowest entry that is not reserved. -/
theorem Posed.exists_select (h : Posed x writes y) {i : Nat} {e : StationEntry} {now : UInt64}
    (hslot : x.freeSlot? = some i) (he : x.entry? i = some e)
    (hfree : ∀ j, x.written? now .select j ≠ none → writes j = none) :
    ∃ y', y.select = .ok (x.answer now .select, y') ∧
      Posed x (fun j => (writes j).or (x.written? now .select j)) y' := by
  simp only [written?_select hslot he] at hfree ⊢
  obtain ⟨slots, hwrite, hposed⟩ := h.write he (hfree i (by simp)) { e with reserved := true }
  have hread : y.slots.read i = .ok e := by
    rw [RegisterArray.read_eq_ok_iff]
    exact (congrFun h.entry?_eq i).trans he
  have hlowest : Encoder.lowest y.freeMask = some i := h.freeSlot?_eq.trans hslot
  have hshape : y.idShape = x.idShape := (congrArg Station.idShape h.frame :)
  refine ⟨{ y with slots := slots }, ?_, hposed⟩
  unfold select answer
  rw [hlowest, hslot, hshape]
  simp only [hread, hwrite, ok_bind, Option.getD_some]

/-- An insertion fills its entry. -/
theorem Posed.exists_insert (h : Posed x writes y) {args : Record} {i : Nat} {old e : StationEntry}
    {now : UInt64} (hi : idOf args = .ok i) (hold : x.entry? i = some old)
    (he : describe x.config args = .ok e)
    (hfree : ∀ j, x.written? now (.insert args) j ≠ none → writes j = none) :
    ∃ y', y.insert now args = .ok y' ∧
      Posed x (fun j => (writes j).or (x.written? now (.insert args) j)) y' := by
  simp only [written?_insert hi he] at hfree ⊢
  obtain ⟨slots, hwrite, hposed⟩ :=
    h.write hold (hfree i (by simp)) { e with depends := x.hazards now i e }
  refine ⟨{ y with slots := slots }, ?_, hposed⟩
  unfold Station.insert
  rw [h.config_eq]
  simp only [hi, he, h.hazards_eq, hwrite, ok_bind]

/-- An update wakes the entries that wait for its register. -/
theorem Posed.exists_update (h : Posed x writes y) (hrests : x.Rests) {args : Record} {tag : UInt64}
    {value : Bits} {now : UInt64} (htag : args.getWord "reg_id" = .ok tag)
    (hvalue : args.get "reg_val" = .ok value)
    (hfree : ∀ j, x.written? now (.update args) j ≠ none → writes j = none) :
    ∃ y', y.update args = .ok y' ∧
      Posed x (fun j => (writes j).or (x.written? now (.update args) j)) y' := by
  by_cases hzero : tag = 0
  · subst hzero
    refine ⟨y, ?_, ?_⟩
    · unfold update
      rw [htag, ok_bind, if_pos rfl]
    · simpa only [written?_update_zero htag hvalue, Option.or_none] using h
  · have hwritten : x.written? now (.update args) = fun j =>
        if j ∈ List.range x.config.entries then (x.slots.value? j).bind fun e =>
          if e.waitsFor tag then some (e.wake tag value) else none
        else none := by
      funext j
      rw [written?_update htag hvalue hzero]
      simp only [List.mem_range]
      split
      · rfl
      · rename_i hj
        have hnone : x.entry? j = none := by
          rw [Option.eq_none_iff_forall_ne_some]
          exact fun e he => hj (hrests.lt_of_entry? he)
        rw [hnone, Option.bind_none]
    rw [hwritten] at hfree ⊢
    obtain ⟨slots, hwake, hcarries⟩ := exists_wakeAll tag value (List.nodup_range (n := x.config.entries))
      (fun j hj => hrests.size ▸ List.mem_range.mp hj) h.slots
      (fun j hj e he hwaits => hfree j (by simp [List.mem_range.mp hj, he, hwaits]))
    refine ⟨{ y with slots := slots }, ?_, ⟨by rw [h.frame], hcarries⟩⟩
    unfold update
    rw [h.config_eq]
    simp only [htag, hvalue, if_neg hzero, hwake, ok_bind]

/-- Taking an operation empties its entry. -/
theorem Posed.exists_take (h : Posed x writes y) {args : Record} {i : Nat} {e : StationEntry}
    {now : UInt64} (hi : idOf args = .ok i) (he : x.entry? i = some e)
    (hfree : ∀ j, x.written? now (.take args) j ≠ none → writes j = none) :
    ∃ y', y.take args = .ok (x.answer now (.take args), y') ∧
      Posed x (fun j => (writes j).or (x.written? now (.take args) j)) y' := by
  simp only [written?_take hi] at hfree ⊢
  obtain ⟨slots, hwrite, hposed⟩ := h.write he (hfree i (by simp)) (StationEntry.empty x.config)
  have hread : y.slots.read i = .ok e := by
    rw [RegisterArray.read_eq_ok_iff]
    exact (congrFun h.entry?_eq i).trans he
  have hshape : y.takeOutput = x.takeOutput := (congrArg Station.takeOutput h.frame :)
  refine ⟨{ y with slots := slots }, ?_, hposed⟩
  unfold take answer
  rw [h.config_eq, hshape]
  simp only [hi, he, hread, hwrite, ok_bind, Option.map_some, Option.getD_some, taken]

end Posed

/-! ## The cycle -/

section Cycle

variable {station x y : Station} {start : σ → UInt64} {insertRef : ActionRef} {turns : List (Turn σ)}
  {t : Turn σ} {writes : Nat → Option StationEntry}

/-- What a turn that is allowed finds. -/
inductive Finds (start : σ → UInt64) (x : Station) : Turn σ → Prop where
  /-- a reservation finds an entry that is not reserved -/
  | select {asked seen : View σ} {i : Nat} {e : StationEntry} (slot : x.freeSlot? = some i)
    (entry : x.entry? i = some e) (free : e.reserved = false) : Finds start x ⟨.select, asked, seen⟩
  /-- an insertion finds its entry reserved and without an operation, and describes one -/
  | insert {asked seen : View σ} {args : Record} {i : Nat} {old e : StationEntry}
    (id : idOf args = .ok i) (entry : x.entry? i = some old) (reserved : old.reserved = true)
    (vacant : old.full = false) (describes : describe x.config args = .ok e) (holds : Holds args e)
    (full : e.full = true)
    (sound : ∀ m : Mask, m.test i = false → { e with depends := m }.Sound x.config i) :
    Finds start x ⟨.insert args, asked, seen⟩
  /-- an update has a register and a value -/
  | update {asked seen : View σ} {args : Record} {tag : UInt64} {value : Bits}
    (register : args.getWord "reg_id" = .ok tag) (datum : args.get "reg_val" = .ok value)
    (width : value.width = x.config.dataWidth) : Finds start x ⟨.update args, asked, seen⟩
  /-- the ready list finds nothing -/
  | list {asked seen : View σ} : Finds start x ⟨.list, asked, seen⟩
  /-- taking an operation finds its entry ready -/
  | take {asked seen : View σ} {args : Record} {i : Nat} {e : StationEntry} (id : idOf args = .ok i)
    (entry : x.entry? i = some e) (full : e.full = true) (known : e.operandsKnown = true)
    (ready : x.isBlocked (start asked.state) e = false) : Finds start x ⟨.take args, asked, seen⟩

theorem Allows.finds (hallows : Allows station start insertRef x turns) (hformed : x.Formed)
    (hrests : x.Rests) (ht : t ∈ turns) : Finds start x t := by
  have hoffered := hallows.offered t ht
  have haccepted := hallows.accepted t ht
  have hfits := hallows.fits t ht
  obtain ⟨move, asked, seen⟩ := t
  cases move with
  | select =>
    rw [offers_select] at hoffered
    obtain ⟨i, hslot⟩ := selectReady_eq_ok hoffered
    obtain ⟨⟨e, he, hfree⟩, -⟩ := hrests.of_freeSlot? hslot
    exact .select hslot he hfree
  | insert args =>
    rw [accepts_insert] at haccepted
    obtain ⟨i, old, hi, hold, hreserved, hvacant⟩ := acceptsInsert_eq_ok haccepted
    obtain ⟨e, hdescribe, hholds, hfull, hsound⟩ := hformed.exists_describe hfits
    exact .insert hi hold hreserved hvacant hdescribe hholds hfull (hsound i)
  | update args =>
    obtain ⟨tag, value, htag, hvalue, hwidth⟩ := hformed.exists_update hfits
    exact .update htag hvalue hwidth
  | list => exact .list
  | take args =>
    have hfield : (⟨"rs_entry_id", x.config.idWidth⟩ : Field) ∈ args.shape.fields := by
      rw [hfits, hformed.idShape]
      exact List.mem_singleton_self _
    obtain ⟨i, hi⟩ := hformed.exists_idOf hfield
    rw [accepts_take, acceptsTake_eq hi] at haccepted
    obtain ⟨e, he, hfull, hknown, hready⟩ := hrests.test_readyMask.mp (Except.ok.inj haccepted)
    exact .take hi he hfull hknown hready

/-- What becomes of an entry that a move writes. -/
inductive Change (x : Station) (now : UInt64) (i : Nat) : Move → StationEntry → StationEntry → Prop where
  /-- the lowest free entry is reserved -/
  | reserve {e : StationEntry} (slot : x.freeSlot? = some i) (free : e.reserved = false) :
    Change x now i .select e { e with reserved := true }
  /-- a reserved entry is filled with an operation and its hazards -/
  | fill {args : Record} {old e : StationEntry} (id : idOf args = .ok i) (reserved : old.reserved = true)
    (vacant : old.full = false) (holds : Holds args e) (full : e.full = true)
    (depends : e.depends = x.hazards now i e) (sound : e.Sound x.config i) :
    Change x now i (.insert args) old e
  /-- an entry is woken -/
  | wake {args : Record} {tag : UInt64} {value : Bits} {e : StationEntry}
    (register : args.getWord "reg_id" = .ok tag) (datum : args.get "reg_val" = .ok value)
    (width : value.width = x.config.dataWidth) (nonzero : tag ≠ 0) (waits : e.waitsFor tag = true) :
    Change x now i (.update args) e (e.wake tag value)
  /-- an entry is emptied -/
  | leave {args : Record} {e : StationEntry} (id : idOf args = .ok i) (full : e.full = true)
    (known : e.operandsKnown = true) : Change x now i (.take args) e (StationEntry.empty x.config)

theorem Finds.change (hfinds : Finds start x t) {now : UInt64} {i : Nat} {e' : StationEntry}
    (hwritten : x.written? now t.move i = some e') :
    ∃ e, x.entry? i = some e ∧ Change x now i t.move e e' := by
  cases hfinds with
  | select slot entry free =>
    rw [written?_select slot entry, Option.ite_none_right_eq_some] at hwritten
    obtain ⟨rfl, hwritten⟩ := hwritten
    exact ⟨_, entry, Option.some.inj hwritten ▸ .reserve slot free⟩
  | insert id entry reserved vacant describes holds full sound =>
    rw [written?_insert id describes, Option.ite_none_right_eq_some] at hwritten
    obtain ⟨rfl, hwritten⟩ := hwritten
    obtain rfl := Option.some.inj hwritten
    refine ⟨_, entry, .fill id reserved vacant (holds.withDepends _) full rfl (sound _ ?_)⟩
    simp [hazards]
  | @update asked seen args tag value register datum width =>
    by_cases hzero : tag = 0
    · subst hzero
      rw [written?_update_zero register datum] at hwritten
      cases hwritten
    · rw [written?_update register datum hzero] at hwritten
      obtain ⟨e, he, hwoken⟩ := Option.bind_eq_some_iff.mp hwritten
      obtain ⟨hwaits, hwoken⟩ := Option.ite_none_right_eq_some.mp hwoken
      exact ⟨e, he, Option.some.inj hwoken ▸ .wake register datum width hzero hwaits⟩
  | list => cases hwritten
  | take id entry full known ready =>
    rw [written?_take id, Option.ite_none_right_eq_some] at hwritten
    obtain ⟨rfl, hwritten⟩ := hwritten
    exact ⟨_, entry, Option.some.inj hwritten ▸ .leave id full known⟩

section Change

variable {now : UInt64} {i : Nat} {move : Move} {e e' : StationEntry}

/-- The entries that a move writes are of its phase. -/
theorem Change.phase_eq (h : Change x now i move e e') (hsound : e.Sound x.config i) :
    move.phase? = some e.phase := by
  cases h with
  | reserve slot free =>
    simp [Move.phase?, StationEntry.phase, hsound.full_eq_false free, free]
  | fill id reserved vacant holds full depends sound =>
    simp [Move.phase?, StationEntry.phase, vacant, reserved]
  | wake register datum width nonzero waits =>
    obtain ⟨hfull, hwaits⟩ := StationEntry.waitsFor_iff.mp waits
    have hunknown : e.operandsKnown = false := StationEntry.operandsKnown_of_waits nonzero hwaits
    simp [Move.phase?, StationEntry.phase, hfull, hunknown]
  | leave id full known =>
    simp [Move.phase?, StationEntry.phase, full, known]

theorem Change.sound (h : Change x now i move e e') (hsound : e.Sound x.config i) :
    e'.Sound x.config i := by
  cases h with
  | reserve slot free => exact hsound.reserve (hsound.full_eq_false free)
  | fill id reserved vacant holds full depends sound => exact sound
  | wake register datum width nonzero waits =>
    exact hsound.wake (StationEntry.waitsFor_iff.mp waits).1 width
  | leave id full known => exact StationEntry.sound_empty i

end Change

/-- The body of an allowed turn succeeds as long as the entries that it writes are not written yet. -/
theorem Finds.exists_use (hfinds : Finds start x t) (hrests : x.Rests) (hposed : Posed x writes y)
    (hfree : ∀ i, x.written? (t.now start) t.move i ≠ none → writes i = none) :
    ∃ y', (station.block start insertRef).use t.seen y t.move.use =
        .ok (x.answer (t.now start) t.move, y') ∧
      Posed x (fun i => (writes i).or (x.written? (t.now start) t.move i)) y' := by
  cases hfinds with
  | select slot entry free =>
    rw [use_select]
    exact hposed.exists_select slot entry hfree
  | insert id entry reserved vacant describes holds full sound =>
    obtain ⟨y', hinsert, hposed'⟩ := hposed.exists_insert id entry describes hfree
    refine ⟨y', ?_, hposed'⟩
    rw [use_insert]
    exact hinsert ▸ rfl
  | update register datum width =>
    obtain ⟨y', hupdate, hposed'⟩ := hposed.exists_update hrests register datum hfree
    refine ⟨y', ?_, hposed'⟩
    rw [use_update]
    exact hupdate ▸ rfl
  | list =>
    refine ⟨y, ?_, ?_⟩
    · rw [use_list, hposed.readyRecord_eq]
      rfl
    · simpa only [written?, Option.or_none] using hposed
  | take id entry full known ready =>
    rw [use_take]
    exact hposed.exists_take id entry hfree

/-- What a cycle makes of a station. -/
structure Outcome (start : σ → UInt64) (x : Station) (turns : List (Turn σ)) (x' : Station) : Prop where
  /-- only entries change -/
  frame : x' = { x with slots := x'.slots }
  /-- no write waits, and the entries are sound -/
  rests : x'.Rests
  /-- an entry is what the turn that writes it makes of it, or as before -/
  entry? : ∀ i, x'.entry? i = (x.entry? i).map fun e =>
    (turns.findSome? fun t => x.written? (t.now start) t.move i).getD e

/-- Turns that write the same entry make the same kind of move. -/
theorem Finds.action_eq {t' : Turn σ} (hfinds : Finds start x t) (hfinds' : Finds start x t')
    (hrests : x.Rests) {now now' : UInt64} {i : Nat} {e₁ e₂ : StationEntry}
    (h : x.written? now t.move i = some e₁) (h' : x.written? now' t'.move i = some e₂) :
    t.move.action = t'.move.action := by
  obtain ⟨e, he, hchange⟩ := hfinds.change h
  obtain ⟨e', he', hchange'⟩ := hfinds'.change h'
  obtain rfl := Option.some.inj (he.symm.trans he')
  have hphase := hchange.phase_eq (hrests.sound he)
  have hphase' := hchange'.phase_eq (hrests.sound he)
  exact (Move.action_eq_actionOf hphase).trans (Move.action_eq_actionOf hphase').symm

/-- No earlier turn writes an entry that a turn writes. -/
theorem Allows.untouched (hallows : Allows station start insertRef x turns) (hformed : x.Formed)
    (hrests : x.Rests) {before after : List (Turn σ)} (hturns : turns = before ++ t :: after) {i : Nat}
    (hwritten : x.written? (t.now start) t.move i ≠ none) :
    (before.findSome? fun t => x.written? (t.now start) t.move i) = none := by
  rw [List.findSome?_eq_none_iff]
  intro earlier hearlier
  by_contra hearlierWritten
  obtain ⟨e₁, h₁⟩ := Option.ne_none_iff_exists'.mp hearlierWritten
  obtain ⟨e₂, h₂⟩ := Option.ne_none_iff_exists'.mp hwritten
  have hfinds₁ : Finds start x earlier := hallows.finds hformed hrests (by simp [hturns, hearlier])
  have hfinds₂ : Finds start x t := hallows.finds hformed hrests (by simp [hturns])
  have honce := hallows.once
  rw [hturns, List.pairwise_append] at honce
  have hlist := honce.2.2 earlier hearlier t List.mem_cons_self (hfinds₁.action_eq hfinds₂ hrests h₁ h₂)
  rw [hlist] at h₁
  cases h₁

/-- A cycle of allowed turns succeeds; the answers are those of the state before it. -/
theorem exists_round (hformed : x.Formed) (hrests : x.Rests)
    (hallows : Allows station start insertRef x turns) (last : View σ) :
    ∃ x', (station.block start insertRef).round last x (turns.map fun t => (t.seen, t.move.use)) =
        .ok (turns.map fun t => x.answer (t.now start) t.move, x') ∧ Outcome start x turns x' := by
  have hstep : ∀ before t after y, turns = before ++ t :: after →
      Posed x (fun i => before.findSome? fun t => x.written? (t.now start) t.move i) y →
      ∃ y', (station.block start insertRef).use t.seen y t.move.use =
          .ok (x.answer (t.now start) t.move, y') ∧
        Posed x (fun i => (before ++ [t]).findSome? fun t => x.written? (t.now start) t.move i) y' := by
    intro before t after y hturns hposed
    have ht : t ∈ turns := by simp [hturns]
    obtain ⟨y', huse, hposed'⟩ := (hallows.finds hformed hrests ht).exists_use hrests hposed
      fun i hwritten => hallows.untouched hformed hrests hturns hwritten
    refine ⟨y', huse, ?_⟩
    simpa only [List.findSome?_append, List.findSome?_singleton] using hposed'
  obtain ⟨y, hrun, hposed⟩ := Block.exists_useEach (fun t : Turn σ => (t.seen, t.move.use))
    (fun t => x.answer (t.now start) t.move)
    (fun before y => Posed x (fun i => before.findSome? fun t => x.written? (t.now start) t.move i) y)
    hrests.posed hstep
  have hframe : y.commit = { x with slots := y.commit.slots } := by
    rw [hposed.frame]
    rfl
  have hconfig : y.commit.config = x.config := (congrArg Station.config hframe :)
  have hentry : ∀ i, y.commit.entry? i = (x.entry? i).map fun e =>
      (turns.findSome? fun t => x.written? (t.now start) t.move i).getD e :=
    hposed.slots.value?_commit
  refine ⟨y.commit, Block.round_eq_ok rfl hrun, hframe, ?_, hentry⟩
  refine ⟨hposed.slots.idle_commit, ?_, fun {i e} he => ?_⟩
  · rw [hconfig, ← hrests.size]
    exact hposed.slots.size_commit_eq
  · rw [hentry] at he
    rw [hconfig]
    obtain ⟨old, hold, hnew⟩ := Option.map_eq_some_iff.mp he
    cases hfound : turns.findSome? fun t => x.written? (t.now start) t.move i with
    | none =>
      rw [hfound] at hnew
      exact hnew ▸ hrests.sound hold
    | some e' =>
      rw [hfound] at hnew
      obtain ⟨t, ht, hwritten⟩ := List.exists_of_findSome?_eq_some hfound
      obtain ⟨old', hold', hchange⟩ := (hallows.finds hformed hrests ht).change hwritten
      exact hnew ▸ hchange.sound (hrests.sound hold')

/-- What an allowed turn writes is there after the edge. -/
theorem Outcome.of_written? (h : Outcome start x turns y) (hallows : Allows station start insertRef x turns)
    (hformed : x.Formed) (hrests : x.Rests) (ht : t ∈ turns) {i : Nat} {e' : StationEntry}
    (hwritten : x.written? (t.now start) t.move i = some e') : y.entry? i = some e' := by
  obtain ⟨before, after, hturns⟩ := List.append_of_mem ht
  obtain ⟨e, he, -⟩ := (hallows.finds hformed hrests ht).change hwritten
  have hbefore := hallows.untouched hformed hrests hturns (hwritten ▸ Option.some_ne_none e')
  rw [h.entry?, he, hturns, List.findSome?_append, hbefore, List.findSome?_cons, hwritten]
  rfl

/-- An entry that no turn writes is as before. -/
theorem Outcome.of_untouched (h : Outcome start x turns y) {i : Nat}
    (hnone : ∀ t ∈ turns, x.written? (t.now start) t.move i = none) : y.entry? i = x.entry? i := by
  rw [h.entry?, List.findSome?_eq_none_iff.mpr hnone]
  exact Option.map_id_apply

/-- After the edge an entry is what some turn made of it, or as before. -/
theorem Outcome.cases (h : Outcome start x turns y) {i : Nat} {e' : StationEntry}
    (he' : y.entry? i = some e') :
    (∃ t ∈ turns, x.written? (t.now start) t.move i = some e') ∨
      (∀ t ∈ turns, x.written? (t.now start) t.move i = none) ∧ x.entry? i = some e' := by
  by_cases hnone : ∀ t ∈ turns, x.written? (t.now start) t.move i = none
  · exact .inr ⟨hnone, h.of_untouched hnone ▸ he'⟩
  · rw [h.entry?] at he'
    obtain ⟨e, -, hnew⟩ := Option.map_eq_some_iff.mp he'
    cases hfound : turns.findSome? fun t => x.written? (t.now start) t.move i with
    | none => exact absurd (List.findSome?_eq_none_iff.mp hfound) hnone
    | some e₁ =>
      rw [hfound] at hnew
      obtain ⟨t, ht, hwritten⟩ := List.exists_of_findSome?_eq_some hfound
      exact .inl ⟨t, ht, hwritten.trans (congrArg some hnew)⟩

end Cycle

/-! ## Runs -/

/-- The states that a station comes to from another when every cycle takes some of the turns that it
allows. -/
inductive Runs (station : Station) (start : σ → UInt64) (insertRef : ActionRef) :
    Station → List (List (Turn σ)) → Station → Prop where
  /-- before the first cycle -/
  | refl (x : Station) : Runs station start insertRef x [] x
  /-- one more cycle -/
  | cycle {x y y' : Station} {history : List (List (Turn σ))} {turns : List (Turn σ)}
    {answers : List Record} (run : Runs station start insertRef x history y)
    (allows : Allows station start insertRef y turns) (last : View σ)
    (edge : (station.block start insertRef).round last y (turns.map fun t => (t.seen, t.move.use)) =
      .ok (answers, y')) : Runs station start insertRef x (history ++ [turns]) y'

section Runs

variable {station x y : Station} {start : σ → UInt64} {insertRef : ActionRef}
  {history : List (List (Turn σ))}

/-- A station of an accepted shape can be built. -/
theorem exists_build (name : String) {config : StationConfig} (hconfig : config.flaw? = none) :
    ∃ station, build name config = .ok station := by
  obtain ⟨hentries, ⟨hrob, -⟩, ⟨hregister, -⟩, hdata, -⟩ := bounded_of_flaw? hconfig
  have hid : 0 < config.idWidth := Nat.lt_of_lt_of_le Nat.one_pos (Nat.le_max_left _ _)
  obtain ⟨idShape, hidShape⟩ : ∃ s, Shape.ofFields [⟨"rs_entry_id", config.idWidth⟩] = .ok s :=
    Shape.exists_ofFields (by simp [hid]) (by simp)
  obtain ⟨insertInput, hinsert⟩ : ∃ s, Shape.ofFields
      [⟨"rs_entry_id", config.idWidth⟩, ⟨"op", 2⟩, ⟨"rp_s1", config.registerWidth⟩,
        ⟨"rp_s2", config.registerWidth⟩, ⟨"s1_val", config.dataWidth⟩, ⟨"s2_val", config.dataWidth⟩,
        ⟨"imm", config.dataWidth⟩, ⟨"rob_id", config.robWidth⟩, ⟨"rp_dst", config.registerWidth⟩] =
      .ok s :=
    Shape.exists_ofFields (by simp [hid, hregister, hdata, hrob]) (by simp)
  obtain ⟨updateInput, hupdate⟩ : ∃ s, Shape.ofFields
      [⟨"reg_id", config.registerWidth⟩, ⟨"reg_val", config.dataWidth⟩] = .ok s :=
    Shape.exists_ofFields (by simp [hregister, hdata]) (by simp)
  obtain ⟨readyOutput, hready⟩ : ∃ s, Shape.ofFields [⟨"ready_list", config.entries⟩] = .ok s :=
    Shape.exists_ofFields (by simp [hentries]) (by simp)
  obtain ⟨takeOutput, htake⟩ : ∃ s, Shape.ofFields
      [⟨"op", 2⟩, ⟨"s1_val", config.dataWidth⟩, ⟨"s2_val", config.dataWidth⟩,
        ⟨"imm", config.dataWidth⟩, ⟨"rob_id", config.robWidth⟩, ⟨"rp_dst", config.registerWidth⟩] =
      .ok s :=
    Shape.exists_ofFields (by simp [hregister, hdata, hrob]) (by simp)
  unfold build
  rw [hconfig]
  simp only [hidShape, hinsert, hupdate, hready, htake, ok_bind]
  exact ⟨_, rfl⟩

/-- The entries of a station that was just built are empty. -/
theorem rests_build {name : String} {config : StationConfig} (hentries : config.entries ≤ UInt64.size)
    (hbuild : build name config = .ok station) :
    station.Formed ∧ station.Rests ∧ station.config = config := by
  unfold build at hbuild
  split at hbuild
  · cases hbuild
  · rename_i hconfig
    obtain ⟨idShape, hidShape, hbuild⟩ := bind_eq_ok.mp hbuild
    obtain ⟨insertInput, hinsert, hbuild⟩ := bind_eq_ok.mp hbuild
    obtain ⟨updateInput, hupdate, hbuild⟩ := bind_eq_ok.mp hbuild
    obtain ⟨readyOutput, hready, hbuild⟩ := bind_eq_ok.mp hbuild
    obtain ⟨takeOutput, htake, hbuild⟩ := bind_eq_ok.mp hbuild
    obtain rfl := Except.ok.inj hbuild
    refine ⟨⟨hconfig, hentries, Shape.ofFields_fields hidShape, Shape.ofFields_fields hinsert,
      Shape.ofFields_fields hupdate, Shape.ofFields_fields hready, Shape.ofFields_fields htake⟩,
      ⟨RegisterArray.idle_new _ _ _, RegisterArray.size_new _ _ _, fun {i e} he => ?_⟩, rfl⟩
    obtain rfl := RegisterArray.value?_new he
    exact StationEntry.sound_empty i

theorem Formed.of_frame (h : x.Formed) (hframe : y = { x with slots := y.slots }) : y.Formed := by
  obtain ⟨hconfig, hentries, hid, hinsert, hupdate, hready, htake⟩ := h
  rw [hframe]
  exact ⟨hconfig, hentries, hid, hinsert, hupdate, hready, htake⟩

theorem Outcome.formed {turns : List (Turn σ)} (h : Outcome start x turns y) (hformed : x.Formed) :
    y.Formed :=
  hformed.of_frame h.frame

theorem Outcome.config_eq {turns : List (Turn σ)} (h : Outcome start x turns y) :
    y.config = x.config :=
  (congrArg Station.config h.frame :)

/-- The outcome of a cycle, told by its edge. -/
theorem outcome_of_round {turns : List (Turn σ)} {last : View σ} {answers : List Record}
    (hformed : x.Formed) (hrests : x.Rests) (hallows : Allows station start insertRef x turns)
    (hedge : (station.block start insertRef).round last x (turns.map fun t => (t.seen, t.move.use)) =
      .ok (answers, y)) :
    answers = (turns.map fun t => x.answer (t.now start) t.move) ∧ Outcome start x turns y := by
  obtain ⟨x', hround, houtcome⟩ := exists_round hformed hrests hallows last
  obtain ⟨rfl, rfl⟩ := Prod.mk.inj (Except.ok.inj (hround.symm.trans hedge))
  exact ⟨rfl, houtcome⟩

/-- A run keeps the station in order. -/
theorem Runs.rests (hrun : Runs station start insertRef x history y) (hformed : x.Formed)
    (hrests : x.Rests) : y.Formed ∧ y.Rests ∧ y.config = x.config := by
  induction hrun with
  | refl => exact ⟨hformed, hrests, rfl⟩
  | cycle run allows last edge ih =>
    obtain ⟨hformed, hrests, hconfig⟩ := ih
    obtain ⟨-, houtcome⟩ := outcome_of_round hformed hrests allows edge
    exact ⟨houtcome.formed hformed, houtcome.rests, houtcome.config_eq.trans hconfig⟩

end Runs

end Station

end GuardedActions
