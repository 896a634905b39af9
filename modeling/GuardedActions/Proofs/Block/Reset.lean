import GuardedActions.Block.AssociativeMemory
import GuardedActions.Block.Bank
import GuardedActions.Block.Station
import GuardedActions.Proofs.Element
import GuardedActions.Proofs.Execution.Within

/-!
# Resetting the blocks of the library

Nothing that a block of the library does to its state, and no clock edge, changes what a reset makes of it:
a block that was built anew.
-/

set_option autoImplicit false

namespace GuardedActions

variable {σ : Type}

/-! ## The associative memory -/

namespace AssociativeMemory

variable {x x' : AssociativeMemory}

theorem reset_of_push {args : Record} (h : x.push args = .ok x') : x'.reset = x.reset := by
  unfold push at h
  split at h
  · cases h
  · obtain ⟨key, -, h⟩ := bind_eq_ok.mp h
    obtain ⟨keys, hkeys, h⟩ := bind_eq_ok.mp h
    obtain ⟨datum, -, h⟩ := bind_eq_ok.mp h
    obtain ⟨data, hdata, h⟩ := bind_eq_ok.mp h
    obtain ⟨valid, hvalid, h⟩ := bind_eq_ok.mp h
    obtain rfl := Except.ok.inj h
    unfold reset
    simp only [RegisterArray.reset_of_write hkeys, RegisterArray.reset_of_write hdata,
      RegisterArray.reset_of_write hvalid]

theorem reset_of_pop {key : Bits} {datum : Option Bits} (h : x.pop key = .ok (datum, x')) :
    x'.reset = x.reset := by
  unfold pop at h
  split at h
  · obtain ⟨-, rfl⟩ := Prod.mk.inj (Except.ok.inj h)
    rfl
  · obtain ⟨found, -, h⟩ := bind_eq_ok.mp h
    obtain ⟨valid, hvalid, h⟩ := bind_eq_ok.mp h
    obtain ⟨-, rfl⟩ := Prod.mk.inj (Except.ok.inj h)
    unfold reset
    simp only [RegisterArray.reset_of_write hvalid]

theorem reset_of_moves {b : AssociativeMemory} (h : (b.block : Block σ AssociativeMemory).Moves x x') :
    x'.reset = x.reset := by
  rcases h with ⟨p, hp, view, args, result, hbody⟩ | ⟨j, hj, -⟩ | ⟨logic, hlogic, -⟩
  · simp only [block, List.mem_cons, List.not_mem_nil, or_false] at hp
    rcases hp with rfl | rfl
    · obtain ⟨y, hpush, hy⟩ := bind_eq_ok.mp hbody
      obtain ⟨-, rfl⟩ := Prod.mk.inj (Except.ok.inj hy)
      exact reset_of_push hpush
    · obtain ⟨key, -, hbody⟩ := bind_eq_ok.mp hbody
      obtain ⟨⟨datum, y⟩, hpop, hy⟩ := bind_eq_ok.mp hbody
      obtain ⟨-, rfl⟩ := Prod.mk.inj (Except.ok.inj hy)
      exact reset_of_pop hpop
  · cases hj
  · cases hlogic

@[simp] theorem reset_commit (x : AssociativeMemory) : x.commit.reset = x.reset := by
  simp [commit, reset]

@[simp] theorem reset_reset (x : AssociativeMemory) : x.reset.reset = x.reset := by
  simp [reset]

theorem reset_build {name : String} {keyShape dataShape : Shape} {entries : Nat}
    (h : build name keyShape dataShape entries = .ok x) : x.reset = x := by
  obtain ⟨encoder, -, h⟩ := bind_eq_ok.mp h
  obtain ⟨pushInput, -, h⟩ := bind_eq_ok.mp h
  obtain ⟨popInput, -, h⟩ := bind_eq_ok.mp h
  obtain ⟨popOutput, -, h⟩ := bind_eq_ok.mp h
  obtain rfl := Except.ok.inj h
  unfold reset
  simp only [RegisterArray.reset_new]

end AssociativeMemory

/-! ## The memory bank -/

namespace Bank

variable {x x' : Bank}

theorem reset_of_writeThrough {args : Record} (h : x.writeThrough args = .ok x') : x'.reset = x.reset := by
  obtain ⟨address, -, h⟩ := bind_eq_ok.mp h
  obtain ⟨value, -, h⟩ := bind_eq_ok.mp h
  split at h
  · obtain ⟨memory, hmemory, h⟩ := bind_eq_ok.mp h
    obtain rfl := Except.ok.inj h
    unfold reset
    simp only [RegisterArray.reset_of_write hmemory]
  · obtain ⟨mask, -, h⟩ := bind_eq_ok.mp h
    obtain ⟨old, -, h⟩ := bind_eq_ok.mp h
    obtain ⟨memory, hmemory, h⟩ := bind_eq_ok.mp h
    obtain rfl := Except.ok.inj h
    unfold reset
    simp only [RegisterArray.reset_of_write hmemory]

theorem reset_of_startRead {args : Record} (h : x.startRead args = .ok x') : x'.reset = x.reset := by
  obtain ⟨address, -, h⟩ := bind_eq_ok.mp h
  obtain ⟨readAddress, haddress, h⟩ := bind_eq_ok.mp h
  obtain rfl := Except.ok.inj h
  unfold reset
  simp only [Wire.reset_of_drive haddress]

theorem reset_of_fetch {result : Record} (h : x.fetch = .ok (result, x')) : x'.reset = x.reset := by
  obtain ⟨fetched, hfetched, h⟩ := bind_eq_ok.mp h
  obtain ⟨-, rfl⟩ := Prod.mk.inj (Except.ok.inj h)
  unfold reset
  simp only [Wire.reset_of_drive hfetched]

theorem reset_of_startWrite {args : Record} (h : x.startWrite args = .ok x') : x'.reset = x.reset := by
  obtain ⟨address, -, h⟩ := bind_eq_ok.mp h
  obtain ⟨writeAsked, hasked, h⟩ := bind_eq_ok.mp h
  obtain rfl := Except.ok.inj h
  unfold reset
  simp only [Wire.reset_of_drive hasked]

theorem reset_of_flush (h : x.flush = .ok x') : x'.reset = x.reset := by
  obtain ⟨y, hy, h⟩ := bind_eq_ok.mp h
  obtain ⟨writeWaiting, hwaiting, h⟩ := bind_eq_ok.mp h
  obtain rfl := Except.ok.inj h
  rw [← reset_of_writeThrough hy]
  unfold reset
  simp only [Register.reset_of_write hwaiting]

theorem reset_of_defer {args : Record} (h : x.defer args = .ok x') : x'.reset = x.reset := by
  obtain ⟨writeWaiting, hwaiting, h⟩ := bind_eq_ok.mp h
  obtain ⟨delayedWrite, hdelayed, h⟩ := bind_eq_ok.mp h
  obtain rfl := Except.ok.inj h
  unfold reset
  simp only [Register.reset_of_write hwaiting, Register.reset_of_write hdelayed]

theorem reset_of_settleWrite (h : x.settleWrite = .ok x') : x'.reset = x.reset := by
  unfold settleWrite at h
  split at h
  · obtain rfl := Except.ok.inj h
    rfl
  · obtain ⟨collision, -, h⟩ := bind_eq_ok.mp h
    split at h
    · exact reset_of_defer h
    · exact reset_of_writeThrough h

theorem reset_of_settleRead (h : x.settleRead = .ok x') : x'.reset = x.reset := by
  unfold settleRead at h
  split at h
  · obtain ⟨value, -, h⟩ := bind_eq_ok.mp h
    obtain ⟨latched, hlatched, h⟩ := bind_eq_ok.mp h
    obtain ⟨latchFull, hfull, h⟩ := bind_eq_ok.mp h
    obtain rfl := Except.ok.inj h
    unfold reset
    simp only [Register.reset_of_write hlatched, Register.reset_of_write hfull]
  · split at h
    · obtain ⟨latchFull, hfull, h⟩ := bind_eq_ok.mp h
      obtain rfl := Except.ok.inj h
      unfold reset
      simp only [Register.reset_of_write hfull]
    · obtain rfl := Except.ok.inj h
      rfl

theorem reset_of_moves {b : Bank} (h : (b.block : Block σ Bank).Moves x x') : x'.reset = x.reset := by
  rcases h with ⟨p, hp, view, args, result, hbody⟩ | ⟨j, hj, view, hbody⟩ | ⟨logic, hlogic, view, hbody⟩
  · simp only [block, List.mem_cons, List.not_mem_nil, or_false] at hp
    rcases hp with rfl | rfl | rfl
    · obtain ⟨y, hread, hy⟩ := bind_eq_ok.mp hbody
      obtain ⟨-, rfl⟩ := Prod.mk.inj (Except.ok.inj hy)
      exact reset_of_startRead hread
    · exact reset_of_fetch hbody
    · obtain ⟨y, hwrite, hy⟩ := bind_eq_ok.mp hbody
      obtain ⟨-, rfl⟩ := Prod.mk.inj (Except.ok.inj hy)
      exact reset_of_startWrite hwrite
  · simp only [block, List.mem_cons, List.not_mem_nil, or_false] at hj
    obtain rfl := hj
    exact reset_of_flush hbody
  · obtain rfl := Option.some.inj hlogic
    obtain ⟨y, hwrite, hread⟩ := bind_eq_ok.mp hbody
    exact (reset_of_settleRead hread).trans (reset_of_settleWrite hwrite)

@[simp] theorem reset_commit (x : Bank) : x.commit.reset = x.reset := by
  simp [commit, reset]

@[simp] theorem reset_reset (x : Bank) : x.reset.reset = x.reset := by
  simp [reset]

theorem reset_build {name : String} {config : BankConfig} (h : build name config = .ok x) : x.reset = x := by
  obtain ⟨width, -, h⟩ := bind_eq_ok.mp h
  obtain ⟨readInput, -, h⟩ := bind_eq_ok.mp h
  obtain ⟨readOutput, -, h⟩ := bind_eq_ok.mp h
  obtain ⟨writeInput, -, h⟩ := bind_eq_ok.mp h
  obtain rfl := Except.ok.inj h
  unfold reset
  simp only [RegisterArray.reset_new, Register.reset_new, Wire.reset_new]

end Bank

/-! ## The reservation station -/

namespace Station

variable {x x' : Station}

/-- Only entries are written. -/
structure Wrote (x x' : Station) : Prop where
  /-- the rest is as before -/
  frame : x' = { x with slots := x'.slots }
  /-- the entries that were written -/
  slots : x.slots.Writes x'.slots

theorem wrote_of_select {result : Record} (h : x.select = .ok (result, x')) : x.Wrote x' := by
  unfold select at h
  split at h
  · cases h
  · obtain ⟨e, -, h⟩ := bind_eq_ok.mp h
    obtain ⟨slots, hslots, h⟩ := bind_eq_ok.mp h
    obtain ⟨-, rfl⟩ := Prod.mk.inj (Except.ok.inj h)
    exact ⟨rfl, .once hslots⟩

theorem wrote_of_insert {start : UInt64} {args : Record} (h : x.insert start args = .ok x') : x.Wrote x' := by
  obtain ⟨id, -, h⟩ := bind_eq_ok.mp h
  obtain ⟨e, -, h⟩ := bind_eq_ok.mp h
  obtain ⟨slots, hslots, h⟩ := bind_eq_ok.mp h
  obtain rfl := Except.ok.inj h
  exact ⟨rfl, .once hslots⟩

theorem writes_of_wakeAll {tag : UInt64} {value : Bits} {positions : List Nat}
    {slots slots' : RegisterArray StationEntry} (h : wakeAll tag value positions slots = .ok slots') :
    slots.Writes slots' := by
  induction positions generalizing slots with
  | nil =>
    obtain rfl := Except.ok.inj h
    exact .refl
  | cons i rest ih =>
    obtain ⟨e, -, h⟩ := bind_eq_ok.mp h
    split at h
    · obtain ⟨written, hwritten, h⟩ := bind_eq_ok.mp h
      exact (RegisterArray.Writes.once hwritten).trans (ih h)
    · exact ih h

theorem wrote_of_update {args : Record} (h : x.update args = .ok x') : x.Wrote x' := by
  obtain ⟨tag, -, h⟩ := bind_eq_ok.mp h
  split at h
  · obtain rfl := Except.ok.inj h
    exact ⟨rfl, .refl⟩
  · obtain ⟨value, -, h⟩ := bind_eq_ok.mp h
    obtain ⟨slots, hslots, h⟩ := bind_eq_ok.mp h
    obtain rfl := Except.ok.inj h
    exact ⟨rfl, writes_of_wakeAll hslots⟩

theorem wrote_of_take {args result : Record} (h : x.take args = .ok (result, x')) : x.Wrote x' := by
  obtain ⟨id, -, h⟩ := bind_eq_ok.mp h
  obtain ⟨e, -, h⟩ := bind_eq_ok.mp h
  obtain ⟨slots, hslots, h⟩ := bind_eq_ok.mp h
  obtain ⟨-, rfl⟩ := Prod.mk.inj (Except.ok.inj h)
  exact ⟨rfl, .once hslots⟩

/-- All that a method does to a station is writing entries. -/
theorem wrote_of_moves {b : Station} {start : σ → UInt64} {insertRef : ActionRef}
    (h : (b.block start insertRef).Moves x x') : x.Wrote x' := by
  rcases h with ⟨p, hp, view, args, result, hbody⟩ | ⟨j, hj, -⟩ | ⟨logic, hlogic, -⟩
  · simp only [block, List.mem_cons, List.not_mem_nil, or_false] at hp
    rcases hp with rfl | rfl | rfl | rfl | rfl
    · exact wrote_of_select hbody
    · obtain ⟨y, hinsert, hy⟩ := bind_eq_ok.mp hbody
      obtain ⟨-, rfl⟩ := Prod.mk.inj (Except.ok.inj hy)
      exact wrote_of_insert hinsert
    · obtain ⟨y, hupdate, hy⟩ := bind_eq_ok.mp hbody
      obtain ⟨-, rfl⟩ := Prod.mk.inj (Except.ok.inj hy)
      exact wrote_of_update hupdate
    · obtain ⟨-, rfl⟩ := Prod.mk.inj (Except.ok.inj hbody)
      exact ⟨rfl, .refl⟩
    · exact wrote_of_take hbody
  · cases hj
  · cases hlogic

theorem reset_of_moves {b : Station} {start : σ → UInt64} {insertRef : ActionRef}
    (h : (b.block start insertRef).Moves x x') : x'.reset = x.reset := by
  obtain ⟨hframe, hslots⟩ := wrote_of_moves h
  rw [hframe]
  unfold reset
  simp only [hslots.reset_eq]

@[simp] theorem reset_commit (x : Station) : x.commit.reset = x.reset := by
  simp [commit, reset]

@[simp] theorem reset_reset (x : Station) : x.reset.reset = x.reset := by
  simp [reset]

theorem reset_build {name : String} {c : StationConfig} (h : build name c = .ok x) : x.reset = x := by
  unfold build at h
  split at h
  · cases h
  · obtain ⟨idShape, -, h⟩ := bind_eq_ok.mp h
    obtain ⟨insertInput, -, h⟩ := bind_eq_ok.mp h
    obtain ⟨updateInput, -, h⟩ := bind_eq_ok.mp h
    obtain ⟨readyOutput, -, h⟩ := bind_eq_ok.mp h
    obtain ⟨takeOutput, -, h⟩ := bind_eq_ok.mp h
    obtain rfl := Except.ok.inj h
    unfold reset
    simp only [RegisterArray.reset_new]

end Station

end GuardedActions
