import GuardedActions.Proofs.MemoryOrder
import Mathlib.Order.WellFounded

/-!
# The oldest operation is never held back

Dependencies are recorded at insertion and never taken back, so that entries that were emptied and filled
again may come to depend on each other in a circle.  A dependency counts only as long as it is the older
one, though, and ages relative to the start of the reorder buffer admit no circles.  Whatever the entries
contain, `oldest_can_leave` says that an operation with both operands can be taken if no other one is older,
and hence that some operation can be taken if none waits for an operand.
-/

set_option autoImplicit false

namespace GuardedActions

variable {σ : Type}

namespace Station

/-! ## Ages -/

/-- How far a place is from the start of the reorder buffer, going round at its size. -/
def age (robWidth : Nat) (start place : UInt64) : Nat := (place - start).toNat % 2 ^ robWidth

theorem older_iff_age_lt {robWidth : Nat} {start first second : UInt64} :
    Older robWidth start first second ↔ age robWidth start first < age robWidth start second :=
  Iff.rfl

variable {x : Station} {now : UInt64}

/-- Among the operations of a station there is one that none is older than. -/
theorem exists_oldest (robWidth : Nat) (now : UInt64) (h : ∃ i e, x.entry? i = some e ∧ e.full = true) :
    ∃ i e, x.entry? i = some e ∧ e.full = true ∧ ∀ {j : Nat} {e' : StationEntry},
      x.entry? j = some e' → e'.full = true → ¬ Older robWidth now e'.robIndex e.robIndex := by
  obtain ⟨i, e, he, hfull⟩ := h
  obtain ⟨oldest, ⟨⟨i, he⟩, hfull⟩, hleast⟩ :=
    (measure fun e : StationEntry => age robWidth now e.robIndex).wf.has_min
      { e | (∃ i, x.entry? i = some e) ∧ e.full = true } ⟨e, ⟨i, he⟩, hfull⟩
  refine ⟨i, oldest, he, hfull, fun {j e'} he' hfull' holder => ?_⟩
  exact hleast e' ⟨⟨j, he'⟩, hfull'⟩ (older_iff_age_lt.mp holder)

/-! ## What holds an operation back -/

/-- Only an older operation holds one back. -/
theorem isBlocked_eq_false {e : StationEntry} (hwidth : x.config.robWidth < 64)
    (holdest : ∀ {j : Nat} {e' : StationEntry}, x.entry? j = some e' → e'.full = true →
      ¬ Older x.config.robWidth now e'.robIndex e.robIndex) : x.isBlocked now e = false := by
  refine List.any_eq_false.mpr fun j _ hblocks => ?_
  obtain ⟨e', he', hblocks⟩ := (Option.any_eq_true _ _).mp hblocks
  obtain ⟨hfull, hprecedes⟩ := Bool.and_eq_true_iff.mp hblocks
  exact holdest he' hfull ((precedes_iff hwidth now e'.robIndex e.robIndex).mp hprecedes)

theorem test_readyMask_of_full {i : Nat} {e : StationEntry}
    (hsize : x.slots.cells.size = x.config.entries) (he : x.entry? i = some e) (hfull : e.full = true)
    (hknown : e.operandsKnown = true) (hfree : x.isBlocked now e = false) :
    (x.readyMask now).test i = true := by
  have hi : i < x.config.entries := hsize ▸ RegisterArray.lt_size_of_value? he
  rw [readyMask, Mask.test_ofTest, he, Option.any_some, hfull, hknown, hfree]
  simpa using hi

/-- An entry can leave a station. -/
structure CanLeave (station : Station) (start : σ → UInt64) (insertRef : ActionRef) (view : View σ)
    (x : Station) (i : Nat) : Prop where
  /-- it is ready -/
  ready : (x.readyMask (start view.state)).test i = true
  /-- the ready list shows it -/
  listed : ∃ list, Lists station start insertRef view x list ∧ list.test i = true
  /-- arguments of the right shape name it -/
  named : ∃ args, args.shape = x.idShape ∧ idOf args = .ok i
  /-- taking it is accepted -/
  accepted : ∀ args, idOf args = .ok i →
    (station.block start insertRef).accepts view x (Move.take args).use = .ok true

/-- An entry that is ready can leave. -/
theorem Formed.canLeave (hformed : x.Formed) {station : Station} {start : σ → UInt64}
    {insertRef : ActionRef} {view : View σ} {i : Nat}
    (hready : (x.readyMask (start view.state)).test i = true) :
    CanLeave station start insertRef view x i := by
  have hi : i < x.config.entries :=
    Mask.size_ofTest x.config.entries _ ▸ Mask.lt_size_of_test hready
  have hid : idOf (Record.fill x.idShape [Bits.ofNat 64 i]) = .ok i := by
    unfold idOf
    rw [hformed.getWord_id hi, ok_bind, toNat_ofNat_of_lt_entries hformed hi]
  obtain ⟨list, hlist, hbits⟩ := hformed.exists_lists station start insertRef view
  refine ⟨hready, ⟨list, hlist, (hbits i).trans hready⟩, ⟨_, rfl, hid⟩, fun args hargs => ?_⟩
  rw [accepts_take, acceptsTake_eq hargs, hready]

/-! ## Every contents -/

/-- Let the entries of a station contain anything: any operations and operands, any places in the reorder
buffer, any dependencies, any writes that wait; and let the reorder buffer start anywhere.  An operation
with both operands can leave if no operation is older than it.  Hence some operation can leave if there is
one and none waits for an operand. -/
theorem oldest_can_leave {name : String} {config : StationConfig} {station : Station}
    (hentries : config.entries ≤ UInt64.size) (hbuild : build name config = .ok station)
    (start : σ → UInt64) (insertRef : ActionRef) (view : View σ)
    (hframe : x = { station with slots := x.slots }) (hsize : x.slots.cells.size = config.entries) :
    (∀ {i : Nat} {e : StationEntry}, x.entry? i = some e → e.full = true → e.tag1 = 0 → e.tag2 = 0 →
      (∀ {j : Nat} {e' : StationEntry}, x.entry? j = some e' → e'.full = true →
        ¬ Older config.robWidth (start view.state) e'.robIndex e.robIndex) →
      CanLeave station start insertRef view x i) ∧
    ((∃ i e, x.entry? i = some e ∧ e.full = true) →
      (∀ {i : Nat} {e : StationEntry}, x.entry? i = some e → e.full = true → e.tag1 = 0 ∧ e.tag2 = 0) →
      ∃ i, CanLeave station start insertRef view x i) := by
  obtain ⟨hformed, -, rfl⟩ := rests_build hentries hbuild
  have hformed : x.Formed := hformed.of_frame hframe
  obtain hconfig : x.config = station.config := (congrArg Station.config hframe :)
  rw [← hconfig] at hsize ⊢
  have holdest : ∀ {i : Nat} {e : StationEntry}, x.entry? i = some e → e.full = true → e.tag1 = 0 →
      e.tag2 = 0 → (∀ {j : Nat} {e' : StationEntry}, x.entry? j = some e' → e'.full = true →
        ¬ Older x.config.robWidth (start view.state) e'.robIndex e.robIndex) →
      CanLeave station start insertRef view x i := by
    intro i e he hfull htag1 htag2 hnone
    have hknown : e.operandsKnown = true := StationEntry.operandsKnown_iff.mpr ⟨htag1, htag2⟩
    have hfree : x.isBlocked (start view.state) e = false :=
      isBlocked_eq_false hformed.bounded.robWidth.2 hnone
    exact hformed.canLeave (test_readyMask_of_full hsize he hfull hknown hfree)
  refine ⟨holdest, fun hsome hknown => ?_⟩
  obtain ⟨i, e, he, hfull, hnone⟩ := exists_oldest x.config.robWidth (start view.state) hsome
  obtain ⟨htag1, htag2⟩ := hknown he hfull
  exact ⟨i, holdest he hfull htag1 htag2 hnone⟩

/-! ## Three operations that depend on each other -/

namespace Lsu

/-- An operation that depends on all the others. -/
def entangled (robIndex : UInt64) : StationEntry :=
  { StationEntry.empty config with
    reserved := true
    full := true
    robIndex := robIndex
    depends := ⟨[true, true, true, true, true]⟩ }

/-- Two operations at one place of the reorder buffer and one that comes before them as the buffer goes
round, with an entry that waits to be written and one that is empty. -/
def circle : RegisterArray StationEntry where
  name := ⟨"lsu", "slots"⟩
  start := StationEntry.empty config
  cells := #[⟨entangled 3, none⟩, ⟨entangled 3, none⟩, ⟨entangled 31, none⟩,
    ⟨StationEntry.empty config, some (entangled 30)⟩, ⟨StationEntry.empty config, none⟩]

/-- The station with these entries. -/
def entwined : Station := { station with slots := circle }

/-- A start of the reorder buffer far beyond its size. -/
def farView : View UInt64 := { view with state := 0xfffffffffffffffe }

end Lsu

theorem of_entry?_entwined {P : StationEntry → Prop} (hall : ∀ c ∈ Lsu.circle.cells.toList, P c.value)
    {i : Nat} {e : StationEntry} (he : Lsu.entwined.entry? i = some e) : P e := by
  obtain ⟨c, hc, rfl⟩ := Option.map_eq_some_iff.mp he
  exact hall c (Array.mem_toList_iff.mpr (Array.mem_of_getElem? hc))

/-- Each of the three depends on the other two; the one that comes first can leave. -/
theorem lsu_oldest_can_leave :
    Lsu.config.entries ≤ UInt64.size ∧ build "lsu" Lsu.config = .ok Lsu.station ∧
    Lsu.entwined = { Lsu.station with slots := Lsu.entwined.slots } ∧
    Lsu.entwined.slots.cells.size = Lsu.config.entries ∧
    (∃ i, CanLeave Lsu.station id Lsu.insertRef Lsu.farView Lsu.entwined i) ∧
    CanLeave Lsu.station id Lsu.insertRef Lsu.farView Lsu.entwined 2 := by
  have hentries : Lsu.config.entries ≤ UInt64.size := by decide
  have hsize : Lsu.entwined.slots.cells.size = Lsu.config.entries := rfl
  obtain ⟨holdest, hsome⟩ :=
    oldest_can_leave hentries build_lsu id Lsu.insertRef Lsu.farView (x := Lsu.entwined) rfl hsize
  have hknown : ∀ {i : Nat} {e : StationEntry}, Lsu.entwined.entry? i = some e → e.full = true →
      e.tag1 = 0 ∧ e.tag2 = 0 :=
    fun he _ => of_entry?_entwined (P := fun e => e.tag1 = 0 ∧ e.tag2 = 0) (by decide) he
  have hnone : ∀ {j : Nat} {e' : StationEntry}, Lsu.entwined.entry? j = some e' → e'.full = true →
      ¬ Older 5 Lsu.farView.state e'.robIndex (Lsu.entangled 31).robIndex := by
    refine fun he' hfull => of_entry?_entwined (P := fun e' => e'.full = true →
      ¬ Older 5 Lsu.farView.state e'.robIndex (Lsu.entangled 31).robIndex) ?_ he' hfull
    decide +kernel
  exact ⟨hentries, build_lsu, rfl, hsize, hsome ⟨2, Lsu.entangled 31, rfl, rfl⟩ hknown,
    holdest (i := 2) (e := Lsu.entangled 31) rfl rfl rfl rfl hnone⟩

end Station

end GuardedActions
