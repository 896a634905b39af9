import GuardedActions.Proofs.IdealMemory
import GuardedActions.Proofs.Record

/-!
# Masked writes

A masked write takes every bit of the addressed element from the new value if the mask has the bit of its
chunk, and from the old value otherwise; it touches no other element.  `masked_writes_merge` says so for
every width and every granularity that divides it, with what follows from it: a full mask writes the whole
element, an empty one nothing, and two masks without a common bit can be written in either order.
-/

set_option autoImplicit false

namespace GuardedActions

/-! ## Merging with full, empty and disjoint masks -/

namespace Bits

theorem merge_full {chunk : Nat} {mask old new : Bits} (hwidth : new.width = old.width)
    (hmask : ∀ p, p < old.width → mask.test (p / chunk) = true) : merge chunk mask old new = new := by
  refine ext_test ((width_merge chunk mask old new).trans hwidth.symm) fun p hp => ?_
  rw [width_merge] at hp
  rw [test_merge hp, if_pos (hmask p hp)]

theorem merge_empty {chunk : Nat} {mask old new : Bits}
    (hmask : ∀ p, p < old.width → mask.test (p / chunk) = false) : merge chunk mask old new = old := by
  refine ext_test (width_merge chunk mask old new) fun p hp => ?_
  rw [width_merge] at hp
  rw [test_merge hp, hmask p hp, if_neg Bool.false_ne_true]

/-- Chunks that are selected by one mask only can be merged in either order. -/
theorem merge_comm {chunk : Nat} {mask mask' : Bits}
    (hdisjoint : ∀ i, ¬ (mask.test i = true ∧ mask'.test i = true)) (old new new' : Bits) :
    merge chunk mask' (merge chunk mask old new) new' = merge chunk mask (merge chunk mask' old new') new := by
  refine ext_test (by simp only [width_merge]) fun p hp => ?_
  simp only [width_merge] at hp
  have hfirst : p < (merge chunk mask old new).width := by rwa [width_merge]
  have hsecond : p < (merge chunk mask' old new').width := by rwa [width_merge]
  rw [test_merge hfirst, test_merge hsecond, test_merge hp, test_merge hp]
  by_cases hmask : mask.test (p / chunk) = true
  · have hmask' : ¬ mask'.test (p / chunk) = true := fun h => hdisjoint _ ⟨hmask, h⟩
    rw [if_neg hmask', if_pos hmask, if_pos hmask]
  · rw [if_neg hmask, if_neg hmask]

end Bits

namespace Bank

/-! ## Banks with masks -/

theorem exists_validWidth {config : BankConfig} {chunk : Nat} (hchunk : config.granularity = some chunk)
    (name : String) : (∃ width, validWidth name config = .ok width) ↔
      0 < config.count ∧ 0 < config.dataShape.width ∧ chunk ∣ config.dataShape.width := by
  constructor
  · rintro ⟨width, hvalid⟩
    obtain ⟨rfl, hpos, hchunks⟩ := validWidth_eq_ok hvalid
    refine ⟨Nat.pos_of_ne_zero fun hcount => ?_, hpos, (hchunks hchunk).2⟩
    rw [validWidth, if_pos hcount] at hvalid
    cases hvalid
  · rintro ⟨hcount, hwidth, hdvd⟩
    have hgood : ¬ (chunk = 0 ∨ config.dataShape.width % chunk ≠ 0) := by
      rintro (rfl | hmod)
      · exact absurd (Nat.zero_dvd.mp hdvd) (Nat.ne_of_gt hwidth)
      · exact hmod (Nat.mod_eq_zero_of_dvd hdvd)
    refine ⟨config.dataShape.width, ?_⟩
    rw [validWidth, if_neg (Nat.ne_of_gt hcount)]
    simp only [hchunk, if_neg (Nat.ne_of_gt hwidth), if_neg hgood]

/-- A bank with masks can be built if and only if it has elements and its granularity divides their
width. -/
theorem exists_build_iff {config : BankConfig} {chunk : Nat} (hchunk : config.granularity = some chunk)
    (name : String) : (∃ bank, build name config = .ok bank) ↔
      0 < config.count ∧ 0 < config.dataShape.width ∧ chunk ∣ config.dataShape.width := by
  rw [← exists_validWidth hchunk name]
  constructor
  · rintro ⟨bank, hbuild⟩
    obtain ⟨width, hvalid, -⟩ := bind_eq_ok.mp hbuild
    exact ⟨width, hvalid⟩
  · rintro ⟨width, hvalid⟩
    obtain ⟨-, hwidth, hchunks⟩ := validWidth_eq_ok hvalid
    obtain ⟨hpos, hdvd⟩ := hchunks hchunk
    have haddress : 0 < max 1 (Bits.needed config.count) :=
      Nat.lt_of_lt_of_le Nat.one_pos (Nat.le_max_left _ _)
    have hmask : 0 < width / chunk := Nat.div_pos (Nat.le_of_dvd hwidth hdvd) hpos
    obtain ⟨readInput, hreadInput⟩ : ∃ s,
        Shape.ofFields [⟨"addr", max 1 (Bits.needed config.count)⟩] = .ok s :=
      Shape.exists_ofFields (by simp [haddress]) (by simp)
    obtain ⟨readOutput, hreadOutput⟩ : ∃ s, Shape.ofFields [⟨"data", width⟩] = .ok s :=
      Shape.exists_ofFields (by simp [hwidth]) (by simp)
    obtain ⟨writeInput, hwriteInput⟩ : ∃ s, Shape.ofFields [⟨"addr", max 1 (Bits.needed config.count)⟩,
        ⟨"data", width⟩, ⟨"mask", width / chunk⟩] = .ok s :=
      Shape.exists_ofFields (by simp [haddress, hwidth, hmask]) (by simp)
    simp only [build, hvalid, hreadInput, hreadOutput, hchunk, hwriteInput, ok_bind]
    exact ⟨_, rfl⟩

/-- A bank of a configuration into whose memory a write can be made. -/
structure Whole (config : BankConfig) (x : Bank) : Prop where
  /-- the configuration never changes -/
  config_eq : x.config = config
  /-- shapes and widths fit together -/
  formed : x.Formed
  /-- the memory has all elements, and no write waits in it -/
  filled : x.Filled

theorem whole_of_build {name : String} {config : BankConfig} {bank : Bank}
    (h : build name config = .ok bank) : Whole config bank :=
  have htracks := tracks_of_build h
  ⟨htracks.config_eq, htracks.formed, htracks.rests.filled⟩

/-- A write that is made leaves a bank that can be written again after the edge. -/
theorem Whole.commit_storing {config : BankConfig} {x : Bank} {args : Record} (h : Whole config x)
    (hshape : args.shape = x.writeInput) : Whole config (x.storing args).commit where
  config_eq := h.config_eq
  formed := ⟨h.formed.width, h.formed.width_pos, h.formed.chunks, h.formed.readOutput, h.formed.data,
    h.formed.mask⟩
  filled := filled_storing h.formed h.filled hshape rfl rfl rfl

/-! ## One write -/

/-- The bank without masks. -/
def unmasked (x : Bank) : Bank := { x with config := { x.config with granularity := none } }

/-- The arguments of a masked write name an address, a datum and a mask. -/
structure Asks (args : Record) (address : Nat) (new mask : Bits) : Prop where
  /-- the address -/
  address : addressOf args = .ok address
  /-- the new value -/
  data : args.get "data" = .ok new
  /-- the chunks that are written -/
  mask : args.get "mask" = .ok mask

/-- A masked write of a bank `x` leaves the bank `y`. -/
structure Merges (chunk address : Nat) (new mask : Bits) (x y : Bank) : Prop where
  /-- at the next edge the addressed element gets the bits of the selected chunks from the new value and
  the others from the old one -/
  merged : ∃ value, y.memory.upcoming address = .ok value ∧ value.width = x.width ∧ ∀ p, p < x.width →
    value.test p = if mask.test (p / chunk) then new.test p else (x.stored address).test p
  /-- no other element is touched -/
  others : ∀ other, other ≠ address → y.memory.cells[other]? = x.memory.cells[other]?
  /-- until the edge all elements hold their values -/
  stored : y.stored = x.stored
  /-- nothing but the memory changes -/
  frame : { y with memory := x.memory } = x

section

variable {x : Bank} {chunk : Nat} {args args' : Record}

theorem Formed.exists_asks (hformed : x.Formed) (hchunk : x.config.granularity = some chunk)
    (hfits : x.Fits (.write args)) : ∃ address new mask, Asks args address new mask ∧
      address < x.config.count ∧ new.width = x.width ∧ mask.width = x.width / chunk := by
  obtain ⟨hshape, address, haddress, hlt⟩ := hfits
  obtain ⟨new, hdata, hwidth⟩ := exists_data hformed hshape
  obtain ⟨mask, hmask, hmaskWidth⟩ :=
    args.exists_get (f := ⟨"mask", x.width / chunk⟩) (hshape ▸ hformed.mask hchunk)
  exact ⟨address, new, mask, ⟨haddress, hdata, hmask⟩, hlt, hwidth, hmaskWidth⟩

theorem newValue_of_asks {config : BankConfig} (hchunk : config.granularity = some chunk) {address : Nat}
    {new mask : Bits} (hasks : Asks args address new mask) (old : Bits) :
    config.newValue args old = Bits.merge chunk mask old new := by
  simp only [BankConfig.newValue, hasks.data, hchunk, hasks.mask]

theorem merges_storing (hfilled : x.Filled)
    (hchunk : x.config.granularity = some chunk) {address : Nat} {new mask : Bits}
    (hasks : Asks args address new mask) (hlt : address < x.config.count) :
    Merges chunk address new mask x (x.storing args) := by
  obtain ⟨c, hc, -, -⟩ := hfilled.exists_cell hlt
  have hold : (x.stored address).width = x.width := hfilled.width_stored address
  have hmemory : (x.storing args).memory =
      x.memory.withWrite address (Bits.merge chunk mask (x.stored address) new) := by
    rw [storing, target_of_addressOf hasks.address, newValue_of_asks hchunk hasks]
  refine ⟨⟨Bits.merge chunk mask (x.stored address) new, ?_, ?_, ?_⟩, ?_, ?_, rfl⟩
  · rw [hmemory, RegisterArray.upcoming_eq_ok]
    refine ⟨c.write _, ?_, Cell.next_write _ _⟩
    rw [RegisterArray.getElem?_withWrite, if_pos rfl, hc, Option.map_some]
  · rw [Bits.width_merge, hold]
  · intro p hp
    exact Bits.test_merge (hold.symm ▸ hp)
  · intro other hother
    rw [hmemory, RegisterArray.getElem?_withWrite, if_neg (Ne.symm hother)]
  · funext other
    rw [stored_eq, stored_eq, hmemory, RegisterArray.getElem?_withWrite]
    by_cases hother : address = other
    · rw [if_pos hother, Option.map_map]
      rfl
    · rw [if_neg hother]
      rfl

/-! ## Full and empty masks -/

theorem Formed.unmasked (hformed : x.Formed) : x.unmasked.Formed where
  width := hformed.width
  width_pos := hformed.width_pos
  chunks := nofun
  readOutput := hformed.readOutput
  data := hformed.data
  mask := nofun

/-- Every bit of an element belongs to a chunk that the mask speaks about. -/
theorem Formed.chunk_lt (hformed : x.Formed) (hchunk : x.config.granularity = some chunk) {p : Nat}
    (hp : p < x.width) : p / chunk < x.width / chunk :=
  Nat.div_lt_div_of_lt_of_dvd (hformed.chunks hchunk).2 hp

/-- A write with a full mask is a write of the whole element. -/
theorem writeThrough_unmasked (hformed : x.Formed) (hfilled : x.Filled)
    (hchunk : x.config.granularity = some chunk) (hfits : x.Fits (.write args)) {address : Nat}
    {new mask : Bits} (hasks : Asks args address new mask) (hnew : new.width = x.width)
    (hmask : ∀ i, i < x.width / chunk → mask.test i = true) :
    ∃ z, x.unmasked.writeThrough args = .ok z ∧ z.memory = (x.storing args).memory := by
  have hfilled' : x.unmasked.Filled := ⟨hfilled.idle, hfilled.size, hfilled.width⟩
  refine ⟨_, writeThrough_eq hformed.unmasked hfilled' hfits, ?_⟩
  have hold : (x.stored (target args)).width = x.width := hfilled.width_stored _
  have hplain : x.unmasked.config.newValue args (x.unmasked.stored (target args)) = new := by
    simp only [BankConfig.newValue, hasks.data, Bank.unmasked]
  have hfull : x.config.newValue args (x.stored (target args)) = new := by
    rw [newValue_of_asks hchunk hasks]
    refine Bits.merge_full (hnew.trans hold.symm) fun p hp => ?_
    exact hmask _ (hformed.chunk_lt hchunk (hold ▸ hp))
  rw [storing, storing, hplain, hfull]
  rfl

/-- A write with an empty mask changes nothing. -/
theorem store_eq_self (hformed : x.Formed) (hfilled : x.Filled)
    (hchunk : x.config.granularity = some chunk) {address : Nat} {new mask : Bits}
    (hasks : Asks args address new mask) (hmask : ∀ i, i < x.width / chunk → mask.test i = false) :
    x.config.store args x.stored = x.stored := by
  funext other
  unfold BankConfig.store
  by_cases hother : other = target args
  · rw [if_pos hother, newValue_of_asks hchunk hasks]
    refine Bits.merge_empty fun p hp => hmask _ (hformed.chunk_lt hchunk ?_)
    rwa [hfilled.width_stored] at hp
  · rw [if_neg hother]

/-! ## Two writes -/

/-- Two masked writes select no common chunk. -/
def Apart (args args' : Record) : Prop :=
  ∀ mask mask', args.get "mask" = .ok mask → args'.get "mask" = .ok mask' →
    ∀ i, ¬ (mask.test i = true ∧ mask'.test i = true)

theorem store_comm {config : BankConfig} (hchunk : config.granularity = some chunk) {address address' : Nat}
    {new new' mask mask' : Bits} (hasks : Asks args address new mask)
    (hasks' : Asks args' address' new' mask') (hapart : Apart args args') (contents : Nat → Bits) :
    config.store args' (config.store args contents) = config.store args (config.store args' contents) := by
  have hmasks := hapart mask mask' hasks.mask hasks'.mask
  funext other
  unfold BankConfig.store
  by_cases hfirst : other = target args
  · by_cases hsecond : other = target args'
    · rw [if_pos hsecond, if_pos hfirst, if_pos hfirst, if_pos hsecond, newValue_of_asks hchunk hasks,
        newValue_of_asks hchunk hasks', newValue_of_asks hchunk hasks', newValue_of_asks hchunk hasks,
        Bits.merge_comm hmasks]
    · rw [if_neg hsecond, if_pos hfirst, if_pos hfirst, if_neg hsecond]
  · rw [if_neg hfirst, if_neg hfirst]

/-- Two writes in consecutive cycles are both made. -/
theorem Whole.exists_two_writes {config : BankConfig} (h : Whole config x) (hfits : x.Fits (.write args))
    (hfits' : x.Fits (.write args')) : ∃ y z, x.writeThrough args = .ok y ∧
      y.commit.writeThrough args' = .ok z ∧
      z.commit.stored = config.store args' (config.store args x.stored) := by
  have hnext : Whole config (x.storing args).commit := h.commit_storing hfits.1
  have hstored : (x.storing args).commit.stored = x.config.store args x.stored :=
    stored_storing h.filled hfits.2 rfl rfl
  refine ⟨_, _, writeThrough_eq h.formed h.filled hfits, writeThrough_eq hnext.formed hnext.filled hfits', ?_⟩
  rw [stored_storing (y := ((x.storing args).commit.storing args').commit) hnext.filled hfits'.2 rfl rfl,
    hstored, h.config_eq, hnext.config_eq]

end

/-- A bank with masks can be built for every width and every granularity that divides it.  A masked write
that fits the bank gives the addressed element, at the next edge, every bit of the new value whose chunk
is selected and every other bit of the old one, and touches nothing else.  So a full mask does what a write
without masks does, an empty one keeps the contents, and two writes that select no common chunk leave the
same contents in either order. -/
theorem masked_writes_merge {config : BankConfig} {chunk : Nat} (hchunk : config.granularity = some chunk) :
    (∀ name, (∃ bank, build name config = .ok bank) ↔
      0 < config.count ∧ 0 < config.dataShape.width ∧ chunk ∣ config.dataShape.width) ∧
    (∀ {name : String} {bank : Bank}, build name config = .ok bank → Whole config bank) ∧
    ∀ {x : Bank}, Whole config x →
      (∀ {args : Record}, x.Fits (.write args) → ∃ address new mask y, Asks args address new mask ∧
        address < config.count ∧ new.width = x.width ∧ mask.width = x.width / chunk ∧
        x.writeThrough args = .ok y ∧ Merges chunk address new mask x y ∧ Whole config y.commit ∧
        ((∀ i, i < mask.width → mask.test i = true) →
          ∃ z, x.unmasked.writeThrough args = .ok z ∧ z.memory = y.memory) ∧
        ((∀ i, i < mask.width → mask.test i = false) → y.commit.stored = x.stored)) ∧
      ∀ {args args' : Record}, x.Fits (.write args) → x.Fits (.write args') → Apart args args' →
        ∃ y z y' z', x.writeThrough args = .ok y ∧ y.commit.writeThrough args' = .ok z ∧
          x.writeThrough args' = .ok y' ∧ y'.commit.writeThrough args = .ok z' ∧
          z.commit.stored = z'.commit.stored := by
  refine ⟨exists_build_iff hchunk, whole_of_build, ?_⟩
  rintro x ⟨rfl, hformed, hfilled⟩
  have hwhole : Whole x.config x := ⟨rfl, hformed, hfilled⟩
  refine ⟨fun {args} hfits => ?_, fun {args args'} hfits hfits' hapart => ?_⟩
  · obtain ⟨address, new, mask, hasks, hlt, hnew, hmask⟩ := hformed.exists_asks hchunk hfits
    refine ⟨address, new, mask, _, hasks, hlt, hnew, hmask, writeThrough_eq hformed hfilled hfits,
      merges_storing hfilled hchunk hasks hlt, hwhole.commit_storing hfits.1, fun hfull => ?_,
      fun hempty => ?_⟩
    · exact writeThrough_unmasked hformed hfilled hchunk hfits hasks hnew (hmask ▸ hfull)
    · have hstored : (x.storing args).commit.stored = x.config.store args x.stored :=
        stored_storing hfilled hfits.2 rfl rfl
      rw [hstored, store_eq_self hformed hfilled hchunk hasks (hmask ▸ hempty)]
  · obtain ⟨address, new, mask, hasks, -⟩ := hformed.exists_asks hchunk hfits
    obtain ⟨address', new', mask', hasks', -⟩ := hformed.exists_asks hchunk hfits'
    obtain ⟨y, z, hy, hz, hstored⟩ := hwhole.exists_two_writes hfits hfits'
    obtain ⟨y', z', hy', hz', hstored'⟩ := hwhole.exists_two_writes hfits' hfits
    refine ⟨y, z, y', z', hy, hz, hy', hz', ?_⟩
    rw [hstored, hstored', store_comm hchunk hasks hasks' hapart]

/-! ## Writes of the halves of a byte -/

namespace Ram

/-- The memory with a byte in the element 1. -/
def loaded : Bank := next bank [write 1 0xAB 3]

/-- The arguments of a write to the element 1. -/
def halves (byte mask : Nat) : Record :=
  Record.fill writeInput [Bits.ofNat 2 1, Bits.ofNat 8 byte, Bits.ofNat 2 mask]

end Ram

theorem whole_ram_loaded : Whole Ram.config Ram.loaded :=
  have htracks : Tracks Ram.config [[Ram.write 1 0xAB 3]] Ram.loaded :=
    tracks_of_runs build_ram (.cycle .start allows_ram_write rfl)
  ⟨htracks.config_eq, htracks.formed, htracks.rests.filled⟩

theorem fits_ram_halves (byte mask : Nat) : Ram.loaded.Fits (.write (Ram.halves byte mask)) :=
  ⟨rfl, 1, rfl, by decide⟩

theorem apart_ram_halves : Apart (Ram.halves 0xCD 1) (Ram.halves 0xEF 2) := by
  rintro mask mask' ⟨⟩ ⟨⟩ i ⟨hlow, hhigh⟩
  match i with
  | 0 => exact absurd hhigh (by decide)
  | i + 1 => exact absurd hlow (by simp [Bits.test, Bits.fit, Bits.ofNat])

/-- The low half of the byte is written, then the whole byte and none of it, and both halves in either
order. -/
theorem ram_masked_writes :
    Ram.config.granularity = some 4 ∧ Whole Ram.config Ram.loaded ∧
    Apart (Ram.halves 0xCD 1) (Ram.halves 0xEF 2) ∧
    (∃ y, Ram.loaded.writeThrough (Ram.halves 0xCD 1) = .ok y ∧
      Merges 4 1 (Bits.ofNat 8 0xCD) (Bits.ofNat 2 1) Ram.loaded y ∧
      (y.memory.upcoming 1).map Bits.toNat = .ok 0xAD) ∧
    (∃ y z, Ram.loaded.writeThrough (Ram.halves 0xCD 3) = .ok y ∧
      Ram.loaded.unmasked.writeThrough (Ram.halves 0xCD 3) = .ok z ∧ z.memory = y.memory) ∧
    (∃ y, Ram.loaded.writeThrough (Ram.halves 0xCD 0) = .ok y ∧ y.commit.stored = Ram.loaded.stored) ∧
    ∃ y z y' z', Ram.loaded.writeThrough (Ram.halves 0xCD 1) = .ok y ∧
      y.commit.writeThrough (Ram.halves 0xEF 2) = .ok z ∧
      Ram.loaded.writeThrough (Ram.halves 0xEF 2) = .ok y' ∧
      y'.commit.writeThrough (Ram.halves 0xCD 1) = .ok z' ∧ z.commit.stored = z'.commit.stored := by
  obtain ⟨-, -, hwrites⟩ := @masked_writes_merge Ram.config 4 rfl
  obtain ⟨hone, htwo⟩ := hwrites whole_ram_loaded
  refine ⟨rfl, whole_ram_loaded, apart_ram_halves, ?_, ?_, ?_,
    htwo (fits_ram_halves _ _) (fits_ram_halves _ _) apart_ram_halves⟩
  · obtain ⟨address, new, mask, y, ⟨⟨⟩, ⟨⟩, ⟨⟩⟩, -, -, -, hy, hmerges, -⟩ := hone (fits_ram_halves 0xCD 1)
    exact ⟨y, hy, hmerges, by cases hy; rfl⟩
  · obtain ⟨address, new, mask, y, ⟨⟨⟩, ⟨⟩, ⟨⟩⟩, -, -, -, hy, -, -, hfull, -⟩ := hone (fits_ram_halves 0xCD 3)
    obtain ⟨z, hz, hmemory⟩ := hfull (by decide)
    exact ⟨y, z, hy, hz, hmemory⟩
  · obtain ⟨address, new, mask, y, ⟨⟨⟩, ⟨⟩, ⟨⟩⟩, -, -, -, hy, -, -, -, hempty⟩ := hone (fits_ram_halves 0xCD 0)
    exact ⟨y, hy, hempty (by decide)⟩

end Bank

end GuardedActions
