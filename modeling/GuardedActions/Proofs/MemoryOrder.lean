import GuardedActions.Proofs.Block.Residence
import GuardedActions.Proofs.SlotLifecycle

/-!
# No operation overtakes an older hazard

An operation remembers, from its insertion on, the older operations that may touch its address.
`older_hazard_holds_back` says that it is not ready as long as one of them is in its entry and still older,
whatever happens in between; and that an operation can be taken if and only if the ready list shows it.
-/

set_option autoImplicit false

namespace GuardedActions

variable {σ : Type}

namespace Station

/-! ## Ages and addresses -/

/-- One place in the reorder buffer comes before another, counted from the start of the buffer and round
at its size. -/
def Older (robWidth : Nat) (start first second : UInt64) : Prop :=
  (first - start).toNat % 2 ^ robWidth < (second - start).toNat % 2 ^ robWidth

instance (robWidth : Nat) (start first second : UInt64) :
    Decidable (Older robWidth start first second) :=
  inferInstanceAs (Decidable (_ < _))

theorem precedes_iff {robWidth : Nat} (hwidth : robWidth < 64) (start first second : UInt64) :
    precedes robWidth start first second = true ↔ Older robWidth start first second := by
  have hshift : (1 <<< UInt64.ofNat robWidth : UInt64).toNat = 2 ^ robWidth := by
    have hsmall : robWidth % 2 ^ 64 % 64 = robWidth := by omega
    have hlt : 2 ^ robWidth < 2 ^ 64 := Nat.pow_lt_pow_right Nat.one_lt_two hwidth
    rw [UInt64.toNat_shiftLeft, UInt64.toNat_ofNat', hsmall, UInt64.toNat_one, Nat.one_shiftLeft,
      Nat.mod_eq_of_lt hlt]
  have hmask : ((1 <<< UInt64.ofNat robWidth : UInt64) - 1).toNat = 2 ^ robWidth - 1 := by
    have hle : (1 : UInt64) ≤ 1 <<< UInt64.ofNat robWidth := by
      rw [UInt64.le_iff_toNat_le, hshift]
      exact Nat.one_le_two_pow
    rw [UInt64.toNat_sub_of_le _ _ hle, hshift]
    rfl
  unfold precedes Older
  rw [decide_eq_true_iff, UInt64.lt_iff_toNat_lt, UInt64.toNat_and, UInt64.toNat_and, hmask,
    Nat.and_two_pow_sub_one_eq_mod, Nat.and_two_pow_sub_one_eq_mod]

/-- Two operations may touch the same address: a base is not known, or the addresses are the same up to
the low bits that do not count. -/
def MayAlias (c : StationConfig) (a b : StationEntry) : Prop :=
  a.tag1 ≠ 0 ∨ b.tag1 ≠ 0 ∨
    (a.value1.toNat + a.offset.toNat) % 2 ^ c.dataWidth / 2 ^ c.alignment =
      (b.value1.toNat + b.offset.toNat) % 2 ^ c.dataWidth / 2 ^ c.alignment

theorem toNat_address {c : StationConfig} {e : StationEntry} (hvalue : e.value1.width = c.dataWidth)
    (hoffset : e.offset.width = c.dataWidth) :
    e.address.toNat = (e.value1.toNat + e.offset.toNat) % 2 ^ c.dataWidth := by
  have hlt : e.offset.toNat < 2 ^ e.value1.width := by
    rw [hvalue, ← hoffset]
    exact e.offset.toNat_lt
  have hoffset' : (e.offset.value.setWidth e.value1.width).toNat = e.offset.toNat := by
    rw [BitVec.toNat_setWidth]
    exact Nat.mod_eq_of_lt hlt
  have hsum : e.address.toNat =
      (e.value1.toNat + (e.offset.value.setWidth e.value1.width).toNat) % 2 ^ e.value1.width :=
    BitVec.toNat_add _ _
  rw [hsum, hoffset', hvalue]

theorem mayCollide_iff {c : StationConfig} {a b : StationEntry} (ha : a.value1.width = c.dataWidth)
    (ha' : a.offset.width = c.dataWidth) (hb : b.value1.width = c.dataWidth)
    (hb' : b.offset.width = c.dataWidth) :
    StationEntry.mayCollide c.alignment a b = true ↔ MayAlias c a b := by
  have haddress : a.address.shiftRight c.alignment = b.address.shiftRight c.alignment ↔
      (a.value1.toNat + a.offset.toNat) % 2 ^ c.dataWidth / 2 ^ c.alignment =
        (b.value1.toNat + b.offset.toNat) % 2 ^ c.dataWidth / 2 ^ c.alignment := by
    have hshift : ∀ v : Bits, (v.shiftRight c.alignment).toNat = v.toNat / 2 ^ c.alignment := by
      intro v
      exact (BitVec.toNat_ushiftRight v.value c.alignment).trans (Nat.shiftRight_eq_div_pow _ _)
    rw [← toNat_address ha ha', ← toNat_address hb hb', ← hshift, ← hshift]
    exact ⟨fun h => congrArg Bits.toNat h, fun h => Bits.ext_toNat (ha.trans hb.symm) h⟩
  unfold StationEntry.mayCollide StationEntry.addressKnown MayAlias
  rw [Bool.or_eq_true, Bool.or_eq_true, beq_iff_eq, haddress, or_assoc]
  simp

/-! ## The ready list -/

/-- Adding up the powers of two of a sorted list gives the number with these bits. -/
theorem testBit_foldl_add {l : List Nat} (hsorted : l.Pairwise (· < ·)) {n : Nat}
    (hn : ∀ i ∈ l, n < 2 ^ i) (j : Nat) :
    (l.foldl (fun n i => n + 1 <<< i) n).testBit j = (n.testBit j || decide (j ∈ l)) := by
  induction l generalizing n with
  | nil => simp
  | cons i l ih =>
    obtain ⟨hi, hsorted⟩ := List.pairwise_cons.mp hsorted
    have hadd : n + 1 <<< i = 2 ^ i ||| n := by
      have hor := Nat.two_pow_add_eq_or_of_lt (hn i List.mem_cons_self) 1
      rw [Nat.mul_one] at hor
      rw [Nat.one_shiftLeft, Nat.add_comm, hor]
    have hlt : ∀ k ∈ l, 2 ^ i ||| n < 2 ^ k := fun k hk =>
      Nat.or_lt_two_pow (Nat.pow_lt_pow_right Nat.one_lt_two (hi k hk))
        (hn k (List.mem_cons_of_mem _ hk))
    rw [List.foldl_cons, hadd, ih hsorted hlt, Nat.testBit_or, Nat.testBit_two_pow]
    by_cases hij : i = j
    · simp [hij]
    · simp [hij, Ne.symm hij]

section Ready

variable {x : Station} {now : UInt64}

/-- The ready list shows the entries that may be taken. -/
theorem Formed.exists_readyList (hformed : x.Formed) (now : UInt64) : ∃ list,
    (x.readyRecord now).get "ready_list" = .ok list ∧ ∀ i, list.test i = (x.readyMask now).test i := by
  have hfield : x.readyOutput.fields[0]? = some ⟨"ready_list", x.config.entries⟩ := by
    rw [hformed.readyOutput]
    rfl
  refine ⟨_, Record.get_fill hfield rfl, fun i => ?_⟩
  have hfit : ∀ n, Bits.fit x.config.entries (Bits.ofNat x.config.entries n) =
      Bits.ofNat x.config.entries n :=
    fun n => Bits.fit_width (b := Bits.ofNat x.config.entries n) hformed.bounded.entries
  have hbit := testBit_foldl_add (x.readyMask now).pairwise_members (n := 0)
    (fun k _ => Nat.two_pow_pos k) i
  rw [Nat.zero_testBit, Bool.false_or] at hbit
  have hlt : (x.readyMask now).test i = true → i < x.config.entries := fun htest =>
    Mask.size_ofTest x.config.entries _ ▸ Mask.lt_size_of_test htest
  rw [hfit]
  refine (BitVec.getLsbD_ofNat _ _ i).trans ?_
  rw [hbit, Bool.eq_iff_iff, Bool.and_eq_true, decide_eq_true_iff, decide_eq_true_iff, Mask.mem_members]
  exact ⟨fun h => h.2, fun h => ⟨hlt h, h⟩⟩

/-- An operation with a dependency that is full and older is held back. -/
theorem isBlocked_of_depends {i : Nat} {a b : StationEntry} (ha : x.entry? i = some a)
    (hfull : a.full = true) (hdepends : b.depends.test i = true)
    (holder : precedes x.config.robWidth now a.robIndex b.robIndex = true) :
    x.isBlocked now b = true := by
  refine List.any_eq_true.mpr ⟨i, Mask.mem_members.mpr hdepends, ?_⟩
  rw [ha, Option.any_some, hfull, holder]
  rfl

theorem Rests.test_hazards (h : x.Rests) {position i : Nat} {e : StationEntry} :
    (x.hazards now position e).test i = true ↔ i ≠ position ∧ ∃ other, x.entry? i = some other ∧
      other.full = true ∧ precedes x.config.robWidth now other.robIndex e.robIndex = true ∧
      StationEntry.mayCollide x.config.alignment other e = true := by
  rw [hazards, Mask.test_ofTest, Bool.and_eq_true, decide_eq_true_iff, Bool.and_eq_true, bne_iff_ne,
    Option.any_eq_true]
  simp only [Bool.and_eq_true, and_assoc]
  exact ⟨fun h => h.2, fun hhazard => by
    obtain ⟨other, hother, -⟩ := hhazard.2
    exact ⟨h.lt_of_entry? hother, hhazard⟩⟩

/-- An operation that cannot be taken: the ready list does not show it, and taking it is not accepted. -/
theorem Rests.not_ready (h : x.Rests) {i : Nat} {e : StationEntry} (he : x.entry? i = some e)
    (hblocked : x.isBlocked now e = true) : (x.readyMask now).test i = false := by
  rw [Bool.eq_false_iff]
  intro hready
  obtain ⟨e', he', -, -, hfree⟩ := h.test_readyMask.mp hready
  obtain rfl := Option.some.inj (he.symm.trans he')
  exact absurd (hblocked.symm.trans hfree) Bool.noConfusion

end Ready

/-! ## Every run -/

section Runs

variable {station x y z : Station} {start : σ → UInt64} {insertRef : ActionRef} {turns : List (Turn σ)}
  {later : List (List (Turn σ))}

/-- What arguments say of an operation, they say of it only. -/
theorem Holds.agree {args : Record} {e e' : StationEntry} (h : Holds args e) (h' : Holds args e') :
    e.tag1 = e'.tag1 ∧ e.tag2 = e'.tag2 ∧ e.value1 = e'.value1 ∧ e.value2 = e'.value2 ∧
      e.offset = e'.offset ∧ e.robIndex = e'.robIndex :=
  ⟨Except.ok.inj (h.tag1.symm.trans h'.tag1), Except.ok.inj (h.tag2.symm.trans h'.tag2),
    Except.ok.inj (h.value1.symm.trans h'.value1), Except.ok.inj (h.value2.symm.trans h'.value2),
    Except.ok.inj (h.offset.symm.trans h'.offset), Except.ok.inj (h.robIndex.symm.trans h'.robIndex)⟩

/-- An operation depends on the older ones that may touch its address when it is inserted. -/
theorem Outcome.depends (h : Outcome start x turns y) (hallows : Allows station start insertRef x turns)
    (hformed : x.Formed) (hrests : x.Rests) {t : Turn σ} (ht : t ∈ turns) {args : Record} {i j : Nat}
    {a b : StationEntry} (hmove : t.move = .insert args) (hj : idOf args = .ok j) (hb : Holds args b)
    (ha : x.entry? i = some a) (hfull : a.full = true)
    (holder : Older x.config.robWidth (t.now start) a.robIndex b.robIndex)
    (halias : MayAlias x.config a b) : ∃ b', y.entry? j = some b' ∧ b'.full = true ∧
      b'.robIndex = b.robIndex ∧ b'.depends.test i = true := by
  obtain ⟨⟨old, hold, hvacant⟩, b', hb', hholds, hfull', hdepends⟩ :=
    h.inserted hallows hformed hrests ht hmove hj
  obtain ⟨htag, -, hvalue, -, hoffset, hrob⟩ := hholds.agree hb
  refine ⟨b', hb', hfull', hrob, ?_⟩
  have hsound := h.config_eq ▸ h.rests.sound hb'
  have hsoundA := hrests.sound ha
  have halias' : MayAlias x.config a b' := by
    unfold MayAlias
    rw [htag, hvalue, hoffset]
    exact halias
  have hne : i ≠ j := by
    rintro rfl
    obtain rfl := Option.some.inj (ha.symm.trans hold)
    exact absurd (hfull.symm.trans hvacant) Bool.noConfusion
  rw [hdepends, hrests.test_hazards]
  refine ⟨hne, a, ha, hfull, ?_, ?_⟩
  · rw [hrob]
    exact (precedes_iff hformed.bounded.robWidth.2 _ _ _).mpr holder
  · exact (mayCollide_iff hsoundA.value1 hsoundA.offset hsound.value1 hsound.offset).mpr halias'

/-- What the method for the ready list returns in a state. -/
def Lists (station : Station) (start : σ → UInt64) (insertRef : ActionRef) (view : View σ) (x : Station)
    (list : Bits) : Prop :=
  ∃ answer, (station.block start insertRef).use view x Move.list.use = .ok (answer, x) ∧
    answer.get "ready_list" = .ok list

/-- The ready list, told by its bits. -/
theorem Formed.exists_lists (hformed : x.Formed) (station : Station) (start : σ → UInt64)
    (insertRef : ActionRef) (view : View σ) : ∃ list, Lists station start insertRef view x list ∧
      ∀ i, list.test i = (x.readyMask (start view.state)).test i := by
  obtain ⟨list, hlist, hbits⟩ := hformed.exists_readyList (start view.state)
  exact ⟨list, ⟨_, use_list .., hlist⟩, hbits⟩

theorem Lists.unique {view : View σ} {list list' : Bits} (h : Lists station start insertRef view x list)
    (h' : Lists station start insertRef view x list') : list = list' := by
  obtain ⟨answer, huse, hlist⟩ := h
  obtain ⟨answer', huse', hlist'⟩ := h'
  obtain ⟨rfl, -⟩ := Prod.mk.inj (Except.ok.inj (huse.symm.trans huse'))
  exact Except.ok.inj (hlist.symm.trans hlist')

/-- Consider a run of a station that goes on after a cycle with an insertion.  As long as an operation that
was in its entry at that cycle, older and possibly at the same address, is not taken, neither it nor the
inserted one changes its place, and whenever it is still the older one, the ready list does not show the
inserted one and taking that is not accepted.  In all states taking an operation is accepted if and only
if the ready list shows it. -/
theorem older_hazard_holds_back {name : String} {config : StationConfig} {last : View σ}
    {answers : List Record} {before : List (List (Turn σ))} (hentries : config.entries ≤ UInt64.size)
    (hbuild : build name config = .ok station) (hbefore : Runs station start insertRef station before x)
    (hallows : Allows station start insertRef x turns)
    (hedge : (station.block start insertRef).round last x (turns.map fun t => (t.seen, t.move.use)) =
      .ok (answers, y)) (hlater : Runs station start insertRef y later z) :
    (∀ {t : Turn σ} {args : Record} {i j : Nat} {a b : StationEntry}, t ∈ turns →
      t.move = .insert args → idOf args = .ok j → Holds args b → x.entry? i = some a → a.full = true →
      Older config.robWidth (t.now start) a.robIndex b.robIndex → MayAlias config a b →
      (∀ cycle ∈ turns :: later, ¬ Takes i cycle) → (∀ cycle ∈ later, ¬ Takes j cycle) →
      (∃ a', z.entry? i = some a' ∧ a'.full = true ∧ a'.robIndex = a.robIndex) ∧
      (∃ b', z.entry? j = some b' ∧ b'.full = true ∧ b'.robIndex = b.robIndex) ∧
      ∀ view : View σ, Older config.robWidth (start view.state) a.robIndex b.robIndex →
        (∀ list, Lists station start insertRef view z list → list.test j = false) ∧
        ∀ args', idOf args' = .ok j →
          (station.block start insertRef).accepts view z (Move.take args').use = .ok false) ∧
    ∀ view : View σ, ∃ list, Lists station start insertRef view z list ∧ ∀ args i, idOf args = .ok i →
      (station.block start insertRef).accepts view z (Move.take args).use = .ok (list.test i) := by
  obtain ⟨hformed, hrests, rfl⟩ := rests_build hentries hbuild
  obtain ⟨hformedX, hrestsX, hsameX⟩ := hbefore.rests hformed hrests
  obtain ⟨-, houtcome⟩ := outcome_of_round hformedX hrestsX hallows hedge
  have hformedY := houtcome.formed hformedX
  obtain ⟨hformedZ, hrestsZ, hsameZ⟩ := hlater.rests hformedY houtcome.rests
  have hconfig : z.config = station.config := hsameZ.trans (houtcome.config_eq.trans hsameX)
  refine ⟨?_, fun view => ?_⟩
  · intro t args i j a b ht hmove hj hb ha hfull holder halias hstaysA hstaysB
    rw [← hsameX] at holder halias
    obtain ⟨b₁, hb₁, hfull₁, hrob₁, hdepends⟩ :=
      houtcome.depends hallows hformedX hrestsX ht hmove hj hb ha hfull holder halias
    obtain ⟨a₁, ha₁, hcontinues⟩ := houtcome.continues hallows hformedX hrestsX ha hfull
      (hstaysA _ List.mem_cons_self)
    obtain ⟨a', ha', hcontinues'⟩ := hlater.continues hformedY houtcome.rests ha₁ hcontinues.full
      fun cycle hcycle => hstaysA cycle (List.mem_cons_of_mem _ hcycle)
    obtain ⟨b', hb', hcontinuesB⟩ := hlater.continues hformedY houtcome.rests hb₁ hfull₁ hstaysB
    have hrobA : a'.robIndex = a.robIndex := (hcontinues.trans hcontinues').robIndex
    have hrobB : b'.robIndex = b.robIndex := hcontinuesB.robIndex.trans hrob₁
    refine ⟨⟨a', ha', hcontinues'.full, hrobA⟩, ⟨b', hb', hcontinuesB.full, hrobB⟩, fun view hlate => ?_⟩
    have hblocked : z.isBlocked (start view.state) b' = true := by
      refine isBlocked_of_depends ha' hcontinues'.full (hcontinuesB.depends ▸ hdepends) ?_
      rw [hrobA, hrobB, hconfig]
      exact (precedes_iff hformed.bounded.robWidth.2 _ _ _).mpr hlate
    have hready := hrestsZ.not_ready hb' hblocked
    refine ⟨fun list hlist => ?_, fun args' hid => ?_⟩
    · obtain ⟨list', hlist', hbits⟩ := hformedZ.exists_lists station start insertRef view
      rw [hlist.unique hlist', hbits, hready]
    · rw [accepts_take, acceptsTake_eq hid, hready]
  · obtain ⟨list, hlist, hbits⟩ := hformedZ.exists_lists station start insertRef view
    refine ⟨list, hlist, fun args i hid => ?_⟩
    rw [accepts_take, acceptsTake_eq hid, hbits]

end Runs

/-! ## A load behind a store whose address comes late -/

namespace Lsu

/-- The load that waits for its base. -/
def older : StationEntry :=
  { StationEntry.empty config with
    reserved := true
    full := true
    tag1 := 7
    robIndex := 31
    target := 1
    depends := ⟨[true, false, false, false, false]⟩ }

/-- The load that comes after it in the reorder buffer, which goes round between them. -/
def younger : StationEntry :=
  { StationEntry.empty config with
    reserved := true
    full := true
    value1 := Bits.ofNat 32 0x200
    robIndex := 1
    target := 1
    depends := ⟨[false, true, false, false, false]⟩ }

/-- The station after the cycle with all methods. -/
def mixed : Station := next crowded everything

/-- The station after the entry that was emptied is reserved again. -/
def reused : Station := next mixed [.select]

end Lsu

theorem allows_lsu_reuse : Allows Lsu.station id Lsu.insertRef Lsu.mixed ([.select].map Lsu.turn) :=
  allows_lsu ⟨rfl, rfl, trivial⟩ (by decide)

/-- The younger load is inserted while the older one gets its base, which is elsewhere, and still waits
for it two cycles later. -/
theorem lsu_older_hazard_holds_back :
    Lsu.config.entries ≤ UInt64.size ∧ build "lsu" Lsu.config = .ok Lsu.station ∧
    Runs Lsu.station id Lsu.insertRef Lsu.station
      (Lsu.filling.map fun moves => moves.map Lsu.turn) Lsu.crowded ∧
    Allows Lsu.station id Lsu.insertRef Lsu.crowded (Lsu.everything.map Lsu.turn) ∧
    Runs Lsu.station id Lsu.insertRef Lsu.mixed [[.select].map Lsu.turn] Lsu.reused ∧
    Holds (Lsu.loadArgs 2 0 0x200 1) Lsu.younger ∧ Lsu.crowded.entry? 1 = some Lsu.older ∧
    Older 5 30 Lsu.older.robIndex Lsu.younger.robIndex ∧ MayAlias Lsu.config Lsu.older Lsu.younger ∧
    (∃ e, Lsu.reused.entry? 2 = some e ∧ e.operandsKnown = true) ∧
    (∀ list, Lists Lsu.station id Lsu.insertRef Lsu.view Lsu.reused list → list.test 2 = false) ∧
    (Lsu.station.block id Lsu.insertRef).accepts Lsu.view Lsu.reused (Lsu.take 2).use = .ok false := by
  have hentries : Lsu.config.entries ≤ UInt64.size := by decide
  have hlater : Runs Lsu.station id Lsu.insertRef Lsu.mixed [[.select].map Lsu.turn] Lsu.reused :=
    .cycle (.refl _) allows_lsu_reuse Lsu.view rfl
  have hholds : Holds (Lsu.loadArgs 2 0 0x200 1) Lsu.younger :=
    ⟨rfl, rfl, rfl, rfl, rfl, rfl, rfl, rfl⟩
  have hentry : Lsu.crowded.entry? 1 = some Lsu.older := rfl
  have holder : Older 5 30 Lsu.older.robIndex Lsu.younger.robIndex := by decide
  have halias : MayAlias Lsu.config Lsu.older Lsu.younger := .inl (by decide)
  obtain ⟨answers, hedge⟩ : ∃ answers, (Lsu.station.block id Lsu.insertRef).round Lsu.view Lsu.crowded
      ((Lsu.everything.map Lsu.turn).map fun t => (t.seen, t.move.use)) = .ok (answers, Lsu.mixed) :=
    ⟨_, rfl⟩
  obtain ⟨hheld, -⟩ :=
    older_hazard_holds_back hentries build_lsu runs_lsu allows_lsu_everything hedge hlater
  have hstays : ∀ cycle ∈ [Lsu.everything.map Lsu.turn, [Move.select].map Lsu.turn], ¬ Takes 1 cycle := by
    rw [← List.forall_iff_forall_mem]
    refine ⟨not_takes_of_forall (fun _ => rfl) ⟨?_, nofun, nofun, nofun, nofun⟩,
      not_takes_of_forall (fun _ => rfl) nofun⟩
    rintro args ⟨⟩ ⟨⟩
  have hstays' : ∀ cycle ∈ [[Move.select].map Lsu.turn], ¬ Takes 2 cycle := by
    rw [← List.forall_iff_forall_mem]
    exact not_takes_of_forall (fun _ => rfl) nofun
  obtain ⟨-, -, hready⟩ := hheld (t := Lsu.turn (Lsu.load 2 0 0x200 1)) (i := 1) (j := 2)
    (by simp [Lsu.everything]) rfl rfl hholds hentry rfl holder halias hstays hstays'
  obtain ⟨hlist, htake⟩ := hready Lsu.view holder
  exact ⟨hentries, build_lsu, runs_lsu, allows_lsu_everything, hlater, hholds, hentry, holder, halias,
    ⟨_, rfl, rfl⟩, hlist, htake _ rfl⟩

end Station

end GuardedActions
