import GuardedActions.Proofs.Block.Bank

/-!
# A memory bank is an ideal memory

An ideal memory makes every write at once.  A memory bank puts some writes off and latches what it reads,
in cycles that may leave a write waiting for as long as they like; still its contents, with the write that
waits, are at every time those of the ideal memory, and a fetch returns what the last read asked for.
`refines_ideal_memory` says so for every run.
-/

set_option autoImplicit false

namespace GuardedActions

variable {σ : Type}

/-- The contents of an ideal memory of zeros after the cycles of a history. -/
def BankConfig.ideal (config : BankConfig) (history : List (List Bank.Move)) : Nat → Bits :=
  history.foldl config.play fun _ => Bits.ofNat config.dataShape.width 0

/-- The datum that a read latches in a cycle with the given moves: the element before the cycle with safe
writes, and the one after it otherwise. -/
def BankConfig.datum (config : BankConfig) (before : List (List Bank.Move)) (moves : List Bank.Move)
    (address : Nat) : Bits :=
  if config.safe then config.ideal before address else config.ideal (before ++ [moves]) address

theorem BankConfig.ideal_concat (config : BankConfig) (history : List (List Bank.Move))
    (moves : List Bank.Move) :
    config.ideal (history ++ [moves]) = config.play (config.ideal history) moves := by
  rw [ideal, List.foldl_append]
  rfl

namespace Bank

/-! ## Runs -/

variable (σ) in
/-- The states that a bank comes to when every cycle makes some of the moves that it allows. -/
inductive Runs (bank : Bank) : List (List Move) → Bank → Prop where
  /-- before the first cycle -/
  | start : Runs bank [] bank
  /-- one more cycle -/
  | cycle {history : List (List Move)} {x x' : Bank} {view : View σ} {moves : List Move}
    {answers : List Record} (run : Runs bank history x) (allows : Allows bank view x moves)
    (edge : bank.block.cycle view x (moves.map Move.use) = .ok (answers, x')) :
    Runs bank (history ++ [moves]) x'

/-- The last read of a history comes with the given arguments after the cycles of `before`, and it was
not fetched in a later cycle. -/
def Awaits (history before : List (List Move)) (moves : List Move) (args : Record) : Prop :=
  ∃ after, history = before ++ moves :: after ∧ Move.read args ∈ moves ∧
    ∀ later ∈ after, (∀ args', Move.read args' ∉ later) ∧ Move.fetch ∉ later

theorem awaits_concat {history before : List (List Move)} {moves asked : List Move} {args : Record} :
    Awaits (history ++ [moves]) before asked args ↔
      before = history ∧ asked = moves ∧ Move.read args ∈ moves ∨
      Awaits history before asked args ∧ (∀ args', Move.read args' ∉ moves) ∧ Move.fetch ∉ moves := by
  constructor
  · rintro ⟨after, hhistory, hread, hlater⟩
    rcases after.eq_nil_or_concat with rfl | ⟨after, last, rfl⟩
    · obtain ⟨hbefore, hmoves⟩ := List.append_inj' hhistory rfl
      obtain rfl : moves = asked := (List.cons.inj hmoves).1
      exact .inl ⟨hbefore.symm, rfl, hread⟩
    · rw [List.concat_eq_append] at hhistory hlater
      rw [← List.cons_append, ← List.append_assoc] at hhistory
      obtain ⟨hbefore, hmoves⟩ := List.append_inj' hhistory rfl
      obtain rfl : moves = last := (List.cons.inj hmoves).1
      have hlast := hlater moves (by simp)
      exact .inr ⟨⟨after, hbefore, hread, fun later hmem => hlater later (by simp [hmem])⟩, hlast⟩
  · rintro (⟨rfl, rfl, hread⟩ | ⟨⟨after, rfl, hread, hlater⟩, hlast⟩)
    · exact ⟨[], rfl, hread, by simp⟩
    · refine ⟨after ++ [moves], by simp, hread, ?_⟩
      intro later hmem
      rcases List.mem_append.mp hmem with hmem | hmem
      · exact hlater later hmem
      · rw [List.mem_singleton.mp hmem]
        exact hlast

/-! ## What a run keeps -/

/-- A bank between two cycles that has done what its history asked for. -/
structure Tracks (config : BankConfig) (history : List (List Move)) (x : Bank) : Prop where
  /-- shapes and widths fit together -/
  formed : x.Formed
  /-- nothing is under way -/
  rests : x.Rests
  /-- the configuration never changes -/
  config_eq : x.config = config
  /-- with the write that waits the contents are the ideal ones -/
  contents : x.contents = config.ideal history
  /-- the latch holds a datum while a read waits to be fetched -/
  full : x.latchFull.read = true ↔ ∃ before moves args, Awaits history before moves args
  /-- the datum is what the last read asked for -/
  latched : ∀ {before : List (List Move)} {moves : List Move} {args : Record},
    Awaits history before moves args → x.latched.read = config.datum before moves (target args)
  /-- every read named an address -/
  addressed : ∀ {moves : List Move} {args : Record}, moves ∈ history → Move.read args ∈ moves →
    ∃ address, addressOf args = .ok address

theorem validWidth_eq_ok {name : String} {config : BankConfig} {width : Nat}
    (h : validWidth name config = .ok width) : width = config.dataShape.width ∧ 0 < width ∧
      ∀ {chunk : Nat}, config.granularity = some chunk → 0 < chunk ∧ chunk ∣ width := by
  unfold validWidth at h
  split at h
  · cases h
  · simp only at h
    split at h
    · cases h
    · rename_i hwidth
      have hpos := Nat.pos_of_ne_zero hwidth
      cases hchunk : config.granularity with
      | none =>
        rw [hchunk] at h
        obtain rfl := Except.ok.inj h
        refine ⟨rfl, hpos, ?_⟩
        intro chunk hsome
        cases hsome
      | some chunk =>
        simp only [hchunk] at h
        split at h
        · cases h
        · rename_i hgood
          obtain rfl := Except.ok.inj h
          refine ⟨rfl, hpos, ?_⟩
          intro chunk' hsome
          obtain rfl := Option.some.inj hsome
          exact ⟨by omega, Nat.dvd_of_mod_eq_zero (by omega)⟩

/-- A new bank is the ideal memory of zeros. -/
theorem tracks_of_build {name : String} {config : BankConfig} {bank : Bank}
    (h : build name config = .ok bank) : Tracks config [] bank := by
  unfold build at h
  obtain ⟨width, hwidth, h⟩ := bind_eq_ok.mp h
  obtain ⟨readInput, -, h⟩ := bind_eq_ok.mp h
  obtain ⟨readOutput, hreadOutput, h⟩ := bind_eq_ok.mp h
  obtain ⟨writeInput, hwriteInput, h⟩ := bind_eq_ok.mp h
  obtain ⟨hshape, hpos, hchunks⟩ := validWidth_eq_ok hwidth
  have hfields := Shape.ofFields_fields hwriteInput
  obtain rfl := Except.ok.inj h
  have hmemory : ∀ {address : Nat} {c : Cell Bits},
      (RegisterArray.new ⟨name, "memory"⟩ config.count (Bits.ofNat width 0)).cells[address]? = some c →
        c.value = Bits.ofNat width 0 := by
    intro address c hc
    rw [RegisterArray.new, Array.getElem?_replicate] at hc
    split at hc
    · rw [← Option.some.inj hc]
    · cases hc
  exact
    { formed :=
        { width := hshape
          width_pos := hpos
          chunks := hchunks
          readOutput := Shape.ofFields_fields hreadOutput
          data := by simp [hfields]
          mask := by
            intro chunk hchunk
            have hchunk' : config.granularity = some chunk := hchunk
            simp [hfields, hchunk'] }
      rests :=
        { filled :=
            { idle := RegisterArray.idle_new _ _ _
              size := RegisterArray.size_new _ _ _
              width := fun hc => congrArg Bits.width (hmemory hc) }
          latchFull := rfl
          latched := rfl
          writeWaiting := rfl
          delayedWrite := rfl
          readAddress := ⟨rfl, rfl⟩
          fetched := ⟨rfl, rfl⟩
          writeAsked := ⟨rfl, rfl⟩
          latched_width := rfl
          waiting := fun h => absurd h Bool.false_ne_true }
      config_eq := rfl
      contents := by
        funext address
        change stored _ address = Bits.ofNat config.dataShape.width 0
        rw [stored_eq, ← hshape]
        cases hc : (RegisterArray.new ⟨name, "memory"⟩ config.count (Bits.ofNat width 0)).cells[address]?
          with
        | none => rw [Option.map_none, Option.getD_none]
        | some c => rw [Option.map_some, Option.getD_some, hmemory hc]
      full := by
        refine ⟨fun h => absurd h Bool.false_ne_true, ?_⟩
        rintro ⟨before, moves, args, after, hhistory, -⟩
        simp at hhistory
      latched := by
        rintro before moves args ⟨after, hhistory, -⟩
        simp at hhistory
      addressed := by
        intro moves args hmem
        cases hmem }

/-- A cycle keeps track. -/
theorem Tracks.concat {config : BankConfig} {history : List (List Move)} {x x' : Bank}
    {moves : List Move} (h : Tracks config history x)
    (haddressed : ∀ {args : Record}, Move.read args ∈ moves → ∃ address, addressOf args = .ok address)
    (houtcome : Outcome x moves x') :
    Tracks config (history ++ [moves]) x' := by
  have hideal : x.config.play x.contents moves = config.ideal (history ++ [moves]) := by
    rw [h.config_eq, h.contents, config.ideal_concat]
  have hlatches : ∀ {args}, Move.read args ∈ moves →
      x'.latched.read = config.datum history moves (target args) := by
    intro args hread
    obtain ⟨-, hdatum⟩ := houtcome.latches hread
    rw [hdatum, hideal, h.config_eq, h.contents]
    rfl
  exact
    { formed := houtcome.formed
      rests := houtcome.rests
      config_eq := houtcome.config.trans h.config_eq
      contents := houtcome.contents.trans hideal
      full := by
        by_cases hread : ∃ args, Move.read args ∈ moves
        · obtain ⟨args, hread⟩ := hread
          obtain ⟨hfull, -⟩ := houtcome.latches hread
          exact ⟨fun _ => ⟨history, moves, args, awaits_concat.mpr (.inl ⟨rfl, rfl, hread⟩)⟩,
            fun _ => hfull⟩
        · have hno : ∀ args, Move.read args ∉ moves := fun args hargs => hread ⟨args, hargs⟩
          obtain ⟨-, hfull⟩ := houtcome.holds hno
          rw [hfull, h.full]
          constructor
          · rintro ⟨⟨before, asked, args, hawaits⟩, hfetch⟩
            exact ⟨before, asked, args, awaits_concat.mpr (.inr ⟨hawaits, hno, hfetch⟩)⟩
          · rintro ⟨before, asked, args, hawaits⟩
            rcases awaits_concat.mp hawaits with ⟨-, -, hread'⟩ | ⟨hawaits, -, hfetch⟩
            · exact absurd hread' (hno args)
            · exact ⟨⟨before, asked, args, hawaits⟩, hfetch⟩
      latched := by
        intro before asked args hawaits
        rcases awaits_concat.mp hawaits with ⟨rfl, rfl, hread⟩ | ⟨hawaits, hno, -⟩
        · exact hlatches hread
        · obtain ⟨hkept, -⟩ := houtcome.holds hno
          rw [hkept]
          exact h.latched hawaits
      addressed := by
        intro asked args hmem hread
        rcases List.mem_append.mp hmem with hmem | hmem
        · exact h.addressed hmem hread
        · rw [List.mem_singleton.mp hmem] at hread
          exact haddressed hread }

/-- Every run keeps track. -/
theorem tracks_of_runs {name : String} {config : BankConfig} {bank : Bank}
    (hbuild : build name config = .ok bank) {history : List (List Move)} {x : Bank}
    (hrun : Runs σ bank history x) : Tracks config history x := by
  induction hrun with
  | start => exact tracks_of_build hbuild
  | cycle run allows edge ih =>
    obtain ⟨x', hcycle, houtcome⟩ := exists_cycle ih.formed ih.rests allows
    rw [hcycle] at edge
    obtain ⟨-, rfl⟩ := Prod.mk.inj (Except.ok.inj edge)
    refine ih.concat (fun hread => ?_) houtcome
    obtain ⟨-, address, haddress, -⟩ := allows.fits _ hread
    exact ⟨address, haddress⟩

/-! ## Refinement -/

/-- A cycle of a bank with a history serves its moves: `x` is the state before it, and `x'` the one after
it. -/
structure Serves (config : BankConfig) (history : List (List Move)) (moves : List Move)
    (answers : List Record) (x x' : Bank) : Prop where
  /-- a read latches the element, before the writes of the cycle with safe writes and after them
  otherwise -/
  read : ∀ {args : Record} {address : Nat}, Move.read args ∈ moves → addressOf args = .ok address →
    x'.latched.read = config.datum history moves address
  /-- a fetch returns the datum of the last read -/
  fetch : ∀ {i : Nat}, moves[i]? = some .fetch → ∃ answer, answers[i]? = some answer ∧
    ∃ before asked args address, Awaits history before asked args ∧ addressOf args = .ok address ∧
      answer.get "data" = .ok (config.datum before asked address)
  /-- a write waits if writes are safe and the same address is read, and only then; it is the write
  that waits -/
  write : ∀ {args : Record}, Move.write args ∈ moves →
    (x'.writeWaiting.read = true ↔ config.safe = true ∧
      ∃ args' address, Move.read args' ∈ moves ∧ addressOf args' = .ok address ∧
        addressOf args = .ok address) ∧
    (x'.writeWaiting.read = true → x'.delayedWrite.read = args)
  /-- a write that waits does so until it is flushed -/
  flush : (∀ args, Move.write args ∉ moves) →
    (x'.writeWaiting.read = true ↔ x.writeWaiting.read = true ∧ Move.flush ∉ moves) ∧
    x'.delayedWrite.read = x.delayedWrite.read

theorem get_fill {x : Bank} (hformed : x.Formed) (hrests : x.Rests) :
    (Record.fill x.readOutput [x.latched.read]).get "data" = .ok x.latched.read := by
  have hfit : Bits.fit x.width x.latched.read = x.latched.read := by
    rw [← hrests.latched_width]
    refine Bits.fit_width ?_
    rw [hrests.latched_width]
    exact hformed.width_pos
  simp [Record.get, Record.fill, hformed.readOutput, Record.find?, hfit]

/-- What a cycle makes of a bank is what its moves ask for. -/
theorem Tracks.serves {config : BankConfig} {history : List (List Move)} {bank x x' : Bank}
    {view : View σ} {moves : List Move} (h : Tracks config history x)
    (hallows : Allows bank view x moves) (houtcome : Outcome x moves x') :
    Serves config history moves (moves.map x.answer) x x' where
  read := by
    intro args address hread haddress
    obtain ⟨-, hdatum⟩ := houtcome.latches hread
    rw [hdatum, h.config_eq, h.contents, target_of_addressOf haddress, BankConfig.datum,
      config.ideal_concat]
  fetch := by
    intro i hi
    have hmem : Move.fetch ∈ moves := List.mem_of_getElem? hi
    have hfull : x.latchFull.read = true := by
      have hoffered := hallows.offered _ hmem
      rwa [offers_fetch, Except.ok.injEq] at hoffered
    obtain ⟨before, asked, args, hawaits⟩ := h.full.mp hfull
    have hasked : ∃ address, addressOf args = .ok address := by
      obtain ⟨after, rfl, hread, -⟩ := hawaits
      exact h.addressed (by simp) hread
    obtain ⟨address, haddress⟩ := hasked
    refine ⟨x.answer .fetch, by rw [List.getElem?_map, hi]; rfl, before, asked, args, address, hawaits,
      haddress, ?_⟩
    rw [answer, get_fill h.formed h.rests, h.latched hawaits, target_of_addressOf haddress]
  write := by
    intro args hwrite
    obtain ⟨hwaits, hdelayed⟩ := houtcome.deferred hwrite
    obtain ⟨-, address, haddress, -⟩ := hallows.fits _ hwrite
    refine ⟨?_, hdelayed⟩
    rw [hwaits, h.config_eq]
    refine and_congr_right fun _ => ⟨?_, ?_⟩
    · rintro ⟨args', hread, heq⟩
      obtain ⟨-, address', haddress', -⟩ := hallows.fits _ hread
      rw [target_of_addressOf haddress, target_of_addressOf haddress'] at heq
      exact ⟨args', address, hread, heq ▸ haddress', haddress⟩
    · rintro ⟨args', address', hread, haddress', hsame⟩
      exact ⟨args', hread, by rw [target_of_addressOf haddress', target_of_addressOf hsame]⟩
  flush := houtcome.kept

/-- After every run of a memory bank its contents, with the write that waits made, are those of the ideal
memory; a fetch is ready if and only if a read waits to be fetched; and every cycle that makes allowed
moves succeeds and serves them. -/
theorem refines_ideal_memory {name : String} {config : BankConfig} {bank : Bank}
    (hbuild : build name config = .ok bank) {history : List (List Move)} {x : Bank}
    (hrun : Runs σ bank history x) :
    x.contents = config.ideal history ∧
    (∀ view : View σ, bank.block.offers view x Move.fetch.use = .ok true ↔
      ∃ before moves args, Awaits history before moves args) ∧
    ∀ (view : View σ) (moves : List Move), Allows bank view x moves → ∃ answers x',
      bank.block.cycle view x (moves.map Move.use) = .ok (answers, x') ∧
        Serves config history moves answers x x' := by
  have htracks := tracks_of_runs hbuild hrun
  refine ⟨htracks.contents, ?_, ?_⟩
  · intro view
    rw [offers_fetch, Except.ok.injEq]
    exact htracks.full
  · intro view moves hallows
    obtain ⟨x', hcycle, houtcome⟩ := exists_cycle htracks.formed htracks.rests hallows
    exact ⟨_, x', hcycle, htracks.serves hallows houtcome⟩

/-! ## A masked memory with a write that waits -/

namespace Ram

/-- Four elements of a byte each, written by halves, with safe writes. -/
def config : BankConfig where
  dataShape := ⟨[⟨"byte", 8⟩], by decide, by decide⟩
  count := 4
  granularity := some 4

/-- The shape of a read. -/
def readInput : Shape := ⟨[⟨"addr", 2⟩], by decide, by decide⟩

/-- The shape of a write. -/
def writeInput : Shape := ⟨[⟨"addr", 2⟩, ⟨"data", 8⟩, ⟨"mask", 2⟩], by decide, by decide⟩

/-- The memory before the first cycle. -/
def bank : Bank where
  name := "ram"
  config := config
  width := 8
  addressWidth := 2
  memory := RegisterArray.new ⟨"ram", "memory"⟩ 4 (Bits.ofNat 8 0)
  latchFull := Register.new ⟨"ram", "read_valid"⟩ false
  latched := Register.new ⟨"ram", "read_data"⟩ (Bits.ofNat 8 0)
  writeWaiting := Register.new ⟨"ram", "write_pending"⟩ false
  delayedWrite := Register.new ⟨"ram", "deferred_write"⟩ Record.empty
  readAddress := Wire.new ⟨"ram", "read_addr"⟩ none
  fetched := Wire.new ⟨"ram", "read_consumed"⟩ false
  writeAsked := Wire.new ⟨"ram", "write_request"⟩ none
  readInput := readInput
  readOutput := ⟨[⟨"data", 8⟩], by decide, by decide⟩
  writeInput := writeInput

/-- A read of an address. -/
def read (address : Nat) : Move := .read (Record.fill readInput [Bits.ofNat 2 address])

/-- A write of the halves of a byte that a mask selects. -/
def write (address byte mask : Nat) : Move :=
  .write (Record.fill writeInput [Bits.ofNat 2 address, Bits.ofNat 8 byte, Bits.ofNat 2 mask])

/-- An empty scene. -/
def view : View Unit := ⟨(), ⟨0, none, fun _ _ => none, fun _ => false, fun _ => []⟩⟩

/-- The bank after a cycle. -/
def next (x : Bank) (moves : List Move) : Bank :=
  match bank.block.cycle view x (moves.map Move.use) with
  | .ok (_, x') => x'
  | .error _ => x

/-- A byte is written, and then its low half is written again while it is read. -/
def history : List (List Move) := [[write 1 0xAB 3], [write 1 0xFF 1, read 1]]

/-- The bank after these two cycles. -/
def waiting : Bank := next (next bank [write 1 0xAB 3]) [write 1 0xFF 1, read 1]

end Ram

theorem build_ram : build "ram" Ram.config = .ok Ram.bank := rfl

theorem allows_ram_write : Allows Ram.bank Ram.view Ram.bank [Ram.write 1 0xAB 3] where
  offered := by
    intro move hmove
    obtain rfl := List.mem_singleton.mp hmove
    rfl
  fits := by
    intro move hmove
    obtain rfl := List.mem_singleton.mp hmove
    exact ⟨rfl, 1, rfl, by decide⟩
  once := by decide

theorem allows_ram_both :
    Allows Ram.bank Ram.view (Ram.next Ram.bank [Ram.write 1 0xAB 3])
      [Ram.write 1 0xFF 1, Ram.read 1] where
  offered := by
    intro move hmove
    rcases List.mem_cons.mp hmove with rfl | hmove
    · rfl
    · obtain rfl := List.mem_singleton.mp hmove
      rfl
  fits := by
    intro move hmove
    rcases List.mem_cons.mp hmove with rfl | hmove
    · exact ⟨rfl, 1, rfl, by decide⟩
    · obtain rfl := List.mem_singleton.mp hmove
      exact ⟨rfl, 1, rfl, by decide⟩
  once := by decide

theorem runs_ram : Runs Unit Ram.bank Ram.history Ram.waiting :=
  .cycle (.cycle .start allows_ram_write rfl) allows_ram_both rfl

/-- While the second write waits, a fetch still returns the byte that the read found. -/
theorem ram_refines_ideal_memory :
    Runs Unit Ram.bank Ram.history Ram.waiting ∧ Allows Ram.bank Ram.view Ram.waiting [.fetch] ∧
    Ram.waiting.writeWaiting.read = true ∧
    Ram.waiting.contents = Ram.config.ideal Ram.history ∧
    (∃ before moves args, Awaits Ram.history before moves args) ∧
    ∃ answers x', Ram.bank.block.cycle Ram.view Ram.waiting [Move.fetch.use] = .ok (answers, x') ∧
      Serves Ram.config Ram.history [.fetch] answers Ram.waiting x' := by
  have hallows : Allows Ram.bank Ram.view Ram.waiting [.fetch] :=
    { offered := by
        intro move hmove
        obtain rfl := List.mem_singleton.mp hmove
        rfl
      fits := by
        intro move hmove
        obtain rfl := List.mem_singleton.mp hmove
        trivial
      once := by decide }
  obtain ⟨hcontents, hready, hserves⟩ := refines_ideal_memory build_ram runs_ram
  exact ⟨runs_ram, hallows, by decide, hcontents, (hready Ram.view).mp rfl,
    hserves Ram.view [.fetch] hallows⟩

example : (Ram.config.ideal Ram.history 1).toNat = 0xAF ∧ Ram.waiting.latched.read.toNat = 0xAB := by
  decide

end Bank

end GuardedActions
