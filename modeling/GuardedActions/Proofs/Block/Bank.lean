import GuardedActions.Proofs.Block.Cycle
import GuardedActions.Proofs.Block.Merge
import GuardedActions.Proofs.Element
import Mathlib.Data.List.Induction

/-!
# A cycle of a memory bank

A cycle asks a memory bank for a read, a fetch, a write and a flush, each at most once.  The bodies of
these actions only note what is asked and never get in each other's way; the combinational logic then
makes or puts off the write and latches the element that is read.  `exists_cycle` says what comes of it for
the contents, for the latched datum and for the write that waits.
-/

set_option autoImplicit false

namespace GuardedActions

section Fold

variable {α β γ κ : Type}

/-- What no step of a fold touches is as before. -/
theorem foldl_untouched {f : β → α → β} (part : β → γ) {l : List α}
    (h : ∀ b, ∀ a ∈ l, part (f b a) = part b) (b : β) : part (l.foldl f b) = part b := by
  induction l generalizing b with
  | nil => rfl
  | cons a l ih =>
    rw [List.foldl_cons, ih (fun b a' ha' => h b a' (List.mem_cons_of_mem _ ha'))]
    exact h b a List.mem_cons_self

/-- What only one step of a fold touches is what that step makes of it. -/
theorem foldl_touched_once {f : β → α → β} (part : β → γ) (change : γ → γ) {key : α → κ}
    {l : List α} (hnodup : (l.map key).Nodup) {a : α} (ha : a ∈ l) (own : ∀ b, part (f b a) = change (part b))
    (other : ∀ b a', key a' ≠ key a → part (f b a') = part b) (b : β) :
    part (l.foldl f b) = change (part b) := by
  induction l generalizing b with
  | nil => cases ha
  | cons head l ih =>
    rw [List.map_cons, List.nodup_cons] at hnodup
    rw [List.foldl_cons]
    rcases List.mem_cons.mp ha with rfl | hmem
    · have hrest : ∀ b, ∀ a' ∈ l, part (f b a') = part b :=
        fun b a' ha' => other b a' fun heq => hnodup.1 (heq ▸ List.mem_map_of_mem ha')
      rw [foldl_untouched part hrest, own]
    · have hne : key head ≠ key a := fun heq => hnodup.1 (heq ▸ List.mem_map_of_mem hmem)
      rw [ih hnodup.2 hmem, other b head hne]

end Fold

variable {σ : Type}

/-! ## Moves -/

namespace Bank

/-- What a cycle asks of a memory bank. -/
inductive Move where
  /-- call `read_req` -/
  | read (args : Record)
  /-- call `read_resp` -/
  | fetch
  /-- call `write` -/
  | write (args : Record)
  /-- run `flush` -/
  | flush
  deriving DecidableEq, Repr

namespace Move

/-- The action of the bank that makes the move. -/
def action : Move → String
  | .read _ => "read_req"
  | .fetch => "read_resp"
  | .write _ => "write"
  | .flush => "flush"

/-- The move as a use of the block. -/
def use : Move → Block.Use
  | .read args => .call "read_req" args
  | .fetch => .call "read_resp" Record.empty
  | .write args => .call "write" args
  | .flush => .run "flush"

theorem action_eq_read {move : Move} : move.action = "read_req" ↔ ∃ args, move = .read args := by
  cases move <;> simp [action]

theorem action_eq_fetch {move : Move} : move.action = "read_resp" ↔ move = .fetch := by
  cases move <;> simp [action]

theorem action_eq_write {move : Move} : move.action = "write" ↔ ∃ args, move = .write args := by
  cases move <;> simp [action]

theorem action_eq_flush {move : Move} : move.action = "flush" ↔ move = .flush := by
  cases move <;> simp [action]

end Move

end Bank

/-! ## Writes of an ideal memory -/

/-- The address that some arguments name, zero if they name none. -/
def Bank.target (args : Record) : Nat :=
  match Bank.addressOf args with
  | .ok address => address
  | .error _ => 0

/-- What a write makes of the value at its address: the datum, or with a granularity the old value with
the bits of the datum in those chunks that the mask has. -/
def BankConfig.newValue (config : BankConfig) (args : Record) (old : Bits) : Bits :=
  match args.get "data", config.granularity with
  | .ok data, none => data
  | .ok data, some chunk =>
    match args.get "mask" with
    | .ok mask => Bits.merge chunk mask old data
    | .error _ => old
  | .error _, _ => old

/-- What a write makes of the contents of a memory. -/
def BankConfig.store (config : BankConfig) (args : Record) (contents : Nat → Bits) : Nat → Bits :=
  fun address =>
    if address = Bank.target args then config.newValue args (contents address) else contents address

/-- What the moves of a cycle make of the contents of an ideal memory, which makes every write at
once. -/
def BankConfig.play (config : BankConfig) (contents : Nat → Bits)
    (moves : List Bank.Move) : Nat → Bits :=
  moves.foldl
    (fun contents move =>
      match move with
      | .read _ => contents
      | .fetch => contents
      | .write args => config.store args contents
      | .flush => contents)
    contents

namespace Bank

theorem target_of_addressOf {args : Record} {address : Nat} (h : addressOf args = .ok address) :
    target args = address := by
  rw [target, h]

/-- The arguments name the address of an element. -/
def Addresses (x : Bank) (args : Record) : Prop :=
  ∃ address, addressOf args = .ok address ∧ address < x.config.count

/-- The arguments of the move, if it has any, are of the shape of the method and name the address of an
element. -/
def Fits (x : Bank) : Move → Prop
  | .read args => args.shape = x.readInput ∧ x.Addresses args
  | .write args => args.shape = x.writeInput ∧ x.Addresses args
  | .fetch => True
  | .flush => True

/-- A cycle of a bank may make these moves: each is ready and fits, and no action takes part twice. -/
structure Allows (bank : Bank) (view : View σ) (x : Bank) (moves : List Move) : Prop where
  /-- the methods are ready, and the transaction wants to run -/
  offered : ∀ move ∈ moves, bank.block.offers view x move.use = .ok true
  /-- the arguments are in range -/
  fits : ∀ move ∈ moves, x.Fits move
  /-- every action takes part at most once -/
  once : (moves.map Move.action).Nodup

theorem offers_read (bank : Bank) (view : View σ) (x : Bank) (args : Record) :
    bank.block.offers view x (Move.read args).use = .ok (!x.writeWaiting.read) := by
  simp [Block.offers, Move.use, block]

theorem offers_fetch (bank : Bank) (view : View σ) (x : Bank) :
    bank.block.offers view x Move.fetch.use = .ok x.latchFull.read := by
  simp [Block.offers, Move.use, block]

theorem offers_write (bank : Bank) (view : View σ) (x : Bank) (args : Record) :
    bank.block.offers view x (Move.write args).use = .ok (!x.writeWaiting.read) := by
  simp [Block.offers, Move.use, block]

theorem offers_flush (bank : Bank) (view : View σ) (x : Bank) :
    bank.block.offers view x Move.flush.use = .ok x.writeWaiting.read := by
  simp [Block.offers, Move.use, block]

theorem play_of_not_write {config : BankConfig} {moves : List Move} (contents : Nat → Bits)
    (h : ∀ args, Move.write args ∉ moves) : config.play contents moves = contents := by
  refine foldl_untouched id (fun contents move hmove => ?_) contents
  cases move with
  | read args => rfl
  | fetch => rfl
  | write args => exact absurd hmove (h args)
  | flush => rfl

theorem play_of_write {config : BankConfig} {moves : List Move} (contents : Nat → Bits)
    (honce : (moves.map Move.action).Nodup) {args : Record} (h : Move.write args ∈ moves) :
    config.play contents moves = config.store args contents := by
  refine foldl_touched_once id (config.store args) honce h (fun contents => rfl) ?_ contents
  intro contents move hne
  cases move with
  | read args' => rfl
  | fetch => rfl
  | write args' => exact absurd rfl hne
  | flush => rfl

/-! ## Banks between two cycles -/

/-- Shapes and widths fit together. -/
structure Formed (x : Bank) : Prop where
  /-- an element is as wide as its shape -/
  width : x.width = x.config.dataShape.width
  /-- an element has bits -/
  width_pos : 0 < x.width
  /-- chunks have bits and fill the element -/
  chunks : ∀ {chunk : Nat}, x.config.granularity = some chunk → 0 < chunk ∧ chunk ∣ x.width
  /-- a fetch returns a datum -/
  readOutput : x.readOutput.fields = [⟨"data", x.width⟩]
  /-- a write has a datum -/
  data : ⟨"data", x.width⟩ ∈ x.writeInput.fields
  /-- a masked write has a mask -/
  mask : ∀ {chunk : Nat}, x.config.granularity = some chunk →
    ⟨"mask", x.width / chunk⟩ ∈ x.writeInput.fields

/-- The memory has all elements, of the right width, and no write waits in it. -/
structure Filled (x : Bank) : Prop where
  /-- no write waits -/
  idle : x.memory.Idle
  /-- every address has an element -/
  size : x.memory.cells.size = x.config.count
  /-- the elements have their width -/
  width : ∀ {address : Nat} {c : Cell Bits}, x.memory.cells[address]? = some c →
    c.value.width = x.width

/-- A bank between two cycles: nothing is under way. -/
structure Rests (x : Bank) : Prop where
  /-- the memory is whole -/
  filled : x.Filled
  /-- the latch is not written -/
  latchFull : x.latchFull.Idle
  /-- the latch is not written -/
  latched : x.latched.Idle
  /-- no write is being put off -/
  writeWaiting : x.writeWaiting.Idle
  /-- no write is being put off -/
  delayedWrite : x.delayedWrite.Idle
  /-- no read is asked for -/
  readAddress : x.readAddress.Idle ∧ x.readAddress.idle = none
  /-- nothing is fetched -/
  fetched : x.fetched.Idle ∧ x.fetched.idle = false
  /-- no write is asked for -/
  writeAsked : x.writeAsked.Idle ∧ x.writeAsked.idle = none
  /-- the latched datum has the width of an element -/
  latched_width : x.latched.read.width = x.width
  /-- a write that waits can be made -/
  waiting : x.writeWaiting.read = true → x.Fits (.write x.delayedWrite.read)

/-- The committed values of the elements, zero where there is none. -/
def stored (x : Bank) (address : Nat) : Bits :=
  match x.memory.read address with
  | .ok value => value
  | .error _ => Bits.ofNat x.width 0

/-- The committed values with the write that waits, if there is one, made. -/
def contents (x : Bank) : Nat → Bits :=
  if x.writeWaiting.read then x.config.store x.delayedWrite.read x.stored else x.stored

theorem stored_eq (x : Bank) (address : Nat) : x.stored address =
    ((x.memory.cells[address]?).map Cell.value).getD (Bits.ofNat x.width 0) := by
  unfold stored RegisterArray.read RegisterArray.cell
  cases x.memory.cells[address]? with
  | none => rfl
  | some c => rfl

theorem Filled.exists_cell {x : Bank} (h : x.Filled) {address : Nat}
    (hlt : address < x.config.count) :
    ∃ c, x.memory.cells[address]? = some c ∧ c.pending = none ∧ c.value = x.stored address := by
  rw [← h.size] at hlt
  have hc := Array.getElem?_eq_getElem hlt
  refine ⟨_, hc, h.idle.pending hc, ?_⟩
  rw [stored_eq, hc]
  rfl

theorem Filled.width_stored {x : Bank} (h : x.Filled) (address : Nat) :
    (x.stored address).width = x.width := by
  rw [stored_eq]
  cases hc : x.memory.cells[address]? with
  | none => rfl
  | some c => exact h.width hc

theorem contents_of_not_waiting {x : Bank} (h : x.writeWaiting.read = false) :
    x.contents = x.stored := by
  rw [contents, h]
  rfl

theorem stored_of_memory_eq {x y : Bank} (hmemory : y.memory = x.memory) (hwidth : y.width = x.width) :
    y.stored = x.stored := by
  funext address
  rw [stored_eq, stored_eq, hmemory, hwidth]

theorem Filled.of_memory_eq {x y : Bank} (h : x.Filled) (hmemory : y.memory = x.memory)
    (hwidth : y.width = x.width) (hconfig : y.config = x.config) : y.Filled where
  idle := hmemory ▸ h.idle
  size := by
    rw [hmemory, hconfig]
    exact h.size
  width := by
    rw [hmemory, hwidth]
    exact h.width

/-! ## Making a write -/

/-- A write in the arguments can be made. -/
theorem exists_data {x : Bank} (hformed : x.Formed) {args : Record}
    (hshape : args.shape = x.writeInput) :
    ∃ data, args.get "data" = .ok data ∧ data.width = x.width :=
  args.exists_get (f := ⟨"data", x.width⟩) (hshape ▸ hformed.data)

theorem exists_mask {x : Bank} (hformed : x.Formed) {args : Record}
    (hshape : args.shape = x.writeInput) {chunk : Nat} (hchunk : x.config.granularity = some chunk) :
    ∃ mask, args.get "mask" = .ok mask :=
  (args.exists_get (f := ⟨"mask", x.width / chunk⟩) (hshape ▸ hformed.mask hchunk)).imp
    fun _ h => h.1

theorem width_newValue {x : Bank} (hformed : x.Formed) {args : Record}
    (hshape : args.shape = x.writeInput) {old : Bits} (hold : old.width = x.width) :
    (x.config.newValue args old).width = x.width := by
  obtain ⟨data, hdata, hwidth⟩ := exists_data hformed hshape
  unfold BankConfig.newValue
  rw [hdata]
  cases hchunk : x.config.granularity with
  | none => exact hwidth
  | some chunk =>
    obtain ⟨mask, hmask⟩ := exists_mask hformed hshape hchunk
    simp only [hmask, Bits.width_merge]
    exact hold

/-- The bank with a write of the arguments under way to the memory. -/
def storing (x : Bank) (args : Record) : Bank :=
  { x with
    memory := x.memory.withWrite (target args) (x.config.newValue args (x.stored (target args))) }

theorem writeThrough_eq {x : Bank} (hformed : x.Formed) (hfilled : x.Filled) {args : Record}
    (hfits : x.Fits (.write args)) : x.writeThrough args = .ok (x.storing args) := by
  obtain ⟨hshape, address, haddress, hlt⟩ := hfits
  obtain ⟨data, hdata, hwidth⟩ := exists_data hformed hshape
  obtain ⟨c, hc, -, hvalue⟩ := hfilled.exists_cell hlt
  have hread : x.memory.read address = .ok (x.stored address) :=
    RegisterArray.read_eq_ok.mpr ⟨c, hc, hvalue⟩
  have hwrite : ∀ value, x.memory.write address value = .ok (x.memory.withWrite address value) :=
    hfilled.idle.write_eq (hfilled.size ▸ hlt)
  unfold writeThrough storing BankConfig.newValue
  rw [target_of_addressOf haddress, haddress, ok_bind, hdata, ok_bind]
  cases hchunk : x.config.granularity with
  | none => simp only [hwrite, ok_bind]
  | some chunk =>
    obtain ⟨mask, hmask⟩ := exists_mask hformed hshape hchunk
    obtain ⟨hpos, hdvd⟩ := hformed.chunks hchunk
    have hold : (x.stored address).width = x.width := hfilled.width_stored address
    have hmerge : mergeChunks chunk (x.width / chunk) (x.stored address) data mask =
        Bits.merge chunk mask (x.stored address) data := by
      rw [← hold]
      exact mergeChunks_eq_merge hpos (hold ▸ hdvd)
    simp only [hmask, ok_bind, hread, hmerge, hwrite]

/-- After the edge the write is made. -/
theorem stored_storing {x y : Bank} (hfilled : x.Filled) {args : Record} (haddress : x.Addresses args)
    (hmemory : y.memory = (x.storing args).memory.commit) (hwidth : y.width = x.width) :
    y.stored = x.config.store args x.stored := by
  obtain ⟨address, hargs, hlt⟩ := haddress
  obtain ⟨c, hc, -, hvalue⟩ := hfilled.exists_cell hlt
  funext a
  rw [stored_eq, hmemory, hwidth, storing, hfilled.idle.getElem?_commit_withWrite,
    target_of_addressOf hargs]
  unfold BankConfig.store
  rw [target_of_addressOf hargs]
  by_cases ha : a = address
  · rw [if_pos ha, if_pos ha.symm, ha, hc]
    rfl
  · rw [if_neg ha, if_neg (Ne.symm ha), stored_eq]

/-- After the edge the memory is whole. -/
theorem filled_storing {x y : Bank} (hformed : x.Formed) (hfilled : x.Filled) {args : Record}
    (hshape : args.shape = x.writeInput) (hmemory : y.memory = (x.storing args).memory.commit)
    (hwidth : y.width = x.width) (hconfig : y.config = x.config) : y.Filled where
  idle := by
    have hlisted : x.memory.Listed := hfilled.idle.listed
    have hwritten : (x.storing args).memory.Listed := hlisted.withWrite _ _
    rw [hmemory]
    exact hwritten.idle_commit
  size := by
    rw [hmemory, hconfig, RegisterArray.size_commit]
    exact (RegisterArray.size_withWrite _ _ _).trans hfilled.size
  width := by
    intro address c hc
    rw [hmemory, storing, hfilled.idle.getElem?_commit_withWrite] at hc
    rw [hwidth]
    by_cases ha : target args = address
    · rw [if_pos ha] at hc
      obtain ⟨c', -, rfl⟩ := Option.map_eq_some_iff.mp hc
      exact width_newValue hformed hshape (hfilled.width_stored _)
    · rw [if_neg ha] at hc
      exact hfilled.width hc

/-! ## The bodies -/

/-- The bank after the body of a move. -/
def pose (x : Bank) : Move → Bank
  | .read args => { x with readAddress := { x.readAddress with driven := some (some (target args)) } }
  | .fetch => { x with fetched := { x.fetched with driven := some true } }
  | .write args => { x with writeAsked := { x.writeAsked with driven := some (some args) } }
  | .flush => { x.storing x.delayedWrite.read with
      writeWaiting := { x.writeWaiting with cell := x.writeWaiting.cell.write false } }

/-- What the body of a move returns. -/
def answer (x : Bank) : Move → Record
  | .read _ => Record.empty
  | .fetch => Record.fill x.readOutput [x.latched.read]
  | .write _ => Record.empty
  | .flush => Record.empty

/-- The bank after the bodies of some moves. -/
def posed (x : Bank) (moves : List Move) : Bank := moves.foldl pose x

/-- The elements that no body writes. -/
def Untouched (x y : Bank) : Prop :=
  y = { x with
    memory := y.memory
    writeWaiting := y.writeWaiting
    readAddress := y.readAddress
    fetched := y.fetched
    writeAsked := y.writeAsked }

theorem untouched_posed (x : Bank) (moves : List Move) : Untouched x (x.posed moves) := by
  unfold posed
  induction moves using List.reverseRecOn with
  | nil => rfl
  | append_singleton moves move ih =>
    rw [List.foldl_append, List.foldl_cons, List.foldl_nil]
    unfold Untouched at ih
    rw [ih]
    cases move with
    | read args => rfl
    | fetch => rfl
    | write args => rfl
    | flush => rfl

/-- The bank with the wires of another one. -/
def wiredAs (y x : Bank) : Bank :=
  { y with readAddress := x.readAddress, fetched := x.fetched, writeAsked := x.writeAsked }

section Posed

variable {x : Bank} {moves : List Move}

theorem readAddress_posed_of_not_read (h : ∀ move ∈ moves, move.action ≠ "read_req") :
    (x.posed moves).readAddress = x.readAddress := by
  refine foldl_untouched Bank.readAddress (fun y move hmove => ?_) x
  cases move with
  | read args => exact absurd rfl (h _ hmove)
  | fetch => rfl
  | write args => rfl
  | flush => rfl

theorem fetched_posed_of_not_fetch (h : ∀ move ∈ moves, move.action ≠ "read_resp") :
    (x.posed moves).fetched = x.fetched := by
  refine foldl_untouched Bank.fetched (fun y move hmove => ?_) x
  cases move with
  | read args => rfl
  | fetch => exact absurd rfl (h _ hmove)
  | write args => rfl
  | flush => rfl

theorem writeAsked_posed_of_not_write (h : ∀ move ∈ moves, move.action ≠ "write") :
    (x.posed moves).writeAsked = x.writeAsked := by
  refine foldl_untouched Bank.writeAsked (fun y move hmove => ?_) x
  cases move with
  | read args => rfl
  | fetch => rfl
  | write args => exact absurd rfl (h _ hmove)
  | flush => rfl

theorem posed_of_not_flush (h : ∀ move ∈ moves, move.action ≠ "flush") :
    (x.posed moves).wiredAs x = x := by
  refine foldl_untouched (wiredAs · x) (fun y move hmove => ?_) x
  cases move with
  | read args => rfl
  | fetch => rfl
  | write args => rfl
  | flush => exact absurd rfl (h _ hmove)

variable (honce : (moves.map Move.action).Nodup)

include honce

theorem readAddress_posed {args : Record} (h : Move.read args ∈ moves) :
    (x.posed moves).readAddress = { x.readAddress with driven := some (some (target args)) } := by
  refine foldl_touched_once Bank.readAddress
    (fun wire => { wire with driven := some (some (target args)) }) honce h (fun y => rfl) ?_ x
  intro y move hne
  cases move with
  | read args' => exact absurd rfl hne
  | fetch => rfl
  | write args' => rfl
  | flush => rfl

theorem fetched_posed (h : Move.fetch ∈ moves) :
    (x.posed moves).fetched = { x.fetched with driven := some true } := by
  refine foldl_touched_once Bank.fetched (fun wire => { wire with driven := some true }) honce h
    (fun y => rfl) ?_ x
  intro y move hne
  cases move with
  | read args => rfl
  | fetch => exact absurd rfl hne
  | write args => rfl
  | flush => rfl

theorem writeAsked_posed {args : Record} (h : Move.write args ∈ moves) :
    (x.posed moves).writeAsked = { x.writeAsked with driven := some (some args) } := by
  refine foldl_touched_once Bank.writeAsked
    (fun wire => { wire with driven := some (some args) }) honce h (fun y => rfl) ?_ x
  intro y move hne
  cases move with
  | read args' => rfl
  | fetch => rfl
  | write args' => exact absurd rfl hne
  | flush => rfl

theorem posed_of_flush (h : Move.flush ∈ moves) :
    (x.posed moves).wiredAs x = x.pose .flush := by
  refine foldl_touched_once (wiredAs · x) (pose · .flush) honce h (fun y => rfl) ?_ x
  intro y move hne
  cases move with
  | read args => rfl
  | fetch => rfl
  | write args => rfl
  | flush => exact absurd rfl hne

end Posed

section

variable {x : Bank} {moves : List Move}

theorem posed_frame (x : Bank) (moves : List Move) :
    (x.posed moves).config = x.config ∧ (x.posed moves).width = x.width ∧
      (x.posed moves).delayedWrite = x.delayedWrite := by
  rw [untouched_posed x moves]
  exact ⟨rfl, rfl, rfl⟩

theorem posed_memory_of_not_flush (h : Move.flush ∉ moves) :
    (x.posed moves).memory = x.memory ∧ (x.posed moves).writeWaiting = x.writeWaiting := by
  have hsame : (x.posed moves).wiredAs x = x := by
    refine posed_of_not_flush fun move hmove haction => h ?_
    rwa [Move.action_eq_flush.mp haction] at hmove
  exact ⟨(congrArg Bank.memory hsame :), (congrArg Bank.writeWaiting hsame :)⟩

theorem posed_memory_of_flush (honce : (moves.map Move.action).Nodup) (h : Move.flush ∈ moves) :
    (x.posed moves).memory = (x.storing x.delayedWrite.read).memory ∧
      (x.posed moves).writeWaiting =
        { x.writeWaiting with cell := x.writeWaiting.cell.write false } := by
  have hsame : (x.posed moves).wiredAs x = x.pose .flush := posed_of_flush honce h
  exact ⟨(congrArg Bank.memory hsame :), (congrArg Bank.writeWaiting hsame :)⟩

theorem posed_idle (x : Bank) (moves : List Move) :
    (x.posed moves).readAddress.idle = x.readAddress.idle ∧
      (x.posed moves).fetched.idle = x.fetched.idle ∧
      (x.posed moves).writeAsked.idle = x.writeAsked.idle := by
  have hkept : ∀ y : Bank, ∀ move ∈ moves,
      ((y.pose move).readAddress.idle, (y.pose move).fetched.idle, (y.pose move).writeAsked.idle) =
        (y.readAddress.idle, y.fetched.idle, y.writeAsked.idle) := by
    intro y move _
    cases move with
    | read args => rfl
    | fetch => rfl
    | write args => rfl
    | flush => rfl
  have h := foldl_untouched (fun y => (y.readAddress.idle, y.fetched.idle, y.writeAsked.idle)) hkept x
  obtain ⟨hread, hrest⟩ := Prod.mk.inj h
  obtain ⟨hfetched, hwrite⟩ := Prod.mk.inj hrest
  exact ⟨hread, hfetched, hwrite⟩

/-- The address on the wire is the one that a read asks for. -/
theorem Rests.get_readAddress_posed (h : x.Rests) (honce : (moves.map Move.action).Nodup)
    {address : Nat} : (x.posed moves).readAddress.get = some address ↔
      ∃ args, Move.read args ∈ moves ∧ target args = address := by
  constructor
  · intro hget
    by_contra hno
    rw [readAddress_posed_of_not_read, Wire.get, h.readAddress.1, h.readAddress.2] at hget
    · cases hget
    · intro move hmove haction
      obtain ⟨args, rfl⟩ := Move.action_eq_read.mp haction
      rw [readAddress_posed honce hmove] at hget
      exact hno ⟨args, hmove, Option.some.inj hget⟩
  · rintro ⟨args, hread, rfl⟩
    rw [readAddress_posed honce hread]
    rfl

/-- The wire of the fetch is driven by a fetch only. -/
theorem Rests.get_fetched_posed (h : x.Rests) (honce : (moves.map Move.action).Nodup) :
    (x.posed moves).fetched.get = true ↔ Move.fetch ∈ moves := by
  constructor
  · intro hget
    by_contra hno
    rw [fetched_posed_of_not_fetch, Wire.get, h.fetched.1, h.fetched.2] at hget
    · cases hget
    · intro move hmove haction
      exact hno (Move.action_eq_fetch.mp haction ▸ hmove)
  · intro hfetch
    rw [fetched_posed honce hfetch]
    rfl

/-- The arguments on the wire are those of the write. -/
theorem Rests.get_writeAsked_posed (h : x.Rests) (honce : (moves.map Move.action).Nodup)
    {args : Record} : (x.posed moves).writeAsked.get = some args ↔ Move.write args ∈ moves := by
  constructor
  · intro hget
    by_contra hno
    rw [writeAsked_posed_of_not_write, Wire.get, h.writeAsked.1, h.writeAsked.2] at hget
    · cases hget
    · intro move hmove haction
      obtain ⟨args', rfl⟩ := Move.action_eq_write.mp haction
      rw [writeAsked_posed honce hmove] at hget
      obtain rfl : args' = args := Option.some.inj hget
      exact hno hmove
  · intro hwrite
    rw [writeAsked_posed honce hwrite]
    rfl

theorem answer_posed (x : Bank) (moves : List Move) : (x.posed moves).answer = x.answer := by
  rw [untouched_posed x moves]
  funext move
  cases move with
  | read args => rfl
  | fetch => rfl
  | write args => rfl
  | flush => rfl

theorem Formed.posed (h : x.Formed) (moves : List Move) : (x.posed moves).Formed := by
  rw [untouched_posed x moves]
  exact ⟨h.width, h.width_pos, h.chunks, h.readOutput, h.data, h.mask⟩

theorem Filled.posed (h : x.Filled) (hflush : Move.flush ∉ moves) : (x.posed moves).Filled := by
  obtain ⟨hconfig, hwidth, -⟩ := posed_frame x moves
  obtain ⟨hmemory, -⟩ := posed_memory_of_not_flush (x := x) hflush
  exact h.of_memory_eq hmemory hwidth hconfig

end

/-! ### The bodies succeed -/

/-- The elements that a move writes are not written yet. -/
def Free (x : Bank) : Move → Prop
  | .read args => x.readAddress.Idle ∧ x.Addresses args
  | .fetch => x.fetched.Idle
  | .write args => x.writeAsked.Idle ∧ x.Addresses args
  | .flush => x.Formed ∧ x.Filled ∧ x.writeWaiting.Idle ∧ x.Fits (.write x.delayedWrite.read)

theorem use_eq {x : Bank} {move : Move} (h : x.Free move) (bank : Bank) (view : View σ) :
    bank.block.use view x move.use = .ok (x.answer move, x.pose move) := by
  cases move with
  | read args =>
    obtain ⟨hidle, address, haddress, hlt⟩ := h
    have hbounded : x.boundedAddress args = .ok address := by
      rw [boundedAddress, haddress, ok_bind, if_pos hlt]
    simp [Block.use, Move.use, block, startRead, hbounded, hidle, Wire.drive_of_idle, answer, pose,
      target_of_addressOf haddress]
  | fetch =>
    have hidle : x.fetched.Idle := h
    simp [Block.use, Move.use, block, fetch, hidle, Wire.drive_of_idle, answer, pose]
  | write args =>
    obtain ⟨hidle, address, haddress, hlt⟩ := h
    have hbounded : x.boundedAddress args = .ok address := by
      rw [boundedAddress, haddress, ok_bind, if_pos hlt]
    simp [Block.use, Move.use, block, startWrite, hbounded, hidle, Wire.drive_of_idle, answer, pose]
  | flush =>
    obtain ⟨hformed, hfilled, hidle, hfits⟩ := h
    have hwrite : (x.storing x.delayedWrite.read).writeWaiting.write false =
        .ok { x.writeWaiting with cell := x.writeWaiting.cell.write false } :=
      Register.write_of_idle hidle false
    simp [Block.use, Move.use, block, flush, writeThrough_eq hformed hfilled hfits, hwrite, answer, pose,
      Except.map]

section Cycle

variable {bank x : Bank} {view : View σ} {moves : List Move}

theorem Allows.not_waiting_of_read (h : Allows bank view x moves) {args : Record}
    (hread : Move.read args ∈ moves) : x.writeWaiting.read = false := by
  have hoffered := h.offered _ hread
  rw [offers_read, Except.ok.injEq] at hoffered
  exact Bool.not_eq_eq_eq_not.mp hoffered

theorem Allows.not_waiting_of_write (h : Allows bank view x moves) {args : Record}
    (hwrite : Move.write args ∈ moves) : x.writeWaiting.read = false := by
  have hoffered := h.offered _ hwrite
  rw [offers_write, Except.ok.injEq] at hoffered
  exact Bool.not_eq_eq_eq_not.mp hoffered

theorem Allows.waiting_of_flush (h : Allows bank view x moves) (hflush : Move.flush ∈ moves) :
    x.writeWaiting.read = true := by
  have hoffered := h.offered _ hflush
  rwa [offers_flush, Except.ok.injEq] at hoffered

theorem Allows.not_flush_of_write (h : Allows bank view x moves) {args : Record}
    (hwrite : Move.write args ∈ moves) : Move.flush ∉ moves := by
  intro hflush
  have hnot := h.not_waiting_of_write hwrite
  rw [h.waiting_of_flush hflush] at hnot
  cases hnot

theorem Allows.write_unique (h : Allows bank view x moves) {args args' : Record}
    (hwrite : Move.write args ∈ moves) (hwrite' : Move.write args' ∈ moves) : args = args' := by
  have hasked := (writeAsked_posed (x := x) h.once hwrite).symm.trans
    (writeAsked_posed h.once hwrite')
  exact Option.some.inj (Option.some.inj (congrArg Wire.driven hasked))

/-- After the bodies before it, a move finds the elements that it writes free. -/
theorem Allows.free (h : Allows bank view x moves) (hformed : x.Formed) (hrests : x.Rests)
    {before after : List Move} {move : Move} (hmoves : moves = before ++ move :: after) :
    (x.posed before).Free move := by
  have hmem : move ∈ moves := by simp [hmoves]
  have hother : ∀ earlier ∈ before, earlier.action ≠ move.action := by
    intro earlier hearlier heq
    have honce := h.once
    rw [hmoves, List.map_append, List.map_cons, List.nodup_append] at honce
    exact honce.2.2 _ (List.mem_map_of_mem hearlier) _ List.mem_cons_self heq
  have hconfig : (x.posed before).config = x.config := (posed_frame x before).1
  have hfits := h.fits move hmem
  cases move with
  | read args =>
    refine ⟨?_, ?_⟩
    · rw [readAddress_posed_of_not_read hother]
      exact hrests.readAddress.1
    · unfold Addresses
      rw [hconfig]
      exact hfits.2
  | fetch =>
    unfold Free
    rw [fetched_posed_of_not_fetch hother]
    exact hrests.fetched.1
  | write args =>
    refine ⟨?_, ?_⟩
    · rw [writeAsked_posed_of_not_write hother]
      exact hrests.writeAsked.1
    · unfold Addresses
      rw [hconfig]
      exact hfits.2
  | flush =>
    have hbefore : Move.flush ∉ before := fun hflush => hother _ hflush rfl
    obtain ⟨-, hwaiting⟩ := posed_memory_of_not_flush (x := x) hbefore
    have hdelayed := hrests.waiting (h.waiting_of_flush hmem)
    refine ⟨hformed.posed before, hrests.filled.posed hbefore, ?_, ?_⟩
    · rw [hwaiting]
      exact hrests.writeWaiting
    · rw [untouched_posed x before]
      exact hdelayed

/-- The bodies of a cycle all succeed, in whatever order they come. -/
theorem useAll_eq (hformed : x.Formed) (hrests : x.Rests) (hallows : Allows bank view x moves) :
    bank.block.useAll view x (moves.map Move.use) = .ok (moves.map x.answer, x.posed moves) := by
  have hrun : ∀ after before, moves = before ++ after →
      (after.map Move.use).foldlM
        (fun r u => (bank.block.use view r.2 u).map fun r' => (r.1 ++ [r'.1], r'.2))
        (before.map x.answer, x.posed before) = .ok (moves.map x.answer, x.posed moves) := by
    intro after
    induction after with
    | nil =>
      intro before hmoves
      rw [List.append_nil] at hmoves
      rw [hmoves]
      rfl
    | cons move after ih =>
      intro before hmoves
      have hused := use_eq (hallows.free hformed hrests hmoves) bank view
      have hnext := ih (before ++ [move]) (by rw [hmoves, List.append_assoc]; rfl)
      rw [List.map_append, List.map_cons, List.map_nil, posed, List.foldl_append] at hnext
      rw [List.map_cons, List.foldlM_cons, hused, answer_posed]
      exact hnext
  exact hrun moves [] rfl

/-! ### The write is made or put off -/

/-- What the combinational logic leaves after it has dealt with the write of the cycle. -/
structure Settled (x : Bank) (moves : List Move) (z : Bank) : Prop where
  /-- only the memory and the write that waits are written -/
  untouched : z = { x.posed moves with
    memory := z.memory
    writeWaiting := z.writeWaiting
    delayedWrite := z.delayedWrite }
  /-- the elements with a write that waits are listed -/
  listed : z.memory.Listed
  /-- the memory is whole after the edge -/
  filled : z.commit.Filled
  /-- the contents are those of the ideal memory -/
  contents : z.commit.contents = x.config.play x.contents moves
  /-- a write that waits can be made -/
  waiting : z.commit.writeWaiting.read = true → x.Fits (.write z.commit.delayedWrite.read)
  /-- what a read of this cycle sees -/
  seen : ∀ {args : Record}, Move.read args ∈ moves → z.commit.stored (target args) =
    if x.config.safe then x.contents (target args) else x.config.play x.contents moves (target args)
  /-- the write of this cycle waits if it has to -/
  deferred : ∀ {args : Record}, Move.write args ∈ moves →
    (z.commit.writeWaiting.read = true ↔
      x.config.safe = true ∧ ∃ args', Move.read args' ∈ moves ∧ target args' = target args) ∧
    (z.commit.writeWaiting.read = true → z.commit.delayedWrite.read = args)
  /-- an older write waits until it is flushed -/
  kept : (∀ args, Move.write args ∉ moves) →
    (z.commit.writeWaiting.read = true ↔ x.writeWaiting.read = true ∧ Move.flush ∉ moves) ∧
    z.commit.delayedWrite.read = x.delayedWrite.read

theorem exists_collides (hrests : x.Rests) (honce : (moves.map Move.action).Nodup) {args : Record}
    {address : Nat} (haddress : addressOf args = .ok address) :
    ∃ collision, (x.posed moves).collides args = .ok collision ∧ (collision = true ↔
      ∃ args', Move.read args' ∈ moves ∧ target args' = target args) := by
  rw [← hrests.get_readAddress_posed honce, target_of_addressOf haddress]
  unfold collides
  cases (x.posed moves).readAddress.get with
  | none => exact ⟨false, rfl, by simp⟩
  | some read =>
    simp only [haddress, ok_bind]
    exact ⟨_, rfl, by simp⟩

/-- Without a write and without a flush everything is as before. -/
theorem settled_of_still (hrests : x.Rests) (hwrite : ∀ args, Move.write args ∉ moves)
    (hflush : Move.flush ∉ moves) (hallows : Allows bank view x moves) :
    Settled x moves (x.posed moves) := by
  obtain ⟨hconfig, hwidth, hdelayed⟩ := posed_frame x moves
  obtain ⟨hmemory, hwaiting⟩ := posed_memory_of_not_flush (x := x) hflush
  have hmemory' : (x.posed moves).commit.memory = x.memory := by
    rw [commit, hmemory, hrests.filled.idle.commit_eq]
  have hwaiting' : (x.posed moves).commit.writeWaiting = x.writeWaiting := by
    rw [commit, hwaiting, Register.commit_of_idle hrests.writeWaiting]
  have hdelayed' : (x.posed moves).commit.delayedWrite = x.delayedWrite := by
    rw [commit, hdelayed, Register.commit_of_idle hrests.delayedWrite]
  have hstored : (x.posed moves).commit.stored = x.stored := stored_of_memory_eq hmemory' hwidth
  have hcontents : (x.posed moves).commit.contents = x.config.play x.contents moves := by
    rw [play_of_not_write x.contents hwrite, contents, contents, hwaiting', hdelayed', hstored]
    exact congrArg (fun config => if x.writeWaiting.read = true then
      BankConfig.store config x.delayedWrite.read x.stored else x.stored) hconfig
  exact
    { untouched := rfl
      listed := hmemory ▸ hrests.filled.idle.listed
      filled := hrests.filled.of_memory_eq hmemory' hwidth hconfig
      contents := hcontents
      waiting := by
        rw [hwaiting', hdelayed']
        exact hrests.waiting
      seen := by
        intro args hread
        have hnot := hallows.not_waiting_of_read hread
        rw [play_of_not_write x.contents hwrite, hstored, contents_of_not_waiting hnot, ite_self]
      deferred := fun hmem => absurd hmem (hwrite _)
      kept := by
        intro _
        rw [hwaiting', hdelayed']
        exact ⟨⟨fun h => ⟨h, hflush⟩, fun h => h.1⟩, rfl⟩ }

/-- A flush makes the write that waits. -/
theorem settled_of_flush (hformed : x.Formed) (hrests : x.Rests)
    (hwrite : ∀ args, Move.write args ∉ moves) (hflush : Move.flush ∈ moves)
    (hallows : Allows bank view x moves) : Settled x moves (x.posed moves) := by
  obtain ⟨hconfig, hwidth, hdelayed⟩ := posed_frame x moves
  obtain ⟨hmemory, hwaiting⟩ := posed_memory_of_flush (x := x) hallows.once hflush
  have hwaits : x.writeWaiting.read = true := hallows.waiting_of_flush hflush
  have hfits := hrests.waiting hwaits
  have hmemory' : (x.posed moves).commit.memory = (x.storing x.delayedWrite.read).memory.commit := by
    rw [commit, hmemory]
  have hwaiting' : (x.posed moves).commit.writeWaiting.read = false := by
    rw [commit, hwaiting]
    rfl
  have hdelayed' : (x.posed moves).commit.delayedWrite = x.delayedWrite := by
    rw [commit, hdelayed, Register.commit_of_idle hrests.delayedWrite]
  have hstored : (x.posed moves).commit.stored = x.config.store x.delayedWrite.read x.stored :=
    stored_storing hrests.filled hfits.2 hmemory' hwidth
  have hlisted : x.memory.Listed := hrests.filled.idle.listed
  exact
    { untouched := rfl
      listed := by
        rw [hmemory]
        exact hlisted.withWrite _ _
      filled := filled_storing hformed hrests.filled hfits.1 hmemory' hwidth hconfig
      contents := by
        rw [play_of_not_write x.contents hwrite, contents, contents, hwaiting', hwaits, hstored]
        rfl
      waiting := fun h => absurd (hwaiting'.symm.trans h) Bool.false_ne_true
      seen := by
        intro args hread
        have hnot := hallows.not_waiting_of_read hread
        exact absurd (hnot.symm.trans hwaits) Bool.false_ne_true
      deferred := fun hmem => absurd hmem (hwrite _)
      kept := by
        intro _
        rw [hwaiting', hdelayed']
        exact ⟨⟨fun h => absurd h Bool.false_ne_true, fun h => absurd hflush h.2⟩, rfl⟩ }

/-- A write to the address that is read waits. -/
theorem settled_of_defer (hrests : x.Rests) {args : Record} (hwrite : Move.write args ∈ moves)
    (hsafe : x.config.safe = true)
    (hcollides : ∃ args', Move.read args' ∈ moves ∧ target args' = target args)
    (hallows : Allows bank view x moves) :
    Settled x moves { x.posed moves with
      writeWaiting := { x.writeWaiting with cell := x.writeWaiting.cell.write true }
      delayedWrite := { x.delayedWrite with cell := x.delayedWrite.cell.write args } } := by
  have hnot : x.writeWaiting.read = false := hallows.not_waiting_of_write hwrite
  have hflush : Move.flush ∉ moves := hallows.not_flush_of_write hwrite
  obtain ⟨hconfig, hwidth, -⟩ := posed_frame x moves
  obtain ⟨hmemory, -⟩ := posed_memory_of_not_flush (x := x) hflush
  generalize hz : ({ x.posed moves with
      writeWaiting := { x.writeWaiting with cell := x.writeWaiting.cell.write true }
      delayedWrite := { x.delayedWrite with cell := x.delayedWrite.cell.write args } } : Bank) = z
  have hmemory' : z.commit.memory = x.memory := by
    rw [← hz, commit, hmemory, hrests.filled.idle.commit_eq]
  have hwaiting' : z.commit.writeWaiting.read = true := by
    rw [← hz]
    rfl
  have hdelayed' : z.commit.delayedWrite.read = args := by
    rw [← hz]
    rfl
  have hconfig' : z.commit.config = x.config := by
    rw [← hz]
    exact hconfig
  have hwidth' : z.commit.width = x.width := by
    rw [← hz]
    exact hwidth
  have hstored : z.commit.stored = x.stored := stored_of_memory_eq hmemory' hwidth'
  have hcontents : x.contents = x.stored := contents_of_not_waiting hnot
  exact
    { untouched := by rw [← hz]
      listed := by
        rw [← hz]
        exact hmemory ▸ hrests.filled.idle.listed
      filled := hrests.filled.of_memory_eq hmemory' hwidth' hconfig'
      contents := by
        rw [play_of_write x.contents hallows.once hwrite, hcontents, contents, hwaiting', hdelayed',
          hconfig', hstored]
        rfl
      waiting := by
        intro _
        rw [hdelayed']
        exact hallows.fits _ hwrite
      seen := by
        intro args' _
        rw [hsafe, hstored, hcontents]
        rfl
      deferred := by
        intro args' hwrite'
        rw [hallows.write_unique hwrite' hwrite, hwaiting', hdelayed']
        exact ⟨⟨fun _ => ⟨hsafe, hcollides⟩, fun _ => rfl⟩, fun _ => rfl⟩
      kept := fun hno => absurd hwrite (hno args) }

/-- Any other write is made. -/
theorem settled_of_store (hformed : x.Formed) (hrests : x.Rests) {args : Record}
    (hwrite : Move.write args ∈ moves)
    (hmade : ¬ (x.config.safe = true ∧ ∃ args', Move.read args' ∈ moves ∧ target args' = target args))
    (hallows : Allows bank view x moves) : Settled x moves ((x.posed moves).storing args) := by
  have hnot : x.writeWaiting.read = false := hallows.not_waiting_of_write hwrite
  have hflush : Move.flush ∉ moves := hallows.not_flush_of_write hwrite
  have hfits := hallows.fits _ hwrite
  obtain ⟨hconfig, hwidth, hdelayed⟩ := posed_frame x moves
  obtain ⟨hmemory, hwaiting⟩ := posed_memory_of_not_flush (x := x) hflush
  have hmemory' : ((x.posed moves).storing args).memory = (x.storing args).memory := by
    have hstored : (x.posed moves).stored = x.stored := stored_of_memory_eq hmemory hwidth
    unfold storing
    simp only [hmemory, hconfig, hstored]
  generalize hz : (x.posed moves).storing args = z
  rw [hz] at hmemory'
  have hwaiting' : z.commit.writeWaiting.read = false := by
    rw [← hz, commit]
    simp only [storing, hwaiting]
    rw [Register.commit_of_idle hrests.writeWaiting, hnot]
  have hconfig' : z.commit.config = x.config := by
    rw [← hz]
    exact hconfig
  have hwidth' : z.commit.width = x.width := by
    rw [← hz]
    exact hwidth
  have hcommitted : z.commit.memory = (x.storing args).memory.commit := by
    rw [commit, hmemory']
  have hstored : z.commit.stored = x.config.store args x.stored :=
    stored_storing hrests.filled hfits.2 hcommitted hwidth'
  have hcontents : x.contents = x.stored := contents_of_not_waiting hnot
  have hlisted : x.memory.Listed := hrests.filled.idle.listed
  exact
    { untouched := by
        rw [← hz]
        rfl
      listed := by
        rw [hmemory']
        exact hlisted.withWrite _ _
      filled := filled_storing hformed hrests.filled hfits.1 hcommitted hwidth' hconfig'
      contents := by
        rw [play_of_write x.contents hallows.once hwrite, hcontents, contents, hwaiting', hstored]
        rfl
      waiting := fun h => absurd (hwaiting'.symm.trans h) Bool.false_ne_true
      seen := by
        intro args' hread
        rw [play_of_write x.contents hallows.once hwrite, hcontents, hstored]
        cases hsafe : x.config.safe with
        | false => rfl
        | true =>
          have hother : target args' ≠ target args :=
            fun heq => hmade ⟨hsafe, args', hread, heq⟩
          rw [if_pos rfl, BankConfig.store, if_neg hother]
      deferred := by
        intro args' hwrite'
        rw [hallows.write_unique hwrite' hwrite, hwaiting']
        exact ⟨⟨fun h => absurd h Bool.false_ne_true, fun h => absurd h hmade⟩,
          fun h => absurd h Bool.false_ne_true⟩
      kept := fun hno => absurd hwrite (hno args) }

/-- The write of a cycle is dealt with. -/
theorem exists_settleWrite (hformed : x.Formed) (hrests : x.Rests)
    (hallows : Allows bank view x moves) :
    ∃ z, (x.posed moves).settleWrite = .ok z ∧ Settled x moves z := by
  obtain ⟨hconfig, hwidth, hdelayed⟩ := posed_frame x moves
  have hasked {args : Record} :
      (x.posed moves).writeAsked.get = some args ↔ Move.write args ∈ moves :=
    hrests.get_writeAsked_posed hallows.once
  unfold settleWrite
  cases hget : (x.posed moves).writeAsked.get with
  | some args =>
    have hwrite : Move.write args ∈ moves := hasked.mp hget
    have hnoflush := hallows.not_flush_of_write hwrite
    obtain ⟨hshape, address, haddress, hlt⟩ := hallows.fits _ hwrite
    obtain ⟨hmemory, hwaiting⟩ := posed_memory_of_not_flush (x := x) hnoflush
    obtain ⟨collision, hcollides, hiff⟩ := exists_collides hrests hallows.once haddress
    simp only [hcollides, ok_bind]
    by_cases hdefer : x.config.safe = true ∧
        ∃ args', Move.read args' ∈ moves ∧ target args' = target args
    · refine ⟨_, ?_, settled_of_defer hrests hwrite hdefer.1 hdefer.2 hallows⟩
      rw [hconfig, hdefer.1, hiff.mpr hdefer.2, Bool.and_true, if_pos rfl, defer, hwaiting, hdelayed,
        Register.write_of_idle hrests.writeWaiting, ok_bind,
        Register.write_of_idle hrests.delayedWrite]
      rfl
    · refine ⟨_, ?_, settled_of_store hformed hrests hwrite hdefer hallows⟩
      have hmade : (x.config.safe && collision) = false := by
        rw [← Bool.not_eq_true, Bool.and_eq_true, hiff]
        exact hdefer
      rw [hconfig, hmade, if_neg Bool.false_ne_true]
      refine writeThrough_eq (hformed.posed moves) (hrests.filled.posed hnoflush)
        ⟨?_, address, haddress, ?_⟩
      · rw [untouched_posed x moves]
        exact hshape
      · rw [hconfig]
        exact hlt
  | none =>
    have hno : ∀ args, Move.write args ∉ moves := by
      intro args hwrite
      rw [hasked.mpr hwrite] at hget
      cases hget
    refine ⟨_, rfl, ?_⟩
    by_cases hflush : Move.flush ∈ moves
    · exact settled_of_flush hformed hrests hno hflush hallows
    · exact settled_of_still hrests hno hflush hallows

/-! ### The read is latched -/

/-- What a cycle makes of a bank. -/
structure Outcome (x : Bank) (moves : List Move) (x' : Bank) : Prop where
  /-- shapes and widths fit together as before -/
  formed : x'.Formed
  /-- nothing is under way -/
  rests : x'.Rests
  /-- the configuration is as before -/
  config : x'.config = x.config
  /-- the contents are those of the ideal memory -/
  contents : x'.contents = x.config.play x.contents moves
  /-- a read is latched: the element as it was with safe writes, and as it will be otherwise -/
  latches : ∀ {args : Record}, Move.read args ∈ moves → x'.latchFull.read = true ∧
    x'.latched.read = if x.config.safe then x.contents (target args)
      else x.config.play x.contents moves (target args)
  /-- without a read the latch holds its datum until it is fetched -/
  holds : (∀ args, Move.read args ∉ moves) → x'.latched.read = x.latched.read ∧
    (x'.latchFull.read = true ↔ x.latchFull.read = true ∧ Move.fetch ∉ moves)
  /-- a write waits if it has to -/
  deferred : ∀ {args : Record}, Move.write args ∈ moves →
    (x'.writeWaiting.read = true ↔
      x.config.safe = true ∧ ∃ args', Move.read args' ∈ moves ∧ target args' = target args) ∧
    (x'.writeWaiting.read = true → x'.delayedWrite.read = args)
  /-- an older write waits until it is flushed -/
  kept : (∀ args, Move.write args ∉ moves) →
    (x'.writeWaiting.read = true ↔ x.writeWaiting.read = true ∧ Move.flush ∉ moves) ∧
    x'.delayedWrite.read = x.delayedWrite.read

theorem Settled.frame {z : Bank} (hsettled : Settled x moves z) : z = { x with
    memory := z.memory
    writeWaiting := z.writeWaiting
    delayedWrite := z.delayedWrite
    readAddress := (x.posed moves).readAddress
    fetched := (x.posed moves).fetched
    writeAsked := (x.posed moves).writeAsked } := by
  rw [hsettled.untouched, untouched_posed x moves]

/-- The edge after the latch was dealt with. -/
theorem Settled.outcome {z : Bank} (hsettled : Settled x moves z) (hformed : x.Formed)
    (hrests : x.Rests) {latched : Register Bits} {latchFull : Register Bool}
    (hwidth : latched.commit.read.width = x.width)
    (hlatches : ∀ {args : Record}, Move.read args ∈ moves → latchFull.commit.read = true ∧
      latched.commit.read = z.commit.stored (target args))
    (hholds : (∀ args, Move.read args ∉ moves) → latched.commit.read = x.latched.read ∧
      (latchFull.commit.read = true ↔ x.latchFull.read = true ∧ Move.fetch ∉ moves)) :
    Outcome x moves ({ z with latched := latched, latchFull := latchFull } : Bank).commit := by
  have hz := hsettled.frame
  obtain ⟨hreadIdle, hfetchedIdle, hwriteIdle⟩ := posed_idle x moves
  have hfilled := hsettled.filled
  have hwaiting := hsettled.waiting
  exact
    { formed := by
        rw [hz]
        exact ⟨hformed.width, hformed.width_pos, hformed.chunks, hformed.readOutput, hformed.data,
          hformed.mask⟩
      rests :=
        { filled := ⟨hfilled.idle, hfilled.size, hfilled.width⟩
          latchFull := rfl
          latched := rfl
          writeWaiting := rfl
          delayedWrite := rfl
          readAddress := by
            rw [hz]
            exact ⟨rfl, hreadIdle.trans hrests.readAddress.2⟩
          fetched := by
            rw [hz]
            exact ⟨rfl, hfetchedIdle.trans hrests.fetched.2⟩
          writeAsked := by
            rw [hz]
            exact ⟨rfl, hwriteIdle.trans hrests.writeAsked.2⟩
          latched_width := by
            refine hwidth.trans ?_
            rw [hz]
            rfl
          waiting := by
            intro h
            have hfits := hwaiting h
            rw [hz]
            rw [hz] at hfits
            exact hfits }
      config := by
        rw [hz]
        rfl
      contents := hsettled.contents
      latches := by
        intro args hread
        obtain ⟨hfull, hdatum⟩ := hlatches hread
        exact ⟨hfull, hdatum.trans (hsettled.seen hread)⟩
      holds := hholds
      deferred := hsettled.deferred
      kept := hsettled.kept }

theorem exists_upcoming {z : Bank} (hlisted : z.memory.Listed) (hfilled : z.commit.Filled)
    {address : Nat} (hlt : address < z.config.count) :
    z.memory.upcoming address = .ok (z.commit.stored address) := by
  obtain ⟨c, hc, -, hvalue⟩ := hfilled.exists_cell hlt
  have hcommit : z.memory.commit.cells[address]? = some c := hc
  rw [hlisted.getElem?_commit] at hcommit
  obtain ⟨c', hc', rfl⟩ := Option.map_eq_some_iff.mp hcommit
  exact RegisterArray.upcoming_eq_ok.mpr ⟨c', hc', hvalue⟩

/-- The combinational logic succeeds, and the edge after it leads to the outcome of the cycle. -/
theorem exists_settle (hformed : x.Formed) (hrests : x.Rests) (hallows : Allows bank view x moves) :
    ∃ w, (x.posed moves).settle = .ok w ∧ Outcome x moves w.commit := by
  obtain ⟨z, hz, hsettled⟩ := exists_settleWrite hformed hrests hallows
  have hframe := hsettled.frame
  have hlatchFull : z.latchFull = x.latchFull := (congrArg Bank.latchFull hframe :)
  have hlatched : z.latched = x.latched := (congrArg Bank.latched hframe :)
  have hfetched : z.fetched = (x.posed moves).fetched := (congrArg Bank.fetched hframe :)
  have hreadAddress : z.readAddress = (x.posed moves).readAddress :=
    (congrArg Bank.readAddress hframe :)
  have hconfig : z.config = x.config := (congrArg Bank.config hframe :)
  have hwidth : z.width = x.width := (congrArg Bank.width hframe :)
  have hkept : ∀ r : Register Bits, r = x.latched → r.commit.read = x.latched.read := by
    rintro r rfl
    rw [Register.commit_of_idle hrests.latched]
  have haddressed {address : Nat} : z.readAddress.get = some address ↔
      ∃ args, Move.read args ∈ moves ∧ target args = address := by
    rw [hreadAddress]
    exact hrests.get_readAddress_posed hallows.once
  have hfetches : z.fetched.get = true ↔ Move.fetch ∈ moves := by
    rw [hfetched]
    exact hrests.get_fetched_posed hallows.once
  unfold settle
  rw [hz, ok_bind, settleRead]
  cases hget : z.readAddress.get with
  | some address =>
    obtain ⟨args, hread, rfl⟩ := haddressed.mp hget
    obtain ⟨-, address, haddress, hlt⟩ := hallows.fits _ hread
    have hupcoming := exists_upcoming hsettled.listed hsettled.filled (hconfig ▸ hlt)
    rw [target_of_addressOf haddress] at hget ⊢
    simp only [hupcoming, ok_bind, hlatched, hlatchFull, Register.write_of_idle hrests.latched,
      Register.write_of_idle hrests.latchFull]
    refine ⟨_, rfl, hsettled.outcome hformed hrests ?_ ?_ ?_⟩
    · exact (hsettled.filled.width_stored address).trans hwidth
    · intro args' hread'
      have haddress' : target args' = address := by
        rw [haddressed.mpr ⟨args', hread', rfl⟩] at hget
        exact Option.some.inj hget
      rw [haddress']
      exact ⟨rfl, rfl⟩
    · exact fun hno => absurd hread (hno args)
  | none =>
    have hno : ∀ args, Move.read args ∉ moves := by
      intro args hread
      rw [haddressed.mpr ⟨args, hread, rfl⟩] at hget
      cases hget
    have hstill : (z.latched.commit.read).width = x.width := by
      rw [hkept _ hlatched]
      exact hrests.latched_width
    cases hfetch : z.fetched.get with
    | true =>
      simp only [if_true, hlatchFull, Register.write_of_idle hrests.latchFull, ok_bind]
      refine ⟨_, rfl, hsettled.outcome hformed hrests hstill (fun hmem => absurd hmem (hno _)) ?_⟩
      intro _
      refine ⟨hkept _ hlatched, ?_⟩
      rw [Register.read_commit_write]
      exact ⟨fun h => absurd h Bool.false_ne_true, fun h => absurd (hfetches.mp hfetch) h.2⟩
    | false =>
      simp only [Bool.false_eq_true, if_false]
      refine ⟨z, rfl, ?_⟩
      have houtcome : Outcome x moves
          ({ z with latched := z.latched, latchFull := z.latchFull } : Bank).commit := by
        refine hsettled.outcome hformed hrests hstill (fun hmem => absurd hmem (hno _)) ?_
        intro _
        refine ⟨hkept _ hlatched, ?_⟩
        rw [hlatchFull, Register.commit_of_idle hrests.latchFull]
        refine ⟨fun h => ⟨h, fun hmem => ?_⟩, fun h => h.1⟩
        rw [hfetches.mpr hmem] at hfetch
        cases hfetch
      exact houtcome

/-- A cycle that makes allowed moves succeeds; the answers are those of the state before it. -/
theorem exists_cycle (hformed : x.Formed) (hrests : x.Rests) (hallows : Allows bank view x moves) :
    ∃ x', bank.block.cycle view x (moves.map Move.use) = .ok (moves.map x.answer, x') ∧
      Outcome x moves x' := by
  obtain ⟨w, hw, houtcome⟩ := exists_settle hformed hrests hallows
  refine ⟨w.commit, Block.cycle_eq_ok.mpr ⟨x.posed moves, w, ?_, hw, rfl⟩, houtcome⟩
  exact useAll_eq hformed hrests hallows

end Cycle

end Bank

end GuardedActions
