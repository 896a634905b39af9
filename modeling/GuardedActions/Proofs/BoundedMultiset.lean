import GuardedActions.Proofs.Block.AssociativeMemory
import Mathlib.Algebra.Order.Sub.Unbundled.Basic
import Mathlib.Data.Multiset.AddSub

/-!
# An associative memory is a bounded multiset

The pairs that an associative memory holds are those that were pushed less those that were popped, however
often a key comes and whichever slots are used again.  `bounded_multiset` says so for every run: a push is
ready while there is room, a pop finds its key if some pair has it, and every cycle succeeds.
-/

set_option autoImplicit false

namespace GuardedActions

variable {σ : Type}

namespace AssociativeMemory

/-! ## Histories -/

/-- The pair that a pop took away, told by its key and its answer. -/
def taken? : Move × Record → Option (Bits × Bits)
  | (.push _, _) => none
  | (.pop args, answer) =>
    match args.get "addr", answer.get "data", answer.get "not_found" with
    | .ok key, .ok datum, .ok flag => if flag.toNat = 0 then some (key, datum) else none
    | _, _, _ => none

/-- The pairs that some calls pushed. -/
def pushedIn (calls : List (Move × Record)) : Multiset (Bits × Bits) :=
  (calls.filterMap fun call => coming? call.1 : List (Bits × Bits))

/-- The pairs that some calls, with their answers, popped. -/
def poppedIn (calls : List (Move × Record)) : Multiset (Bits × Bits) :=
  (calls.filterMap taken? : List (Bits × Bits))

/-- The pairs that were pushed and not yet popped in the cycles of a history. -/
def held (history : List (List (Move × Record))) : Multiset (Bits × Bits) :=
  pushedIn history.flatten - poppedIn history.flatten

theorem pushedIn_append (calls later : List (Move × Record)) :
    pushedIn (calls ++ later) = pushedIn calls + pushedIn later := by
  rw [pushedIn, List.filterMap_append, ← Multiset.coe_add]
  rfl

theorem poppedIn_append (calls later : List (Move × Record)) :
    poppedIn (calls ++ later) = poppedIn calls + poppedIn later := by
  rw [poppedIn, List.filterMap_append, ← Multiset.coe_add]
  rfl

variable (σ) in
/-- The states that a memory comes to when every cycle makes some of the moves that it allows; the
history has the answers too. -/
inductive Runs (memory : AssociativeMemory) :
    List (List (Move × Record)) → AssociativeMemory → Prop where
  /-- before the first cycle -/
  | start : Runs memory [] memory
  /-- one more cycle -/
  | cycle {history : List (List (Move × Record))} {x x' : AssociativeMemory} {view : View σ}
    {moves : List Move} {answers : List Record} (run : Runs memory history x)
    (allows : Allows memory view x moves)
    (edge : memory.block.cycle view x (moves.map Move.use) = .ok (answers, x')) :
    Runs memory (history ++ [moves.zip answers]) x'

/-! ## Answers -/

section Answers

variable {x : AssociativeMemory}

theorem Formed.width_pos (h : x.Formed) : 0 < x.dataShape.width := by
  refine x.popOutput.width_pos ⟨"data", x.dataShape.width⟩ ?_
  simp [h.popOutput]

/-- What a pop returns: the flag, and its datum fitted to the shape. -/
theorem Formed.get_popResult (h : x.Formed) (found : Option Bits) :
    (x.popResult found).get "not_found" = .ok (Bits.ofNat 1 (if found.isSome then 0 else 1)) ∧
      (x.popResult found).get "data" = .ok (Bits.fit x.dataShape.width (found.getD (Bits.ofNat 1 0))) := by
  have hflag : x.popOutput.fields[1]? = some ⟨"not_found", 1⟩ := by rw [h.popOutput]; rfl
  have hdata : x.popOutput.fields[0]? = some ⟨"data", x.dataShape.width⟩ := by rw [h.popOutput]; rfl
  cases found with
  | none =>
    have hget : ∀ {i : Nat} {f : Field} {v : Bits}, x.popOutput.fields[i]? = some f →
        [Bits.ofNat 1 0, Bits.ofNat 1 1][i]? = some v →
        (x.popResult none).get f.name = .ok (Bits.fit f.width v) := Record.get_fill
    exact ⟨hget hflag rfl, hget hdata rfl⟩
  | some datum =>
    have hget : ∀ {i : Nat} {f : Field} {v : Bits}, x.popOutput.fields[i]? = some f →
        [datum, Bits.ofNat 1 0][i]? = some v →
        (x.popResult (some datum)).get f.name = .ok (Bits.fit f.width v) := Record.get_fill
    exact ⟨hget hflag rfl, hget hdata rfl⟩

theorem Formed.fit_zero (h : x.Formed) :
    Bits.fit x.dataShape.width (Bits.ofNat 1 0) = Bits.ofNat x.dataShape.width 0 := by
  refine Bits.ext_toNat (Bits.width_fit_of_pos h.width_pos _) ?_
  rw [Bits.toNat_fit h.width_pos, Bits.toNat_ofNat, Bits.toNat_ofNat, Nat.zero_mod, Nat.zero_mod]

/-- The datum of a slot is kept by the shape of the answer. -/
theorem Rests.fit_slot (h : x.Rests) (hformed : x.Formed) {i : Nat} {key datum : Bits}
    (hslot : x.slot? i = some (key, datum)) : Bits.fit x.dataShape.width datum = datum := by
  obtain ⟨used, key', datum', -, -, hdatum', heq⟩ := h.slot?_eq (h.lt_of_slot? hslot)
  have hsame : datum' = datum := by
    rw [hslot] at heq
    split at heq
    · exact (Prod.mk.inj (Option.some.inj heq)).2.symm
    · cases heq
  have hwidth := h.width (hsame ▸ hdatum')
  rw [← hwidth]
  exact Bits.fit_width (hwidth ▸ hformed.width_pos)

/-- What a pop of a key answers, given the pairs that are held and those that leave. -/
structure Pops (x : AssociativeMemory) (bag gone : Multiset (Bits × Bits)) (key : Bits)
    (answer : Record) : Prop where
  /-- the flag is not set if and only if some pair has the key -/
  found_iff : answer.get "not_found" = .ok (Bits.ofNat 1 0) ↔ ∃ datum, (key, datum) ∈ bag
  /-- then the datum is that of the lowest slot with the key, and this pair leaves, once -/
  found : (∃ datum, (key, datum) ∈ bag) → ∃ i datum, x.slot? i = some (key, datum) ∧
    (∀ j < i, ∀ datum', x.slot? j ≠ some (key, datum')) ∧ answer.get "data" = .ok datum ∧
    (key, datum) ∈ bag ∧ gone = {(key, datum)}
  /-- otherwise the flag is set, the datum is zero, and nothing leaves -/
  missed : (∀ datum, (key, datum) ∉ bag) → answer.get "not_found" = .ok (Bits.ofNat 1 1) ∧
    answer.get "data" = .ok (Bits.ofNat x.dataShape.width 0) ∧ gone = 0

/-- What the answer of a move tells about the pair that it took away is so. -/
theorem Rests.taken?_answer (h : x.Rests) (hformed : x.Formed) {move : Move} (hfits : x.Fits move) :
    taken? (move, x.answer move) = x.leaving? move := by
  cases move with
  | push args => rfl
  | pop args =>
    obtain ⟨key, hkey⟩ := hformed.exists_key hfits
    obtain ⟨hflag, hdata⟩ := hformed.get_popResult ((x.leaving? (.pop args)).map Prod.snd)
    rw [taken?, answer, hkey, hdata, hflag]
    simp only [leaving?, hkey]
    cases hhit : x.hit? key with
    | none => rfl
    | some i =>
      obtain ⟨datum, hslot, -⟩ := h.of_hit? hhit
      simp only [Option.bind_some, hslot, Option.map_some, Option.getD_some, h.fit_slot hformed hslot]
      rfl

theorem Rests.mem_contents (h : x.Rests) {i : Nat} {pair : Bits × Bits} (hi : x.slot? i = some pair) :
    pair ∈ x.contents :=
  (Multiset.mem_filterMap x.slot? _).mpr ⟨i, Multiset.mem_range.mpr (h.lt_of_slot? hi), hi⟩

theorem Rests.pops (h : x.Rests) (hformed : x.Formed) {args : Record} {key : Bits}
    (hkey : args.get "addr" = .ok key) {gone : Multiset (Bits × Bits)}
    (hgone : gone = ((x.leaving? (.pop args)).toList : Multiset (Bits × Bits))) :
    Pops x x.contents gone key (x.answer (.pop args)) := by
  have hleaving : x.leaving? (.pop args) = (x.hit? key).bind x.slot? := by rw [leaving?, hkey]
  have hsome : (x.hit? key).isSome = true ↔ ∃ datum, (key, datum) ∈ x.contents := h.isSome_hit?
  rw [answer, hgone, hleaving]
  cases hhit : x.hit? key with
  | none =>
    obtain ⟨hflag, hdata⟩ := hformed.get_popResult none
    have habsent : ¬ ∃ datum, (key, datum) ∈ x.contents := by
      rw [← hsome, hhit]
      exact Bool.false_ne_true
    refine ⟨⟨fun hzero => ?_, fun hmem => absurd hmem habsent⟩, fun hmem => absurd hmem habsent,
      fun _ => ⟨hflag, hdata.trans (congrArg _ hformed.fit_zero), rfl⟩⟩
    have hone := Except.ok.inj (hflag.symm.trans hzero)
    simp [Bits.ofNat] at hone
  | some i =>
    obtain ⟨datum, hslot, hleast⟩ := h.of_hit? hhit
    obtain ⟨hflag, hdata⟩ := hformed.get_popResult (some datum)
    have hmem := h.mem_contents hslot
    rw [Option.bind_some, hslot]
    refine ⟨⟨fun _ => ⟨datum, hmem⟩, fun _ => hflag⟩, fun _ => ?_, fun hno => absurd hmem (hno datum)⟩
    exact ⟨i, datum, hslot, hleast, hdata.trans (congrArg _ (h.fit_slot hformed hslot)), hmem, rfl⟩

end Answers

/-! ## Every run -/

section Runs

variable {memory x x' : AssociativeMemory} {view : View σ} {moves : List Move}
  {history : List (List (Move × Record))}

/-- What a run keeps: nothing waits, and the pairs in the slots, with those that were popped, are those
that were pushed. -/
structure Tracks (entries : Nat) (history : List (List (Move × Record))) (x : AssociativeMemory) :
    Prop where
  /-- shapes and widths fit together -/
  formed : x.Formed
  /-- no write waits -/
  rests : x.Rests
  /-- the number of slots stays -/
  entries : x.entries = entries
  /-- every pair that was pushed is in a slot or was popped -/
  conserved : x.contents + poppedIn history.flatten = pushedIn history.flatten

theorem Tracks.held_eq {entries : Nat} (h : Tracks entries history x) : held history = x.contents := by
  rw [held, ← h.conserved, add_tsub_cancel_right]

/-- Of moves whose actions differ, one decides what is collected from all with its action. -/
theorem filterMap_of_once {α : Type} (honce : (moves.map Move.action).Nodup) {move : Move}
    (hmem : move ∈ moves) {f : Move → Option α}
    (hf : ∀ other : Move, other.action ≠ move.action → f other = none) :
    moves.filterMap f = (f move).toList := by
  obtain ⟨before, after, rfl⟩ := List.append_of_mem hmem
  rw [List.map_append, List.map_cons, List.nodup_append, List.nodup_cons] at honce
  obtain ⟨-, ⟨hafter, -⟩, hbefore⟩ := honce
  have hbefore' : before.filterMap f = [] := by
    refine List.filterMap_eq_nil_iff.mpr fun other hother => hf other ?_
    exact hbefore _ (List.mem_map_of_mem hother) _ List.mem_cons_self
  have hafter' : after.filterMap f = [] := by
    refine List.filterMap_eq_nil_iff.mpr fun other hother => hf other fun hsame => hafter ?_
    exact hsame ▸ List.mem_map_of_mem hother
  rw [List.filterMap_append, List.filterMap_cons, hbefore', hafter']
  cases f move with
  | none => rfl
  | some a => rfl

theorem pushedIn_zip (x : AssociativeMemory) (moves : List Move) :
    pushedIn (moves.zip (moves.map x.answer)) = (moves.filterMap coming? : List (Bits × Bits)) := by
  rw [← List.map_prod_left_eq_zip, pushedIn, List.filterMap_map]
  rfl

theorem Tracks.poppedIn_zip {entries : Nat} (h : Tracks entries history x)
    (hallows : Allows memory view x moves) :
    poppedIn (moves.zip (moves.map x.answer)) = (moves.filterMap x.leaving? : List (Bits × Bits)) := by
  rw [← List.map_prod_left_eq_zip, poppedIn, List.filterMap_map]
  refine congrArg _ (List.filterMap_congr fun move hmove => ?_)
  exact h.rests.taken?_answer h.formed (hallows.fits move hmove)

/-- A cycle keeps what a run keeps. -/
theorem Tracks.cycle {entries : Nat} (h : Tracks entries history x)
    (hallows : Allows memory view x moves) (houtcome : Outcome x moves x') :
    Tracks entries (history ++ [moves.zip (moves.map x.answer)]) x' where
  formed := by
    obtain ⟨hpush, hpop, hout⟩ := h.formed
    rw [houtcome.frame]
    exact ⟨hpush, hpop, hout⟩
  rests := houtcome.rests
  entries := by
    rw [houtcome.frame]
    exact h.entries
  conserved := by
    rw [List.flatten_append, List.flatten_singleton, pushedIn_append, poppedIn_append,
      pushedIn_zip, h.poppedIn_zip hallows, ← h.conserved, ← add_assoc, add_right_comm,
      houtcome.contents, add_right_comm]

/-- A memory can be built unless it has no slots or its keys or data have no bits. -/
theorem exists_build (name : String) {keyShape dataShape : Shape} {entries : Nat}
    (hentries : 0 < entries) (hkey : 0 < keyShape.width) (hdata : 0 < dataShape.width) :
    ∃ memory, build name keyShape dataShape entries = .ok memory := by
  have hpush : ∃ s, Shape.ofFields [⟨"addr", keyShape.width⟩, ⟨"data", dataShape.width⟩] = .ok s :=
    Shape.exists_ofFields (by simp [hkey, hdata]) (by simp)
  have hpop : ∃ s, Shape.ofFields [⟨"addr", keyShape.width⟩] = .ok s :=
    Shape.exists_ofFields (by simp [hkey]) (by simp)
  have hout : ∃ s, Shape.ofFields [⟨"data", dataShape.width⟩, ⟨"not_found", 1⟩] = .ok s :=
    Shape.exists_ofFields (by simp [hdata]) (by simp)
  obtain ⟨pushInput, hpush⟩ := hpush
  obtain ⟨popInput, hpop⟩ := hpop
  obtain ⟨popOutput, hout⟩ := hout
  have hencoder : Encoder.build .linear entries 1 = .ok ⟨entries, 1, hentries, Nat.one_pos⟩ :=
    dif_pos ⟨hentries, Nat.one_pos⟩
  simp only [build, hencoder, hpush, hpop, hout, ok_bind]
  exact ⟨_, rfl⟩

theorem contents_eq_zero (hvalid : ∀ i, x.valid.value? i ≠ some true) : x.contents = 0 := by
  refine Multiset.eq_zero_of_forall_notMem fun pair hpair => ?_
  obtain ⟨i, -, hslot⟩ := (Multiset.mem_filterMap _ _).mp hpair
  rw [slot?, if_neg (hvalid i)] at hslot
  cases hslot

/-- A memory that was just built is empty. -/
theorem tracks_build {name : String} {keyShape dataShape : Shape} {entries : Nat}
    (hbuild : build name keyShape dataShape entries = .ok memory) : Tracks entries [] memory := by
  unfold build at hbuild
  obtain ⟨encoder, -, hbuild⟩ := bind_eq_ok.mp hbuild
  obtain ⟨pushInput, hpush, hbuild⟩ := bind_eq_ok.mp hbuild
  obtain ⟨popInput, hpop, hbuild⟩ := bind_eq_ok.mp hbuild
  obtain ⟨popOutput, hout, hbuild⟩ := bind_eq_ok.mp hbuild
  obtain rfl := Except.ok.inj hbuild
  refine ⟨⟨?_, ?_, ?_⟩, ⟨?_, ?_, ?_, ?_⟩, rfl, ?_⟩
  · exact Shape.ofFields_fields hpush
  · exact Shape.ofFields_fields hpop
  · exact Shape.ofFields_fields hout
  · exact ⟨RegisterArray.idle_new _ _ _, RegisterArray.size_new _ _ _⟩
  · exact ⟨RegisterArray.idle_new _ _ _, RegisterArray.size_new _ _ _⟩
  · exact ⟨RegisterArray.idle_new _ _ _, RegisterArray.size_new _ _ _⟩
  · intro i datum hdatum
    rw [RegisterArray.value?_new hdatum]
    rfl
  · rw [contents_eq_zero]
    · rfl
    · intro i hvalid
      cases RegisterArray.value?_new hvalid

theorem tracks_of_runs {name : String} {keyShape dataShape : Shape} {entries : Nat}
    (hbuild : build name keyShape dataShape entries = .ok memory) (hrun : Runs σ memory history x) :
    Tracks entries history x := by
  induction hrun with
  | start => exact tracks_build hbuild
  | cycle run allows edge ih =>
    obtain ⟨x', hcycle, houtcome⟩ := exists_cycle ih.formed ih.rests allows
    obtain ⟨rfl, rfl⟩ := Prod.mk.inj (Except.ok.inj (hcycle.symm.trans edge))
    exact ih.cycle allows houtcome

/-- What a cycle answers and makes of a memory, told by the pairs that were held before it. -/
structure Serves (history : List (List (Move × Record))) (moves : List Move) (answers : List Record)
    (x x' : AssociativeMemory) : Prop where
  /-- every move has its answer -/
  length : answers.length = moves.length
  /-- a pop is answered from the pairs held before the cycle, and takes away what it says -/
  pop : ∀ {i : Nat} {args : Record}, moves[i]? = some (.pop args) → ∃ key answer,
    args.get "addr" = .ok key ∧ answers[i]? = some answer ∧
      Pops x (held history) (poppedIn (moves.zip answers)) key answer
  /-- without a pop nothing leaves -/
  stays : (∀ args, Move.pop args ∉ moves) → poppedIn (moves.zip answers) = 0
  /-- a push adds its pair, once -/
  push : ∀ {args : Record}, Move.push args ∈ moves → ∃ key datum, args.get "addr" = .ok key ∧
    args.get "data" = .ok datum ∧ pushedIn (moves.zip answers) = {(key, datum)}
  /-- without a push nothing comes -/
  closed : (∀ args, Move.push args ∉ moves) → pushedIn (moves.zip answers) = 0
  /-- what leaves was held before the cycle -/
  leaves : poppedIn (moves.zip answers) ≤ held history
  /-- after the cycle the memory holds the pairs that did not leave and those that came -/
  held : held (history ++ [moves.zip answers]) =
    held history - poppedIn (moves.zip answers) + pushedIn (moves.zip answers)
  /-- the number of slots in use is the number of pairs held -/
  used : x'.used = (AssociativeMemory.held (history ++ [moves.zip answers])).card

theorem filterMap_leaving?_of_mem (honce : (moves.map Move.action).Nodup) {args : Record}
    (hmem : Move.pop args ∈ moves) :
    moves.filterMap x.leaving? = (x.leaving? (.pop args)).toList := by
  refine filterMap_of_once honce hmem fun other hother => ?_
  cases other with
  | push args' => rfl
  | pop args' => exact absurd rfl hother

theorem filterMap_coming?_of_mem (honce : (moves.map Move.action).Nodup) {args : Record}
    (hmem : Move.push args ∈ moves) : moves.filterMap coming? = (pairOf args).toList := by
  refine filterMap_of_once honce hmem fun other hother => ?_
  cases other with
  | push args' => exact absurd rfl hother
  | pop args' => rfl

theorem filterMap_leaving?_eq_nil (hnone : ∀ args, Move.pop args ∉ moves) :
    moves.filterMap x.leaving? = [] := by
  refine List.filterMap_eq_nil_iff.mpr fun move hmove => ?_
  cases move with
  | push args => rfl
  | pop args => exact absurd hmove (hnone args)

theorem filterMap_coming?_eq_nil (hnone : ∀ args, Move.push args ∉ moves) :
    moves.filterMap coming? = [] := by
  refine List.filterMap_eq_nil_iff.mpr fun move hmove => ?_
  cases move with
  | push args => exact absurd hmove (hnone args)
  | pop args => rfl

/-- The pairs that leave in a cycle are in the slots before it. -/
theorem Rests.leaving_le (h : x.Rests) (honce : (moves.map Move.action).Nodup) :
    ((moves.filterMap x.leaving? : List (Bits × Bits)) : Multiset (Bits × Bits)) ≤ x.contents := by
  by_cases hpop : ∃ args, Move.pop args ∈ moves
  · obtain ⟨args, hmem⟩ := hpop
    rw [filterMap_leaving?_of_mem honce hmem]
    cases hleaving : x.leaving? (.pop args) with
    | none => exact Multiset.zero_le _
    | some pair =>
      refine Multiset.singleton_le.mpr ?_
      cases hkey : args.get "addr" with
      | ok key =>
        rw [leaving?, hkey] at hleaving
        obtain ⟨i, -, hslot⟩ := Option.bind_eq_some_iff.mp hleaving
        exact h.mem_contents hslot
      | error fault =>
        rw [leaving?, hkey] at hleaving
        cases hleaving
  · rw [filterMap_leaving?_eq_nil fun args hmem => hpop ⟨args, hmem⟩]
    exact Multiset.zero_le _

/-- A cycle of a memory serves the moves that it allows. -/
theorem Tracks.serves {entries : Nat} (h : Tracks entries history x)
    (hallows : Allows memory view x moves) (houtcome : Outcome x moves x') :
    Serves history moves (moves.map x.answer) x x' := by
  have hnext := h.cycle hallows houtcome
  have hpopped := h.poppedIn_zip hallows
  have hpushed := pushedIn_zip x moves
  have hleaves : poppedIn (moves.zip (moves.map x.answer)) ≤ held history := by
    rw [hpopped, h.held_eq]
    exact h.rests.leaving_le hallows.once
  refine ⟨List.length_map _, ?_, ?_, ?_, ?_, hleaves, ?_, ?_⟩
  · intro i args hi
    have hmem : Move.pop args ∈ moves := List.mem_of_getElem? hi
    obtain ⟨key, hkey⟩ := h.formed.exists_key (hallows.fits _ hmem)
    refine ⟨key, x.answer (.pop args), hkey, by rw [List.getElem?_map, hi]; rfl, ?_⟩
    rw [h.held_eq]
    refine h.rests.pops h.formed hkey ?_
    rw [hpopped, filterMap_leaving?_of_mem hallows.once hmem]
  · intro hnone
    rw [hpopped, filterMap_leaving?_eq_nil hnone]
    rfl
  · intro args hmem
    obtain ⟨key, datum, hkey, hdatum, -, hpair⟩ := h.formed.exists_pair (hallows.fits _ hmem)
    refine ⟨key, datum, hkey, hdatum, ?_⟩
    rw [hpushed, filterMap_coming?_of_mem hallows.once hmem, hpair]
    rfl
  · intro hnone
    rw [hpushed, filterMap_coming?_eq_nil hnone]
    rfl
  · have hcontents := houtcome.contents
    rw [← hpopped, ← hpushed] at hcontents
    rw [hnext.held_eq, tsub_add_eq_add_tsub hleaves, h.held_eq, ← hcontents, add_tsub_cancel_right]
  · rw [hnext.held_eq]
    exact hnext.rests.used_eq

/-- A memory with slots and with keys and data that have bits can be built.  In every run it holds as many
pairs as slots are in use; a push is ready as long as there are fewer pairs than slots, a pop is always
ready, and every cycle of allowed moves succeeds and serves them. -/
theorem bounded_multiset (name : String) {keyShape dataShape : Shape} {entries : Nat}
    (hentries : 0 < entries) (hkey : 0 < keyShape.width) (hdata : 0 < dataShape.width) :
    ∃ memory, build name keyShape dataShape entries = .ok memory ∧
      ∀ {history : List (List (Move × Record))} {x : AssociativeMemory}, Runs σ memory history x →
        x.used = (held history).card ∧
        (∀ (view : View σ) (args : Record), memory.block.offers view x (Move.push args).use =
          .ok (decide ((held history).card < entries))) ∧
        (∀ (view : View σ) (args : Record), memory.block.offers view x (Move.pop args).use = .ok true) ∧
        ∀ (view : View σ) (moves : List Move), Allows memory view x moves → ∃ answers x',
          memory.block.cycle view x (moves.map Move.use) = .ok (answers, x') ∧
            Serves history moves answers x x' := by
  obtain ⟨memory, hbuild⟩ := exists_build name hentries hkey hdata
  refine ⟨memory, hbuild, fun {history x} hrun => ?_⟩
  have htracks := tracks_of_runs hbuild hrun
  refine ⟨?_, fun view args => ?_, fun view => memory.offers_pop view x, fun view moves hallows => ?_⟩
  · rw [htracks.held_eq]
    exact htracks.rests.used_eq
  · rw [offers_push, htracks.held_eq, ← htracks.entries, Except.ok.injEq, Bool.eq_iff_iff,
      decide_eq_true_iff]
    exact htracks.rests.hasRoom_iff
  · obtain ⟨x', hcycle, houtcome⟩ := exists_cycle htracks.formed htracks.rests hallows
    exact ⟨_, x', hcycle, htracks.serves hallows houtcome⟩

end Runs

/-! ## A key that comes twice -/

namespace Cam

/-- Keys of four bits. -/
def keyShape : Shape := ⟨[⟨"tag", 4⟩], by decide, by decide⟩

/-- Data of a byte. -/
def dataShape : Shape := ⟨[⟨"value", 8⟩], by decide, by decide⟩

/-- The shape of a push. -/
def pushInput : Shape := ⟨[⟨"addr", 4⟩, ⟨"data", 8⟩], by decide, by decide⟩

/-- The shape of a pop. -/
def popInput : Shape := ⟨[⟨"addr", 4⟩], by decide, by decide⟩

/-- A memory of two slots before the first cycle. -/
def memory : AssociativeMemory where
  name := "cam"
  keyShape := keyShape
  dataShape := dataShape
  entries := 2
  valid := RegisterArray.new ⟨"cam", "valid"⟩ 2 false
  keys := RegisterArray.new ⟨"cam", "keys"⟩ 2 (Bits.ofNat 4 0)
  data := RegisterArray.new ⟨"cam", "data"⟩ 2 (Bits.ofNat 8 0)
  pushInput := pushInput
  popInput := popInput
  popOutput := ⟨[⟨"data", 8⟩, ⟨"not_found", 1⟩], by decide, by decide⟩

/-- A push of a key and a byte. -/
def push (key byte : Nat) : Move := .push (Record.fill pushInput [Bits.ofNat 4 key, Bits.ofNat 8 byte])

/-- A pop of a key. -/
def pop (key : Nat) : Move := .pop (Record.fill popInput [Bits.ofNat 4 key])

/-- An empty scene. -/
def view : View Unit := ⟨(), ⟨0, none, fun _ _ => none, fun _ => false, fun _ => []⟩⟩

/-- The answers of a cycle and the memory after it. -/
def next (x : AssociativeMemory) (moves : List Move) : List Record × AssociativeMemory :=
  match memory.block.cycle view x (moves.map Move.use) with
  | .ok r => r
  | .error _ => ([], x)

/-- The memory after a key was pushed. -/
def single : AssociativeMemory := (next memory [push 3 0xAA]).2

/-- The memory after the key was pushed a second time. -/
def double : AssociativeMemory := (next single [push 3 0xBB]).2

/-- The memory after the first of the two pairs was popped. -/
def freed : AssociativeMemory := (next double [pop 3]).2

/-- What was asked and answered in these three cycles. -/
def history : List (List (Move × Record)) :=
  [[push 3 0xAA].zip (next memory [push 3 0xAA]).1, [push 3 0xBB].zip (next single [push 3 0xBB]).1,
    [pop 3].zip (next double [pop 3]).1]

end Cam

theorem build_cam : build "cam" Cam.keyShape Cam.dataShape 2 = .ok Cam.memory := rfl

theorem allows_cam_push {x : AssociativeMemory} {key byte : Nat} (hroom : x.hasRoom = true)
    (hshape : x.pushInput = Cam.pushInput) : Allows Cam.memory Cam.view x [Cam.push key byte] where
  offered := by
    intro move hmove
    obtain rfl := List.mem_singleton.mp hmove
    exact (offers_push Cam.memory Cam.view x _).trans (congrArg _ hroom)
  fits := by
    intro move hmove
    obtain rfl := List.mem_singleton.mp hmove
    exact hshape.symm
  once := List.nodup_singleton _

theorem allows_cam_pop {x : AssociativeMemory} {key : Nat} (hshape : x.popInput = Cam.popInput) :
    Allows Cam.memory Cam.view x [Cam.pop key] where
  offered := by
    intro move hmove
    obtain rfl := List.mem_singleton.mp hmove
    rfl
  fits := by
    intro move hmove
    obtain rfl := List.mem_singleton.mp hmove
    exact hshape.symm
  once := List.nodup_singleton _

theorem runs_cam : Runs Unit Cam.memory Cam.history Cam.freed :=
  .cycle (.cycle (.cycle .start (allows_cam_push rfl rfl) rfl) (allows_cam_push rfl rfl) rfl)
    (allows_cam_pop rfl) rfl

/-- The slot that was emptied still shows the key, but a pop finds the other pair, even while the slot is
filled again. -/
theorem cam_bounded_multiset :
    0 < Cam.keyShape.width ∧ 0 < Cam.dataShape.width ∧
    build "cam" Cam.keyShape Cam.dataShape 2 = .ok Cam.memory ∧
    Runs Unit Cam.memory Cam.history Cam.freed ∧
    Allows Cam.memory Cam.view Cam.freed [Cam.pop 3, Cam.push 3 0xCC] ∧
    held Cam.history = {(Bits.ofNat 4 3, Bits.ofNat 8 0xBB)} ∧
    Cam.freed.keys.value? 0 = some (Bits.ofNat 4 3) ∧
    Cam.freed.used = (held Cam.history).card ∧
    ∃ answers x', Cam.memory.block.cycle Cam.view Cam.freed
        ([Cam.pop 3, Cam.push 3 0xCC].map Move.use) = .ok (answers, x') ∧
      Serves Cam.history [Cam.pop 3, Cam.push 3 0xCC] answers Cam.freed x' := by
  have hkey : 0 < Cam.keyShape.width := by decide
  have hdata : 0 < Cam.dataShape.width := by decide
  have hallows : Allows Cam.memory Cam.view Cam.freed [Cam.pop 3, Cam.push 3 0xCC] :=
    { offered := by
        intro move hmove
        rcases List.mem_cons.mp hmove with rfl | hmove
        · rfl
        · obtain rfl := List.mem_singleton.mp hmove
          rfl
      fits := by
        intro move hmove
        rcases List.mem_cons.mp hmove with rfl | hmove
        · rfl
        · obtain rfl := List.mem_singleton.mp hmove
          rfl
      once := by decide }
  obtain ⟨memory, hbuild, hruns⟩ := bounded_multiset (σ := Unit) "cam" Nat.two_pos hkey hdata
  obtain rfl : memory = Cam.memory := Except.ok.inj (hbuild.symm.trans build_cam)
  obtain ⟨hused, -, -, hcycle⟩ := hruns runs_cam
  exact ⟨hkey, hdata, hbuild, runs_cam, hallows, by decide, by decide, hused,
    hcycle Cam.view [Cam.pop 3, Cam.push 3 0xCC] hallows⟩

end AssociativeMemory

end GuardedActions
