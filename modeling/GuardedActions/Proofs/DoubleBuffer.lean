import GuardedActions.Proofs.Element.Family
import GuardedActions.Proofs.Element.Traffic

/-!
# Registered state is a double buffer with an atomic clock edge

`Machine.double_buffered` is about machines whose components own registers, register arrays and wires, and
about everything that is done to these: writes, edges and resets of single elements, of components and of
the whole machine, and writes that are refused.  Every element answers as the history of what was done
tells; the edge of the machine does to each element that a component owns what the edge of the element does,
in whatever order, and an array that visits the written elements only does what visiting all of them would.
-/

set_option autoImplicit false

namespace GuardedActions

/-! ## What an element answers -/

section Follows

variable {A τ : Type}

/-- A register answers as its history tells. -/
structure Register.Follows (t : Traffic A τ) (history : List A) (r : Register τ) : Prop where
  /-- a read gives the latest write that lasts, or the initial value -/
  read : t.Shows history r.start r.read
  /-- it tells whether a write waits -/
  hasWrite : r.hasWrite = true ↔ ∃ v, t.Waits history v
  /-- it refuses a second write, and nothing else -/
  write : ∀ (v : τ) (fault : Fault), r.write v = .error fault ↔
    (∃ w, t.Waits history w) ∧ fault = r.name.secondWrite .register
  /-- the upcoming value is the one that waits, or else the one that is read -/
  upcoming : ∀ v, r.upcoming = v ↔ t.Waits history v ∨ (∀ w, ¬ t.Waits history w) ∧ r.read = v
  /-- the edge makes the upcoming value visible -/
  next : r.commit.read = r.upcoming

/-- A register array answers as the histories of its elements tell. -/
structure RegisterArray.Follows (t : Nat → Traffic A τ) (history : List A) (a : RegisterArray τ) :
    Prop where
  /-- every access outside is refused -/
  outside : ∀ i, a.size ≤ i →
    a.read i = .error (.indexOutOfRange i a.name.element) ∧
    a.hasWrite i = .error (.indexOutOfRange i a.name.element) ∧
    a.upcoming i = .error (.indexOutOfRange i a.name.element) ∧
    ∀ v, a.write i v = .error (.indexOutOfRange i a.name.element)
  /-- a read gives the latest write that lasts, or the initial value -/
  read : ∀ i < a.size, ∃ v, a.read i = .ok v ∧ (t i).Shows history a.start v
  /-- it tells whether a write waits -/
  hasWrite : ∀ i < a.size, ∃ b, a.hasWrite i = .ok b ∧ (b = true ↔ ∃ v, (t i).Waits history v)
  /-- it refuses a second write of an element, and nothing else -/
  write : ∀ i < a.size, ∀ (v : τ) (fault : Fault), a.write i v = .error fault ↔
    (∃ w, (t i).Waits history w) ∧ fault = a.name.secondWrite (.arrayElement i)
  /-- the upcoming value is the one that waits, or else the one that is read, and the edge makes it
  visible -/
  upcoming : ∀ i < a.size, ∃ v, a.upcoming i = .ok v ∧ a.commit.read i = .ok v ∧
    ((t i).Waits history v ∨ (∀ w, ¬ (t i).Waits history w) ∧ a.read i = .ok v)
  /-- the elements that are listed as written are those for which a value waits -/
  dirty : ∀ i, i ∈ a.dirty ↔ i < a.size ∧ ∃ v, (t i).Waits history v
  /-- no element is listed twice -/
  nodup : a.dirty.Nodup
  /-- visiting the listed elements does what visiting all would -/
  commit : a.commit = a.commitAll

/-- A wire answers as its history tells. -/
structure Wire.Follows (t : Traffic A τ) (history : List A) (w : Wire τ) : Prop where
  /-- it has the value that drives it -/
  live : ∀ v, t.Waits history v → w.get = v
  /-- it is idle if nothing drives it -/
  idle : (∀ v, ¬ t.Waits history v) → w.get = w.idle
  /-- it tells whether something drives it -/
  isLive : w.isLive = true ↔ ∃ v, t.Waits history v
  /-- it refuses a second value, and nothing else -/
  drive : ∀ (v : τ) (fault : Fault), w.drive v = .error fault ↔
    (∃ u, t.Waits history u) ∧ fault = w.name.secondWrite .wire
  /-- the edge leaves it idle -/
  next : w.commit.get = w.idle

/-- An element answers as its history tells; `t` gives the traffic at the indices that pass a test. -/
def StateElement.Follows (t : (Nat → Prop) → Traffic A τ) (history : List A) : StateElement τ → Prop
  | .register r => r.Follows (t fun _ => True) history
  | .array a => a.Follows (fun i => t (· = i)) history
  | .wire w => w.Follows (t fun _ => True) history

end Follows

/-! ## What a history keeps -/

section Told

variable {A τ : Type} {history : List A} {act : A}

namespace RegisterArray

variable {t : Nat → Traffic A τ} {a : RegisterArray τ}

/-- The contents of an array are as the histories of its elements tell. -/
structure Told (t : Nat → Traffic A τ) (history : List A) (a : RegisterArray τ) : Prop where
  /-- the elements -/
  cells : ∀ {i : Nat} {c : Cell τ}, a.cells[i]? = some c → (t i).Tells history a.start c
  /-- those with a write that waits are listed, and no others -/
  dirty : ∀ i, i ∈ a.dirty ↔ ∃ c, a.cells[i]? = some c ∧ c.pending ≠ none
  /-- none is listed twice -/
  nodup : a.dirty.Nodup

namespace Told

theorem listed (h : a.Told t history) : a.Listed := by
  intro i c hc hi
  by_contra hpending
  exact hi ((h.dirty i).mpr ⟨c, hc, hpending⟩)

theorem new (name : ElementName) (size : Nat) (start : τ) : (new name size start).Told t [] := by
  have hcells : ∀ {i : Nat} {c : Cell τ}, (RegisterArray.new name size start).cells[i]? = some c →
      c = ⟨start, none⟩ := by
    intro i c hc
    exact (Array.mem_replicate.mp (Array.mem_of_getElem? hc)).2
  refine ⟨fun hc => hcells hc ▸ Traffic.Tells.new start, fun i => ⟨nofun, ?_⟩, List.nodup_nil⟩
  rintro ⟨c, hc, hpending⟩
  exact absurd (hcells hc ▸ rfl) hpending

theorem write (h : a.Told t history) (hproper : ∀ i, (t i).Proper) {a' : RegisterArray τ} {i : Nat}
    {v : τ} (hwrite : a.write i v = .ok a') (hact : (t i).writes act v)
    (hothers : ∀ j, j ≠ i → (t j).Silent act) : a'.Told t (history ++ [act]) := by
  obtain ⟨c, hc, hpending, rfl⟩ := write_eq_ok.mp hwrite
  have hnew : i ∉ a.dirty := by
    rw [h.dirty]
    rintro ⟨c', hc', hpending'⟩
    obtain rfl := Option.some.inj (hc.symm.trans hc')
    exact hpending' hpending
  refine ⟨fun {j c'} hc' => ?_, fun j => ?_, List.nodup_cons.mpr ⟨hnew, h.nodup⟩⟩
  · rw [getElem?_written hc] at hc'
    by_cases hij : i = j
    · subst hij
      rw [if_pos rfl] at hc'
      obtain rfl := Option.some.inj hc'
      exact (h.cells hc).write (hproper i) hact
    · rw [if_neg hij] at hc'
      exact (h.cells hc').skip (hothers j (Ne.symm hij))
  · rw [getElem?_written hc]
    change j ∈ i :: a.dirty ↔ _
    rw [List.mem_cons, h.dirty]
    by_cases hij : i = j
    · subst hij
      simp [Cell.write]
    · simp [hij, Ne.symm hij]

theorem skip (h : a.Told t history) (hact : ∀ i, (t i).Silent act) : a.Told t (history ++ [act]) :=
  ⟨fun {i _} hc => (h.cells hc).skip (hact i), h.dirty, h.nodup⟩

theorem commit (h : a.Told t history) (hproper : ∀ i, (t i).Proper) (hact : ∀ i, (t i).commits act) :
    a.commit.Told t (history ++ [act]) := by
  have hcells : ∀ {i : Nat} {c : Cell τ}, a.commit.cells[i]? = some c →
      ∃ c', a.cells[i]? = some c' ∧ c'.commit = c := by
    intro i c hc
    rw [Listed.getElem?_commit h.listed] at hc
    exact Option.map_eq_some_iff.mp hc
  refine ⟨fun {i c} hc => ?_, fun i => ⟨nofun, ?_⟩, List.nodup_nil⟩
  · obtain ⟨c', hc', rfl⟩ := hcells hc
    exact (h.cells hc').commit (hproper i) (hact i)
  · rintro ⟨c, hc, hpending⟩
    obtain ⟨c', -, rfl⟩ := hcells hc
    exact absurd rfl hpending

theorem reset (hproper : ∀ i, (t i).Proper) (hact : ∀ i, (t i).resets act) (a : RegisterArray τ) :
    a.reset.Told t (history ++ [act]) := by
  have hnew : a.reset.Told t [] := new _ _ _
  refine ⟨fun {i c} hc => ?_, hnew.dirty, hnew.nodup⟩
  obtain rfl : c = ⟨a.start, none⟩ := (Array.mem_replicate.mp (Array.mem_of_getElem? hc)).2
  exact Traffic.Tells.reset (hproper i) (hact i)

/-- Visiting the elements that are listed does what visiting all would. -/
theorem commit_eq (h : a.Told t history) : a.commit = a.commitAll := by
  have hcells : a.commit.cells = a.cells.map Cell.commit := by
    refine Array.ext_getElem? fun i => ?_
    rw [Listed.getElem?_commit h.listed, Array.getElem?_map]
  calc a.commit = { a with cells := a.commit.cells, dirty := [] } := rfl
    _ = a.commitAll := by rw [hcells]; rfl

theorem follows (h : a.Told t history) : a.Follows t history := by
  have hcell : ∀ i, i < a.size → ∃ c, a.cell i = .ok c ∧ a.cells[i]? = some c := by
    intro i hi
    have hc : a.cells[i]? = some a.cells[i] := Array.getElem?_eq_getElem hi
    exact ⟨_, cell_eq_ok.mpr hc, hc⟩
  refine
    { outside := fun i hi => ?_, read := fun i hi => ?_, hasWrite := fun i hi => ?_,
      write := fun i hi v fault => ?_, upcoming := fun i hi => ?_, dirty := fun i => ?_,
      nodup := h.nodup, commit := h.commit_eq }
  · have hnone : a.cell i = .error (.indexOutOfRange i a.name.element) := by
      unfold cell
      rw [Array.getElem?_eq_none hi]
    unfold RegisterArray.read RegisterArray.hasWrite RegisterArray.upcoming RegisterArray.write
    rw [hnone]
    exact ⟨rfl, rfl, rfl, fun _ => rfl⟩
  · obtain ⟨c, -, hc⟩ := hcell i hi
    exact ⟨c.value, read_eq_ok.mpr ⟨c, hc, rfl⟩, (h.cells hc).shows⟩
  · obtain ⟨c, hok, hc⟩ := hcell i hi
    refine ⟨c.hasWrite, ?_, (h.cells hc).hasWrite_iff⟩
    unfold RegisterArray.hasWrite
    rw [hok]
    rfl
  · obtain ⟨c, hok, hc⟩ := hcell i hi
    rw [← (h.cells hc).hasWrite_iff]
    unfold RegisterArray.write
    rw [hok, ok_bind]
    cases c.hasWrite with
    | true => simp [eq_comm]
    | false => simp
  · obtain ⟨c, -, hc⟩ := hcell i hi
    have hread : a.commit.read i = .ok c.next := by
      refine read_eq_ok.mpr ⟨c.commit, ?_, rfl⟩
      rw [Listed.getElem?_commit h.listed, hc, Option.map_some]
    refine ⟨c.next, upcoming_eq_ok.mpr ⟨c, hc, rfl⟩, hread, ?_⟩
    rcases (h.cells hc).next_eq_iff.mp rfl with hwaits | ⟨hnone, hvalue⟩
    · exact .inl hwaits
    · exact .inr ⟨hnone, read_eq_ok.mpr ⟨c, hc, hvalue⟩⟩
  · rw [h.dirty]
    constructor
    · rintro ⟨c, hc, hpending⟩
      obtain ⟨v, hv⟩ := Option.ne_none_iff_exists'.mp hpending
      exact ⟨(Array.getElem?_eq_some_iff.mp hc).1, v, ((h.cells hc).waits v).mp hv⟩
    · rintro ⟨hi, v, hwaits⟩
      obtain ⟨c, -, hc⟩ := hcell i hi
      refine ⟨c, hc, fun hpending => ?_⟩
      exact (h.cells hc).pending_eq_none_iff.mp hpending v hwaits

end Told

end RegisterArray

namespace StateElement

variable {t : (Nat → Prop) → Traffic A τ} {e e' : StateElement τ}

/-- The contents of an element are as its history tells. -/
def Told (t : (Nat → Prop) → Traffic A τ) (history : List A) : StateElement τ → Prop
  | register r => (t fun _ => True).Tells history r.start r.cell
  | array a => a.Told (fun i => t (· = i)) history
  | wire w => ∀ v, w.driven = some v ↔ (t fun _ => True).Waits history v

theorem IsNew.told (h : e.IsNew) : e.Told t [] := by
  cases h with
  | register name start => exact Traffic.Tells.new start
  | array name size start => exact .new name size start
  | wire name idle => exact fun v => ⟨nofun, fun hw => absurd hw Traffic.not_waits_nil⟩

namespace Told

theorem write (h : e.Told t history) (hproper : ∀ p, (t p).Proper) {index : Nat} {v : τ}
    (hwrite : e.write index v = .ok e')
    (hact : ∀ p : Nat → Prop, (p index → (t p).writes act v) ∧ (¬ p index → (t p).Silent act)) :
    e'.Told t (history ++ [act]) := by
  cases e with
  | register r =>
    obtain ⟨r', hr, rfl⟩ := map_eq_ok.mp hwrite
    obtain ⟨-, rfl⟩ := Register.write_eq_ok.mp hr
    exact Traffic.Tells.write h (hproper _) ((hact _).1 trivial)
  | array a =>
    obtain ⟨a', ha, rfl⟩ := map_eq_ok.mp hwrite
    exact RegisterArray.Told.write h (fun _ => hproper _) ha ((hact _).1 rfl)
      fun j hj => (hact (· = j)).2 (Ne.symm hj)
  | wire w =>
    obtain ⟨w', hw, rfl⟩ := map_eq_ok.mp hwrite
    obtain ⟨-, rfl⟩ := Wire.drive_eq_ok.mp hw
    have hwrites := (hact fun _ => True).1 trivial
    intro u
    rw [Traffic.waits_concat]
    refine ⟨fun hu => .inl (Option.some.inj hu ▸ hwrites), ?_⟩
    rintro (hu | ⟨hsilent, -⟩)
    · exact congrArg some ((hproper _).once hwrites hu)
    · exact absurd hwrites (hsilent.writes v)

theorem skip (h : e.Told t history) (hact : ∀ p, (t p).Silent act) : e.Told t (history ++ [act]) := by
  cases e with
  | register r => exact Traffic.Tells.skip h (hact _)
  | array a => exact RegisterArray.Told.skip h fun _ => hact _
  | wire w =>
    intro v
    rw [Traffic.waits_concat, h v]
    exact ⟨fun hv => .inr ⟨hact _, hv⟩, fun hv => (hv.resolve_left ((hact _).writes v)).2⟩

theorem commit (h : e.Told t history) (hproper : ∀ p, (t p).Proper) (hact : ∀ p, (t p).commits act) :
    e.commit.Told t (history ++ [act]) := by
  cases e with
  | register r => exact Traffic.Tells.commit h (hproper _) (hact _)
  | array a => exact RegisterArray.Told.commit h (fun _ => hproper _) fun _ => hact _
  | wire w =>
    exact fun v => ⟨nofun, fun hv =>
      absurd hv (Traffic.Tells.not_waits_concat (hproper _) (.inl (hact _)))⟩

theorem reset (hproper : ∀ p, (t p).Proper) (hact : ∀ p, (t p).resets act) (e : StateElement τ) :
    e.reset.Told t (history ++ [act]) := by
  cases e with
  | register r => exact Traffic.Tells.reset (hproper _) (hact _)
  | array a => exact RegisterArray.Told.reset (fun _ => hproper _) (fun _ => hact _) a
  | wire w =>
    exact fun v => ⟨nofun, fun hv =>
      absurd hv (Traffic.Tells.not_waits_concat (hproper _) (.inr (hact _)))⟩

theorem follows (h : e.Told t history) : e.Follows t history := by
  cases e with
  | register r =>
    have htells : (t fun _ => True).Tells history r.start r.cell := h
    refine ⟨htells.shows, htells.hasWrite_iff, fun v fault => ?_, fun v => htells.next_eq_iff, rfl⟩
    rw [← htells.hasWrite_iff, Register.write]
    cases r.cell.hasWrite with
    | true => simp [eq_comm]
    | false => simp
  | array a => exact RegisterArray.Told.follows h
  | wire w =>
    have hdriven : ∀ v, w.driven = some v ↔ (t fun _ => True).Waits history v := h
    have hlive : w.isLive = true ↔ ∃ v, (t fun _ => True).Waits history v := by
      rw [Wire.isLive, Option.isSome_iff_exists]
      exact exists_congr hdriven
    refine ⟨fun v hv => ?_, fun hnone => ?_, hlive, fun v fault => ?_, rfl⟩
    · rw [Wire.get, (hdriven v).mpr hv, Option.getD_some]
    · have hidle : w.driven = none := by
        rw [Option.eq_none_iff_forall_ne_some]
        exact fun v hv => hnone v ((hdriven v).mp hv)
      rw [Wire.get, hidle, Option.getD_none]
    · rw [← hlive, Wire.drive]
      cases w.isLive with
      | true => simp [eq_comm]
      | false => simp

end Told

end StateElement

end Told

/-! ## Machines -/

section Machine

variable {ι : Type} {V : ι → Type}

/-- What can be done to the elements of a machine; reading them changes nothing. -/
inductive Operation (V : ι → Type) where
  /-- write an element, at an index if it is an array, or drive a wire -/
  | write (i : ι) (index : Nat) (value : V i)
  /-- the edge of some elements, one after the other -/
  | commit (refs : List ι)
  /-- put some elements back, one after the other -/
  | reset (refs : List ι)
  /-- the edge of the machine -/
  | edge
  /-- put the machine back -/
  | restart

namespace Operation

/-- It is an edge of an element; `owned` lists the elements of every component. -/
def Commits (owned : List (List ι)) (i : ι) : Operation V → Prop
  | commit refs => i ∈ refs
  | edge => i ∈ owned.flatten
  | _ => False

/-- It puts an element back. -/
def Resets (owned : List (List ι)) (i : ι) : Operation V → Prop
  | reset refs => i ∈ refs
  | restart => i ∈ owned.flatten
  | _ => False

/-- The traffic of an element at the indices that pass a test. -/
def traffic (owned : List (List ι)) (i : ι) (p : Nat → Prop) : Traffic (Operation V) (V i) where
  writes op v := ∃ index, p index ∧ op = write i index v
  commits := Commits owned i
  resets := Resets owned i

variable {owned : List (List ι)} {i : ι} {p : Nat → Prop} {op : Operation V}

theorem proper_traffic : (traffic (V := V) owned i p).Proper where
  once := by
    rintro op v w ⟨index, -, rfl⟩ ⟨index', -, h⟩
    exact eq_of_heq (Operation.write.inj h).2.2
  write := by
    rintro op v ⟨index, -, rfl⟩
    exact ⟨id, id⟩
  commit := by
    intro op hcommits
    cases op with
    | write | reset | restart => exact hcommits.elim
    | commit | edge => exact id

theorem silent_of_write {j : ι} {index : Nat} {v : V j} (h : j = i → ¬ p index) :
    (traffic owned i p).Silent (write j index v) where
  writes := by
    rintro w ⟨index', hindex, heq⟩
    obtain ⟨rfl, rfl, -⟩ := Operation.write.inj heq
    exact h rfl hindex
  commits := id
  resets := id

/-- An operation that is no write of an element, no edge and no reset of it does nothing to it. -/
theorem silent_of_not {refs : List ι} (hi : i ∉ refs)
    (hwrite : ∀ j index v, op ≠ write j index v)
    (hcommits : Commits owned i op → i ∈ refs) (hresets : Resets owned i op → i ∈ refs) :
    (traffic owned i p).Silent op where
  writes := by
    rintro w ⟨index, -, heq⟩
    exact hwrite i index w heq
  commits h := hi (hcommits h)
  resets h := hi (hresets h)

variable [DecidableEq ι]

/-- Do it. -/
def perform (m : Machine ((i : ι) → StateElement (V i))) :
    Operation V → Except Fault (Machine ((i : ι) → StateElement (V i)))
  | write i index value => ((m.state i).write index value).map fun e =>
      { m with state := Function.update m.state i e }
  | commit refs => .ok { m with state := changeAll (fun _ => StateElement.commit) m.state refs }
  | reset refs => .ok { m with state := changeAll (fun _ => StateElement.reset) m.state refs }
  | edge => .ok m.commit
  | restart => .ok m.reset

/-- Do several things; those that are refused change nothing.  The result comes with those that were
done. -/
def performAll (m : Machine ((i : ι) → StateElement (V i))) (ops : List (Operation V)) :
    Machine ((i : ι) → StateElement (V i)) × List (Operation V) :=
  ops.foldl (fun now op =>
    match op.perform now.1 with
    | .ok m => (m, now.2 ++ [op])
    | .error _ => now) (m, [])

theorem performAll_concat (m : Machine ((i : ι) → StateElement (V i))) (ops : List (Operation V))
    (op : Operation V) : performAll m (ops ++ [op]) =
      match op.perform (performAll m ops).1 with
      | .ok m' => (m', (performAll m ops).2 ++ [op])
      | .error _ => performAll m ops := by
  unfold performAll
  rw [List.foldl_append]
  rfl

end Operation

/-- Every component owns the elements that are listed for it. -/
def Machine.Owned [DecidableEq ι] (m : Machine ((i : ι) → StateElement (V i))) (owned : List (List ι)) :
    Prop :=
  List.Forall₂ (Part.Owns (fun _ => StateElement.commit) (fun _ => StateElement.reset)) m.parts owned

variable [DecidableEq ι] {m m' m₀ : Machine ((i : ι) → StateElement (V i))} {owned : List (List ι)}
  {op : Operation V} {ops done : List (Operation V)}

/-- The state of a machine is as its history tells, and what a reset restores is as before it. -/
structure Machine.Recorded (owned : List (List ι)) (m₀ : Machine ((i : ι) → StateElement (V i)))
    (done : List (Operation V)) (m : Machine ((i : ι) → StateElement (V i))) : Prop where
  /-- the components are the same -/
  parts : m.parts = m₀.parts
  /-- name, size and initial value of every element are the same -/
  reset : ∀ i, (m.state i).reset = (m₀.state i).reset
  /-- the contents of every element are as its history tells -/
  told : ∀ i, (m.state i).Told (Operation.traffic owned i) done

namespace Machine.Recorded

/-- Some elements are committed. -/
theorem commitAll (h : Recorded owned m₀ done m) {refs : List ι} (hparts : m'.parts = m.parts)
    (hstate : m'.state = changeAll (fun _ => StateElement.commit) m.state refs)
    (hcommits : ∀ i, op.Commits owned i ↔ i ∈ refs) (hresets : ∀ i, ¬ op.Resets owned i)
    (hwrite : ∀ j index v, op ≠ .write j index v) : Recorded owned m₀ (done ++ [op]) m' := by
  have hstate : ∀ i, m'.state i = if i ∈ refs then (m.state i).commit else m.state i := by
    intro i
    rw [hstate, changeAll_apply fun _ e => e.commit_commit]
  refine ⟨hparts.trans h.parts, fun i => ?_, fun i => ?_⟩
  · rw [hstate, ← h.reset]
    split
    · exact StateElement.reset_commit _
    · rfl
  · rw [hstate]
    by_cases hi : i ∈ refs
    · rw [if_pos hi]
      exact (h.told i).commit (fun _ => Operation.proper_traffic) fun _ => (hcommits i).mpr hi
    · rw [if_neg hi]
      exact (h.told i).skip fun _ =>
        Operation.silent_of_not hi hwrite (hcommits i).mp fun hr => absurd hr (hresets i)

/-- Some elements are put back. -/
theorem resetAll (h : Recorded owned m₀ done m) {refs : List ι} (hparts : m'.parts = m.parts)
    (hstate : m'.state = changeAll (fun _ => StateElement.reset) m.state refs)
    (hresets : ∀ i, op.Resets owned i ↔ i ∈ refs) (hcommits : ∀ i, ¬ op.Commits owned i)
    (hwrite : ∀ j index v, op ≠ .write j index v) : Recorded owned m₀ (done ++ [op]) m' := by
  have hstate : ∀ i, m'.state i = if i ∈ refs then (m.state i).reset else m.state i := by
    intro i
    rw [hstate, changeAll_apply fun _ e => e.reset_reset]
  refine ⟨hparts.trans h.parts, fun i => ?_, fun i => ?_⟩
  · rw [hstate, ← h.reset]
    split
    · exact StateElement.reset_reset _
    · rfl
  · rw [hstate]
    by_cases hi : i ∈ refs
    · rw [if_pos hi]
      exact .reset (fun _ => Operation.proper_traffic) (fun _ => (hresets i).mpr hi) _
    · rw [if_neg hi]
      exact (h.told i).skip fun _ =>
        Operation.silent_of_not hi hwrite (fun hc => absurd hc (hcommits i)) (hresets i).mp

/-- An element is written. -/
theorem write (h : Recorded owned m₀ done m) {i : ι} {index : Nat} {v : V i} {e : StateElement (V i)}
    (hparts : m'.parts = m.parts) (hstate : m'.state = Function.update m.state i e)
    (hwrite : (m.state i).write index v = .ok e) : Recorded owned m₀ (done ++ [.write i index v]) m' := by
  refine ⟨hparts.trans h.parts, fun j => ?_, fun j => ?_⟩
  · rw [hstate, ← h.reset]
    by_cases hij : j = i
    · subst hij
      rw [Function.update_self]
      exact StateElement.reset_of_write hwrite
    · rw [Function.update_of_ne hij]
  · rw [hstate]
    by_cases hij : j = i
    · subst hij
      rw [Function.update_self]
      exact (h.told j).write (fun _ => Operation.proper_traffic) hwrite fun p =>
        ⟨fun hp => ⟨index, hp, rfl⟩, fun hp => Operation.silent_of_write fun _ => hp⟩
    · rw [Function.update_of_ne hij]
      exact (h.told j).skip fun _ => Operation.silent_of_write fun hji => absurd hji.symm hij

/-- What is done is kept in the history. -/
theorem perform (h : Recorded owned m₀ done m) (howned : m₀.Owned owned) (hop : op.perform m = .ok m') :
    Recorded owned m₀ (done ++ [op]) m' := by
  have howned' : m.Owned owned := by
    unfold Owned
    rw [h.parts]
    exact howned
  cases op with
  | write i index v =>
    obtain ⟨e, he, rfl⟩ := map_eq_ok.mp hop
    exact h.write rfl rfl he
  | commit refs =>
    obtain rfl := Except.ok.inj hop
    exact h.commitAll rfl rfl (fun _ => .rfl) (fun _ => id) nofun
  | reset refs =>
    obtain rfl := Except.ok.inj hop
    exact h.resetAll rfl rfl (fun _ => .rfl) (fun _ => id) nofun
  | edge =>
    obtain rfl := Except.ok.inj hop
    exact h.commitAll rfl (Machine.state_commit howned') (fun _ => .rfl) (fun _ => id) nofun
  | restart =>
    obtain rfl := Except.ok.inj hop
    exact h.resetAll rfl (Machine.state_reset howned') (fun _ => .rfl) (fun _ => id) nofun

/-- All that is done is kept in the history. -/
theorem performAll (howned : m₀.Owned owned) (hnew : ∀ i, (m₀.state i).IsNew) (ops : List (Operation V)) :
    Recorded owned m₀ (Operation.performAll m₀ ops).2 (Operation.performAll m₀ ops).1 := by
  induction ops using List.reverseRecOn with
  | nil => exact ⟨rfl, fun _ => rfl, fun i => (hnew i).told⟩
  | append_singleton ops op ih =>
    rw [Operation.performAll_concat]
    cases hop : op.perform (Operation.performAll m₀ ops).1 with
    | error fault => exact ih
    | ok m => exact ih.perform howned hop

end Machine.Recorded

/-- Start with new elements, and write them, commit them and put them back in any way: one by one, all of a
component, or all of the machine.  A write that is refused changes nothing.  At any time every element has
kept its name, its size and its initial value and answers as the history of what was done tells; the edge
of the machine does to every element that a component owns what its own edge does, and nothing to the
others; and components that own the same elements, in whatever order they come and list them, do the
same. -/
theorem Machine.double_buffered (howned : m₀.Owned owned) (hnew : ∀ i, (m₀.state i).IsNew)
    (hrun : Operation.performAll m₀ ops = (m, done)) :
    (∀ i, (m.state i).reset = m₀.state i ∧ (m.state i).Follows (Operation.traffic owned i) done) ∧
    (∀ i, m.commit.state i = if i ∈ owned.flatten then (m.state i).commit else m.state i) ∧
    ∀ {other : Machine ((i : ι) → StateElement (V i))} {owned' : List (List ι)}, other.Owned owned' →
      other.state = m.state → (∀ i, i ∈ owned'.flatten ↔ i ∈ owned.flatten) →
      other.commit.state = m.commit.state := by
  have htold : Machine.Recorded owned m₀ done m := by
    have hall := Machine.Recorded.performAll howned hnew ops
    rw [hrun] at hall
    exact hall
  have howned' : m.Owned owned := by
    unfold Machine.Owned
    rw [htold.parts]
    exact howned
  have hcommit := Machine.state_commit howned'
  refine ⟨fun i => ⟨?_, (htold.told i).follows⟩, fun i => ?_, ?_⟩
  · rw [htold.reset, (hnew i).reset_eq]
  · rw [hcommit, changeAll_apply fun _ e => e.commit_commit]
  · intro other owned' hother hstate hsame
    rw [Machine.state_commit hother, hcommit, hstate]
    exact changeAll_congr (fun _ e => e.commit_commit) m.state hsame

end Machine

/-! ## A gauge and its log -/

namespace Gauge

/-- The elements of the gauge and of its log. -/
inductive Name where
  /-- what the gauge shows -/
  | level
  /-- earlier levels -/
  | table
  /-- whether the level is too high -/
  | alarm
  deriving DecidableEq

/-- The elements as they are made. -/
def start : Name → StateElement Nat
  | .level => .register (.new ⟨"gauge", "level"⟩ 3)
  | .table => .array (.new ⟨"log", "table"⟩ 4 0)
  | .alarm => .wire (.new ⟨"gauge", "alarm"⟩ 0)

/-- A component that owns some elements. -/
def part (name : String) (refs : List Name) : Part (Name → StateElement Nat) where
  name := name
  elements := []
  commit x := changeAll (fun _ => StateElement.commit) x refs
  reset x := changeAll (fun _ => StateElement.reset) x refs

/-- The gauge with its log. -/
def machine : Machine (Name → StateElement Nat) where
  parts := [part "gauge" [.level, .alarm], part "log" [.table]]
  state := start

/-- Second writes and one outside of the table are refused; the log is put back in the middle of a cycle
and written again before the edge. -/
def ops : List (Operation fun _ : Name => Nat) :=
  [.write .level 0 5, .write .level 0 6, .write .table 2 7, .write .table 2 8, .write .table 4 1,
    .write .alarm 0 1, .edge, .write .table 1 9, .reset [.table], .write .table 2 4, .write .level 0 6]

/-- Those that are done. -/
def done : List (Operation fun _ : Name => Nat) :=
  [.write .level 0 5, .write .table 2 7, .write .alarm 0 1, .edge, .write .table 1 9, .reset [.table],
    .write .table 2 4, .write .level 0 6]

/-- The machine afterwards. -/
def after : Machine (Name → StateElement Nat) := (Operation.performAll machine ops).1

/-- The machine afterwards with its components, and the elements of the gauge, the other way round. -/
def turned : Machine (Name → StateElement Nat) :=
  { after with parts := [part "log" [.table], part "gauge" [.alarm, .level]] }

theorem owned_part (name : String) (refs : List Name) :
    (part name refs).Owns (fun _ => StateElement.commit) (fun _ => StateElement.reset) refs :=
  ⟨fun _ => rfl, fun _ => rfl⟩

end Gauge

/-- The level that was written before the edge is shown and the next one waits; the table is empty up to
the write that came after its reset. -/
theorem Gauge.double_buffered_after :
    Gauge.machine.Owned [[.level, .alarm], [.table]] ∧ (∀ i, (Gauge.machine.state i).IsNew) ∧
    Operation.performAll Gauge.machine Gauge.ops = (Gauge.after, Gauge.done) ∧
    (∃ r, Gauge.after.state .level = .register r ∧ r.read = 5 ∧ r.upcoming = 6 ∧
      r.Follows (Operation.traffic [[.level, .alarm], [.table]] .level fun _ => True) Gauge.done) ∧
    (∃ a, Gauge.after.state .table = .array a ∧ a.read 2 = .ok 0 ∧ a.upcoming 2 = .ok 4 ∧
      a.upcoming 1 = .ok 0 ∧ a.commit = a.commitAll) ∧
    Gauge.turned.Owned [[.table], [.alarm, .level]] ∧
    Gauge.turned.commit.state = Gauge.after.commit.state := by
  have howned : Gauge.machine.Owned [[.level, .alarm], [.table]] :=
    .cons (Gauge.owned_part _ _) (.cons (Gauge.owned_part _ _) .nil)
  have hturned : Gauge.turned.Owned [[.table], [.alarm, .level]] :=
    .cons (Gauge.owned_part _ _) (.cons (Gauge.owned_part _ _) .nil)
  have hnew : ∀ i, (Gauge.machine.state i).IsNew := by
    intro i
    cases i with
    | level => exact .register _ _
    | table => exact .array _ _ _
    | alarm => exact .wire _ _
  have hrun : Operation.performAll Gauge.machine Gauge.ops = (Gauge.after, Gauge.done) := rfl
  obtain ⟨hfollows, -, horder⟩ := Machine.double_buffered howned hnew hrun
  obtain ⟨-, hlevel⟩ := hfollows .level
  obtain ⟨-, htable⟩ := hfollows .table
  refine ⟨howned, hnew, hrun, ⟨_, rfl, rfl, rfl, hlevel⟩, ⟨_, rfl, rfl, rfl, rfl, htable.commit⟩, hturned, ?_⟩
  refine horder hturned rfl fun i => ?_
  cases i with
  | level | table | alarm => simp

end GuardedActions
