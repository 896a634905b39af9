import GuardedActions.Proofs.Elaboration.Conflict
import Mathlib.Logic.Function.Basic

/-!
# Elaboration in place

Elaboration as it is done on tables that stay in place between attempts.  Every stage clears its table and
fills it from those of the stages before, and a refusal leaves the tables as they are at that moment.  What
an attempt finds in the tables does not matter: it ends like the elaboration that makes a plan from nothing,
and if it succeeds the tables hold that plan.
-/

set_option autoImplicit false

namespace GuardedActions

variable {σ : Type}

/-- The tables of an elaboration.  An entry that was not made is absent. -/
structure Tables where
  /-- the closures of transactions -/
  closures : Nat → Option Mask := fun _ => none
  /-- transactions, best priority first -/
  order : List Nat := []
  /-- positions in the order -/
  rank : Nat → Option Nat := fun _ => none
  /-- the conflicts of transactions -/
  rows : Nat → Option Mask := fun _ => none
  /-- the components of the conflict relation -/
  clusters : List Cluster := []
  /-- the call sites of methods, best rank first -/
  callers : Nat → Option (List Nat) := fun _ => none

/-- How far an attempt got: the tables as it leaves them, and the refusal that ended it, if any. -/
structure Attempt where
  /-- the tables at the end of the attempt -/
  tables : Tables
  /-- why the attempt ended early -/
  refusal : Option Refusal := none

namespace Tables

/-- The closures as a plan lists them. -/
def closureList (t : Tables) (size : Nat) : List Mask :=
  (List.range size).map fun id => (t.closures id).getD (Mask.none size)

/-- Order and conflicts as a plan lists them. -/
def ranking (t : Tables) (size : Nat) : Ranking :=
  ⟨t.order, (List.range size).map fun id => (t.rows id).getD (Mask.none size)⟩

/-- The plan that the tables hold. -/
def plan (t : Tables) (size : Nat) : Plan where
  closures := t.closureList size
  ranking := t.ranking size
  clusters := t.clusters
  callers := (List.range size).map fun id => (t.callers id).getD []

/-- Enter a conflict, in the rows of both transactions. -/
def mark (rows : Nat → Option Mask) (a b : Nat) : Nat → Option Mask := fun id =>
  (rows id).map fun row => if id = a then row.insert b else if id = b then row.insert a else row

/-- Enter the conflicts of a transaction with those of a list. -/
def markWith (clash : Nat → Nat → Bool) (a : Nat) (others : List Nat) (rows : Nat → Option Mask) :
    Nat → Option Mask :=
  others.foldl (fun rows b => if clash a b then mark rows a b else rows) rows

/-- Enter the conflicts between the transactions of a list. -/
def markAll (clash : Nat → Nat → Bool) : List Nat → (Nat → Option Mask) → Nat → Option Mask
  | [], rows => rows
  | a :: rest, rows => markAll clash rest (markWith clash a rest rows)

/-- Enter the position of one element. -/
def enterPosition (rank : Nat → Option Nat) (entry : Nat × Nat) : Nat → Option Nat :=
  Function.update rank entry.1 (some entry.2)

/-- The positions of a list, entered one after the other. -/
def positions (order : List Nat) : Nat → Option Nat :=
  order.zipIdx.foldl enterPosition fun _ => none

end Tables

namespace Attempt

/-- Go on with the next stage, unless a refusal ended the attempt. -/
def next (a : Attempt) (stage : Tables → Attempt) : Attempt :=
  match a.refusal with
  | none => stage a.tables
  | some _ => a

@[simp] theorem next_done (t : Tables) (stage : Tables → Attempt) :
    Attempt.next ⟨t, none⟩ stage = stage t := rfl

/-- After a refusal there are no more stages. -/
theorem next_of_refusal {a : Attempt} {refusal : Refusal} (h : a.refusal = some refusal)
    (stage : Tables → Attempt) : a.next stage = a := by
  unfold next
  rw [h]

/-- A check that changes no table. -/
def check (t : Tables) : Except Refusal Unit → Attempt
  | .ok _ => ⟨t, none⟩
  | .error refusal => ⟨t, some refusal⟩

/-- How an attempt ended. -/
def verdict (a : Attempt) : Except Refusal Unit :=
  match a.refusal with
  | none => .ok ()
  | some refusal => .error refusal

end Attempt

namespace Registry

/-! ## The stages -/

/-- Enter the closures of the transactions of a list, up to the first that is refused. -/
def enterClosures (r : Registry σ) : List Nat → Tables → Attempt
  | [], t => ⟨t, none⟩
  | id :: rest, t =>
    match r.closureOf id with
    | .ok reached =>
      r.enterClosures rest { t with closures := Function.update t.closures id (some reached) }
    | .error refusal => ⟨t, some refusal⟩

/-- The closures of all transactions. -/
def rebuildClosures (r : Registry σ) (t : Tables) : Attempt :=
  r.enterClosures r.transactions { t with closures := fun _ => none }

/-- The static order, and the positions in it. -/
def rebuildOrder (r : Registry σ) (t : Tables) : Attempt :=
  ⟨{ t with order := r.staticOrder, rank := Tables.positions r.staticOrder }, none⟩

/-- A row without conflicts for every transaction. -/
def cleanRows (r : Registry σ) (id : Nat) : Option Mask :=
  if (r.transaction? id).isSome then some (Mask.none r.actions.length) else none

/-- No conflict is entered. -/
def clearRows (r : Registry σ) (t : Tables) : Attempt := ⟨{ t with rows := r.cleanRows }, none⟩

/-- No transaction reaches both ends of a declared conflict. -/
def checkEndsIn (r : Registry σ) (t : Tables) : Attempt :=
  .check t (r.checkConflictEnds (closureIn (t.closureList r.actions.length)))

/-- Whether the closures of two actions make them conflict. -/
def overlaps (r : Registry σ) (closure : Nat → Mask) (a b : Nat) : Bool :=
  r.shareExclusive (closure a) (closure b) || r.declaredBetween (closure a) (closure b)

/-- The conflicts between all transactions. -/
def markConflicts (r : Registry σ) (t : Tables) : Attempt :=
  let clash := r.overlaps (closureIn (t.closureList r.actions.length))
  ⟨{ t with rows := Tables.markAll clash r.transactions t.rows }, none⟩

/-- The first pair of equal priority, in the static order, that is always ready and has its conflict
entered. -/
def tieIn? (r : Registry σ) (closure : Nat → Mask) (conflict : Nat → Nat → Bool) :
    List Nat → Option (Nat × Nat)
  | [] => none
  | a :: rest =>
    let equals := rest.takeWhile fun b =>
      ((r.action? a).map Action.priority) == ((r.action? b).map Action.priority)
    match equals.find? fun b =>
        conflict a b && r.neverHeldBack closure a && r.neverHeldBack closure b with
    | some b => some (a, b)
    | none => tieIn? r closure conflict rest

/-- No two conflicting transactions of equal priority are both always ready. -/
def checkTiesIn (r : Registry σ) (t : Tables) : Attempt :=
  match r.tieIn? (closureIn (t.closureList r.actions.length))
      (t.ranking r.actions.length).conflict t.order with
  | none => ⟨t, none⟩
  | some (a, b) => ⟨t, some (r.tieRefusal a b)⟩

/-- The components of the conflicts that are entered. -/
def rebuildClusters (r : Registry σ) (t : Tables) : Attempt :=
  ⟨{ t with clusters := r.clusters (t.ranking r.actions.length) }, none⟩

/-- The rank of a call site: that of the first transaction of the order that reaches its caller. -/
def siteRankIn (r : Registry σ) (t : Tables) (site : Nat) : Nat :=
  match r.sites[site]? with
  | none => 0
  | some s =>
    ((t.order.find? fun a => (closureIn (t.closureList r.actions.length) a).test s.caller).bind
      t.rank).getD unreachedRank

/-- The call sites of every method, best rank first and then by position. -/
def rebuildCallers (r : Registry σ) (t : Tables) : Attempt :=
  let before a b := decide (r.siteRankIn t a < r.siteRankIn t b) ||
    (r.siteRankIn t a == r.siteRankIn t b && decide (a ≤ b))
  ⟨{ t with callers := fun id =>
      (r.method? id).map fun x => (x.callers.map SiteRef.id).mergeSort before }, none⟩

end Registry

namespace Design

/-- The checks that come before all tables. -/
def vet (d : Design σ) : Except Refusal Unit := do
  d.main.checkNames
  d.main.checkBodies
  d.checkSites
  d.main.checkAcyclic

/-- An attempt to elaborate, on tables that earlier attempts may have left. -/
def attempt (d : Design σ) (t : Tables) : Attempt :=
  if d.main.isFrozen then ⟨t, some Registry.alreadyElaborated⟩
  else
    ((((((((Attempt.check t d.vet).next d.main.rebuildClosures).next d.main.rebuildOrder).next
      d.main.clearRows).next d.main.checkEndsIn).next d.main.markConflicts).next
      d.main.checkTiesIn).next d.main.rebuildClusters).next d.main.rebuildCallers

end Design

/-- A map over a list whose steps return what a function says. -/
theorem mapM_eq_ok_map {ε α β : Type} {f : α → Except ε β} {g : α → β} {l : List α}
    (h : ∀ a ∈ l, f a = .ok (g a)) : l.mapM f = .ok (l.map g) := by
  induction l with
  | nil => rfl
  | cons a l ih =>
    rw [List.mapM_cons, h a List.mem_cons_self, ih fun b hb => h b (List.mem_cons_of_mem _ hb)]
    rfl

namespace Registry

variable {r : Registry σ}

/-! ## Closures -/

/-- The closures of the transactions among some actions are entered, if none is refused. -/
theorem enterClosures_eq_ok {l : List Nat} {masks : List Mask} (h : l.mapM r.closureOf = .ok masks)
    (t : Tables) :
    r.enterClosures (l.filter fun id => (r.transaction? id).isSome) t =
      ⟨{ t with closures := fun id =>
          if id ∈ l ∧ (r.transaction? id).isSome then (r.closureOf id).toOption
          else t.closures id }, none⟩ := by
  induction l generalizing masks t with
  | nil => simp [enterClosures]
  | cons id rest ih =>
    rw [List.mapM_cons] at h
    obtain ⟨reached, hreached, h⟩ := bind_eq_ok.mp h
    obtain ⟨masks, hmasks, -⟩ := bind_eq_ok.mp h
    by_cases ht : (r.transaction? id).isSome = true
    · rw [List.filter_cons_of_pos (p := fun id => (r.transaction? id).isSome) ht, enterClosures, hreached]
      simp only
      rw [ih hmasks]
      congr 2
      funext other
      by_cases hother : other = id
      · subst hother
        by_cases hmem : other ∈ rest
        · simp [ht, hmem]
        · simp [ht, hmem, hreached, Except.toOption]
      · simp [hother, Function.update_of_ne]
    · rw [List.filter_cons_of_neg (p := fun id => (r.transaction? id).isSome) ht, ih hmasks]
      congr 2
      funext other
      by_cases hother : other = id
      · subst hother
        simp [ht]
      · simp [hother]

/-- The first closure that is refused ends the attempt. -/
theorem enterClosures_eq_error {l : List Nat} {refusal : Refusal}
    (h : l.mapM r.closureOf = .error refusal) (t : Tables) :
    (r.enterClosures (l.filter fun id => (r.transaction? id).isSome) t).refusal = some refusal := by
  induction l generalizing t with
  | nil => cases h
  | cons id rest ih =>
    rw [List.mapM_cons] at h
    have hrest : ∀ {reached : Mask}, r.closureOf id = .ok reached →
        rest.mapM r.closureOf = .error refusal := by
      intro reached hreached
      rw [hreached, ok_bind] at h
      cases hmasks : rest.mapM r.closureOf with
      | ok masks =>
        rw [hmasks] at h
        cases h
      | error refusal' =>
        rw [hmasks] at h
        rw [Except.error.inj h]
    by_cases ht : (r.transaction? id).isSome = true
    · rw [List.filter_cons_of_pos (p := fun id => (r.transaction? id).isSome) ht, enterClosures]
      cases hreached : r.closureOf id with
      | error refusal' =>
        rw [hreached] at h
        exact congrArg some (Except.error.inj h)
      | ok reached => exact ih (hrest hreached) _
    · rw [List.filter_cons_of_neg (p := fun id => (r.transaction? id).isSome) ht]
      have hnothing : r.closureOf id = .ok (Mask.none r.actions.length) := by
        unfold closureOf
        rw [if_neg ht]
      exact ih (hrest hnothing) t

/-- The closures that are entered into an empty table. -/
def closureTable (r : Registry σ) (id : Nat) : Option Mask :=
  if id ∈ r.ids ∧ (r.transaction? id).isSome then (r.closureOf id).toOption else none

theorem rebuildClosures_eq {closures : List Mask} (h : r.closures = .ok closures) (t : Tables) :
    r.rebuildClosures t = ⟨{ t with closures := r.closureTable }, none⟩ :=
  enterClosures_eq_ok h _

theorem closureList_closureTable {closures : List Mask} (h : r.closures = .ok closures) {t : Tables}
    (ht : t.closures = r.closureTable) : t.closureList r.actions.length = closures := by
  have hentry : ∀ id ∈ r.ids,
      r.closureOf id = .ok ((t.closures id).getD (Mask.none r.actions.length)) := by
    intro id hid
    obtain ⟨i, hi⟩ := List.mem_iff_getElem?.mp hid
    obtain ⟨reached, -, hok⟩ := getElem?_of_mapM_eq_ok h hi
    rw [ht]
    unfold closureTable
    by_cases htransaction : (r.transaction? id).isSome = true
    · rw [if_pos ⟨hid, htransaction⟩, hok]
      rfl
    · rw [if_neg fun hboth => htransaction hboth.2]
      unfold closureOf
      rw [if_neg htransaction]
      rfl
  exact Except.ok.inj ((mapM_eq_ok_map hentry).symm.trans h)

/-! ## Order -/

/-- Elements that occur once are entered with their positions. -/
theorem foldl_enterPosition {l : List Nat} (hnodup : l.Nodup) (k : Nat) (rank : Nat → Option Nat) (a : Nat) :
    (l.zipIdx k).foldl Tables.enterPosition rank a =
      ((l.findIdx? (· == a)).map (k + ·)).or (rank a) := by
  induction l generalizing k rank with
  | nil => rfl
  | cons b l ih =>
    obtain ⟨hb, hnodup⟩ := List.nodup_cons.mp hnodup
    rw [List.zipIdx_cons, List.foldl_cons, ih hnodup, List.findIdx?_cons]
    unfold Tables.enterPosition
    by_cases hba : b = a
    · subst hba
      have hnone : l.findIdx? (· == b) = none := by
        rw [List.findIdx?_eq_none_iff]
        intro x hx
        exact beq_eq_false_iff_ne.mpr fun heq => hb (heq ▸ hx)
      simp [hnone]
    · rw [Function.update_of_ne (Ne.symm hba)]
      cases hfound : l.findIdx? (· == a) with
      | none => simp [hba]
      | some i =>
        simp [hba]
        omega

theorem positions_eq {order : List Nat} (hnodup : order.Nodup) (a : Nat) :
    Tables.positions order a = order.findIdx? (· == a) := by
  unfold Tables.positions
  rw [foldl_enterPosition hnodup]
  cases order.findIdx? (· == a) <;> simp

/-- The position of the first element that passes a test. -/
theorem find?_bind_findIdx? {l : List Nat} (hnodup : l.Nodup) (p : Nat → Bool) :
    ((l.find? p).bind fun a => l.findIdx? (· == a)) = l.findIdx? p := by
  induction l with
  | nil => rfl
  | cons b l ih =>
    obtain ⟨hb, hnodup⟩ := List.nodup_cons.mp hnodup
    by_cases hpb : p b = true
    · rw [List.find?_cons_of_pos hpb, List.findIdx?_cons, if_pos hpb, Option.bind_some,
        List.findIdx?_cons, if_pos (beq_self_eq_true b)]
    · rw [List.find?_cons_of_neg hpb, List.findIdx?_cons, if_neg hpb, ← ih hnodup]
      cases hfound : l.find? p with
      | none => rfl
      | some a =>
        have hne : b ≠ a := fun heq => hb (heq ▸ List.mem_of_find?_eq_some hfound)
        rw [Option.bind_some, Option.bind_some, List.findIdx?_cons,
          if_neg (by rw [beq_iff_eq]; exact hne)]

/-! ## Conflicts -/

/-- Rows hold a relation: those of transactions mark the transactions that they are related to. -/
structure Marked (r : Registry σ) (rows : Nat → Option Mask) (rel : Nat → Nat → Prop) : Prop where
  /-- transactions have rows, which mark what they are related to -/
  transaction : ∀ {a : Nat}, (r.transaction? a).isSome → ∃ row, rows a = some row ∧
    row.size = r.actions.length ∧ ∀ x, row.test x = true ↔ rel a x
  /-- nothing else has rows -/
  other : ∀ {a : Nat}, ¬ (r.transaction? a).isSome → rows a = none

namespace Marked

variable {rows : Nat → Option Mask} {rel rel' : Nat → Nat → Prop}

theorem congr (h : r.Marked rows rel) (hrel : ∀ a x, rel a x ↔ rel' a x) : r.Marked rows rel' where
  transaction := by
    intro a ha
    obtain ⟨row, hrow, hsize, htest⟩ := h.transaction ha
    exact ⟨row, hrow, hsize, fun x => (htest x).trans (hrel a x)⟩
  other := h.other

theorem clean : r.Marked r.cleanRows fun _ _ => False where
  transaction := by
    intro a ha
    exact ⟨_, if_pos ha, Mask.size_none _, fun x => by simp⟩
  other := fun ha => if_neg ha

/-- A pair that is marked is related in both directions. -/
theorem mark (h : r.Marked rows rel) {b c : Nat} (hb : (r.transaction? b).isSome)
    (hc : (r.transaction? c).isSome) (hne : b ≠ c) :
    r.Marked (Tables.mark rows b c) fun a x => rel a x ∨ (a = b ∧ x = c) ∨ (a = c ∧ x = b) where
  transaction := by
    intro a ha
    obtain ⟨row, hrow, hsize, htest⟩ := h.transaction ha
    have hinsert : ∀ {x : Nat}, (r.transaction? x).isSome → ∀ y,
        (row.insert x).test y = true ↔ rel a y ∨ y = x := by
      intro x hx y
      rw [Mask.test_insert_iff (by rw [hsize]; exact lt_length_of_transaction? hx), htest]
    unfold Tables.mark
    rw [hrow, Option.map_some]
    refine ⟨_, rfl, ?_, fun x => ?_⟩
    · split
      · rw [Mask.size_insert, hsize]
      · split
        · rw [Mask.size_insert, hsize]
        · exact hsize
    · split
      · rename_i hab
        rw [hinsert hc]
        simp [hab, hne]
      · rename_i hab
        split
        · rename_i hac
          rw [hinsert hb]
          simp [hac, hne.symm]
        · rename_i hac
          rw [htest]
          simp [hab, hac]
  other := by
    intro a ha
    unfold Tables.mark
    rw [h.other ha]
    rfl

/-- The conflicts of one transaction with others. -/
theorem markWith (clash : Nat → Nat → Bool) {b : Nat} (hb : (r.transaction? b).isSome)
    {others : List Nat} (hothers : ∀ c ∈ others, (r.transaction? c).isSome) (hnew : b ∉ others)
    {rows : Nat → Option Mask} {rel : Nat → Nat → Prop} (h : r.Marked rows rel) :
    r.Marked (Tables.markWith clash b others rows) fun a x =>
      rel a x ∨ (a = b ∧ x ∈ others ∧ clash b x = true) ∨ (x = b ∧ a ∈ others ∧ clash b a = true) := by
  induction others generalizing rows rel with
  | nil => exact h.congr fun a x => by simp
  | cons c rest ih =>
    rw [List.mem_cons, not_or] at hnew
    have hrest : ∀ x ∈ rest, (r.transaction? x).isSome := fun x hx =>
      hothers x (List.mem_cons_of_mem _ hx)
    unfold Tables.markWith
    rw [List.foldl_cons]
    by_cases hclash : clash b c = true
    · rw [if_pos hclash]
      refine (ih hrest hnew.2 (h.mark hb (hothers c List.mem_cons_self) hnew.1)).congr fun a x => ?_
      simp only [List.mem_cons]
      constructor
      · rintro ((hrel | ⟨rfl, rfl⟩ | ⟨rfl, rfl⟩) | ⟨rfl, hx, hclash⟩ | ⟨rfl, ha, hclash⟩)
        · exact .inl hrel
        · exact .inr (.inl ⟨rfl, .inl rfl, hclash⟩)
        · exact .inr (.inr ⟨rfl, .inl rfl, hclash⟩)
        · exact .inr (.inl ⟨rfl, .inr hx, hclash⟩)
        · exact .inr (.inr ⟨rfl, .inr ha, hclash⟩)
      · rintro (hrel | ⟨rfl, rfl | hx, hclash⟩ | ⟨rfl, rfl | ha, hclash⟩)
        · exact .inl (.inl hrel)
        · exact .inl (.inr (.inl ⟨rfl, rfl⟩))
        · exact .inr (.inl ⟨rfl, hx, hclash⟩)
        · exact .inl (.inr (.inr ⟨rfl, rfl⟩))
        · exact .inr (.inr ⟨rfl, ha, hclash⟩)
    · rw [if_neg hclash]
      refine (ih hrest hnew.2 h).congr fun a x => ?_
      simp only [List.mem_cons]
      constructor
      · rintro (hrel | ⟨rfl, hx, hclash⟩ | ⟨rfl, ha, hclash⟩)
        · exact .inl hrel
        · exact .inr (.inl ⟨rfl, .inr hx, hclash⟩)
        · exact .inr (.inr ⟨rfl, .inr ha, hclash⟩)
      · rintro (hrel | ⟨rfl, rfl | hx, hclash'⟩ | ⟨rfl, rfl | ha, hclash'⟩)
        · exact .inl hrel
        · exact absurd hclash' hclash
        · exact .inr (.inl ⟨rfl, hx, hclash'⟩)
        · exact absurd hclash' hclash
        · exact .inr (.inr ⟨rfl, ha, hclash'⟩)

/-- The conflicts between the transactions of a list. -/
theorem markAll {clash : Nat → Nat → Bool} (hsymm : ∀ a b, clash a b = clash b a) {l : List Nat}
    (hl : ∀ a ∈ l, (r.transaction? a).isSome) (hnodup : l.Nodup) {rows : Nat → Option Mask}
    {rel : Nat → Nat → Prop} (h : r.Marked rows rel) :
    r.Marked (Tables.markAll clash l rows) fun a x =>
      rel a x ∨ (a ∈ l ∧ x ∈ l ∧ a ≠ x ∧ clash a x = true) := by
  induction l generalizing rows rel with
  | nil => exact h.congr fun a x => by simp
  | cons b rest ih =>
    obtain ⟨hb, hnodup⟩ := List.nodup_cons.mp hnodup
    have hrest : ∀ x ∈ rest, (r.transaction? x).isSome := fun x hx => hl x (List.mem_cons_of_mem _ hx)
    refine (ih hrest hnodup (h.markWith clash (hl b List.mem_cons_self) hrest hb)).congr fun a x => ?_
    have hne : ∀ {y : Nat}, y ∈ rest → y ≠ b := fun hy heq => hb (heq ▸ hy)
    simp only [List.mem_cons]
    constructor
    · rintro ((hrel | ⟨rfl, hx, hclash⟩ | ⟨rfl, ha, hclash⟩) | ⟨ha, hx, hax, hclash⟩)
      · exact .inl hrel
      · exact .inr ⟨.inl rfl, .inr hx, (hne hx).symm, hclash⟩
      · exact .inr ⟨.inr ha, .inl rfl, hne ha, by rw [hsymm, hclash]⟩
      · exact .inr ⟨.inr ha, .inr hx, hax, hclash⟩
    · rintro (hrel | ⟨rfl | ha, rfl | hx, hax, hclash⟩)
      · exact .inl (.inl hrel)
      · exact absurd rfl hax
      · exact .inl (.inr (.inl ⟨rfl, hx, hclash⟩))
      · exact .inl (.inr (.inr ⟨rfl, ha, by rw [hsymm, hclash]⟩))
      · exact .inr ⟨ha, hx, hax, hclash⟩

end Marked

theorem overlaps_comm (closure : Nat → Mask) (a b : Nat) : r.overlaps closure a b = r.overlaps closure b a := by
  have hshare : r.shareExclusive (closure a) (closure b) = r.shareExclusive (closure b) (closure a) := by
    unfold shareExclusive
    simp only [Bool.and_comm ((closure a).test _)]
  have hends : r.declaredBetween (closure a) (closure b) =
      r.declaredBetween (closure b) (closure a) := by
    unfold declaredBetween
    congr 1
    funext pair
    rw [Bool.or_comm, Bool.and_comm, Bool.and_comm ((closure a).test pair.1)]
  unfold overlaps
  rw [hshare, hends]

theorem conflicting_eq_true {closure : Nat → Mask} {a b : Nat} :
    r.conflicting closure a b = true ↔ a ≠ b ∧ (r.transaction? a).isSome ∧
      (r.transaction? b).isSome ∧ r.overlaps closure a b = true := by
  unfold conflicting overlaps
  rw [Bool.and_eq_true, Bool.and_eq_true, Bool.and_eq_true, bne_iff_ne, and_assoc, and_assoc]

/-- The rows that are marked are those of a plan. -/
theorem map_markAll (closure : Nat → Mask) :
    ((List.range r.actions.length).map fun id =>
      (Tables.markAll (r.overlaps closure) r.transactions r.cleanRows id).getD
        (Mask.none r.actions.length)) = r.conflictRows closure := by
  have hmarked := (Marked.clean (r := r)).markAll (r.overlaps_comm closure)
    (fun a ha => mem_transactions.mp ha) (perm_staticOrder.nodup_iff.mp nodup_staticOrder)
  refine List.map_congr_left fun a _ => Mask.eq_of_test ?_ fun x => ?_
  · by_cases ha : (r.transaction? a).isSome = true
    · obtain ⟨row, hrow, hsize, -⟩ := hmarked.transaction ha
      rw [hrow, Option.getD_some, hsize, Mask.size_ofTest]
    · rw [hmarked.other ha, Option.getD_none, Mask.size_none, Mask.size_ofTest]
  · rw [Mask.test_ofTest]
    by_cases ha : (r.transaction? a).isSome = true
    · obtain ⟨row, hrow, -, htest⟩ := hmarked.transaction ha
      rw [hrow, Option.getD_some, htest, mem_transactions, mem_transactions, Bool.and_eq_true,
        decide_eq_true_iff, conflicting_eq_true]
      constructor
      · rintro (hnever | ⟨-, hx, hne, hclash⟩)
        · exact hnever.elim
        · exact ⟨lt_length_of_transaction? hx, hne, ha, hx, hclash⟩
      · rintro ⟨-, hne, -, hx, hclash⟩
        exact .inr ⟨ha, hx, hne, hclash⟩
    · rw [hmarked.other ha, Option.getD_none, Mask.test_none]
      unfold conflicting
      simp [ha]

/-! ## Ties -/

/-- What the rows of a plan hold. -/
theorem conflict_eq_conflicting (closure : Nat → Mask) (order : List Nat) :
    Ranking.conflict ⟨order, r.conflictRows closure⟩ = r.conflicting closure := by
  funext a b
  unfold Ranking.conflict conflictRows ids
  rw [List.getElem?_map, Bool.eq_iff_iff]
  by_cases ha : a < r.actions.length
  · rw [List.getElem?_range ha, Option.map_some, Option.getD_some, Mask.test_ofTest,
      Bool.and_eq_true, decide_eq_true_iff]
    refine and_iff_right_of_imp fun h => ?_
    exact lt_length_of_transaction? (conflicting_eq_true.mp h).2.2.1
  · rw [List.getElem?_eq_none (by rw [List.length_range]; omega), Option.map_none, Option.getD_none,
      Mask.test_none]
    refine ⟨fun h => (Bool.false_ne_true h).elim, fun h => ?_⟩
    exact absurd (lt_length_of_transaction? (conflicting_eq_true.mp h).2.1) ha

theorem tieIn?_conflicting (closure : Nat → Mask) (l : List Nat) :
    r.tieIn? closure (r.conflicting closure) l = r.findTie? closure l := by
  induction l with
  | nil => rfl
  | cons a rest ih =>
    unfold tieIn? findTie?
    cases hfound : (rest.takeWhile fun b =>
        ((r.action? a).map Action.priority) == ((r.action? b).map Action.priority)).find? fun b =>
          r.conflicting closure a b && r.neverHeldBack closure a && r.neverHeldBack closure b with
    | none =>
      simp only [hfound]
      exact ih
    | some b => simp only [hfound]

/-! ## Caller order -/

theorem siteRankIn_eq {t : Tables} {closures : List Mask}
    (hclosures : t.closureList r.actions.length = closures) (horder : t.order = r.staticOrder)
    (hrank : t.rank = Tables.positions r.staticOrder) (site : Nat) :
    r.siteRankIn t site = r.rankOfSite (closureIn closures) r.staticOrder site := by
  unfold siteRankIn rankOfSite
  rw [hclosures, horder, hrank]
  cases r.sites[site]? with
  | none => rfl
  | some s =>
    have hpositions : Tables.positions r.staticOrder =
        fun a => r.staticOrder.findIdx? (· == a) := funext (positions_eq nodup_staticOrder)
    simp only [hpositions]
    rw [find?_bind_findIdx? nodup_staticOrder]

/-! ## Attempts -/

/-- The call sites of methods, as they are entered. -/
def callerTable (r : Registry σ) (closures : List Mask) (id : Nat) : Option (List Nat) :=
  (r.method? id).map fun _ => r.rankedCallers (closureIn closures) r.staticOrder id

/-- The tables after an attempt that succeeds. -/
def filled (r : Registry σ) (closures : List Mask) : Tables where
  closures := r.closureTable
  order := r.staticOrder
  rank := Tables.positions r.staticOrder
  rows := Tables.markAll (r.overlaps (closureIn closures)) r.transactions r.cleanRows
  clusters := r.clusters ⟨r.staticOrder, r.conflictRows (closureIn closures)⟩
  callers := r.callerTable closures

theorem ranking_eq {t : Tables} {closure : Nat → Mask} (horder : t.order = r.staticOrder)
    (hrows : t.rows = Tables.markAll (r.overlaps closure) r.transactions r.cleanRows) :
    t.ranking r.actions.length = ⟨r.staticOrder, r.conflictRows closure⟩ := by
  unfold Tables.ranking
  rw [horder, hrows, map_markAll]

theorem checkTiesIn_eq {t : Tables} {closures : List Mask}
    (hclosures : t.closureList r.actions.length = closures) (horder : t.order = r.staticOrder)
    (hrows : t.rows = Tables.markAll (r.overlaps (closureIn closures)) r.transactions r.cleanRows) :
    r.checkTiesIn t = .check t (r.checkTies (closureIn closures) r.staticOrder) := by
  unfold checkTiesIn checkTies
  rw [hclosures, ranking_eq horder hrows, conflict_eq_conflicting, tieIn?_conflicting, horder]
  cases r.findTie? (closureIn closures) r.staticOrder <;> rfl

theorem rebuildCallers_eq {t : Tables} {closures : List Mask}
    (hclosures : t.closureList r.actions.length = closures) (horder : t.order = r.staticOrder)
    (hrank : t.rank = Tables.positions r.staticOrder) :
    r.rebuildCallers t = ⟨{ t with callers := r.callerTable closures }, none⟩ := by
  have hsite : r.siteRankIn t = r.rankOfSite (closureIn closures) r.staticOrder :=
    funext (siteRankIn_eq hclosures horder hrank)
  unfold rebuildCallers callerTable rankedCallers
  simp only
  rw [hsite]
  congr 2
  funext id
  cases r.method? id <;> rfl

/-- The tables of a successful attempt hold the plan. -/
theorem plan_filled {closures : List Mask} (h : r.closures = .ok closures) :
    (r.filled closures).plan r.actions.length =
      { closures := closures
        ranking := ⟨r.staticOrder, r.conflictRows (closureIn closures)⟩
        clusters := r.clusters ⟨r.staticOrder, r.conflictRows (closureIn closures)⟩
        callers := r.ids.map (r.rankedCallers (closureIn closures) r.staticOrder) } := by
  unfold Tables.plan
  rw [closureList_closureTable h rfl, ranking_eq rfl rfl]
  congr 1
  refine List.map_congr_left fun id _ => ?_
  unfold filled callerTable rankedCallers
  simp only
  cases r.method? id <;> simp

end Registry

namespace Design

variable {d : Design σ}

theorem analyse_eq : d.analyse = (d.vet >>= fun _ => d.main.closures) := by
  unfold analyse vet
  simp only [bind_assoc]

/-- An attempt ends like elaboration whatever it finds in the tables, and if it succeeds the tables hold the
plan and nothing of what was there before. -/
theorem attempt_cases (hfrozen : d.main.isFrozen = false) (t : Tables) :
    (∃ refusal, d.elaborate.2 = .error refusal ∧ (d.attempt t).refusal = some refusal) ∨
      ∃ closures, d.elaborate.2 = .ok () ∧ d.main.closures = .ok closures ∧
        d.attempt t = ⟨d.main.filled closures, none⟩ ∧
          d.elaborate.1.main.plan = some ((d.main.filled closures).plan d.main.actions.length) := by
  unfold attempt elaborate
  rw [hfrozen, analyse_eq, if_neg Bool.false_ne_true, if_neg Bool.false_ne_true]
  cases d.vet with
  | error refusal => exact .inl ⟨refusal, rfl, rfl⟩
  | ok _ =>
    rw [ok_bind]
    cases hclosures : d.main.closures with
    | error refusal =>
      refine .inl ⟨refusal, rfl, ?_⟩
      have hrefused : (d.main.rebuildClosures t).refusal = some refusal :=
        Registry.enterClosures_eq_error hclosures _
      rw [Attempt.check, Attempt.next_done]
      simp only [Attempt.next_of_refusal hrefused]
      exact hrefused
    | ok closures =>
      have hlist : ∀ {t : Tables}, t.closures = d.main.closureTable →
          t.closureList d.main.actions.length = closures :=
        Registry.closureList_closureTable hclosures
      rw [Attempt.check, Attempt.next_done, Registry.rebuildClosures_eq hclosures,
        Attempt.next_done, Registry.rebuildOrder, Attempt.next_done, Registry.clearRows,
        Attempt.next_done, Registry.checkEndsIn, hlist rfl]
      unfold Registry.planWith
      simp only
      cases d.main.checkConflictEnds (Registry.closureIn closures) with
      | error refusal => exact .inl ⟨refusal, rfl, rfl⟩
      | ok _ =>
        rw [Attempt.check, Attempt.next_done, Registry.markConflicts, hlist rfl, Attempt.next_done,
          Registry.checkTiesIn_eq (hlist rfl) rfl rfl]
        cases d.main.checkTies (Registry.closureIn closures) d.main.staticOrder with
        | error refusal => exact .inl ⟨refusal, rfl, rfl⟩
        | ok _ =>
          rw [Attempt.check, Attempt.next_done, Registry.rebuildClusters, Attempt.next_done,
            Registry.ranking_eq rfl rfl, Registry.rebuildCallers_eq (hlist rfl) rfl rfl]
          exact .inr ⟨closures, rfl, rfl, rfl, congrArg some (Registry.plan_filled hclosures).symm⟩

/-- An attempt on tables that stay in place ends like elaboration whatever it finds in them. -/
theorem verdict_attempt (d : Design σ) (left : Tables) : (d.attempt left).verdict = d.elaborate.2 := by
  unfold Attempt.verdict
  cases hfrozen : d.main.isFrozen with
  | true =>
    unfold attempt elaborate
    rw [hfrozen]
    rfl
  | false =>
    rcases attempt_cases hfrozen left with
      ⟨refusal, helaborate, hattempt⟩ | ⟨closures, helaborate, -, hattempt, -⟩
    · rw [hattempt, helaborate]
    · rw [hattempt, helaborate]

/-- If it succeeds, the tables are those of an attempt from nothing, and hold the plan. -/
theorem tables_attempt (h : d.elaborate.2 = .ok ()) (left : Tables) :
    (d.attempt left).tables = (d.attempt {}).tables ∧
      d.elaborate.1.main.plan = some ((d.attempt left).tables.plan d.main.actions.length) := by
  have hfrozen : d.main.isFrozen = false := by
    cases hfrozen : d.main.isFrozen with
    | false => rfl
    | true =>
      unfold elaborate at h
      rw [hfrozen] at h
      cases h
  have hfilled : ∀ tables, ∃ closures, d.main.closures = .ok closures ∧
      d.attempt tables = ⟨d.main.filled closures, none⟩ ∧
        d.elaborate.1.main.plan = some ((d.main.filled closures).plan d.main.actions.length) := by
    intro tables
    rcases attempt_cases hfrozen tables with ⟨refusal, hrefused, -⟩ | ⟨closures, -, hfilled⟩
    · rw [h] at hrefused
      cases hrefused
    · exact ⟨closures, hfilled⟩
  obtain ⟨closures, hclosures, hattempt, hplan⟩ := hfilled left
  obtain ⟨closures', hclosures', hattempt', -⟩ := hfilled {}
  obtain rfl := Except.ok.inj (hclosures.symm.trans hclosures')
  rw [hattempt, hattempt']
  exact ⟨rfl, hplan⟩

end Design

end GuardedActions
