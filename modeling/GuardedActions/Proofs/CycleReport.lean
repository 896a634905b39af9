import GuardedActions.Proofs.Elaborated
import Mathlib

/-!
# Reports of cycles

The search for cycles reports one exactly if there is one.  What it reports is a walk along declared calls
that comes back to where it started and visits no action twice on the way.  The fuel that bounds the depth
of the search decides nothing: on every finite graph more of it leads to the same outcome.
-/

set_option autoImplicit false

namespace GuardedActions

/-- A fold whose steps agree, unless they stop for one reason, agrees with another one unless it stops for
that reason. -/
theorem foldlM_eq_of_ne_error {ε α β : Type} {f g : β → α → Except ε β} {l : List α} {b : β} {e : ε}
    (hstep : ∀ a ∈ l, ∀ b, f b a ≠ .error e → g b a = f b a) (h : l.foldlM f b ≠ .error e) :
    l.foldlM g b = l.foldlM f b := by
  induction l generalizing b with
  | nil => rfl
  | cons a l ih =>
    rw [List.foldlM_cons] at h ⊢
    have hfirst : f b a ≠ .error e := by
      intro hstop
      rw [hstop] at h
      exact h rfl
    rw [List.foldlM_cons, hstep a List.mem_cons_self b hfirst]
    cases hb : f b a with
    | error stop => rfl
    | ok b' =>
      rw [hb] at h
      exact ih (fun a' ha' => hstep a' (List.mem_cons_of_mem _ ha')) h

namespace Cycle

variable {next : Nat → List Nat} {size : Nat}

/-- A walk along calls that ends where it starts and visits no action twice otherwise. -/
structure Simple (next : Nat → List Nat) (size first : Nat) (inner walk : List Nat) : Prop where
  /-- the walk starts and ends with the same action -/
  closed : walk = first :: (inner ++ [first])
  /-- consecutive actions are joined by a call -/
  calls : walk.IsChain fun caller callee => callee ∈ next caller
  /-- no action occurs twice before the end -/
  nodup : (first :: inner).Nodup
  /-- all of them are actions -/
  below : ∀ a ∈ walk, a < size

/-- The part of the path from the callee on, read from its other end. -/
theorem close_append {callee : Nat} {before after : List Nat} (hnew : callee ∉ before) :
    close callee (before ++ callee :: after) = callee :: (before.reverse ++ [callee]) := by
  have hbefore : ∀ a ∈ before, decide (a ≠ callee) = true := fun a ha =>
    decide_eq_true fun heq => hnew (heq ▸ ha)
  unfold close
  rw [List.takeWhile_append_of_pos hbefore, List.takeWhile_cons_of_neg (by simp), List.append_nil]
  rfl

/-- A call back to the path closes a simple cycle. -/
theorem Trail.simple {caller callee : Nat} {path : List Nat} (h : Trail next size (caller :: path))
    (hmem : callee ∈ caller :: path) (hcall : callee ∈ next caller) :
    ∃ inner, Simple next size callee inner (close callee (caller :: path)) := by
  obtain ⟨before, after, hsplit, hnew⟩ := List.eq_append_cons_of_mem hmem
  have hinitial : before ++ [callee] <+: caller :: path :=
    ⟨after, by rw [hsplit, List.append_assoc, List.singleton_append]⟩
  refine ⟨before.reverse, ?_⟩
  rw [hsplit, close_append hnew]
  refine ⟨rfl, ?_, ?_, ?_⟩
  · -- read backwards, the walk is the callee and then the part of the path up to it
    have hwalk : callee :: (before.reverse ++ [callee]) = (callee :: (before ++ [callee])).reverse := by
      simp
    rw [hwalk, List.isChain_reverse, List.isChain_cons]
    refine ⟨fun a ha => ?_, h.calls.prefix hinitial⟩
    obtain rfl : a = caller := by
      cases before with
      | nil =>
        rw [List.nil_append, List.head?_cons, Option.mem_some_iff] at ha
        rw [List.nil_append] at hsplit
        exact ha.symm.trans (List.cons.inj hsplit).1.symm
      | cons b before =>
        rw [List.cons_append, List.head?_cons, Option.mem_some_iff] at ha
        rw [List.cons_append] at hsplit
        exact ha.symm.trans (List.cons.inj hsplit).1.symm
    exact hcall
  · have hnodup := h.nodup.sublist hinitial.sublist
    rw [List.nodup_append_comm, List.singleton_append] at hnodup
    exact List.nodup_cons.mpr ⟨by rw [List.mem_reverse]; exact hnew,
      List.nodup_reverse.mpr (List.nodup_cons.mp hnodup).2⟩
  · intro a ha
    refine h.below a (hinitial.subset ?_)
    rw [List.mem_cons, List.mem_append, List.mem_reverse, List.mem_singleton] at ha
    rw [List.mem_append, List.mem_singleton]
    tauto

theorem Stop.Genuine.simple {stop : Stop} (h : stop.Genuine next size) :
    ∃ first inner walk, stop = .cycle walk ∧ Simple next size first inner walk := by
  obtain ⟨caller, callee, path, rfl, htrail, hmem, hcall⟩ := h
  obtain ⟨inner, hsimple⟩ := htrail.simple hmem hcall
  exact ⟨callee, inner, _, rfl, hsimple⟩

/-! ## Fuel -/

/-- Fuel that suffices may be increased. -/
theorem visit_of_le : ∀ {fuel fuel' : Nat} {path : List Nat} {action : Nat} {finished : List Nat},
    fuel ≤ fuel' → visit next fuel path action finished ≠ .error .exhausted →
      visit next fuel' path action finished = visit next fuel path action finished := by
  intro fuel
  induction fuel with
  | zero =>
    intro fuel' path action finished _ h
    exact absurd rfl h
  | succ fuel ih =>
    intro fuel' path action finished hle h
    obtain ⟨fuel', rfl⟩ : ∃ n, fuel' = n + 1 := ⟨fuel' - 1, by omega⟩
    unfold visit at h ⊢
    refine congrArg (· >>= fun below => Except.ok (action :: below))
      (foldlM_eq_of_ne_error (e := .exhausted) ?_ ?_)
    · intro callee _ finished hne
      by_cases hdone : callee ∈ finished
      · rw [if_pos hdone, if_pos hdone]
      · by_cases hback : callee ∈ action :: path
        · rw [if_neg hdone, if_neg hdone, if_pos hback, if_pos hback]
        · rw [if_neg hdone, if_neg hback] at hne ⊢
          rw [if_neg hdone, if_neg hback]
          exact ih (Nat.le_of_succ_le_succ hle) hne
    · intro hstop
      rw [hstop] at h
      exact h rfl

/-- On a finite graph the search never runs out of fuel, and more fuel leads to the same outcome. -/
theorem visitAll_of_le {fuel : Nat} {actions : List Nat} (hlt : ∀ a, ∀ b ∈ next a, b < size)
    (hactions : ∀ a ∈ actions, a < size) (hfuel : size ≤ fuel) :
    visitAll next fuel actions ≠ .error .exhausted ∧
      visitAll next fuel actions = visitAll next size actions := by
  have hgenuine : ∀ n, size ≤ n → visitAll next n actions ≠ .error .exhausted := by
    intro n hn hstop
    obtain ⟨first, inner, walk, hcycle, -⟩ := (genuine_of_visitAll hlt hactions hn hstop).simple
    cases hcycle
  refine ⟨hgenuine fuel hfuel, foldlM_eq_of_ne_error (e := .exhausted) ?_ (hgenuine size le_rfl)⟩
  intro action _ finished hne
  by_cases hdone : action ∈ finished
  · rw [if_pos hdone, if_pos hdone]
  · rw [if_neg hdone] at hne ⊢
    rw [if_neg hdone]
    exact visit_of_le hfuel hne

end Cycle

namespace Registry

variable {σ : Type} {r : Registry σ}

/-- A refusal that reports a cycle of the call graph, walked from `first` through `inner` back to
`first`. -/
structure ReportsCycle (r : Registry σ) (refusal : Refusal) (first : Nat) (inner : List Nat) :
    Prop where
  /-- consecutive actions are joined by a declared call -/
  calls : (first :: (inner ++ [first])).IsChain r.Calls
  /-- no action occurs twice before the end -/
  nodup : (first :: inner).Nodup
  /-- all of them are registered -/
  registered : ∀ a ∈ first :: inner, (r.action? a).isSome
  /-- the subject is the name at both ends, and the details are the names along the walk -/
  report : refusal =
    { subject := r.nameOf first
      category := .cyclicCallGraph
      details := " -> ".intercalate ((first :: (inner ++ [first])).map r.nameOf)
      reason := "a method may not reach itself through calls"
      solution := "break the cycle" }

/-- Whatever the search reports is a cycle. -/
theorem exists_reportsCycle (hcallee : ∀ {a b : Nat}, r.Calls a b → b < r.actions.length)
    {refusal : Refusal} (h : r.checkAcyclic = .error refusal) :
    ∃ first inner, r.ReportsCycle refusal first inner := by
  unfold checkAcyclic at h
  cases hvisit : Cycle.visitAll r.callees (r.actions.length + 1) r.ids with
  | ok finished =>
    rw [hvisit] at h
    cases h
  | error stop =>
    obtain ⟨first, inner, walk, rfl, hsimple⟩ :=
      (Cycle.genuine_of_visitAll (fun a b hb => hcallee (mem_callees.mp hb))
        (fun a ha => mem_ids.mp ha) (Nat.le_succ _) hvisit).simple
    rw [hvisit] at h
    obtain rfl := Except.error.inj h
    obtain ⟨rfl, hcalls, hnodup, hbelow⟩ := hsimple
    refine ⟨first, inner, hcalls.imp fun a b hb => mem_callees.mp hb, hnodup, fun a ha => ?_, rfl⟩
    have hlt := hbelow a (by
      rw [← List.cons_append]
      exact List.mem_append_left _ ha)
    exact Option.isSome_iff_exists.mpr ⟨_, List.getElem?_eq_getElem hlt⟩

end Registry

/-- If the call sites are in order, a search for cycles finds one exactly if there is one.  Whatever it
refuses it refuses for a cycle, and this is how elaboration ends, if names and bodies are in order too.  On
every finite graph the search comes to an end, and whether the fuel is what there are nodes or more does not
matter. -/
theorem Design.Built.cycle_reports {σ : Type} {d : Design σ} (built : d.Built)
    (hsites : d.checkSites = .ok ()) :
    ((∃ refusal, d.main.checkAcyclic = .error refusal ∧ refusal.category = .cyclicCallGraph) ↔
      ∃ a, Relation.TransGen d.main.Calls a a) ∧
    (∀ refusal, d.main.checkAcyclic = .error refusal →
      (∃ first inner, d.main.ReportsCycle refusal first inner) ∧
        (d.main.isFrozen = false → d.main.checkNames = .ok () → d.main.checkBodies = .ok () →
          d.elaborate = (d, .error refusal))) ∧
    ∀ (next : Nat → List Nat) (size fuel : Nat) (nodes : List Nat), (∀ a, ∀ b ∈ next a, b < size) →
      (∀ a ∈ nodes, a < size) → size ≤ fuel →
        Cycle.visitAll next fuel nodes ≠ .error .exhausted ∧
          Cycle.visitAll next fuel nodes = Cycle.visitAll next size nodes := by
  have hsound := sitesSound_of_checkSites hsites
  have hcallee : ∀ {a b : Nat}, d.main.Calls a b → b < d.main.actions.length :=
    built.wellFormed.lt_length_of_calls hsound.callee_main
  refine ⟨⟨?_, ?_⟩, ?_, fun next size fuel nodes hlt hnodes hfuel =>
    Cycle.visitAll_of_le hlt hnodes hfuel⟩
  · rintro ⟨refusal, hrefused, -⟩
    by_contra hnone
    rw [Registry.checkAcyclic_of_not_transGen hcallee (not_exists.mp hnone)] at hrefused
    cases hrefused
  · rintro ⟨a, hcycle⟩
    cases hcheck : d.main.checkAcyclic with
    | ok _ =>
      have hacyclic := Registry.acyclic_of_checkAcyclic built.wellFormed.caller_lt_main hcheck
      exact absurd hcycle (hacyclic.not_transGen a)
    | error refusal =>
      obtain ⟨first, inner, hreports⟩ := Registry.exists_reportsCycle hcallee hcheck
      exact ⟨refusal, rfl, by rw [hreports.report]⟩
  · intro refusal hrefused
    refine ⟨Registry.exists_reportsCycle hcallee hrefused, fun hfrozen hnames hbodies => ?_⟩
    unfold Design.elaborate Design.analyse
    rw [hfrozen, hnames, hbodies, hsites, hrefused]
    rfl

/-! ## A ring

Two methods that call each other, found from a third that calls one of them. -/

namespace Ring

/-- The registrations: the ring is entered in the middle, after a call that leads nowhere. -/
def steps : List (Registration Unit) :=
  [.newMethod .main "enter" Shape.empty Shape.empty none,
   .setMethod ⟨.main, 0⟩ (.body fun _ => .done Record.empty),
   .newMethod .main "leave" Shape.empty Shape.empty none,
   .setMethod ⟨.main, 1⟩ (.body fun _ => .done Record.empty),
   .newMethod .main "even" Shape.empty Shape.empty none,
   .setMethod ⟨.main, 2⟩ (.body fun _ => .done Record.empty),
   .newMethod .main "odd" Shape.empty Shape.empty none,
   .setMethod ⟨.main, 3⟩ (.body fun _ => .done Record.empty),
   .newCall ⟨.main, 0⟩ ⟨.main, 1⟩,
   .newCall ⟨.main, 0⟩ ⟨.main, 3⟩,
   .newCall ⟨.main, 3⟩ ⟨.main, 1⟩,
   .newCall ⟨.main, 3⟩ ⟨.main, 2⟩,
   .newCall ⟨.main, 2⟩ ⟨.main, 3⟩]

/-- The ring, not elaborated. -/
def design : Design Unit := Design.registerAll steps {}

/-- What elaboration says about it. -/
def refusal : Refusal where
  subject := "odd"
  category := .cyclicCallGraph
  details := "odd -> even -> odd"
  reason := "a method may not reach itself through calls"
  solution := "break the cycle"

theorem checkSites_eq : design.checkSites = .ok () := by cbv

theorem checkAcyclic_eq : design.main.checkAcyclic = .error refusal := by cbv

/-- The walk that is reported leaves out the way to the ring. -/
theorem reports_ring : design.checkSites = .ok () ∧
    design.main.checkAcyclic = .error refusal ∧
    (∃ first inner, design.main.ReportsCycle refusal first inner) ∧
    (∃ a, Relation.TransGen design.main.Calls a a) ∧ design.elaborate = (design, .error refusal) := by
  obtain ⟨hiff, hreports, -⟩ := Design.Built.cycle_reports (.registerAll steps .empty) checkSites_eq
  obtain ⟨hcycle, helaborate⟩ := hreports refusal checkAcyclic_eq
  exact ⟨checkSites_eq, checkAcyclic_eq, hcycle, hiff.mp ⟨refusal, checkAcyclic_eq, rfl⟩,
    helaborate (by cbv) (by cbv) (by cbv)⟩

end Ring

end GuardedActions
