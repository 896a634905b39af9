import GuardedActions.Proofs.ConflictComponents
import GuardedActions.Proofs.CycleReport
import GuardedActions.Proofs.Elaboration.InPlace

/-!
# Elaboration comes to an end

Three searches are made in an elaboration: for cycles, for the closures of the transactions, and for the components
of their conflicts.  Each of them is told here as a relation without a bound on its length (`Closure.Works`,
`Cluster.Floods`; for cycles see `Cycle.visitAll_of_le`), and what elaboration computes is what the relation leads
to.  Hence elaboration succeeds or refuses the design for a rule that it breaks (`Design.ElaborationEnds`).
-/

set_option autoImplicit false

namespace GuardedActions

/-! ## Closures -/

namespace Closure

/-- The computation of a closure comes to its end: some callees are still to be looked at, some actions are on the
stack, and some are marked.  It is known which actions are put on the stack on the way, and what comes out: the
marked actions, or one that was met again. -/
inductive Works (next : Nat → List Nat) : (callees stack : List Nat) → (reached : Mask) → (pushes : List Nat) →
    Except Nat Mask → Prop where
  /-- the stack is empty -/
  | finish {reached : Mask} : Works next [] [] reached [] (.ok reached)
  /-- the action on top is taken off, and its callees are looked at -/
  | pop {a : Nat} {stack pushes : List Nat} {reached : Mask} {o : Except Nat Mask}
      (rest : Works next (next a) stack reached pushes o) : Works next [] (a :: stack) reached pushes o
  /-- a callee that is not marked is marked and put on the stack -/
  | push {c : Nat} {callees stack pushes : List Nat} {reached : Mask} {o : Except Nat Mask}
      (fresh : reached.test c = false) (rest : Works next callees (c :: stack) (reached.insert c) pushes o) :
      Works next (c :: callees) stack reached (c :: pushes) o
  /-- a callee that is marked ends the computation -/
  | again {c : Nat} {callees stack : List Nat} {reached : Mask} (old : reached.test c = true) :
      Works next (c :: callees) stack reached [] (.error c)

variable {next : Nat → List Nat} {size : Nat} {callees stack pushes : List Nat} {reached : Mask}
  {o : Except Nat Mask}

/-- Nothing is put on the stack twice, nor what was marked before. -/
theorem Works.nodup_pushes (hlt : ∀ a, ∀ b ∈ next a, b < size) (h : Works next callees stack reached pushes o) :
    reached.size = size → (∀ c ∈ callees, c < size) →
      pushes.Nodup ∧ ∀ x ∈ pushes, reached.test x = false ∧ x < size := by
  induction h with
  | finish => exact fun _ _ => ⟨List.nodup_nil, nofun⟩
  | pop _ ih => exact fun hsize _ => ih hsize (hlt _)
  | @push c callees stack pushes reached o fresh _ ih =>
    intro hsize hcallees
    obtain ⟨hc, hrest⟩ := List.forall_mem_cons.mp hcallees
    obtain ⟨hnodup, hnew⟩ := ih (by rw [Mask.size_insert, hsize]) hrest
    have htest : ∀ x, (reached.insert c).test x = true ↔ reached.test x = true ∨ x = c := fun x =>
      Mask.test_insert_iff (by rw [hsize]; exact hc)
    have hleft : ∀ x ∈ pushes, x ≠ c ∧ reached.test x = false := by
      intro x hx
      have hunmarked := (hnew x hx).1
      rw [← Bool.not_eq_true, htest, not_or] at hunmarked
      exact ⟨hunmarked.2, Bool.not_eq_true _ ▸ hunmarked.1⟩
    refine ⟨List.nodup_cons.mpr ⟨fun hmem => (hleft c hmem).1 rfl, hnodup⟩, ?_⟩
    exact List.forall_mem_cons.mpr ⟨⟨fresh, hc⟩, fun x hx => ⟨(hleft x hx).2, (hnew x hx).2⟩⟩
  | again _ => exact fun _ _ => ⟨List.nodup_nil, nofun⟩

/-- What is marked and what is on the stack decide how much is left to be done. -/
theorem exists_works (hlt : ∀ a, ∀ b ∈ next a, b < size) : ∀ (left : Nat) (callees stack marked : List Nat)
    (reached : Mask), reached.size = size → marked.Nodup → (∀ x, reached.test x = true ↔ x ∈ marked) →
      (∀ c ∈ callees, c < size) → 2 * (size - marked.length) + stack.length = left →
        ∃ pushes o, Works next callees stack reached pushes o := by
  intro left
  induction left using Nat.strong_induction_on with
  | h left ih =>
    intro callees stack marked reached hsize hnodup hmarked hcallees hleft
    cases callees with
    | nil =>
      cases stack with
      | nil => exact ⟨[], _, .finish⟩
      | cons a stack =>
        rw [List.length_cons] at hleft
        obtain ⟨pushes, o, hworks⟩ := ih (left - 1) (by omega) (next a) stack marked reached hsize hnodup hmarked
          (hlt a) (by omega)
        exact ⟨pushes, o, .pop hworks⟩
    | cons c callees =>
      cases hc : reached.test c with
      | true => exact ⟨[], _, .again hc⟩
      | false =>
        obtain ⟨hbelow, hrest⟩ := List.forall_mem_cons.mp hcallees
        have hnew : c ∉ marked := by
          rw [← hmarked, hc]
          exact Bool.false_ne_true
        have hnodup' : (c :: marked).Nodup := List.nodup_cons.mpr ⟨hnew, hnodup⟩
        have hmarked' : ∀ x, (reached.insert c).test x = true ↔ x ∈ c :: marked := by
          intro x
          rw [Mask.test_insert_iff (by rw [hsize]; exact hbelow), hmarked, List.mem_cons, or_comm]
        have hroom : (c :: marked).length ≤ size := length_le_of_nodup hnodup' fun x hx => by
          have hmem := Mask.lt_size_of_test ((hmarked' x).mpr hx)
          rw [Mask.size_insert, hsize] at hmem
          exact hmem
        rw [List.length_cons] at hroom
        obtain ⟨pushes, o, hworks⟩ := ih (left - 1) (by omega) callees (c :: stack) (c :: marked)
          (reached.insert c) (by rw [Mask.size_insert, hsize]) hnodup' hmarked' hrest
          (by rw [List.length_cons, List.length_cons]; omega)
        exact ⟨c :: pushes, o, .push hc hworks⟩

/-- Go on in the midst of the callees of an action. -/
def resume (next : Nat → List Nat) (fuel : Nat) (callees stack : List Nat) (reached : Mask) : Except Stop Mask :=
  match expand callees stack reached with
  | .error stop => .error stop
  | .ok (stack, reached) => follow next fuel stack reached

/-- A unit of fuel for every action that is taken off the stack is enough. -/
theorem Works.resume_eq (h : Works next callees stack reached pushes o) :
    ∀ {fuel : Nat}, stack.length + pushes.length ≤ fuel →
      resume next fuel callees stack reached = o.mapError Stop.again := by
  induction h with
  | finish =>
    intro fuel _
    cases fuel <;> rfl
  | pop _ ih =>
    intro fuel hfuel
    rw [List.length_cons] at hfuel
    obtain ⟨fuel, rfl⟩ : ∃ n, fuel = n + 1 := ⟨fuel - 1, by omega⟩
    exact ih (by omega)
  | @push c callees stack pushes reached o fresh _ ih =>
    intro fuel hfuel
    have hstep : resume next fuel (c :: callees) stack reached =
        resume next fuel callees (c :: stack) (reached.insert c) := by
      unfold resume
      rw [expand, if_neg (by rw [fresh]; exact Bool.false_ne_true)]
    rw [hstep]
    rw [List.length_cons] at hfuel
    exact ih (by rw [List.length_cons]; omega)
  | again old =>
    intro fuel _
    unfold resume
    rw [expand, if_pos old]
    rfl

/-- The closure of an action, worked out to the end: every action is put on the stack at most once, and what comes
out is what was computed. -/
def Ends (next : Nat → List Nat) (size root : Nat) : Prop :=
  ∃ pushes o, Works next [] [root] ((Mask.none size).insert root) pushes o ∧ (root :: pushes).Nodup ∧
    of next size root = o.mapError Stop.again

theorem ends_of_lt (hlt : ∀ a, ∀ b ∈ next a, b < size) {root : Nat} (hroot : root < size) :
    Ends next size root := by
  have hsize : ((Mask.none size).insert root).size = size := by rw [Mask.size_insert, Mask.size_none]
  have hmarked : ∀ x, ((Mask.none size).insert root).test x = true ↔ x ∈ [root] := by
    intro x
    rw [Mask.test_single hroot, List.mem_singleton]
  obtain ⟨pushes, o, hworks⟩ := exists_works hlt _ [] [root] [root] _ hsize (List.nodup_singleton root) hmarked
    nofun rfl
  obtain ⟨hnodup, hnew⟩ := hworks.nodup_pushes hlt hsize nofun
  have hall : (root :: pushes).Nodup := by
    refine List.nodup_cons.mpr ⟨fun hmem => ?_, hnodup⟩
    have hold := (hmarked root).mpr (List.mem_singleton.mpr rfl)
    rw [(hnew root hmem).1] at hold
    cases hold
  have hfuel : (root :: pushes).length ≤ size := length_le_of_nodup hall
    (List.forall_mem_cons.mpr ⟨hroot, fun x hx => (hnew x hx).2⟩)
  refine ⟨pushes, o, hworks, hall, ?_⟩
  rw [List.length_cons] at hfuel
  exact hworks.resume_eq (by rw [List.length_singleton]; omega)

end Closure

/-! ## Components -/

namespace Cluster

/-- A flood comes to its end: the queue is worked off, and everything new behind an action is put at its end. -/
inductive Floods (next : Nat → List Nat) : (queue : List Nat) → (seen : Mask) → Mask → Prop where
  /-- the queue is empty -/
  | stop {seen : Mask} : Floods next [] seen seen
  /-- the first action is taken off the queue -/
  | visit {a : Nat} {queue : List Nat} {seen result : Mask}
      (rest : Floods next (queue ++ (next a).filter fun b => !seen.test b)
        (((next a).filter fun b => !seen.test b).foldl Mask.insert seen) result) :
      Floods next (a :: queue) seen result

theorem floods_spread {next : Nat → List Nat} {size : Nat} (hlt : ∀ a, ∀ b ∈ next a, b < size)
    (hnext : ∀ a, (next a).Nodup) {fuel : Nat} {before : Mask} {visited queue : List Nat} {seen : Mask}
    (h : Frontier next size before visited queue seen) (hfuel : size ≤ fuel + visited.length) :
    Floods next queue seen (spread next fuel queue seen) := by
  induction fuel generalizing visited queue seen with
  | zero =>
    cases queue with
    | nil => exact .stop
    | cons a queue =>
      have hle := h.length_le
      rw [List.length_cons] at hle
      omega
  | succ fuel ih =>
    cases queue with
    | nil => exact .stop
    | cons a queue =>
      refine .visit (ih (h.visit hlt hnext) ?_)
      rw [List.length_append, List.length_singleton]
      omega

/-- A flood ends, whatever earlier floods have assigned. -/
theorem floods_floodPast {ranking : Ranking} {size t : Nat} {assigned : Mask} (hregular : ranking.Regular size)
    (ht : t ∈ ranking.order) (h : Assigned ranking size assigned) (hnew : assigned.test t = false) :
    Floods (rivals ranking) [t] (assigned.insert t) (floodPast ranking size t assigned) :=
  floods_spread (fun _ _ hb => hregular.lt (mem_rivals.mp hb)) (nodup_rivals ranking)
    (.single (hregular.below ht) h.size hnew) (Nat.le_add_right _ _)

theorem floods_flood {ranking : Ranking} {size t : Nat} (hregular : ranking.Regular size)
    (ht : t ∈ ranking.order) :
    Floods (rivals ranking) [t] ((Mask.none size).insert t) (flood ranking size t) :=
  floods_floodPast hregular ht (assigned_none ranking size) (Mask.test_none size t)

end Cluster

/-! ## Refusals -/

/-- A refusal that names a rule of a well-formed design. -/
def Refusal.NamesRule (e : Refusal) : Prop := e.category ≠ .custom ∧ e.category ≠ .unknown

namespace Registry

variable {σ : Type} {r : Registry σ} {e : Refusal}

theorem namesRule_of_checkNames (h : r.checkNames = .error e) : e.NamesRule := by
  unfold checkNames at h
  split at h
  · cases h
  · obtain rfl := Except.error.inj h
    exact ⟨nofun, nofun⟩

theorem namesRule_of_checkBodies (h : r.checkBodies = .error e) : e.NamesRule := by
  unfold checkBodies at h
  split at h
  · cases h
  · obtain rfl := Except.error.inj h
    exact ⟨nofun, nofun⟩

/-- The search for cycles refuses for nothing but a cycle. -/
theorem namesRule_of_checkAcyclic (hcallee : ∀ {a b : Nat}, r.Calls a b → b < r.actions.length)
    (h : r.checkAcyclic = .error e) : e.NamesRule := by
  obtain ⟨first, inner, hreports⟩ := exists_reportsCycle hcallee h
  rw [hreports.report]
  exact ⟨nofun, nofun⟩

/-- The closures refuse for nothing but a method that is met again. -/
theorem namesRule_of_closures (hcallee : ∀ {a b : Nat}, r.Calls a b → b < r.actions.length)
    (h : r.closures = .error e) : e.NamesRule := by
  obtain ⟨t, ht, hrefused⟩ := exists_of_mapM_eq_error h
  unfold closureOf at hrefused
  split at hrefused
  · obtain ⟨pushes, o, -, -, hof⟩ :=
      Closure.ends_of_lt (fun a b hb => hcallee (mem_callees.mp hb)) (mem_ids.mp ht)
    rw [hof] at hrefused
    cases o with
    | ok reached => cases hrefused
    | error method =>
      obtain rfl := Except.error.inj hrefused
      exact ⟨nofun, nofun⟩
  · cases hrefused

theorem namesRule_of_checkConflictEnds {closure : Nat → Mask} (h : r.checkConflictEnds closure = .error e) :
    e.NamesRule := by
  unfold checkConflictEnds at h
  simp only at h
  split at h
  · cases h
  · rename_i refusal hbroken
    obtain rfl := Except.error.inj h
    obtain ⟨t, -, hfound⟩ := List.exists_of_findSome?_eq_some hbroken
    obtain ⟨pair, -, rfl⟩ := Option.map_eq_some_iff.mp hfound
    exact ⟨nofun, nofun⟩

theorem namesRule_of_checkTies {closure : Nat → Mask} {order : List Nat}
    (h : r.checkTies closure order = .error e) : e.NamesRule := by
  unfold checkTies at h
  split at h
  · cases h
  · obtain rfl := Except.error.inj h
    exact ⟨nofun, nofun⟩

theorem namesRule_of_planWith {closures : List Mask} {ranking : Ranking}
    (h : r.planWith closures = (ranking, .error e)) : e.NamesRule := by
  unfold planWith at h
  simp only at h
  split at h
  · rename_i hends
    obtain ⟨-, hsame⟩ := Prod.mk.inj h
    exact Except.error.inj hsame ▸ namesRule_of_checkConflictEnds hends
  · split at h
    · rename_i hties
      obtain ⟨-, hsame⟩ := Prod.mk.inj h
      exact Except.error.inj hsame ▸ namesRule_of_checkTies hties
    · cases h

end Registry

namespace Design

variable {σ : Type} {d : Design σ}

theorem namesRule_of_checkSites {e : Refusal} (h : d.checkSites = .error e) : e.NamesRule := by
  unfold checkSites at h
  split at h
  · cases h
  · rename_i refusal hfound
    obtain rfl := Except.error.inj h
    obtain ⟨s, -, hflaw⟩ := List.exists_of_findSome?_eq_some hfound
    unfold siteFlaw? at hflaw
    simp only at hflaw
    split at hflaw
    · exact Option.some.inj hflaw ▸ ⟨nofun, nofun⟩
    · split at hflaw
      · exact Option.some.inj hflaw ▸ ⟨nofun, nofun⟩
      · split at hflaw
        · exact Option.some.inj hflaw ▸ ⟨nofun, nofun⟩
        · cases hflaw

/-- The checks that come before the closures, when they all succeed. -/
theorem vet_eq_ok : d.vet = .ok () ↔ d.main.checkNames = .ok () ∧ d.main.checkBodies = .ok () ∧
    d.checkSites = .ok () ∧ d.main.checkAcyclic = .ok () := by
  unfold vet
  constructor
  · intro h
    obtain ⟨⟨⟩, hnames, h⟩ := bind_eq_ok.mp h
    obtain ⟨⟨⟩, hbodies, h⟩ := bind_eq_ok.mp h
    obtain ⟨⟨⟩, hsites, hacyclic⟩ := bind_eq_ok.mp h
    exact ⟨hnames, hbodies, hsites, hacyclic⟩
  · rintro ⟨hnames, hbodies, hsites, hacyclic⟩
    rw [hnames, hbodies, hsites, hacyclic]
    rfl

/-- Calls lead to actions of the registry once the call sites are checked. -/
theorem Built.lt_length_of_calls (built : d.Built) (hsites : d.checkSites = .ok ()) {a b : Nat}
    (hcall : d.main.Calls a b) : b < d.main.actions.length :=
  built.wellFormed.lt_length_of_calls (sitesSound_of_checkSites hsites).callee_main hcall

theorem Built.namesRule_of_vet (built : d.Built) {e : Refusal} (h : d.vet = .error e) : e.NamesRule := by
  unfold vet at h
  cases hnames : d.main.checkNames with
  | error e' =>
    rw [hnames] at h
    exact Except.error.inj h ▸ Registry.namesRule_of_checkNames hnames
  | ok _ =>
    cases hbodies : d.main.checkBodies with
    | error e' =>
      rw [hnames, hbodies] at h
      exact Except.error.inj h ▸ Registry.namesRule_of_checkBodies hbodies
    | ok _ =>
      cases hsites : d.checkSites with
      | error e' =>
        rw [hnames, hbodies, hsites] at h
        exact Except.error.inj h ▸ namesRule_of_checkSites hsites
      | ok _ =>
        rw [hnames, hbodies, hsites] at h
        exact Registry.namesRule_of_checkAcyclic (built.lt_length_of_calls hsites) h

/-- Elaboration comes to an end. -/
structure ElaborationEnds (d : Design σ) : Prop where
  /-- elaboration succeeds, or it refuses the design for a rule -/
  outcome : d.elaborate.2 = .ok () ∨ ∃ refusal, d.elaborate.2 = .error refusal ∧ refusal.NamesRule
  /-- the search for cycles never gives up, and more fuel makes no difference -/
  search : d.checkSites = .ok () → ∀ fuel, d.main.actions.length ≤ fuel →
    Cycle.visitAll d.main.callees fuel d.main.ids ≠ .error .exhausted ∧
      Cycle.visitAll d.main.callees fuel d.main.ids =
        Cycle.visitAll d.main.callees d.main.actions.length d.main.ids
  /-- closures are computed after the checks -/
  staged : d.analyse = (d.vet >>= fun _ => d.main.closures)
  /-- then no action reaches itself -/
  acyclic : d.vet = .ok () → d.main.Acyclic
  /-- and the computation of each closure ends, with every action on its stack at most once -/
  closures : d.vet = .ok () → ∀ t, (d.main.transaction? t).isSome →
    Closure.Ends d.main.callees d.main.actions.length t
  /-- the flood from each transaction ends -/
  floods : ∀ closures, d.analyse = .ok closures → ∀ t ∈ d.main.staticOrder,
    Cluster.Floods (Cluster.rivals ⟨d.main.staticOrder, d.main.conflictRows (Registry.closureIn closures)⟩) [t]
      ((Mask.none d.main.actions.length).insert t)
      (Cluster.flood ⟨d.main.staticOrder, d.main.conflictRows (Registry.closureIn closures)⟩
        d.main.actions.length t)

theorem Built.elaborate_outcome (built : d.Built) :
    d.elaborate.2 = .ok () ∨ ∃ refusal, d.elaborate.2 = .error refusal ∧ refusal.NamesRule := by
  unfold Design.elaborate
  split
  · exact .inr ⟨_, rfl, nofun, nofun⟩
  · rw [analyse_eq]
    cases hvet : d.vet with
    | error e => exact .inr ⟨e, rfl, built.namesRule_of_vet hvet⟩
    | ok _ =>
      rw [ok_bind]
      cases hclosures : d.main.closures with
      | error e =>
        exact .inr ⟨e, rfl, Registry.namesRule_of_closures
          (built.lt_length_of_calls (vet_eq_ok.mp hvet).2.2.1) hclosures⟩
      | ok closures =>
        simp only
        cases hplan : d.main.planWith closures with
        | mk ranking result =>
          cases result with
          | error e => exact .inr ⟨e, rfl, Registry.namesRule_of_planWith hplan⟩
          | ok plan => exact .inl rfl

theorem Built.elaborationEnds (built : d.Built) : d.ElaborationEnds := by
  have hnext : d.checkSites = .ok () → ∀ a, ∀ b ∈ d.main.callees a, b < d.main.actions.length :=
    fun hsites a b hb => built.lt_length_of_calls hsites (Registry.mem_callees.mp hb)
  constructor
  case outcome => exact built.elaborate_outcome
  case search =>
    exact fun hsites fuel hfuel => Cycle.visitAll_of_le (hnext hsites) (fun a ha => Registry.mem_ids.mp ha) hfuel
  case staged => exact analyse_eq
  case acyclic =>
    exact fun hvet => Registry.acyclic_of_checkAcyclic built.wellFormed.caller_lt_main (vet_eq_ok.mp hvet).2.2.2
  case closures =>
    intro hvet t ht
    exact Closure.ends_of_lt (hnext (vet_eq_ok.mp hvet).2.2.1) (Registry.lt_length_of_transaction? ht)
  case floods =>
    intro closures hanalyse t ht
    rw [analyse_eq] at hanalyse
    obtain ⟨⟨⟩, hvet, hclosures⟩ := bind_eq_ok.mp hanalyse
    have hclosed : d.main.Closed (Registry.closureIn closures) :=
      Registry.closed_of_closures (built.lt_length_of_calls (vet_eq_ok.mp hvet).2.2.1) hclosures
    exact Cluster.floods_flood (Registry.regular_staticOrder hclosed) ht

end Design

end GuardedActions
