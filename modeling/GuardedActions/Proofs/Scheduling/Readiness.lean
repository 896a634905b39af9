import GuardedActions.Proofs.Elaborated
import GuardedActions.Scheduling.Readiness

/-!
# Which actions can run

Readiness is found out with a memory that all callers share.  The answers are those of an evaluation
that remembers nothing: a method is ready if its own predicate holds, and everything below its active
calls is ready and takes the early arguments.  Neither the memory nor the order in which actions are
visited makes a difference.
-/

set_option autoImplicit false

namespace GuardedActions.Machine

variable {σ : Type} {m : Machine σ} {a : Activation}

/-- The nesting of calls below an action is within the bound. -/
theorem shallow_callDepth {plan : Plan} (h : m.design.main.Elaborated plan) {id : Nat}
    (hid : id < m.design.main.actions.length) : m.design.main.Shallow m.callDepth id :=
  h.shallow hid

theorem mem_activeSitesOf {id i : Nat} {s : Site σ} :
    (i, s) ∈ m.activeSitesOf a id ↔
      m.design.main.sites[i]? = some s ∧ s.caller = id ∧ a.active.test i = true := by
  unfold activeSitesOf
  rw [List.mem_filter, Registry.mem_sitesOf, and_assoc]

/-- Active call sites lead to callees that are called. -/
theorem calls_of_mem_activeSitesOf {id : Nat} {s : Nat × Site σ} (h : s ∈ m.activeSitesOf a id) :
    m.design.main.Calls id s.2.callee.id := by
  obtain ⟨hs, hcaller, -⟩ := mem_activeSitesOf.mp h
  exact ⟨s.1, s.2, hs, hcaller, rfl⟩

/-! ## Evaluation without a memory -/

/-- Whether every one of some questions is answered with yes; the first no ends the asking. -/
def allYes {α : Type} (ask : α → Except Fault Bool) : List α → Except Fault Bool
  | [] => .ok true
  | x :: rest => do
    if ← ask x then allYes ask rest else .ok false

/-- Whether a call is ready, given how to find out about its callee. -/
def callAfresh (m : Machine σ) (a : Activation) (ready : Nat → Except Fault Bool)
    (s : Nat × Site σ) : Except Fault Bool := do
  if ← ready s.2.callee.id then
    match m.design.method? s.2.callee with
    | some callee => validates (m.viewWith a.active a.early) a.early callee s.1
    | none => .ok true
  else .ok false

/-- Whether a method is ready, found out from scratch.  The fuel bounds the nesting of calls. -/
def readyAfresh (m : Machine σ) (a : Activation) : (fuel : Nat) → (id : Nat) → Except Fault Bool
  | 0, _ => .error .nestingLimit
  | fuel + 1, id => do
    if ← Guard.holds ((m.design.main.method? id).bind Method.ready) (m.viewWith a.active a.early) then
      allYes (m.callAfresh a (m.readyAfresh a fuel)) (m.activeSitesOf a id)
    else .ok false

/-- Whether all active calls of an action are ready, found out from scratch. -/
def callsAfresh (m : Machine σ) (a : Activation) (id : Nat) : Except Fault Bool :=
  allYes (m.callAfresh a (m.readyAfresh a m.callDepth)) (m.activeSitesOf a id)

/-! ## The memory makes no difference -/

/-- What is remembered about methods is what an evaluation from scratch would say. -/
def Faithful (m : Machine σ) (a : Activation) (memo : ReadyMemo) : Prop :=
  ∀ {id : Nat} {known : Bool}, memo[id]?.join = some known → ∀ fuel,
    m.design.main.Shallow fuel id → m.readyAfresh a fuel id = .ok known

theorem faithful_replicate (size : Nat) : m.Faithful a (List.replicate size none) := by
  intro id known hknown
  rw [List.getElem?_replicate] at hknown
  split at hknown
  · cases hknown
  · cases hknown

theorem Faithful.set {memo : ReadyMemo} (h : m.Faithful a memo) {id : Nat} {yes : Bool}
    (hyes : ∀ fuel, m.design.main.Shallow fuel id → m.readyAfresh a fuel id = .ok yes) :
    m.Faithful a (memo.set id (some yes)) := by
  intro j known hj
  rw [List.getElem?_set] at hj
  split at hj
  · rename_i heq
    subst heq
    split at hj
    · rw [← Option.some.inj hj]
      exact hyes
    · cases hj
  · exact h hj

/-- A computation with a memory and one without come to the same, be it a fault or a result, and the
memory stays faithful. -/
inductive Agrees {α : Type} (m : Machine σ) (a : Activation) :
    Except Fault (α × ReadyMemo) → Except Fault α → Prop where
  /-- both end in the same fault -/
  | fault (f : Fault) : Agrees m a (.error f) (.error f)
  /-- both return the same -/
  | answer (x : α) {memo : ReadyMemo} (faithful : m.Faithful a memo) :
    Agrees m a (.ok (x, memo)) (.ok x)

theorem Agrees.bind {α β : Type} {x : Except Fault (α × ReadyMemo)} {y : Except Fault α}
    {f : α × ReadyMemo → Except Fault (β × ReadyMemo)} {g : α → Except Fault β}
    (h : Agrees m a x y)
    (hf : ∀ v memo, m.Faithful a memo → Agrees m a (f (v, memo)) (g v)) :
    Agrees m a (x >>= f) (y >>= g) := by
  cases h with
  | fault e => exact .fault e
  | answer v faithful => exact hf v _ faithful

theorem allReady_agrees {α : Type} {ask : α → ReadyMemo → Except Fault (Bool × ReadyMemo)}
    {ask' : α → Except Fault Bool} {list : List α}
    (hask : ∀ x ∈ list, ∀ memo, m.Faithful a memo → Agrees m a (ask x memo) (ask' x)) :
    ∀ memo, m.Faithful a memo → Agrees m a (allReady ask list memo) (allYes ask' list) := by
  induction list with
  | nil => exact fun memo hmemo => .answer true hmemo
  | cons x rest ih =>
    intro memo hmemo
    refine (hask x List.mem_cons_self memo hmemo).bind fun yes between hbetween => ?_
    cases yes with
    | true => exact ih (fun y hy => hask y (List.mem_cons_of_mem _ hy)) between hbetween
    | false => exact .answer false hbetween

theorem askSiteBy_agrees {ready : Nat → ReadyMemo → Except Fault (Bool × ReadyMemo)}
    {ready' : Nat → Except Fault Bool} {s : Nat × Site σ} {memo : ReadyMemo}
    (hready : Agrees m a (ready s.2.callee.id memo) (ready' s.2.callee.id)) :
    Agrees m a (m.askSiteBy a ready s memo) (m.callAfresh a ready' s) := by
  refine hready.bind fun yes between hbetween => ?_
  cases yes with
  | false => exact .answer false hbetween
  | true =>
    simp only [if_true]
    cases m.design.method? s.2.callee with
    | none => exact .answer true hbetween
    | some callee =>
      simp only
      cases validates (m.viewWith a.active a.early) a.early callee s.1 with
      | error f => exact .fault f
      | ok accepted => exact .answer accepted hbetween

/-- What is answered with a memory is answered without one. -/
theorem Agrees.eq_ok {α : Type} {x : α} {memo : ReadyMemo} {y : Except Fault α}
    (h : Agrees m a (.ok (x, memo)) y) : y = .ok x := by
  cases h with
  | answer _ _ => rfl

theorem Agrees.answer_eq {α : Type} {x : Except Fault (α × ReadyMemo)} {y : Except Fault α}
    (h : Agrees m a x y) : (x >>= fun r => .ok r.1) = y := by
  cases h with
  | fault f => rfl
  | answer v _ => rfl

/-- A note in the memory that is right leaves the agreement as it is. -/
theorem Agrees.note {α : Type} {x : Except Fault (α × ReadyMemo)} {y : Except Fault α}
    (h : Agrees m a x y) (note : α → ReadyMemo → ReadyMemo)
    (hnote : ∀ v memo, x = .ok (v, memo) → m.Faithful a memo → m.Faithful a (note v memo)) :
    Agrees m a (x >>= fun r => .ok (r.1, note r.1 r.2)) y := by
  cases h with
  | fault f => exact .fault f
  | answer v faithful => exact .answer v (hnote v _ rfl faithful)

/-- Find out about a method of which nothing is remembered. -/
def askUnknown (m : Machine σ) (a : Activation) (fuel id : Nat) (memo : ReadyMemo) :
    Except Fault (Bool × ReadyMemo) := do
  let own ← Guard.holds ((m.design.main.method? id).bind Method.ready) (m.viewWith a.active a.early)
  if own then allReady (m.askSiteBy a (m.askMethod a fuel)) (m.activeSitesOf a id) memo
  else .ok (false, memo)

theorem askMethod_of_unknown {fuel id : Nat} {memo : ReadyMemo} (h : memo[id]?.join = none) :
    m.askMethod a (fuel + 1) id memo =
      m.askUnknown a fuel id memo >>= fun r => .ok (r.1, r.2.set id (some r.1)) := by
  unfold askUnknown
  rw [askMethod, h]
  cases Guard.holds ((m.design.main.method? id).bind Method.ready)
      (m.viewWith a.active a.early) with
  | error f => rfl
  | ok own =>
    cases own with
    | false => rfl
    | true => rfl

/-- Finding out about a method with a faithful memory comes to the same as from scratch. -/
theorem askMethod_agrees :
    ∀ (fuel fuel' id : Nat) (memo : ReadyMemo), m.design.main.Shallow fuel id →
      m.design.main.Shallow fuel' id → m.Faithful a memo →
        Agrees m a (m.askMethod a fuel id memo) (m.readyAfresh a fuel' id) := by
  intro fuel
  induction fuel with
  | zero =>
    intro fuel' id memo hshallow
    exact hshallow.elim
  | succ fuel ih =>
    intro fuel' id memo hshallow hshallow' hmemo
    cases hknown : memo[id]?.join with
    | some known =>
      rw [askMethod, hknown, hmemo hknown fuel' hshallow']
      exact .answer known hmemo
    | none =>
      -- the answer is the same whatever fuel the evaluation from scratch has, so it may be noted
      have hsame : ∀ fuel', m.design.main.Shallow fuel' id →
          Agrees m a (m.askUnknown a fuel id memo) (m.readyAfresh a fuel' id) := by
        intro fuel' hshallow'
        cases fuel' with
        | zero => exact hshallow'.elim
        | succ fuel' =>
          unfold askUnknown
          rw [readyAfresh]
          cases Guard.holds ((m.design.main.method? id).bind Method.ready)
              (m.viewWith a.active a.early) with
          | error f => exact .fault f
          | ok own =>
            cases own with
            | false => exact .answer false hmemo
            | true =>
              apply allReady_agrees _ memo hmemo
              intro s hs memo hmemo
              have hcall := calls_of_mem_activeSitesOf hs
              apply askSiteBy_agrees
              exact ih fuel' _ memo (hshallow _ hcall) (hshallow' _ hcall) hmemo
      rw [askMethod_of_unknown hknown]
      apply (hsame fuel' hshallow').note fun yes memo => memo.set id (some yes)
      intro yes memo' hanswer hmemo'
      apply hmemo'.set
      intro fuel'' hshallow''
      have hagrees := hsame fuel'' hshallow''
      rw [hanswer] at hagrees
      exact hagrees.eq_ok

/-! ## What the answers mean -/

/-- The validator of the callee of a call site accepts its early arguments. -/
def SiteAccepted (m : Machine σ) (a : Activation) (s : Nat × Site σ) : Prop :=
  ∀ {x : Method σ}, m.design.method? s.2.callee = some x →
    validates (m.viewWith a.active a.early) a.early x s.1 = .ok true

/-- A method and everything below its active calls is ready. -/
inductive MethodReady (m : Machine σ) (a : Activation) : Nat → Prop where
  /-- the own predicate holds and every active call is ready -/
  | intro {id : Nat}
      (own : Guard.holds ((m.design.main.method? id).bind Method.ready)
        (m.viewWith a.active a.early) = .ok true)
      (callees : ∀ s ∈ m.activeSitesOf a id, MethodReady m a s.2.callee.id)
      (accepted : ∀ s ∈ m.activeSitesOf a id, m.SiteAccepted a s) : MethodReady m a id

/-- A call site is ready if its callee is and takes its arguments. -/
def SiteReady (m : Machine σ) (a : Activation) (s : Nat × Site σ) : Prop :=
  m.MethodReady a s.2.callee.id ∧ m.SiteAccepted a s

theorem allYes_eq_true {α : Type} {ask : α → Except Fault Bool} {list : List α} :
    allYes ask list = .ok true ↔ ∀ x ∈ list, ask x = .ok true := by
  induction list with
  | nil => simp [allYes]
  | cons x rest ih =>
    rw [List.forall_mem_cons, ← ih, allYes]
    cases ask x with
    | error f => simp [bind, Except.bind]
    | ok yes => cases yes <;> simp

theorem callAfresh_eq_true {ready : Nat → Except Fault Bool} {s : Nat × Site σ} :
    m.callAfresh a ready s = .ok true ↔ ready s.2.callee.id = .ok true ∧ m.SiteAccepted a s := by
  unfold callAfresh SiteAccepted
  cases ready s.2.callee.id with
  | error f => simp [bind, Except.bind]
  | ok yes =>
    cases yes with
    | false => simp
    | true => cases m.design.method? s.2.callee <;> simp

/-- An evaluation from scratch says yes just to the methods that are ready. -/
theorem readyAfresh_eq_true :
    ∀ (fuel id : Nat), m.design.main.Shallow fuel id →
      (m.readyAfresh a fuel id = .ok true ↔ m.MethodReady a id) := by
  intro fuel
  induction fuel with
  | zero =>
    intro id hshallow
    exact hshallow.elim
  | succ fuel ih =>
    intro id hshallow
    have hcalls : allYes (m.callAfresh a (m.readyAfresh a fuel)) (m.activeSitesOf a id) = .ok true ↔
        ∀ s ∈ m.activeSitesOf a id, m.SiteReady a s := by
      rw [allYes_eq_true]
      refine forall_congr' fun s => forall_congr' fun hs => ?_
      rw [callAfresh_eq_true, ih _ (hshallow _ (calls_of_mem_activeSitesOf hs))]
      rfl
    have hready : m.MethodReady a id ↔
        Guard.holds ((m.design.main.method? id).bind Method.ready)
            (m.viewWith a.active a.early) = .ok true ∧
          ∀ s ∈ m.activeSitesOf a id, m.SiteReady a s := by
      constructor
      · rintro ⟨own, callees, accepted⟩
        exact ⟨own, fun s hs => ⟨callees s hs, accepted s hs⟩⟩
      · rintro ⟨own, hsites⟩
        exact .intro own (fun s hs => (hsites s hs).1) (fun s hs => (hsites s hs).2)
    rw [hready, ← hcalls, readyAfresh]
    cases Guard.holds ((m.design.main.method? id).bind Method.ready)
        (m.viewWith a.active a.early) with
    | error f => simp [bind, Except.bind]
    | ok own => cases own <;> simp

variable {plan : Plan}

theorem callsAfresh_eq_true (h : m.design.main.Elaborated plan) {id : Nat} :
    m.callsAfresh a id = .ok true ↔ ∀ s ∈ m.activeSitesOf a id, m.SiteReady a s := by
  unfold callsAfresh
  rw [allYes_eq_true]
  refine forall_congr' fun s => forall_congr' fun hs => ?_
  have hcall := calls_of_mem_activeSitesOf hs
  rw [callAfresh_eq_true,
    readyAfresh_eq_true _ _ (shallow_callDepth h (h.lt_length_of_calls hcall))]
  rfl

/-! ## The runnable actions -/

/-- Mark an action if it is requested and a question about it is answered with yes. -/
def mark (requested : Mask) (ask : Nat → Except Fault Bool) (runnable : Mask) (id : Nat) :
    Except Fault Mask :=
  if requested.test id then do
    let yes ← ask id
    .ok (if yes then runnable.insert id else runnable)
  else .ok runnable

/-- The actions that can run, visited in the given order and found out with a shared memory. -/
def runnableInOrder (m : Machine σ) (a : Activation) (methods transactions : List Nat) :
    Except Fault Mask := do
  let size := m.design.main.actions.length
  let (runnable, memo) ←
    m.runnableMethods a methods (Mask.none size) (List.replicate size none)
  let (runnable, _) ← m.runnableTransactions a transactions runnable memo
  .ok runnable

/-- The actions that can run, each found out from scratch. -/
def runnableAfresh (m : Machine σ) (a : Activation) (methods transactions : List Nat) :
    Except Fault Mask := do
  let runnable ← methods.foldlM (mark a.requested (m.readyAfresh a m.callDepth))
    (Mask.none m.design.main.actions.length)
  transactions.foldlM (mark a.requested (m.callsAfresh a)) runnable

theorem runnableActions_eq_inOrder :
    m.runnableActions a = m.runnableInOrder a m.design.main.methods m.design.main.transactions := rfl

/-- Steps that agree agree in a row. -/
theorem foldlM_agrees {α β : Type} {f : β × ReadyMemo → α → Except Fault (β × ReadyMemo)}
    {g : β → α → Except Fault β} {list : List α}
    (hstep : ∀ x ∈ list, ∀ v memo, m.Faithful a memo → Agrees m a (f (v, memo) x) (g v x)) :
    ∀ v memo, m.Faithful a memo → Agrees m a (list.foldlM f (v, memo)) (list.foldlM g v) := by
  induction list with
  | nil => exact fun v memo hmemo => .answer v hmemo
  | cons x rest ih =>
    intro v memo hmemo
    rw [List.foldlM_cons, List.foldlM_cons]
    apply (hstep x List.mem_cons_self v memo hmemo).bind
    exact ih fun y hy => hstep y (List.mem_cons_of_mem _ hy)

/-- A question that is asked with a memory marks what the same question marks without one. -/
theorem mark_agrees {requested : Mask} {ask : ReadyMemo → Except Fault (Bool × ReadyMemo)}
    {ask' : Nat → Except Fault Bool} {runnable : Mask} {id : Nat} {memo : ReadyMemo}
    (hmemo : m.Faithful a memo) (hask : Agrees m a (ask memo) (ask' id)) :
    Agrees m a
      (if requested.test id then do
        let (yes, memo) ← ask memo
        .ok (if yes then runnable.insert id else runnable, memo)
      else .ok (runnable, memo)) (mark requested ask' runnable id) := by
  unfold mark
  split
  · exact hask.bind fun yes memo hmemo => .answer _ hmemo
  · exact .answer runnable hmemo

/-- Visiting actions with a shared memory comes to the same as finding out about each from scratch,
down to the faults. -/
theorem runnableInOrder_eq (h : m.design.main.Elaborated plan) {methods transactions : List Nat}
    (hmethods : ∀ id ∈ methods, id < m.design.main.actions.length) :
    m.runnableInOrder a methods transactions = m.runnableAfresh a methods transactions := by
  have hask : ∀ {id : Nat}, id < m.design.main.actions.length → ∀ memo, m.Faithful a memo →
      Agrees m a (m.askMethod a m.callDepth id memo) (m.readyAfresh a m.callDepth id) :=
    fun hid memo hmemo => askMethod_agrees _ _ _ _ (shallow_callDepth h hid)
      (shallow_callDepth h hid) hmemo
  have hfirst : Agrees m a
      (m.runnableMethods a methods (Mask.none m.design.main.actions.length)
        (List.replicate m.design.main.actions.length none))
      (methods.foldlM (mark a.requested (m.readyAfresh a m.callDepth))
        (Mask.none m.design.main.actions.length)) := by
    apply foldlM_agrees _ _ _ (faithful_replicate _)
    intro id hid runnable memo hmemo
    exact mark_agrees hmemo (hask (hmethods id hid) memo hmemo)
  have hsecond : ∀ runnable memo, m.Faithful a memo →
      Agrees m a (m.runnableTransactions a transactions runnable memo)
        (transactions.foldlM (mark a.requested (m.callsAfresh a)) runnable) := by
    apply foldlM_agrees
    intro id _ runnable memo hmemo
    apply mark_agrees hmemo
    apply allReady_agrees _ memo hmemo
    intro s hs memo hmemo
    have hcall := calls_of_mem_activeSitesOf hs
    exact askSiteBy_agrees (hask (h.lt_length_of_calls hcall) memo hmemo)
  have hboth : Agrees m a
      (m.runnableMethods a methods (Mask.none m.design.main.actions.length)
        (List.replicate m.design.main.actions.length none) >>=
          fun r => m.runnableTransactions a transactions r.1 r.2)
      (m.runnableAfresh a methods transactions) := hfirst.bind hsecond
  rw [← hboth.answer_eq]
  unfold runnableInOrder
  simp only
  cases m.runnableMethods a methods (Mask.none m.design.main.actions.length)
      (List.replicate m.design.main.actions.length none) with
  | error f => rfl
  | ok first => rfl

/-- What marking a list of actions comes to. -/
theorem of_foldlM_mark {requested : Mask} {ask : Nat → Except Fault Bool} {list : List Nat}
    {runnable runnable' : Mask} (h : list.foldlM (mark requested ask) runnable = .ok runnable') :
    (∀ id ∈ list, requested.test id = true → ∃ yes, ask id = .ok yes) ∧
      runnable'.size = runnable.size ∧
        ∀ j, j < runnable.size → (runnable'.test j = true ↔ runnable.test j = true ∨
          (j ∈ list ∧ requested.test j = true ∧ ask j = .ok true)) := by
  induction list generalizing runnable with
  | nil =>
    obtain rfl := foldlM_nil_eq_ok.mp h
    simp
  | cons id rest ih =>
    obtain ⟨between, hstep, hrest⟩ := foldlM_cons_eq_ok.mp h
    obtain ⟨hasked, hsize, htest⟩ := ih hrest
    have hbetween : (requested.test id = true → ∃ yes, ask id = .ok yes) ∧
        between.size = runnable.size ∧
          ∀ j, j < runnable.size → (between.test j = true ↔ runnable.test j = true ∨
            (j = id ∧ requested.test j = true ∧ ask j = .ok true)) := by
      unfold mark at hstep
      split at hstep
      · rename_i hrequested
        obtain ⟨yes, hyes, hstep⟩ := bind_eq_ok.mp hstep
        obtain rfl := Except.ok.inj hstep
        refine ⟨fun _ => ⟨yes, hyes⟩, ?_, ?_⟩
        · split <;> simp
        · intro j hj
          cases yes with
          | false =>
            simp only [Bool.false_eq_true, if_false]
            refine ⟨Or.inl, ?_⟩
            rintro (hold | ⟨rfl, -, hyes'⟩)
            · exact hold
            · rw [hyes] at hyes'
              cases hyes'
          | true =>
            simp only [if_true, Mask.test_insert, Bool.or_eq_true, decide_eq_true_iff]
            constructor
            · rintro (⟨rfl, -⟩ | hold)
              · exact Or.inr ⟨rfl, hrequested, hyes⟩
              · exact Or.inl hold
            · rintro (hold | ⟨rfl, -, -⟩)
              · exact Or.inr hold
              · exact Or.inl ⟨rfl, hj⟩
      · rename_i hidle
        obtain rfl := Except.ok.inj hstep
        refine ⟨fun hrequested => absurd hrequested hidle, rfl, fun j _ => ⟨Or.inl, ?_⟩⟩
        rintro (hold | ⟨rfl, hrequested, -⟩)
        · exact hold
        · exact absurd hrequested hidle
    obtain ⟨hid, hsize', htest'⟩ := hbetween
    refine ⟨List.forall_mem_cons.mpr ⟨hid, hasked⟩, hsize.trans hsize', ?_⟩
    intro j hj
    rw [htest j (by rw [hsize']; exact hj), htest' j hj, List.mem_cons, or_assoc, or_and_right]

theorem exists_foldlM_mark {requested : Mask} {ask : Nat → Except Fault Bool} {list : List Nat}
    (h : ∀ id ∈ list, requested.test id = true → ∃ yes, ask id = .ok yes) (runnable : Mask) :
    ∃ runnable', list.foldlM (mark requested ask) runnable = .ok runnable' := by
  induction list generalizing runnable with
  | nil => exact ⟨runnable, rfl⟩
  | cons id rest ih =>
    have hstep : ∃ between, mark requested ask runnable id = .ok between := by
      unfold mark
      split
      · rename_i hrequested
        obtain ⟨yes, hyes⟩ := h id List.mem_cons_self hrequested
        rw [hyes]
        exact ⟨_, rfl⟩
      · exact ⟨runnable, rfl⟩
    obtain ⟨between, hbetween⟩ := hstep
    obtain ⟨runnable', hrest⟩ := ih (fun y hy => h y (List.mem_cons_of_mem _ hy)) between
    exact ⟨runnable', foldlM_cons_eq_ok.mpr ⟨between, hbetween, hrest⟩⟩

/-- What finding out about actions from scratch comes to. -/
structure FoundRunnable (m : Machine σ) (a : Activation) (methods transactions : List Nat)
    (runnable : Mask) : Prop where
  /-- there is a place for every action -/
  size : runnable.size = m.design.main.actions.length
  /-- every question about a requested method is answered -/
  method : ∀ id ∈ methods, a.requested.test id = true →
    ∃ yes, m.readyAfresh a m.callDepth id = .ok yes
  /-- every question about a requested transaction is answered -/
  transaction : ∀ id ∈ transactions, a.requested.test id = true →
    ∃ yes, m.callsAfresh a id = .ok yes
  /-- the actions with a yes are runnable -/
  test : ∀ id, id < m.design.main.actions.length → (runnable.test id = true ↔
    a.requested.test id = true ∧
      ((id ∈ methods ∧ m.readyAfresh a m.callDepth id = .ok true) ∨
        (id ∈ transactions ∧ m.callsAfresh a id = .ok true)))

theorem runnableAfresh_eq_ok {methods transactions : List Nat} {runnable : Mask} :
    m.runnableAfresh a methods transactions = .ok runnable ↔
      m.FoundRunnable a methods transactions runnable := by
  have hforward : ∀ {runnable : Mask}, m.runnableAfresh a methods transactions = .ok runnable →
      m.FoundRunnable a methods transactions runnable := by
    intro runnable h
    unfold runnableAfresh at h
    obtain ⟨between, hfirst, hsecond⟩ := bind_eq_ok.mp h
    obtain ⟨hmethod, hsize, htest⟩ := of_foldlM_mark hfirst
    obtain ⟨htransaction, hsize', htest'⟩ := of_foldlM_mark hsecond
    rw [Mask.size_none] at hsize htest
    rw [hsize] at hsize' htest'
    refine ⟨hsize', hmethod, htransaction, fun id hid => ?_⟩
    rw [htest' id hid, htest id hid, Mask.test_none]
    simp only [Bool.false_eq_true, false_or]
    constructor
    · rintro (⟨hmem, hrequested, hyes⟩ | ⟨hmem, hrequested, hyes⟩)
      · exact ⟨hrequested, Or.inl ⟨hmem, hyes⟩⟩
      · exact ⟨hrequested, Or.inr ⟨hmem, hyes⟩⟩
    · rintro ⟨hrequested, ⟨hmem, hyes⟩ | ⟨hmem, hyes⟩⟩
      · exact Or.inl ⟨hmem, hrequested, hyes⟩
      · exact Or.inr ⟨hmem, hrequested, hyes⟩
  refine ⟨hforward, fun hfound => ?_⟩
  obtain ⟨between, hfirst⟩ := exists_foldlM_mark hfound.method
    (Mask.none m.design.main.actions.length)
  obtain ⟨runnable', hsecond⟩ := exists_foldlM_mark hfound.transaction between
  have hrun : m.runnableAfresh a methods transactions = .ok runnable' :=
    bind_eq_ok.mpr ⟨between, hfirst, hsecond⟩
  have hfound' := hforward hrun
  have hsize := hfound'.size.trans hfound.size.symm
  rw [hrun, Mask.eq_of_test hsize fun id => ?_]
  by_cases hid : id < m.design.main.actions.length
  · rw [hfound'.test id hid, hfound.test id hid]
  · have hout : ∀ {mask : Mask}, mask.size = m.design.main.actions.length →
        ¬ mask.test id = true := fun hmask htest =>
      hid (hmask ▸ Mask.lt_size_of_test htest)
    exact iff_of_false (hout hfound'.size) (hout hfound.size)

/-- The order in which actions are visited does not matter. -/
theorem FoundRunnable.congr {methods methods' transactions transactions' : List Nat}
    {runnable : Mask} (h : m.FoundRunnable a methods transactions runnable)
    (hmethods : ∀ id, id ∈ methods' ↔ id ∈ methods)
    (htransactions : ∀ id, id ∈ transactions' ↔ id ∈ transactions) :
    m.FoundRunnable a methods' transactions' runnable where
  size := h.size
  method := fun id hid => h.method id ((hmethods id).mp hid)
  transaction := fun id hid => h.transaction id ((htransactions id).mp hid)
  test := by
    intro id hid
    rw [h.test id hid, hmethods, htransactions]

theorem foundRunnable_of_runnableActions (h : m.design.main.Elaborated plan) {runnable : Mask}
    (hrun : m.runnableActions a = .ok runnable) :
    m.FoundRunnable a m.design.main.methods m.design.main.transactions runnable := by
  rw [runnableActions_eq_inOrder, runnableInOrder_eq h] at hrun
  · exact runnableAfresh_eq_ok.mp hrun
  · exact fun id hid => Registry.lt_length_of_method? (Registry.mem_methods.mp hid)

/-- The runnable actions are requested methods that are ready and requested transactions of which all
active calls are. -/
theorem runnableActions_iff (h : m.design.main.Elaborated plan) {runnable : Mask}
    (hrun : m.runnableActions a = .ok runnable) {id : Nat} : runnable.test id = true ↔
      a.requested.test id = true ∧
        (((m.design.main.method? id).isSome ∧ m.MethodReady a id) ∨
          ((m.design.main.transaction? id).isSome ∧
            ∀ s ∈ m.activeSitesOf a id, m.SiteReady a s)) := by
  have hfound := foundRunnable_of_runnableActions h hrun
  by_cases hid : id < m.design.main.actions.length
  · rw [hfound.test id hid, Registry.mem_methods, Registry.mem_transactions,
      readyAfresh_eq_true _ _ (shallow_callDepth h hid), callsAfresh_eq_true h]
  · constructor
    · intro htest
      have hlt := Mask.lt_size_of_test htest
      rw [hfound.size] at hlt
      exact absurd hlt hid
    · rintro ⟨-, ⟨hmethod, -⟩ | ⟨htransaction, -⟩⟩
      · exact absurd (Registry.lt_length_of_method? hmethod) hid
      · exact absurd (Registry.lt_length_of_transaction? htransaction) hid

end GuardedActions.Machine
