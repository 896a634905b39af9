import GuardedActions.Proofs.Computation
import GuardedActions.Proofs.Elaboration.Acyclic
import Mathlib.Data.List.Nodup
import Mathlib.Data.Set.Insert
import Mathlib.Order.WellFounded

/-!
# Recursion without a bound

A recursive function over actions that a fuel keeps within bounds is taken apart here: its body is a script in
which the calls of the function are left open (`Script`).  A run of a script carries the calls out to any depth and
records each of them together with the actions that were being dealt with (`Script.Runs`); no fuel takes part in it.
If the calls follow a graph without cycles, every script has a run (`Script.exists_runs`), the calls under way at one
time are a path in the graph (`Script.Runs.trail`), and a fuel that no path exceeds changes nothing
(`Script.Runs.eval_eq`).  What a function remembers of the actions it dealt with is told by a `Checklist`, and a
function that goes by it deals with no action twice (`Script.Runs.nodup_dealt`).
-/

set_option autoImplicit false

namespace GuardedActions

/-- What a recursive function does between its beginning and its end: it may call itself for an action, with an
argument of type `S`, and goes on with the result, of type `α`. -/
inductive Script (S α β : Type) where
  /-- no call is left to be made -/
  | finish (outcome : Except Fault β)
  /-- the function calls itself -/
  | descend (action : Nat) (entry : S) (next : α → Script S α β)

namespace Script

variable {S α β γ ι : Type}

/-- One script after the other, unless the first ends in a fault. -/
def andThen : Script S α β → (β → Script S α γ) → Script S α γ
  | finish (.error f), _ => finish (.error f)
  | finish (.ok b), g => g b
  | descend action entry next, g => descend action entry fun r => (next r).andThen g

instance : Monad (Script S α) where
  pure b := finish (.ok b)
  bind := andThen

/-- What calls nothing may be part of a script. -/
instance : MonadLift (Except Fault) (Script S α) := ⟨finish⟩

/-- A single call. -/
def call (action : Nat) (entry : S) : Script S α α := descend action entry fun r => finish (.ok r)

/-- Carry out a script with a function that answers its calls. -/
def eval (f : Nat → S → Except Fault α) : Script S α β → Except Fault β
  | finish outcome => outcome
  | descend action entry next => do (next (← f action entry)).eval f

variable {f : Nat → S → Except Fault α}

@[simp] theorem eval_finish (o : Except Fault β) : (finish o).eval f = o := rfl

@[simp] theorem eval_pure (b : β) : (pure b : Script S α β).eval f = .ok b := rfl

@[simp] theorem eval_lift (o : Except Fault β) : (liftM o : Script S α β).eval f = o := rfl

@[simp] theorem eval_call (action : Nat) (entry : S) : (call action entry).eval f = f action entry := by
  show (f action entry >>= fun r => .ok r) = _
  cases f action entry with
  | error _ => rfl
  | ok _ => rfl

@[simp] theorem eval_bind (x : Script S α β) (g : β → Script S α γ) :
    (x >>= g).eval f = x.eval f >>= fun b => (g b).eval f := by
  induction x with
  | finish outcome =>
    cases outcome with
    | error _ => rfl
    | ok _ => rfl
  | descend action entry next ih =>
    show (f action entry >>= fun r => ((next r).andThen g).eval f) =
      (f action entry >>= fun r => (next r).eval f) >>= fun b => (g b).eval f
    cases f action entry with
    | error _ => rfl
    | ok r => exact ih r

theorem eval_foldlM {step : β → ι → Script S α β} {step' : β → ι → Except Fault β}
    (hstep : ∀ b x, (step b x).eval f = step' b x) (l : List ι) (b : β) :
    (l.foldlM step b).eval f = l.foldlM step' b := by
  induction l generalizing b with
  | nil => rfl
  | cons x l ih =>
    rw [List.foldlM_cons, List.foldlM_cons, eval_bind, hstep]
    exact congrArg _ (funext ih)

/-! ## Runs -/

/-- One call that was made. -/
structure Descent (S : Type) where
  /-- the action that the function was called for -/
  action : Nat
  /-- the actions whose calls were under way, the latest first -/
  callers : List Nat
  /-- what the function was given -/
  entry : S

/-- A script comes to its end, with all calls that it makes and that these make in turn. -/
inductive Runs (body : Nat → S → Script S α α) : {β : Type} → (callers : List Nat) → Script S α β →
    Except Fault β → List (Descent S) → Prop where
  /-- nothing is left to be done -/
  | finish {β : Type} {callers : List Nat} {o : Except Fault β} : Runs body callers (.finish o) o []
  /-- a call ends in a fault, and so does the script -/
  | fault {β : Type} {callers : List Nat} {action : Nat} {entry : S} {next : α → Script S α β} {f : Fault}
      {log : List (Descent S)} (below : Runs body (action :: callers) (body action entry) (.error f) log) :
      Runs body callers (.descend action entry next) (.error f) (⟨action, callers, entry⟩ :: log)
  /-- a call returns, and the script goes on -/
  | answer {β : Type} {callers : List Nat} {action : Nat} {entry : S} {next : α → Script S α β} {r : α}
      {o : Except Fault β} {log log' : List (Descent S)}
      (below : Runs body (action :: callers) (body action entry) (.ok r) log)
      (rest : Runs body callers (next r) o log') :
      Runs body callers (.descend action entry next) o (⟨action, callers, entry⟩ :: (log ++ log'))

variable {body : Nat → S → Script S α α} {callers : List Nat} {x : Script S α β} {o o' : Except Fault β}
  {log log' : List (Descent S)}

/-- A script has one run. -/
theorem Runs.unique (h : Runs body callers x o log) (h' : Runs body callers x o' log') :
    o = o' ∧ log = log' := by
  induction h generalizing log' with
  | finish =>
    cases h' with
    | finish => exact ⟨rfl, rfl⟩
  | fault _ ih =>
    cases h' with
    | fault below' =>
      obtain ⟨heq, rfl⟩ := ih below'
      exact ⟨congrArg _ (Except.error.inj heq), rfl⟩
    | answer below' _ =>
      obtain ⟨heq, -⟩ := ih below'
      cases heq
  | answer _ _ ih ihrest =>
    cases h' with
    | fault below' =>
      obtain ⟨heq, -⟩ := ih below'
      cases heq
    | answer below' rest' =>
      obtain ⟨heq, rfl⟩ := ih below'
      obtain rfl := Except.ok.inj heq
      obtain ⟨rfl, rfl⟩ := ihrest rest'
      exact ⟨rfl, rfl⟩

/-- A function whose body is a script: one unit of fuel is used up by every call. -/
def Unfolds (f : Nat → Nat → S → Except Fault α) (body : Nat → S → Script S α α) : Prop :=
  ∀ fuel action entry, f (fuel + 1) action entry = (body action entry).eval (f fuel)

/-- Fuel that no nesting of calls exceeds makes no difference. -/
theorem Runs.eval_eq {f : Nat → Nat → S → Except Fault α} (hf : Unfolds f body)
    (h : Runs body callers x o log) :
    ∀ {fuel : Nat}, (∀ c ∈ log, c.callers.length < callers.length + fuel) → x.eval (f fuel) = o := by
  induction h with
  | finish => exact fun _ => rfl
  | @fault _ callers action entry next e log below ih =>
    intro fuel hdepth
    obtain ⟨hfirst, hlog⟩ := List.forall_mem_cons.mp hdepth
    obtain ⟨fuel, rfl⟩ : ∃ n, fuel = n + 1 := ⟨fuel - 1, by simp only at hfirst; omega⟩
    have hbelow : (body action entry).eval (f fuel) = .error e := ih fun c hc => by
      have hlt := hlog c hc
      rw [List.length_cons]
      omega
    show (f (fuel + 1) action entry >>= fun r => (next r).eval (f (fuel + 1))) = .error e
    rw [hf, hbelow]
    rfl
  | @answer _ callers action entry next r o log log' below rest ih ihrest =>
    intro fuel hdepth
    obtain ⟨hfirst, hlog⟩ := List.forall_mem_cons.mp hdepth
    obtain ⟨fuel, rfl⟩ : ∃ n, fuel = n + 1 := ⟨fuel - 1, by simp only at hfirst; omega⟩
    have hbelow : (body action entry).eval (f fuel) = .ok r := ih fun c hc => by
      have hlt := hlog c (List.mem_append_left _ hc)
      rw [List.length_cons]
      omega
    show (f (fuel + 1) action entry >>= fun r => (next r).eval (f (fuel + 1))) = o
    rw [hf, hbelow]
    exact ihrest fun c hc => hlog c (List.mem_append_right _ hc)

/-! ## Calls along a graph -/

/-- A script calls the function for some of the actions of a list, in their order. -/
def Follows : Script S α β → List Nat → Prop
  | finish _, _ => True
  | descend action _ next, l => ∃ rest, (action :: rest).Sublist l ∧ ∀ r, (next r).Follows rest

theorem follows_call (action : Nat) (entry : S) : (call action entry : Script S α α).Follows [action] :=
  ⟨[], .refl _, fun _ => trivial⟩

theorem Follows.mono {l l' : List Nat} (h : x.Follows l) (hsub : l.Sublist l') : x.Follows l' := by
  cases x with
  | finish _ => trivial
  | descend action entry next =>
    obtain ⟨rest, hrest, hnext⟩ := h
    exact ⟨rest, hrest.trans hsub, hnext⟩

theorem Follows.bind {l l' : List Nat} {g : β → Script S α γ} (h : x.Follows l) (hg : ∀ b, (g b).Follows l') :
    (x >>= g).Follows (l ++ l') := by
  induction x generalizing l with
  | finish outcome =>
    cases outcome with
    | error _ => trivial
    | ok b => exact (hg b).mono (List.sublist_append_right l l')
  | descend action entry next ih =>
    obtain ⟨rest, hrest, hnext⟩ := h
    exact ⟨rest ++ l', hrest.append_right l', fun r => ih r (hnext r)⟩

/-- What is no call leaves the list as it is. -/
theorem Follows.lift_bind {l : List Nat} {o : Except Fault β} {g : β → Script S α γ}
    (hg : ∀ b, (g b).Follows l) : ((liftM o : Script S α β) >>= g).Follows l :=
  Follows.bind (l := []) trivial hg

/-- What comes after the calls leaves the list as it is. -/
theorem Follows.bind_of_silent {l : List Nat} {g : β → Script S α γ} (h : x.Follows l)
    (hg : ∀ b, (g b).Follows []) : (x >>= g).Follows l := by
  have hboth := h.bind hg
  rw [List.append_nil] at hboth
  exact hboth

theorem follows_foldlM {step : β → ι → Script S α β} {calls : ι → List Nat} {l : List ι}
    (hstep : ∀ x ∈ l, ∀ b, (step b x).Follows (calls x)) (b : β) : (l.foldlM step b).Follows (l.flatMap calls) := by
  induction l generalizing b with
  | nil => trivial
  | cons x l ih =>
    rw [List.foldlM_cons, List.flatMap_cons]
    exact Follows.bind (hstep x List.mem_cons_self b)
      fun b' => ih (fun y hy => hstep y (List.mem_cons_of_mem _ hy)) b'

/-- Where every step makes one call at most. -/
theorem follows_foldlM_single {step : β → ι → Script S α β} {key : ι → Nat} {l : List ι}
    (hstep : ∀ x ∈ l, ∀ b, (step b x).Follows [key x]) (b : β) : (l.foldlM step b).Follows (l.map key) := by
  have hfold := follows_foldlM hstep b
  rw [← List.map_eq_flatMap] at hfold
  exact hfold

/-- The body of a function calls it along a graph. -/
def Along (body : Nat → S → Script S α α) (next : Nat → List Nat) : Prop :=
  ∀ action entry, (body action entry).Follows (next action)

variable {next : Nat → List Nat}

/-- If calls follow a graph in which no path goes on for ever, every script comes to its end. -/
theorem exists_runs (hbody : Along body next) (hwf : WellFounded fun callee caller => callee ∈ next caller)
    (callers : List Nat) {l : List Nat} (hx : x.Follows l) : ∃ o log, Runs body callers x o log := by
  -- a script does if its calls do
  have hscript : ∀ {γ : Type} (y : Script S α γ) (l callers : List Nat), y.Follows l →
      (∀ b ∈ l, ∀ entry callers, ∃ o log, Runs body callers (body b entry) o log) →
        ∃ o log, Runs body callers y o log := by
    intro γ y
    induction y with
    | finish o => exact fun _ _ _ _ => ⟨o, [], .finish⟩
    | descend action entry next ih =>
      rintro l callers ⟨rest, hrest, hnext⟩ hl
      obtain ⟨o, log, below⟩ := hl action (hrest.subset List.mem_cons_self) entry (action :: callers)
      cases o with
      | error f => exact ⟨_, _, .fault below⟩
      | ok r =>
        obtain ⟨o, log', hrun⟩ := ih r rest callers (hnext r)
          fun b hb => hl b (hrest.subset (List.mem_cons_of_mem _ hb))
        exact ⟨o, _, .answer below hrun⟩
  have hall : ∀ action entry callers, ∃ o log, Runs body callers (body action entry) o log := by
    intro action
    induction action using hwf.induction with
    | h action ih => exact fun entry callers => hscript _ _ _ (hbody action entry) ih
  exact hscript x l callers hx fun b _ => hall b

/-- In a graph without cycles a call leads away from the path that it is made on. -/
theorem trail_descend {size : Nat} (hwf : WellFounded fun callee caller => callee ∈ next caller)
    (hlt : ∀ a, ∀ b ∈ next a, b < size) {a b : Nat} {path : List Nat} (h : Cycle.Trail next size (a :: path))
    (hcall : b ∈ next a) : Cycle.Trail next size (b :: a :: path) := by
  refine h.extend hcall (hlt a b hcall) fun hmem => ?_
  have hcycle : Relation.TransGen (fun caller callee => callee ∈ next caller) b b := .tail' (h.reaches b hmem) hcall
  exact hwf.transGen.irrefl.irrefl b (Relation.transGen_swap.mpr hcycle)

/-- The actions whose calls are under way at one time are a path in the graph. -/
theorem Runs.trail {size : Nat} (hbody : Along body next)
    (hwf : WellFounded fun callee caller => callee ∈ next caller) (hlt : ∀ a, ∀ b ∈ next a, b < size)
    (h : Runs body callers x o log) : ∀ {l : List Nat}, x.Follows l →
      (∀ b ∈ l, Cycle.Trail next size (b :: callers)) →
        ∀ c ∈ log, Cycle.Trail next size (c.action :: c.callers) := by
  induction h with
  | finish => exact fun _ _ => nofun
  | fault _ ih =>
    rintro l ⟨rest, hrest, -⟩ hl
    have hhead := hl _ (hrest.subset List.mem_cons_self)
    exact List.forall_mem_cons.mpr ⟨hhead, ih (hbody _ _) fun b hb => trail_descend hwf hlt hhead hb⟩
  | answer _ _ ih ihrest =>
    rintro l ⟨rest, hrest, hnext⟩ hl
    have hhead := hl _ (hrest.subset List.mem_cons_self)
    have hbelow := ih (hbody _ _) fun b hb => trail_descend hwf hlt hhead hb
    have hrest' := ihrest (hnext _) fun b hb => hl b (hrest.subset (List.mem_cons_of_mem _ hb))
    exact List.forall_mem_cons.mpr ⟨hhead, List.forall_mem_append.mpr ⟨hbelow, hrest'⟩⟩

/-- A script that starts with no call under way comes to one end, and never are more calls under way than there are
actions. -/
structure EndsWithin (next : Nat → List Nat) (size : Nat) (f : Nat → Nat → S → Except Fault α)
    (body : Nat → S → Script S α α) (x : Script S α β) (o : Except Fault β) (log : List (Descent S)) : Prop where
  /-- the script has a run -/
  runs : Runs body [] x o log
  /-- it has no other -/
  only : ∀ {o' : Except Fault β} {log' : List (Descent S)}, Runs body [] x o' log' → o' = o ∧ log' = log
  /-- the actions whose calls are under way are joined by calls, the latest first, and no action is among them
  twice -/
  trail : ∀ c ∈ log, Cycle.Trail next size (c.action :: c.callers)
  /-- so their number is bounded -/
  depth : ∀ c ∈ log, (c.action :: c.callers).length ≤ size
  /-- and a fuel that is no less comes to the same end -/
  settled : ∀ {fuel : Nat}, size ≤ fuel → x.eval (f fuel) = o

/-- A recursion along a graph without cycles ends. -/
theorem exists_endsWithin {size : Nat} {f : Nat → Nat → S → Except Fault α} (hf : Unfolds f body)
    (hbody : Along body next) (hwf : WellFounded fun callee caller => callee ∈ next caller)
    (hlt : ∀ a, ∀ b ∈ next a, b < size) {l : List Nat} (hx : x.Follows l) (hl : ∀ b ∈ l, b < size) {fuel : Nat}
    (hfuel : size ≤ fuel) : ∃ log, EndsWithin next size f body x (x.eval (f fuel)) log := by
  obtain ⟨o, log, hrun⟩ := exists_runs hbody hwf [] hx
  have htrail : ∀ c ∈ log, Cycle.Trail next size (c.action :: c.callers) :=
    hrun.trail hbody hwf hlt hx fun b hb => ⟨.singleton b, List.nodup_singleton b, fun a ha => by
      rw [List.mem_singleton.mp ha]
      exact hl b hb⟩
  have hdepth : ∀ c ∈ log, (c.action :: c.callers).length ≤ size := fun c hc => (htrail c hc).length_le
  have hsettled : ∀ {fuel : Nat}, size ≤ fuel → x.eval (f fuel) = o := fun hfuel =>
    hrun.eval_eq hf fun c hc => by
      have hle := hdepth c hc
      rw [List.length_cons] at hle
      rw [List.length_nil]
      omega
  rw [hsettled hfuel]
  exact ⟨log, hrun, fun hrun' => hrun'.unique hrun, htrail, hdepth, hsettled⟩

/-- No call is made with fewer callers than the script has. -/
theorem Runs.length_callers_le (h : Runs body callers x o log) :
    ∀ c ∈ log, callers.length ≤ c.callers.length := by
  induction h with
  | finish => exact nofun
  | fault _ ih => exact List.forall_mem_cons.mpr ⟨le_rfl, fun c hc => (Nat.le_succ _).trans (ih c hc)⟩
  | answer _ _ ih ihrest =>
    exact List.forall_mem_cons.mpr ⟨le_rfl, List.forall_mem_append.mpr
      ⟨fun c hc => (Nat.le_succ _).trans (ih c hc), ihrest⟩⟩

/-- The calls that a script makes itself are for actions of its list, in their order. -/
theorem Runs.sublist_own (h : Runs body callers x o log) : ∀ {l : List Nat}, x.Follows l →
    ((log.filter fun c => c.callers.length == callers.length).map Descent.action).Sublist l := by
  have hbelow : ∀ {γ : Type} {a : Nat} {y : Script S α γ} {o : Except Fault γ} {callers : List Nat}
      {log : List (Descent S)}, Runs body (a :: callers) y o log →
        log.filter (fun c => c.callers.length == callers.length) = [] := by
    intro γ a y o callers log hrun
    refine List.filter_eq_nil_iff.mpr fun c hc heq => ?_
    have hle := hrun.length_callers_le c hc
    rw [beq_iff_eq.mp heq] at hle
    exact Nat.not_succ_le_self _ hle
  induction h with
  | finish => exact fun _ => List.nil_sublist _
  | fault below _ =>
    rintro l ⟨rest, hrest, -⟩
    rw [List.filter_cons_of_pos (by simp), hbelow below]
    exact ((List.nil_sublist rest).cons_cons _).trans hrest
  | answer below _ _ ihrest =>
    rintro l ⟨rest, hrest, hnext⟩
    rw [List.filter_cons_of_pos (by simp), List.filter_append, hbelow below, List.nil_append, List.map_cons]
    exact ((ihrest (hnext _)).cons_cons _).trans hrest

/-! ## Actions that are dealt with -/

/-- How a function knows which actions it has dealt with. -/
structure Checklist (S α : Type) where
  /-- whether a call deals with its action or leaves it alone -/
  deals : Nat → S → Bool
  /-- what is required of a call, where these actions were dealt with before -/
  before : Nat → S → Set Nat → Prop
  /-- what is promised of its result, where these actions were dealt with by then -/
  after : α → Set Nat → Prop

namespace Checklist

variable (k : Checklist S α)

/-- The actions that are dealt with once a call is made. -/
def entered (action : Nat) (entry : S) (done : Set Nat) : Set Nat :=
  if k.deals action entry then insert action done else done

/-- The actions that the calls of a log deal with. -/
def dealt (log : List (Descent S)) : List Nat :=
  (log.filter fun c => k.deals c.action c.entry).map Descent.action

/-- A script makes its calls as required and keeps a promise at its end, where some actions were dealt with
before. -/
def Heeds (promise : β → Set Nat → Prop) : Script S α β → Set Nat → Prop
  | .finish (.error _), _ => True
  | .finish (.ok b), done => promise b done
  | .descend action entry next, done => k.before action entry done ∧
      ∀ r done', done ⊆ done' → k.after r done' → Heeds promise (next r) done'

/-- A body keeps to the checklist: what it deals with was not dealt with before. -/
structure Kept (body : Nat → S → Script S α α) : Prop where
  /-- an action is dealt with once -/
  fresh : ∀ {action entry done}, k.before action entry done → k.deals action entry = true → action ∉ done
  /-- the body makes its calls as required -/
  heeds : ∀ {action entry done}, k.before action entry done →
    k.Heeds k.after (body action entry) (k.entered action entry done)

variable {k} {promise : β → Set Nat → Prop} {promise' : γ → Set Nat → Prop} {done : Set Nat}

theorem Heeds.bind {g : β → Script S α γ} (h : k.Heeds promise x done)
    (hg : ∀ b done', done ⊆ done' → promise b done' → k.Heeds promise' (g b) done') :
    k.Heeds promise' (x >>= g) done := by
  induction x generalizing done with
  | finish outcome =>
    cases outcome with
    | error _ => trivial
    | ok b => exact hg b done subset_rfl h
  | descend action entry next ih =>
    obtain ⟨hbefore, hnext⟩ := h
    refine ⟨hbefore, fun r done' hsub hafter => ih r (hnext r done' hsub hafter) ?_⟩
    exact fun b done'' hsub' => hg b done'' (hsub.trans hsub')

theorem heeds_call {action : Nat} {entry : S} (h : k.before action entry done) :
    k.Heeds k.after (call action entry) done := ⟨h, fun _ _ _ hafter => hafter⟩

theorem heeds_lift_bind {o : Except Fault β} {g : β → Script S α γ}
    (hg : ∀ b, o = .ok b → k.Heeds promise' (g b) done) :
    k.Heeds promise' ((liftM o : Script S α β) >>= g) done := by
  cases o with
  | error _ => trivial
  | ok b => exact hg b rfl

theorem heeds_foldlM {step : β → ι → Script S α β} {l : List ι}
    (hstep : ∀ x ∈ l, ∀ b done', promise b done' → k.Heeds promise (step b x) done') {b : β}
    (h : promise b done) : k.Heeds promise (l.foldlM step b) done := by
  induction l generalizing b done with
  | nil => exact h
  | cons x l ih =>
    rw [List.foldlM_cons]
    refine (hstep x List.mem_cons_self b done h).bind fun b' done' _ hb' => ?_
    exact ih (fun y hy => hstep y (List.mem_cons_of_mem _ hy)) hb'

theorem subset_entered {action : Nat} {entry : S} : done ⊆ k.entered action entry done := by
  unfold entered
  split
  · exact Set.subset_insert _ _
  · exact subset_rfl

theorem dealt_cons (c : Descent S) (log : List (Descent S)) :
    k.dealt (c :: log) = if k.deals c.action c.entry then c.action :: k.dealt log else k.dealt log := by
  unfold dealt
  rw [List.filter_cons]
  split
  · rfl
  · rfl

theorem dealt_append (log log' : List (Descent S)) : k.dealt (log ++ log') = k.dealt log ++ k.dealt log' := by
  unfold dealt
  rw [List.filter_append, List.map_append]

/-- What the calls of a log dealt with was new, none of it twice. -/
structure New (k : Checklist S α) (log : List (Descent S)) (done : Set Nat) : Prop where
  /-- nothing is dealt with twice -/
  nodup : (k.dealt log).Nodup
  /-- nothing was dealt with before -/
  fresh : ∀ a ∈ k.dealt log, a ∉ done

/-- A call goes before the calls that it makes. -/
theorem New.cons {action : Nat} {callers : List Nat} {entry : S} {log : List (Descent S)}
    (h : k.New log (k.entered action entry done)) (hfresh : k.deals action entry = true → action ∉ done) :
    k.New (⟨action, callers, entry⟩ :: log) done := by
  have hold : ∀ a ∈ k.dealt log, a ∉ done := fun a ha hdone => h.fresh a ha (subset_entered hdone)
  cases hdeals : k.deals action entry with
  | false =>
    have heq : k.dealt (⟨action, callers, entry⟩ :: log) = k.dealt log := by
      rw [dealt_cons, if_neg (by rw [hdeals]; exact Bool.false_ne_true)]
    exact ⟨heq ▸ h.nodup, fun a ha => hold a (heq ▸ ha)⟩
  | true =>
    have heq : k.dealt (⟨action, callers, entry⟩ :: log) = action :: k.dealt log := by
      rw [dealt_cons, if_pos hdeals]
    have hentered : k.entered action entry done = insert action done := if_pos hdeals
    refine ⟨?_, ?_⟩
    · rw [heq]
      exact List.nodup_cons.mpr ⟨fun ha => h.fresh action ha (hentered ▸ Set.mem_insert _ _), h.nodup⟩
    · rw [heq]
      exact List.forall_mem_cons.mpr ⟨hfresh hdeals, hold⟩

end Checklist

variable {k : Checklist S α}

/-- A function that keeps to its checklist deals with no action twice, and knows in the end what it dealt
with. -/
theorem Runs.nodup_dealt (hbody : k.Kept body) (h : Runs body callers x o log) :
    ∀ {promise : β → Set Nat → Prop} {done : Set Nat}, k.Heeds promise x done → k.New log done ∧
      ∀ b, o = .ok b → ∃ done', done ⊆ done' ∧ (∀ a ∈ k.dealt log, a ∈ done') ∧ promise b done' := by
  induction h with
  | @finish _ _ o =>
    intro promise done hx
    refine ⟨⟨List.nodup_nil, nofun⟩, ?_⟩
    rintro b rfl
    exact ⟨done, subset_rfl, nofun, hx⟩
  | fault _ ih =>
    rintro promise done ⟨hbefore, -⟩
    exact ⟨(ih (hbody.heeds hbefore)).1.cons (hbody.fresh hbefore), nofun⟩
  | @answer _ callers action entry next r o log log' _ _ ih ihrest =>
    rintro promise done ⟨hbefore, hnext⟩
    obtain ⟨hbelow, hresult⟩ := ih (hbody.heeds hbefore)
    obtain ⟨done', hsub, hdealt, hafter⟩ := hresult r rfl
    have hdone : done ⊆ done' := Checklist.subset_entered.trans hsub
    obtain ⟨hrest, hend⟩ := ihrest (hnext r done' hdone hafter)
    have hnew : k.New (log ++ log') (k.entered action entry done) := by
      constructor
      case nodup =>
        rw [Checklist.dealt_append]
        exact hbelow.nodup.append hrest.nodup fun a ha ha' => hrest.fresh a ha' (hdealt a ha)
      case fresh =>
        intro a ha
        rw [Checklist.dealt_append] at ha
        rcases List.mem_append.mp ha with ha | ha
        · exact hbelow.fresh a ha
        · exact fun hentered => hrest.fresh a ha (hsub hentered)
    refine ⟨hnew.cons (hbody.fresh hbefore), fun b hb => ?_⟩
    obtain ⟨done'', hsub', hdealt', hpromise⟩ := hend b hb
    refine ⟨done'', hdone.trans hsub', fun a ha => ?_, hpromise⟩
    rw [Checklist.dealt_cons, Checklist.dealt_append] at ha
    have hcases : a ∈ k.entered action entry done ∨ a ∈ k.dealt log ∨ a ∈ k.dealt log' := by
      split at ha
      · rename_i hdeals
        rcases List.mem_cons.mp ha with rfl | ha
        · have hentered : k.entered a entry done = insert a done := if_pos hdeals
          exact .inl (hentered ▸ Set.mem_insert _ _)
        · exact .inr (List.mem_append.mp ha)
      · exact .inr (List.mem_append.mp ha)
    rcases hcases with ha | ha | ha
    · exact hsub' (hsub ha)
    · exact hsub' (hdealt a ha)
    · exact hdealt' a ha

end Script

end GuardedActions
