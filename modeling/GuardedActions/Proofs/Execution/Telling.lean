import GuardedActions.Proofs.Execution.Answer
import GuardedActions.Proofs.Execution.Story

/-!
# Executions that a story tells

While bodies run, every action has done some of the acts that the story has for it.  A counter for every
action says how many.  The state, the performed call sites and the events follow from the counters, so they
are the same in every execution that comes to them.  The steps of a body move the counter of its action
and of the methods that start below it, and of no other action that has begun.
-/

set_option autoImplicit false

namespace GuardedActions

variable {L : Layout}

namespace Account

/-- The body of an action has started. -/
def Begun (a : Account) (b : Nat) : Prop := b ∈ a.started ∨ b ∈ a.entered

@[simp] theorem begun_start (a : Account) (t b : Nat) :
    (a.start t).Begun b ↔ a.Begun b ∨ b = t := by
  simp only [Begun, started_start, entered_start, List.mem_append, List.mem_singleton]
  exact or_right_comm

@[simp] theorem begun_perform (a : Account) (i : Nat) (given : Option Record) (b : Nat) :
    (a.perform i given).Begun b ↔ a.Begun b := by
  simp [Begun]

@[simp] theorem begun_enter (a : Account) (x : Nat) (args : Record) (b : Nat) :
    (a.enter x args).Begun b ↔ a.Begun b ∨ b = x := by
  simp [Begun, or_assoc]

@[simp] theorem begun_leave (a : Account) (x : Nat) (result : Record) (b : Nat) :
    (a.leave x result).Begun b ↔ a.Begun b := by
  simp [Begun]

@[simp] theorem begun_answer (a : Account) (i : Nat) (result : Record) (b : Nat) :
    (a.answer i result).Begun b ↔ a.Begun b := by
  simp [Begun]

end Account

/-- The actions in the course of the open calls: a method that one of them runs, or a transaction that has
started. -/
def Registry.OnStage {σ : Type} (r : Registry σ) (stack started : List Nat) (b : Nat) : Prop :=
  r.Busy stack b ∨ (b ∈ started ∧ r.method? b = none)

/-- All methods that run wait for the one that was called last. -/
theorem Registry.reaches_of_busy_cons {σ : Type} {r : Registry σ} {stack : List Nat} {i x : Nat}
    {u : Site σ} (hu : r.sites[i]? = some u)
    (h : ∀ x, r.Busy stack x → r.Reaches x u.caller) (hx : r.Busy (i :: stack) x) :
    r.Reaches x u.callee.id := by
  rcases (busy_cons hu).mp hx with rfl | hx
  · exact .refl
  · exact (h x hx).tail ⟨i, u, hu, rfl, rfl⟩

/-- The callee of a call does not run: it would reach its own caller. -/
theorem Registry.Acyclic.not_busy_callee {σ : Type} {r : Registry σ} (hr : r.Acyclic)
    {stack : List Nat} {i : Nat} {u : Site σ} (hu : r.sites[i]? = some u)
    (h : ∀ x, r.Busy stack x → r.Reaches x u.caller) : ¬ r.Busy stack u.callee.id := fun hbusy =>
  hr.not_reaches ⟨i, u, hu, rfl, rfl⟩ (h _ hbusy)

theorem Registry.not_busy_nil {σ : Type} {r : Registry σ} (x : Nat) : ¬ r.Busy [] x := by
  rintro ⟨i, hi, -⟩
  cases hi

theorem Registry.onStage_callee {σ : Type} {r : Registry σ} {stack : List Nat} {i : Nat} {u : Site σ}
    (hu : r.sites[i]? = some u) (started : List Nat) : r.OnStage (i :: stack) started u.callee.id :=
  Or.inl ((busy_cons hu).mpr (Or.inl rfl))

/-- When the first of some transactions has started, the others have not. -/
theorem fresh_of_cons {P : Nat → Prop} {t : Nat} {rest started : List Nat} (hnot : t ∉ rest)
    (h : ∀ u ∈ t :: rest, P u ∧ u ∉ started) : ∀ u ∈ rest, P u ∧ u ∉ started ++ [t] := by
  intro u hu
  obtain ⟨hP, hfresh⟩ := h u (List.mem_cons_of_mem _ hu)
  refine ⟨hP, fun hmem => ?_⟩
  rcases List.mem_append.mp hmem with hmem | hmem
  · exact hfresh hmem
  · exact hnot (List.mem_singleton.mp hmem ▸ hu)

namespace Account.Sound

variable {σ : Type} {r : Registry σ} {s : Schedule} {stack started : List Nat} {a : Account} {b : Nat}

theorem begun (h : a.Sound r s stack started) (hb : r.OnStage stack started b) : a.Begun b := by
  rcases hb with hbusy | ⟨hstarted, -⟩
  · exact Or.inr ((h.entered b).mpr (Or.inr hbusy))
  · exact Or.inl (by rw [h.started]; exact hstarted)

/-- What enters a body is a method. -/
theorem method_of_entered (h : a.Sound r s stack started) (hb : b ∈ a.entered) :
    (r.method? b).isSome := by
  obtain ⟨args, hargs⟩ := Account.mem_entered.mp hb
  obtain ⟨-, -, -, target, -, -, -, -, htarget, -⟩ := h.driven b args hargs
  rw [htarget]
  rfl

/-- What is under way has no result. -/
theorem resultOf_eq_none (h : a.Sound r s stack started) (hb : r.OnStage stack started b) :
    a.ledger.resultOf b = none := by
  rcases hb with hbusy | ⟨-, hmethod⟩
  · exact h.busy b hbusy
  · cases hresult : a.ledger.resultOf b with
    | none => rfl
    | some result =>
      have hsome := h.method_of_entered ((h.entered b).mpr (Or.inl (by rw [hresult]; rfl)))
      rw [hmethod] at hsome
      cases hsome

end Account.Sound

namespace Machine

variable {m : Machine (Storage L)} {s : Schedule} {y : Story L} {pc pc' pc'' : Nat → Nat} {b : Nat}
  {a a' a'' : Account}

/-! ## The course of an action -/

/-- The next act of an action, and those after it. -/
theorem act_of_drop {act : Act L} {rest : List (Act L)} (h : (y.acts m b).drop (pc b) = act :: rest) :
    (y.acts m b)[pc b]? = some act ∧ (y.acts m b).drop (Story.advance pc b b) = rest := by
  constructor
  · rw [← Nat.add_zero (pc b), ← List.getElem?_drop, h]
    rfl
  · rw [Story.advance_self, ← List.tail_drop, h]
    rfl

/-- What the body of an action, or part of it, does to the counters and the account. -/
structure Onward (m : Machine (Storage L)) (s : Schedule) (y : Story L) (b : Nat) (pc pc' : Nat → Nat)
    (a a' : Account) : Prop where
  /-- what has begun has begun -/
  begun : ∀ c, a.Begun c → a'.Begun c
  /-- other actions that had begun do nothing -/
  frame : ∀ c, a.Begun c → c ≠ b → pc' c = pc c
  /-- the action goes on -/
  le : pc b ≤ pc' b
  /-- its acts go through -/
  allows : ∀ k, pc b ≤ k → k < pc' b → y.Allows m s b k
  /-- methods that have started meanwhile play their parts -/
  plays : ∀ c, c ∈ a'.entered → c ∉ a.entered →
    ∃ target, m.design.main.method? c = some target ∧ y.Plays m s c target

theorem Onward.refl (m : Machine (Storage L)) (s : Schedule) (y : Story L) (b : Nat) (pc : Nat → Nat)
    (a : Account) : m.Onward s y b pc pc a a where
  begun := fun _ hc => hc
  frame := fun _ _ _ => rfl
  le := Nat.le_refl _
  allows := fun _ hle hlt => absurd hlt (Nat.not_lt.mpr hle)
  plays := fun _ hc hnot => absurd hc hnot

theorem Onward.trans (h : m.Onward s y b pc pc' a a') (h' : m.Onward s y b pc' pc'' a' a'') :
    m.Onward s y b pc pc'' a a'' where
  begun := fun c hc => h'.begun c (h.begun c hc)
  frame := fun c hc hne => (h'.frame c (h.begun c hc) hne).trans (h.frame c hc hne)
  le := Nat.le_trans h.le h'.le
  allows := by
    intro k hle hlt
    rcases Nat.lt_or_ge k (pc' b) with hk | hk
    · exact h.allows k hle hk
    · exact h'.allows k hk hlt
  plays := by
    intro c hc hnot
    by_cases hmem : c ∈ a'.entered
    · exact h.plays c hmem hnot
    · exact h'.plays c hc hmem

/-- An action does one act that starts no body. -/
theorem Onward.advance (hallows : y.Allows m s b (pc b)) (hbegun : ∀ c, a.Begun c → a'.Begun c)
    (hentered : a'.entered = a.entered) : m.Onward s y b pc (Story.advance pc b) a a' where
  begun := hbegun
  frame := fun _ _ hne => Story.advance_of_ne hne
  le := by
    rw [Story.advance_self]
    exact Nat.le_succ _
  allows := by
    intro k hle hlt
    rw [Story.advance_self] at hlt
    obtain rfl : k = pc b := by omega
    exact hallows
  plays := by
    intro c hc hnot
    rw [hentered] at hc
    exact absurd hc hnot

/-- An action that has done all of its acts has done what it may. -/
theorem Onward.allows_all (h : m.Onward s y b pc pc' a a') (hzero : pc b = 0)
    (hdone : pc' b = (y.acts m b).length) (k : Nat) : y.Allows m s b k := by
  rcases Nat.lt_or_ge k (y.acts m b).length with hk | hk
  · exact h.allows k (hzero ▸ Nat.zero_le k) (hdone ▸ hk)
  · exact Story.allows_of_length_le hk

/-- What the granted ones among some transactions, one after the other, do to the counters and the
account. -/
structure Swept (m : Machine (Storage L)) (s : Schedule) (y : Story L) (order : List Nat)
    (pc pc' : Nat → Nat) (a a' : Account) : Prop where
  /-- what has begun has begun -/
  begun : ∀ c, a.Begun c → a'.Begun c
  /-- actions that had begun do nothing -/
  frame : ∀ c, a.Begun c → pc' c = pc c
  /-- granted transactions play their parts, and are done -/
  carries : ∀ t ∈ order, s.granted.test t = true →
    y.Carries m s t ∧ a'.Begun t ∧ pc' t = (y.acts m t).length
  /-- methods that have started meanwhile play their parts -/
  plays : ∀ c, c ∈ a'.entered → c ∉ a.entered →
    ∃ target, m.design.main.method? c = some target ∧ y.Plays m s c target

theorem Swept.nil (m : Machine (Storage L)) (s : Schedule) (y : Story L) (pc : Nat → Nat)
    (a : Account) : m.Swept s y [] pc pc a a where
  begun := fun _ hc => hc
  frame := fun _ _ => rfl
  carries := by
    intro t ht
    cases ht
  plays := fun _ hc hnot => absurd hc hnot

/-- A transaction that is not granted does nothing. -/
theorem Swept.skip {order : List Nat} {t : Nat} (h : m.Swept s y order pc pc' a a')
    (ht : ¬ s.granted.test t = true) : m.Swept s y (t :: order) pc pc' a a' where
  begun := h.begun
  frame := h.frame
  carries := by
    intro u hu hgranted
    rcases List.mem_cons.mp hu with rfl | hu
    · exact absurd hgranted ht
    · exact h.carries u hu hgranted
  plays := h.plays

/-- A granted transaction comes first. -/
theorem Swept.cons {order : List Nat} {t : Nat} (hfirst : m.Onward s y t pc pc' (a.start t) a')
    (hnot : ¬ a.Begun t) (hzero : pc t = 0) (hdone : pc' t = (y.acts m t).length)
    (houtcome : (y.programs.transaction t).outcome y.seen y.results = some ())
    (h : m.Swept s y order pc' pc'' a' a'') : m.Swept s y (t :: order) pc pc'' a a'' := by
  have hstart : ∀ {c}, a.Begun c → (a.start t).Begun c := fun hc => by simp [hc]
  have hbegun : a'.Begun t := hfirst.begun t (by simp)
  refine ⟨fun c hc => h.begun c (hfirst.begun c (hstart hc)), fun c hc => ?_, fun u hu hgranted => ?_,
    fun c hc hnew => ?_⟩
  · rw [h.frame c (hfirst.begun c (hstart hc)),
      hfirst.frame c (hstart hc) fun heq => hnot (heq ▸ hc)]
  · rcases List.mem_cons.mp hu with rfl | hu
    · exact ⟨⟨hfirst.allows_all hzero hdone, houtcome⟩, h.begun _ hbegun,
        (h.frame _ hbegun).trans hdone⟩
    · exact h.carries u hu hgranted
  · by_cases hmem : c ∈ a'.entered
    · exact hfirst.plays c hmem (by simpa using hnew)
    · exact h.plays c hc hmem

/-! ## The course of an execution -/

/-- A machine whose bodies are the programs of a story, while it executes a schedule that excludes and
checks what it grants. -/
structure Scripted [DecidableEq L.Name] [DecidableEq L.Table] (m : Machine (Storage L)) (plan : Plan)
    (s : Schedule) (y : Story L) : Prop where
  /-- the plan fits the registry -/
  elaborated : m.design.main.Elaborated plan
  /-- bodies are the programs of the story -/
  runs : m.design.main.Runs y.programs
  /-- they see what is committed -/
  seen : y.seen = m.state.committed
  /-- callees of granted call sites are granted -/
  callee : ∀ {i : Nat} {u : Site (Storage L)}, m.design.main.sites[i]? = some u →
    s.grantedSites.test i = true → s.granted.test u.callee.id = true
  /-- granted call sites have supplied what they supply -/
  early : ∀ {i : Nat} {u : Site (Storage L)}, m.design.main.sites[i]? = some u →
    s.grantedSites.test i = true → u.arguments.isSome = true → ∃ known, s.earlyOf i = some known
  /-- exclusive methods have one granted caller -/
  exclusive : s.Exclusive m.design.main plan
  /-- other methods run with the same arguments for all of their callers -/
  shared : ∀ {i j : Nat} {u v : Site (Storage L)} {target : Method (Storage L)}
    {given given' : Option Record} {passed passed' : Record}, m.design.main.sites[i]? = some u →
    m.design.main.sites[j]? = some v → u.callee.id = v.callee.id →
    s.grantedSites.test i = true → s.grantedSites.test j = true →
    m.design.main.method? u.callee.id = some target → target.nonexclusive = true →
    u.Passes s i target given passed → v.Passes s j target given' passed' →
    drivingArguments s u.callee.id target i passed = drivingArguments s v.callee.id target j passed'
  /-- the checks before a body runs depend on nothing that bodies change -/
  checked : ∀ {x : Nat} {target : Method (Storage L)} {args : Record} {state : Storage L},
    m.design.main.method? x = some target → state.committed = m.state.committed →
    ∀ name, m.checkRun name target args state = m.checkRun name target args m.state

variable [DecidableEq L.Name] [DecidableEq L.Table]

/-- An execution has come as far in a story as the counters say. -/
structure Told (m : Machine (Storage L)) (s : Schedule) (y : Story L) (stack started : List Nat)
    (pc : Nat → Nat) (e : Body.Effects (Storage L) Account) : Prop where
  /-- the ledger and the events agree -/
  sound : e.calls.Sound m.design.main s stack started
  /-- the state has the writes done so far -/
  recorded : y.Recorded m pc e.state
  /-- no action has done more than it does -/
  within : ∀ b, pc b ≤ (y.acts m b).length
  /-- an action that has not begun has done nothing -/
  untouched : ∀ b, ¬ e.calls.Begun b → pc b = 0
  /-- granted transactions start -/
  transactions : ∀ t ∈ started, (m.design.main.transaction? t).isSome ∧ s.granted.test t = true
  /-- the performed call sites are those of the calls done so far -/
  performed : ∀ {i : Nat} {u : Site (Storage L)}, m.design.main.sites[i]? = some u →
    (i ∈ e.calls.performed ↔ ∃ (k : Nat) (given : Option Record), k < pc u.caller ∧
      (y.acts m u.caller)[k]? = some (.call u.callee given))
  /-- a method that is done has done all it does -/
  complete : ∀ b, (e.calls.ledger.resultOf b).isSome = true → pc b = (y.acts m b).length
  /-- the events are part of the story -/
  tells : ∀ ev ∈ e.calls.events, y.Tells m ev
  /-- nothing happens twice -/
  events_nodup : e.calls.events.Nodup
  /-- answers are answers to calls that are not open any more -/
  answered : ∀ {i : Nat} {result : Record}, .answer i result ∈ e.calls.events →
    i ∈ e.calls.performed ∧ i ∉ stack
  /-- no call site is open twice -/
  stack_nodup : stack.Nodup
  /-- open call sites are performed -/
  stack_performed : ∀ i ∈ stack, i ∈ e.calls.performed

/-- An action comes to a point of the story, and the execution with it. -/
def Leads (m : Machine (Storage L)) (s : Schedule) (y : Story L) (stack started : List Nat) (b : Nat)
    (pc : Nat → Nat) (e e' : Body.Effects (Storage L) Account) (count : Nat) : Prop :=
  ∃ pc', m.Told s y stack started pc' e' ∧ m.Onward s y b pc pc' e.calls e'.calls ∧ pc' b = count

variable {stack started : List Nat} {e e' : Body.Effects (Storage L) Account}

namespace Told

/-! ## Steps -/

theorem within_advance (h : m.Told s y stack started pc e) {act : Act L}
    (hact : (y.acts m b)[pc b]? = some act) (c : Nat) :
    Story.advance pc b c ≤ (y.acts m c).length := by
  by_cases hcb : c = b
  · rw [hcb, Story.advance_self]
    exact (List.getElem?_eq_some_iff.mp hact).1
  · rw [Story.advance_of_ne hcb]
    exact h.within c

theorem untouched_advance (h : m.Told s y stack started pc e)
    (hb : m.design.main.OnStage stack started b) {c : Nat} (hc : ¬ e.calls.Begun c) :
    Story.advance pc b c = 0 := by
  have hcb : c ≠ b := fun heq => hc (heq ▸ h.sound.begun hb)
  rw [Story.advance_of_ne hcb]
  exact h.untouched c hc

theorem complete_advance (h : m.Told s y stack started pc e)
    (hb : m.design.main.OnStage stack started b) {c : Nat}
    (hc : (e.calls.ledger.resultOf c).isSome = true) :
    Story.advance pc b c = (y.acts m c).length := by
  have hcb : c ≠ b := by
    rintro rfl
    rw [h.sound.resultOf_eq_none hb] at hc
    cases hc
  rw [Story.advance_of_ne hcb]
  exact h.complete c hc

/-- The body of a granted transaction starts. -/
theorem start (h : m.Told s y stack started pc e) {t : Nat}
    (ht : (m.design.main.transaction? t).isSome) (hgranted : s.granted.test t = true)
    (hnot : t ∉ started) : m.Told s y stack (started ++ [t]) pc { e with calls := e.calls.start t } where
  sound := h.sound.start t
  recorded := h.recorded
  within := h.within
  untouched := fun c hc => h.untouched c fun hbegun => hc (by simp [hbegun])
  transactions := by
    intro c hc
    rcases List.mem_append.mp hc with hc | hc
    · exact h.transactions c hc
    · rw [List.mem_singleton.mp hc]
      exact ⟨ht, hgranted⟩
  performed := by
    intro i u hu
    rw [Account.performed_start]
    exact h.performed hu
  complete := h.complete
  tells := by
    intro ev hev
    have hev : ev ∈ e.calls.events ∨ ev = .start t := by simpa using hev
    rcases hev with hev | rfl
    · exact h.tells ev hev
    · trivial
  events_nodup := by
    refine List.Nodup.append h.events_nodup (List.nodup_singleton _) ?_
    intro ev hev hstart
    rw [List.mem_singleton.mp hstart] at hev
    exact hnot (h.sound.started ▸ List.mem_filterMap.mpr ⟨_, hev, rfl⟩)
  answered := by
    intro i result hev
    rw [Account.performed_start]
    exact h.answered (by simpa using hev)
  stack_nodup := h.stack_nodup
  stack_performed := by
    intro i hi
    rw [Account.performed_start]
    exact h.stack_performed i hi

/-- An action makes a write. -/
theorem write (h : m.Told s y stack started pc e) (hb : m.design.main.OnStage stack started b)
    {w : Write L} {x : Storage L} (hact : (y.acts m b)[pc b]? = some (.write w))
    (hw : e.state.write w = .ok x) :
    m.Told s y stack started (Story.advance pc b) { e with state := x } where
  sound := h.sound
  recorded := h.recorded.write hact hw
  within := h.within_advance hact
  untouched := fun _ hc => h.untouched_advance hb hc
  transactions := h.transactions
  performed := by
    intro i u hu
    rw [h.performed hu, Story.exists_lt_advance_iff]
    refine ⟨Or.inl, ?_⟩
    rintro (hdone | ⟨-, given, hcall⟩)
    · exact hdone
    · rw [hact] at hcall
      cases hcall
  complete := fun _ hc => h.complete_advance hb hc
  tells := h.tells
  events_nodup := h.events_nodup
  answered := h.answered
  stack_nodup := h.stack_nodup
  stack_performed := h.stack_performed

/-- An action performs a call site.  What follows from it is in the new account. -/
theorem call (h : m.Told s y stack started pc e) {plan : Plan}
    (helaborated : m.design.main.Elaborated plan) {i : Nat} {u : Site (Storage L)}
    {given : Option Record} (hu : m.design.main.sites[i]? = some u)
    (hcaller : m.design.main.OnStage stack started u.caller)
    (hact : (y.acts m u.caller)[pc u.caller]? = some (.call u.callee given)) {stack' : List Nat}
    (hsound : a'.Sound m.design.main s stack' started)
    (hbegun : ∀ c, e.calls.Begun c → a'.Begun c)
    (hresult : ∀ c, a'.ledger.resultOf c = e.calls.ledger.resultOf c)
    (hfresh : i ∉ e.calls.performed)
    (hperformed : ∀ j, j ∈ a'.performed ↔ j ∈ e.calls.performed ∨ j = i)
    (new : List Event) (hevents : a'.events = e.calls.events ++ new) (hnew : new.Nodup)
    (htells : ∀ ev ∈ new, ev ∉ e.calls.events ∧ y.Tells m ev)
    (hanswered : ∀ {j result}, .answer j result ∈ new → j = i ∧ j ∉ stack') (hnodup : stack'.Nodup)
    (hopen : ∀ j ∈ stack', j = i ∨ j ∈ stack) :
    m.Told s y stack' started (Story.advance pc u.caller) { e with calls := a' } where
  sound := hsound
  recorded := h.recorded.call hact
  within := h.within_advance hact
  untouched := fun c hc => h.untouched_advance hcaller fun hbegun' => hc (hbegun c hbegun')
  transactions := h.transactions
  performed := by
    intro j v hv
    rw [hperformed, h.performed hv, Story.exists_lt_advance_iff]
    refine or_congr Iff.rfl ⟨?_, ?_⟩
    · rintro rfl
      obtain rfl : u = v := Option.some.inj (hu.symm.trans hv)
      exact ⟨rfl, given, hact⟩
    · rintro ⟨hcallers, given', hact'⟩
      rw [hact] at hact'
      obtain ⟨hcallee, -⟩ := Act.call.inj (Option.some.inj hact')
      exact helaborated.unique hv hu hcallers hcallee.symm
  complete := by
    intro c hc
    rw [hresult] at hc
    exact h.complete_advance hcaller hc
  tells := by
    intro ev hev
    rcases List.mem_append.mp (hevents ▸ hev) with hev | hev
    · exact h.tells ev hev
    · exact (htells ev hev).2
  events_nodup := by
    show a'.events.Nodup
    rw [hevents]
    exact List.Nodup.append h.events_nodup hnew fun ev hev hev' => (htells ev hev').1 hev
  answered := by
    intro j result hev
    rw [hperformed]
    rcases List.mem_append.mp (hevents ▸ hev) with hev | hev
    · obtain ⟨hdone, hclosed⟩ := h.answered hev
      refine ⟨Or.inl hdone, fun hj => ?_⟩
      rcases hopen j hj with rfl | hj
      · exact hfresh hdone
      · exact hclosed hj
    · obtain ⟨heq, hj⟩ := hanswered hev
      exact ⟨Or.inr heq, hj⟩
  stack_nodup := hnodup
  stack_performed := by
    intro j hj
    rw [hperformed]
    rcases hopen j hj with hj | hj
    · exact Or.inr hj
    · exact Or.inl (h.stack_performed j hj)

/-- The body of a method is done. -/
theorem leave {i : Nat} {u : Site (Storage L)} {plan : Plan} (h : m.Told s y (i :: stack) started pc e)
    (helaborated : m.design.main.Elaborated plan) (hu : m.design.main.sites[i]? = some u)
    (hidle : ¬ m.design.main.Busy stack u.callee.id)
    (hdone : pc u.callee.id = (y.acts m u.callee.id).length) :
    m.Told s y stack started pc
      { e with
        calls := (e.calls.leave u.callee.id (y.results u.callee.id)).answer i
          (y.results u.callee.id) } where
  sound := h.sound.leave hu hidle (Registry.lt_length_of_method? (helaborated.callee_method hu))
  recorded := h.recorded
  within := h.within
  untouched := fun c hc => h.untouched c fun hbegun => hc (by simpa using hbegun)
  transactions := h.transactions
  performed := by
    intro j v hv
    rw [Account.performed_answer, Account.performed_leave]
    exact h.performed hv
  complete := by
    intro c hc
    have hlt : u.callee.id < e.calls.ledger.results.length := by
      rw [h.sound.results_length]
      exact Registry.lt_length_of_method? (helaborated.callee_method hu)
    have hc : ((e.calls.ledger.finish u.callee.id (y.results u.callee.id)).resultOf c).isSome = true :=
      hc
    rw [Ledger.resultOf_finish hlt] at hc
    split at hc
    · rename_i heq
      rw [← heq]
      exact hdone
    · exact h.complete c hc
  tells := by
    intro ev hev
    have hev : ev ∈ e.calls.events ∨ ev = .leave u.callee.id (y.results u.callee.id) ∨
        ev = .answer i (y.results u.callee.id) := by simpa using hev
    rcases hev with hev | rfl | rfl
    · exact h.tells ev hev
    · exact rfl
    · exact ⟨u, hu, rfl⟩
  events_nodup := by
    have hnone : e.calls.ledger.resultOf u.callee.id = none :=
      h.sound.resultOf_eq_none (Registry.onStage_callee hu started)
    simp only [Account.events_answer, Account.events_leave, List.append_assoc]
    refine List.Nodup.append h.events_nodup (by simp) ?_
    intro ev hev hnew
    rcases List.mem_cons.mp hnew with rfl | hnew
    · rw [(h.sound.left _ _).mp hev] at hnone
      cases hnone
    · rw [List.mem_singleton.mp hnew] at hev
      exact (h.answered hev).2 List.mem_cons_self
  answered := by
    intro j result hev
    rw [Account.performed_answer, Account.performed_leave]
    have hev : .answer j result ∈ e.calls.events ∨
        (j = i ∧ result = y.results u.callee.id) := by simpa using hev
    rcases hev with hev | ⟨rfl, -⟩
    · obtain ⟨hdone, hclosed⟩ := h.answered hev
      exact ⟨hdone, fun hj => hclosed (List.mem_cons_of_mem _ hj)⟩
    · exact ⟨h.stack_performed j List.mem_cons_self, (List.nodup_cons.mp h.stack_nodup).1⟩
  stack_nodup := (List.nodup_cons.mp h.stack_nodup).2
  stack_performed := by
    intro j hj
    rw [Account.performed_answer, Account.performed_leave]
    exact h.stack_performed j (List.mem_cons_of_mem _ hj)

/-- A method that is neither done nor running has not begun. -/
theorem not_begun (h : m.Told s y stack started pc e) {x : Nat}
    (hx : (m.design.main.method? x).isSome) (hresult : e.calls.ledger.resultOf x = none)
    (hidle : ¬ m.design.main.Busy stack x) : ¬ e.calls.Begun x := by
  rintro (hstarted | hentered)
  · rw [h.sound.started] at hstarted
    have htransaction := (h.transactions x hstarted).1
    rw [Registry.transaction?_eq_none hx] at htransaction
    cases htransaction
  · rcases (h.sound.entered x).mp hentered with hdone | hbusy
    · rw [hresult] at hdone
      cases hdone
    · exact hidle hbusy

/-- What has begun is granted. -/
theorem granted (h : m.Told s y stack started pc e) (hcallee : ∀ {i : Nat} {u : Site (Storage L)},
    m.design.main.sites[i]? = some u → s.grantedSites.test i = true →
      s.granted.test u.callee.id = true) (hb : e.calls.Begun b) : s.granted.test b = true := by
  rcases hb with hstarted | hentered
  · rw [h.sound.started] at hstarted
    exact (h.transactions b hstarted).2
  · obtain ⟨args, hargs⟩ := Account.mem_entered.mp hentered
    obtain ⟨i, u, given, -, -, hperform, hu, rfl, -⟩ := h.sound.driven b args hargs
    exact hcallee hu (h.sound.granted i (Account.mem_performed.mpr ⟨given, hperform⟩))

/-- A transaction begins when it starts. -/
theorem not_begun_transaction (h : m.Told s y stack started pc e) {t : Nat}
    (ht : (m.design.main.transaction? t).isSome) (hnot : t ∉ started) : ¬ e.calls.Begun t := by
  rintro (hstarted | hentered)
  · rw [h.sound.started] at hstarted
    exact hnot hstarted
  · have hsome := h.sound.method_of_entered hentered
    rw [Registry.method?_eq_none ht] at hsome
    cases hsome

/-- A transaction that is about to start has everything before it. -/
theorem ready (h : m.Told s y stack started pc e) {t : Nat}
    (ht : (m.design.main.transaction? t).isSome) (hnot : t ∉ started) :
    m.design.main.OnStage stack (started ++ [t]) t ∧ pc t = 0 ∧
      (y.acts m t).drop (pc t) = (y.programs.transaction t).acts y.seen y.results := by
  have hmethod := Registry.method?_eq_none ht
  have hzero := h.untouched t (h.not_begun_transaction ht hnot)
  refine ⟨Or.inr ⟨List.mem_append_right _ List.mem_cons_self, hmethod⟩, hzero, ?_⟩
  rw [hzero, List.drop_zero]
  exact if_neg (by simp [hmethod])

/-- An action with no act left has done all of them. -/
theorem eq_length (h : m.Told s y stack started pc e) (hdrop : (y.acts m b).drop (pc b) = []) :
    pc b = (y.acts m b).length :=
  Nat.le_antisymm (h.within b) (List.drop_eq_nil_iff.mp hdrop)

/-- A call that fits the story and whose call site was not performed goes through. -/
theorem allows (h : m.Told s y stack started pc e) {i : Nat} {u : Site (Storage L)}
    {target : Method (Storage L)} {given : Option Record} {passed : Record}
    (hact : (y.acts m u.caller)[pc u.caller]? = some (.call u.callee given))
    (hfits : y.Fits m s i u target given passed)
    (hfresh : e.calls.ledger.performed.test i = false) : y.Allows m s u.caller (pc u.caller) := by
  intro callee given' hact'
  rw [hact] at hact'
  obtain ⟨rfl, rfl⟩ := Act.call.inj (Option.some.inj hact')
  refine ⟨⟨i, u, target, passed, rfl, rfl, hfits⟩, fun k hk other hother => ?_⟩
  have hdone := (h.performed hfits.site).mpr ⟨k, other, hk, hother⟩
  rw [(h.sound.performed i).mpr hdone] at hfresh
  cases hfresh

end Told

/-! ## Calls -/

/-- The next act of an action is a call through a granted call site that was not performed yet. -/
structure Due (m : Machine (Storage L)) (s : Schedule) (y : Story L) (stack started : List Nat)
    (pc : Nat → Nat) (a : Account) (i : Nat) (u : Site (Storage L)) (given : Option Record) : Prop where
  /-- the call site is there -/
  site : m.design.main.sites[i]? = some u
  /-- its caller is under way -/
  caller : m.design.main.OnStage stack started u.caller
  /-- the call is what the caller does next -/
  act : (y.acts m u.caller)[pc u.caller]? = some (.call u.callee given)
  /-- the call site is granted -/
  granted : s.grantedSites.test i = true
  /-- it was not performed -/
  fresh : a.ledger.performed.test i = false
  /-- the call fits the story -/
  allows : y.Allows m s u.caller (pc u.caller)

namespace Due

variable {plan : Plan} {i : Nat} {u : Site (Storage L)} {given : Option Record}

theorem not_performed (hd : m.Due s y stack started pc e.calls i u given)
    (h : m.Told s y stack started pc e) : i ∉ e.calls.performed := by
  intro hi
  have hfresh := hd.fresh
  rw [(h.sound.performed i).mpr hi] at hfresh
  cases hfresh

theorem perform_not_mem (hd : m.Due s y stack started pc e.calls i u given)
    (h : m.Told s y stack started pc e) : .perform i given ∉ e.calls.events := fun hmem =>
  hd.not_performed h (Account.mem_performed.mpr ⟨given, hmem⟩)

/-- A call that finds a result. -/
theorem again (hd : m.Due s y stack started pc e.calls i u given)
    (h : m.Told s y stack started pc e) (helaborated : m.design.main.Elaborated plan)
    (hresult : e.calls.ledger.resultOf u.callee.id = some (y.results u.callee.id)) :
    m.Leads s y stack started u.caller pc e
      { e with calls := (e.calls.perform i given).answer i (y.results u.callee.id) }
      (pc u.caller + 1) := by
  have hclosed : i ∉ stack := fun hi => hd.not_performed h (h.stack_performed i hi)
  refine ⟨Story.advance pc u.caller, ?_, ?_, Story.advance_self _ _⟩
  · refine h.call helaborated hd.site hd.caller hd.act
      (h.sound.reuse hd.site hd.granted hd.fresh hresult) (fun c hc => by simpa using hc)
      (fun _ => rfl) (hd.not_performed h) (fun j => by simp)
      [.perform i given, .answer i (y.results u.callee.id)] (by simp) (by simp) ?_ ?_ h.stack_nodup
      fun j hj => Or.inr hj
    · intro ev hev
      rcases List.mem_cons.mp hev with rfl | hev
      · exact ⟨hd.perform_not_mem h, u, _, hd.site, hd.act⟩
      · rw [List.mem_singleton.mp hev]
        exact ⟨fun hmem => hd.not_performed h (h.answered hmem).1, u, hd.site, rfl⟩
    · intro j result hj
      obtain ⟨rfl, -⟩ : j = i ∧ result = y.results u.callee.id := by simpa using hj
      exact ⟨rfl, hclosed⟩
  · exact Onward.advance hd.allows (fun c hc => by simpa using hc) (by simp)

/-- The first call of a method starts its body. -/
theorem enter (hd : m.Due s y stack started pc e.calls i u given)
    (h : m.Told s y stack started pc e) (helaborated : m.design.main.Elaborated plan)
    {target : Method (Storage L)} {passed : Record}
    (htarget : m.design.main.method? u.callee.id = some target)
    (hpasses : u.Passes s i target given passed)
    (hdriven : drivingArguments s u.callee.id target i passed = y.args u.callee.id)
    (hresult : e.calls.ledger.resultOf u.callee.id = none)
    (hidle : ¬ m.design.main.Busy stack u.callee.id) :
    m.Told s y (i :: stack) started (Story.advance pc u.caller)
      { e with calls := (e.calls.perform i given).enter u.callee.id (y.args u.callee.id) } := by
  have hsound := h.sound.enter hd.site hd.granted hd.fresh htarget hpasses hresult hidle
  rw [hdriven] at hsound
  refine h.call helaborated hd.site hd.caller hd.act hsound (fun c hc => by simp [hc])
    (fun _ => rfl) (hd.not_performed h) (fun j => by simp)
    [.perform i given, .enter u.callee.id (y.args u.callee.id)] (by simp) (by simp) ?_ (by simp) ?_ ?_
  · intro ev hev
    rcases List.mem_cons.mp hev with rfl | hev
    · exact ⟨hd.perform_not_mem h, u, _, hd.site, hd.act⟩
    · rw [List.mem_singleton.mp hev]
      refine ⟨fun hmem => ?_, rfl⟩
      have hsome : (m.design.main.method? u.callee.id).isSome := by rw [htarget]; rfl
      exact h.not_begun hsome hresult hidle (Or.inr (Account.mem_entered.mpr ⟨_, hmem⟩))
  · exact List.nodup_cons.mpr
      ⟨fun hi => hd.not_performed h (h.stack_performed i hi), h.stack_nodup⟩
  · intro j hj
    exact List.mem_cons.mp hj

/-- It has done nothing yet. -/
theorem drop_acts (hd : m.Due s y stack started pc e.calls i u given)
    (h : m.Told s y stack started pc e) (hsome : (m.design.main.method? u.callee.id).isSome)
    (hresult : e.calls.ledger.resultOf u.callee.id = none)
    (hidle : ¬ m.design.main.Busy stack u.callee.id) :
    Story.advance pc u.caller u.callee.id = 0 ∧
      (y.acts m u.callee.id).drop (Story.advance pc u.caller u.callee.id) =
        (y.programs.method u.callee.id (y.args u.callee.id)).acts y.seen y.results := by
  have hnot := h.not_begun hsome hresult hidle
  have hne : u.callee.id ≠ u.caller := by
    intro heq
    rw [heq] at hnot
    exact hnot (h.sound.begun hd.caller)
  have hzero : Story.advance pc u.caller u.callee.id = 0 := by
    rw [Story.advance_of_ne hne]
    exact h.untouched _ hnot
  refine ⟨hzero, ?_⟩
  rw [hzero, List.drop_zero]
  exact if_pos hsome

/-- When the body of the callee is done, the caller goes on. -/
theorem leave (hd : m.Due s y stack started pc e.calls i u given)
    (h : m.Told s y stack started pc e) (helaborated : m.design.main.Elaborated plan)
    {target : Method (Storage L)} (htarget : m.design.main.method? u.callee.id = some target)
    (hresult : e.calls.ledger.resultOf u.callee.id = none)
    (hidle : ¬ m.design.main.Busy stack u.callee.id) (hplays : y.Plays m s u.callee.id target)
    (hinside : m.Leads s y (i :: stack) started u.callee.id (Story.advance pc u.caller)
      { e with calls := (e.calls.perform i given).enter u.callee.id (y.args u.callee.id) } e'
      (y.acts m u.callee.id).length) :
    m.Leads s y stack started u.caller pc e
      { e' with
        calls := (e'.calls.leave u.callee.id (y.results u.callee.id)).answer i
          (y.results u.callee.id) }
      (pc u.caller + 1) := by
  obtain ⟨pc', htold, honward, hdone⟩ := hinside
  have hsome : (m.design.main.method? u.callee.id).isSome := by rw [htarget]; rfl
  have hnot := h.not_begun hsome hresult hidle
  have hne : ∀ {c}, e.calls.Begun c → c ≠ u.callee.id := fun hc heq => hnot (heq ▸ hc)
  have hbegun : ∀ {c}, e.calls.Begun c →
      ((e.calls.perform i given).enter u.callee.id (y.args u.callee.id)).Begun c :=
    fun hc => by simp [hc]
  have hcaller := h.sound.begun hd.caller
  have hown : pc' u.caller = pc u.caller + 1 := by
    rw [honward.frame u.caller (hbegun hcaller) (hne hcaller), Story.advance_self]
  refine ⟨pc', htold.leave helaborated hd.site hidle hdone, ?_, hown⟩
  refine ⟨fun c hc => ?_, fun c hc hcc => ?_, by omega, fun k hle hlt => ?_, fun c hc hnew => ?_⟩
  · simpa using honward.begun c (hbegun hc)
  · rw [honward.frame c (hbegun hc) (hne hc), Story.advance_of_ne hcc]
  · obtain rfl : k = pc u.caller := by omega
    exact hd.allows
  · by_cases hcx : c = u.callee.id
    · rw [hcx]
      exact ⟨target, htarget, hplays⟩
    · refine honward.plays c (by simpa using hc) ?_
      simp [hnew, hcx]

end Due

end Machine

end GuardedActions
