import GuardedActions.Proofs.Execution.Account
import GuardedActions.Proofs.Execution.Cooperation
import GuardedActions.Proofs.Execution.Storage

/-!
# Stories

A story says with which arguments the methods of a cycle run and what they return.  Bodies that only read
committed values do the same in every execution that the story tells: they are known to have done so far
as many of their acts as a counter for every action says, whatever the order in which actions took turns.
-/

set_option autoImplicit false

namespace GuardedActions

variable {L : Layout}

/-! ## What programs do -/

/-- Something a program does that others can tell. -/
inductive Act (L : Layout) where
  /-- make a write -/
  | write (w : Write L)
  /-- call a method -/
  | call (callee : ActionRef) (given : Option Record)

/-- The write that an act makes. -/
def Act.write? : Act L → Option (Write L)
  | .write w => some w
  | .call _ _ => none

namespace Program

variable {α : Type}

/-- What a program does if it sees the given values and its calls have the given results. -/
def acts (seen : Committed L) (results : Nat → Record) : Program L α → List (Act L)
  | .done _ => []
  | .fail _ => []
  | .look next => (next seen).acts seen results
  | .write w next => .write w :: next.acts seen results
  | .note _ next => next.acts seen results
  | .report _ next => next.acts seen results
  | .call callee given next => .call callee given :: (next (results callee.id)).acts seen results

/-- What it returns then, if it does not stop the simulation. -/
def outcome (seen : Committed L) (results : Nat → Record) : Program L α → Option α
  | .done result => some result
  | .fail _ => none
  | .look next => (next seen).outcome seen results
  | .write _ next => next.outcome seen results
  | .note _ next => next.outcome seen results
  | .report _ next => next.outcome seen results
  | .call callee _ next => (next (results callee.id)).outcome seen results

theorem onlyPerforms_body [DecidableEq L.Name] [DecidableEq L.Table] (p : Program L α) :
    p.body.OnlyPerforms := by
  induction p with
  | done result => trivial
  | fail fault => trivial
  | look next ih => exact fun view => ih _
  | write w next ih =>
    intro view
    dsimp only
    split
    · exact ih
    · trivial
  | note text next ih => exact ih
  | report entry next ih => exact ih
  | call callee given next ih => exact ih

end Program

/-- A program for every action. -/
structure Programs (L : Layout) where
  /-- programs of methods, for all arguments -/
  method : Nat → Record → Program L Record
  /-- programs of transactions -/
  transaction : Nat → Program L Unit

/-- The bodies of a registry are the given programs. -/
structure Registry.Runs [DecidableEq L.Name] [DecidableEq L.Table] (r : Registry (Storage L))
    (ps : Programs L) : Prop where
  /-- bodies of methods -/
  method : ∀ {id : Nat} {x : Method (Storage L)} {body : Record → ActionBody (Storage L) Record},
    r.method? id = some x → x.body = some body → ∀ args, body args = (ps.method id args).body
  /-- bodies of transactions -/
  transaction : ∀ {id : Nat} {t : Transaction (Storage L)} {body : ActionBody (Storage L) Unit},
    r.transaction? id = some t → t.body = some body → body = (ps.transaction id).body

theorem Registry.Runs.onlyPerforms [DecidableEq L.Name] [DecidableEq L.Table]
    {r : Registry (Storage L)} {ps : Programs L} (h : r.Runs ps) : r.OnlyPerforms where
  method := by
    intro id x body hx hbody args
    rw [h.method hx hbody]
    exact Program.onlyPerforms_body _
  transaction := by
    intro id t body ht hbody
    rw [h.transaction ht hbody]
    exact Program.onlyPerforms_body _

/-! ## Stories -/

/-- What happens in a cycle. -/
structure Story (L : Layout) where
  /-- what actions run -/
  programs : Programs L
  /-- what they see -/
  seen : Committed L
  /-- the arguments that methods run with -/
  args : Nat → Record
  /-- the results that methods return -/
  results : Nat → Record

namespace Story

/-- What an action does. -/
def acts (y : Story L) (m : Machine (Storage L)) (action : Nat) : List (Act L) :=
  if (m.design.main.method? action).isSome then
    (y.programs.method action (y.args action)).acts y.seen y.results
  else (y.programs.transaction action).acts y.seen y.results

/-- The write that an action makes with an act. -/
def writeAt (y : Story L) (m : Machine (Storage L)) (p : Nat × Nat) : Option (Write L) :=
  (y.acts m p.1)[p.2]?.bind Act.write?

/-- The writes among the acts of a log. -/
def writes (y : Story L) (m : Machine (Storage L)) (log : List (Nat × Nat)) : List (Write L) :=
  log.filterMap (y.writeAt m)

/-- An event is part of the story. -/
def Tells (y : Story L) (m : Machine (Storage L)) : Event → Prop
  | .start _ => True
  | .perform i given => ∃ (u : Site (Storage L)) (k : Nat), m.design.main.sites[i]? = some u ∧
      (y.acts m u.caller)[k]? = some (.call u.callee given)
  | .enter x args => args = y.args x
  | .leave x result => result = y.results x
  | .answer i result => ∃ u : Site (Storage L), m.design.main.sites[i]? = some u ∧
      result = y.results u.callee.id

/-- A call through a granted call site whose callee, if it runs for this call, runs with the arguments of
the story. -/
structure Fits (y : Story L) (m : Machine (Storage L)) (s : Schedule) (i : Nat)
    (u : Site (Storage L)) (target : Method (Storage L)) (given : Option Record) (passed : Record) :
    Prop where
  /-- it is the call site of its caller and callee -/
  found : m.design.main.findSite? u.caller u.callee = some (i, u)
  /-- it is granted -/
  granted : s.grantedSites.test i = true
  /-- the callee is there -/
  known : m.design.method? u.callee = some target
  /-- it passes something -/
  passes : m.passedArguments s u.caller u.callee target i u given = .ok passed
  /-- the callee runs with the arguments of the story -/
  driven : Machine.drivingArguments s u.callee.id target i passed = y.args u.callee.id

theorem Fits.site {y : Story L} {m : Machine (Storage L)} {s : Schedule} {i : Nat}
    {u : Site (Storage L)} {target : Method (Storage L)} {given : Option Record} {passed : Record}
    (h : y.Fits m s i u target given passed) : m.design.main.sites[i]? = some u :=
  (Registry.findSite?_eq_some h.found).1

/-- An act of an action goes through: if it is a call, it fits, and it is the first one to its callee. -/
def Allows (y : Story L) (m : Machine (Storage L)) (s : Schedule) (action k : Nat) : Prop :=
  ∀ {callee : ActionRef} {given : Option Record},
    (y.acts m action)[k]? = some (.call callee given) →
    (∃ (i : Nat) (u : Site (Storage L)) (target : Method (Storage L)) (passed : Record),
      u.caller = action ∧ u.callee = callee ∧ y.Fits m s i u target given passed) ∧
    ∀ k' < k, ∀ other, (y.acts m action)[k']? ≠ some (.call callee other)

theorem allows_of_length_le {y : Story L} {m : Machine (Storage L)} {s : Schedule} {action k : Nat}
    (h : (y.acts m action).length ≤ k) : y.Allows m s action k := by
  intro callee given hact
  rw [List.getElem?_eq_none h] at hact
  cases hact

/-- A method plays its part: it may run, all its acts go through, and it returns what the story says. -/
structure Plays (y : Story L) (m : Machine (Storage L)) (s : Schedule) (x : Nat)
    (target : Method (Storage L)) : Prop where
  /-- it passes the checks -/
  checked : m.checkRun (m.design.main.nameOf x) target (y.args x) m.state = .ok ()
  /-- its acts go through -/
  allows : ∀ k, y.Allows m s x k
  /-- it returns -/
  outcome : (y.programs.method x (y.args x)).outcome y.seen y.results = some (y.results x)
  /-- the result has the output shape -/
  shape : (y.results x).shape = target.output

/-- A transaction plays its part. -/
structure Carries (y : Story L) (m : Machine (Storage L)) (s : Schedule) (t : Nat) : Prop where
  /-- its acts go through -/
  allows : ∀ k, y.Allows m s t k
  /-- it comes to its end -/
  outcome : (y.programs.transaction t).outcome y.seen y.results = some ()

/-! ## How far a story has come -/

/-- An action has done one more act. -/
def advance (pc : Nat → Nat) (action : Nat) : Nat → Nat :=
  Function.update pc action (pc action + 1)

@[simp] theorem advance_self (pc : Nat → Nat) (action : Nat) :
    advance pc action action = pc action + 1 := Function.update_self ..

theorem advance_of_ne {pc : Nat → Nat} {action b : Nat} (h : b ≠ action) :
    advance pc action b = pc b := Function.update_of_ne h ..

theorem lt_advance_iff {pc : Nat → Nat} {action b k : Nat} :
    k < advance pc action b ↔ k < pc b ∨ (b = action ∧ k = pc action) := by
  by_cases h : b = action
  · subst h
    rw [advance_self]
    omega
  · rw [advance_of_ne h]
    simp [h]

variable {y : Story L} {m : Machine (Storage L)}

/-- The acts that an action has done after one more. -/
theorem exists_lt_advance_iff {pc : Nat → Nat} {action b : Nat} {callee : ActionRef} :
    (∃ (k : Nat) (given : Option Record), k < advance pc action b ∧
      (y.acts m b)[k]? = some (.call callee given)) ↔
    (∃ (k : Nat) (given : Option Record), k < pc b ∧
      (y.acts m b)[k]? = some (.call callee given)) ∨
    (b = action ∧ ∃ given, (y.acts m action)[pc action]? = some (.call callee given)) := by
  constructor
  · rintro ⟨k, given, hk, hact⟩
    rcases lt_advance_iff.mp hk with hk | ⟨rfl, rfl⟩
    · exact Or.inl ⟨k, given, hk, hact⟩
    · exact Or.inr ⟨rfl, given, hact⟩
  · rintro (⟨k, given, hk, hact⟩ | ⟨rfl, given, hact⟩)
    · exact ⟨k, given, lt_advance_iff.mpr (Or.inl hk), hact⟩
    · exact ⟨pc b, given, lt_advance_iff.mpr (Or.inr ⟨rfl, rfl⟩), hact⟩

theorem writes_append (log log' : List (Nat × Nat)) :
    y.writes m (log ++ log') = y.writes m log ++ y.writes m log' := List.filterMap_append ..

theorem writes_of_write {action k : Nat} {w : Write L}
    (hact : (y.acts m action)[k]? = some (.write w)) : y.writes m [(action, k)] = [w] := by
  refine List.filterMap_cons_some ?_
  unfold writeAt
  rw [hact]
  rfl

theorem writes_of_call {action k : Nat} {callee : ActionRef} {given : Option Record}
    (hact : (y.acts m action)[k]? = some (.call callee given)) : y.writes m [(action, k)] = [] := by
  refine List.filterMap_cons_none ?_
  unfold writeAt
  rw [hact]
  rfl

variable [DecidableEq L.Name] [DecidableEq L.Table]

/-- A state comes from the start of the cycle by the writes among the acts done so far, in some order. -/
def Recorded (y : Story L) (m : Machine (Storage L)) (pc : Nat → Nat) (x : Storage L) : Prop :=
  ∃ log : List (Nat × Nat), log.Nodup ∧ (∀ b k, (b, k) ∈ log ↔ k < pc b) ∧
    m.state.writeAll (y.writes m log) = .ok x

namespace Recorded

variable {pc pc' : Nat → Nat} {x x' : Storage L}

theorem start (y : Story L) (m : Machine (Storage L)) : y.Recorded m (fun _ => 0) m.state := by
  refine ⟨[], List.nodup_nil, ?_, rfl⟩
  simp

/-- The log with one more act. -/
theorem mem_append_iff {log : List (Nat × Nat)} {action b k : Nat}
    (hlog : ∀ b k, (b, k) ∈ log ↔ k < pc b) :
    (b, k) ∈ log ++ [(action, pc action)] ↔ k < advance pc action b := by
  rw [List.mem_append, List.mem_singleton, hlog, lt_advance_iff, Prod.mk.injEq]

theorem nodup_append {log : List (Nat × Nat)} (action : Nat) (hnodup : log.Nodup)
    (hlog : ∀ b k, (b, k) ∈ log ↔ k < pc b) : (log ++ [(action, pc action)]).Nodup := by
  refine List.Nodup.append hnodup (List.nodup_singleton _) ?_
  intro p hp hpa
  rw [List.mem_singleton.mp hpa] at hp
  exact Nat.lt_irrefl _ ((hlog _ _).mp hp)

theorem write (h : y.Recorded m pc x) {action : Nat} {w : Write L}
    (hact : (y.acts m action)[pc action]? = some (.write w)) (hw : x.write w = .ok x') :
    y.Recorded m (advance pc action) x' := by
  obtain ⟨log, hnodup, hlog, hwrites⟩ := h
  refine ⟨log ++ [(action, pc action)], nodup_append action hnodup hlog,
    fun b k => mem_append_iff hlog, ?_⟩
  rw [writes_append, writes_of_write hact, Storage.writeAll_append]
  exact ⟨x, hwrites, Storage.writeAll_singleton.mpr hw⟩

theorem call (h : y.Recorded m pc x) {action : Nat} {callee : ActionRef} {given : Option Record}
    (hact : (y.acts m action)[pc action]? = some (.call callee given)) :
    y.Recorded m (advance pc action) x := by
  obtain ⟨log, hnodup, hlog, hwrites⟩ := h
  refine ⟨log ++ [(action, pc action)], nodup_append action hnodup hlog,
    fun b k => mem_append_iff hlog, ?_⟩
  rw [writes_append, writes_of_call hact, List.append_nil]
  exact hwrites

theorem committed_eq (h : y.Recorded m pc x) : x.committed = m.state.committed := by
  obtain ⟨log, -, -, hwrites⟩ := h
  exact Storage.committed_of_writeAll hwrites

/-- Where the same acts were done, the states are the same. -/
theorem same (h : y.Recorded m pc x) (h' : y.Recorded m pc x') : x.Same x' := by
  obtain ⟨log, hnodup, hlog, hwrites⟩ := h
  obtain ⟨log', hnodup', hlog', hwrites'⟩ := h'
  have hperm : log.Perm log' := by
    refine (List.perm_ext_iff_of_nodup hnodup hnodup').mpr fun p => ?_
    rw [hlog p.1 p.2, hlog' p.1 p.2]
  obtain ⟨x'', hx'', hsame⟩ := Storage.writeAll_perm (hperm.filterMap _) hwrites
  obtain rfl := Except.ok.inj (hwrites'.symm.trans hx'')
  exact hsame

/-- A write that is part of acts which can all be done can be made. -/
theorem exists_write (h : y.Recorded m pc x) (h' : y.Recorded m pc' x') (hle : ∀ b, pc b ≤ pc' b)
    {action : Nat} {w : Write L} (hact : (y.acts m action)[pc action]? = some (.write w))
    (hlt : pc action < pc' action) : ∃ x₁, x.write w = .ok x₁ := by
  obtain ⟨log, hnodup, hlog, hwrites⟩ := h
  obtain ⟨log', -, hlog', hwrites'⟩ := h'
  have hsub : log ++ [(action, pc action)] ⊆ log' := by
    intro p hp
    rcases lt_advance_iff.mp ((mem_append_iff hlog).mp hp) with hk | ⟨hb, hk⟩
    · exact (hlog' p.1 p.2).mpr (Nat.lt_of_lt_of_le hk (hle p.1))
    · refine (hlog' p.1 p.2).mpr ?_
      rw [hb, hk]
      exact hlt
  obtain ⟨part, hpart, hsublist⟩ := (nodup_append action hnodup hlog).subperm hsub
  obtain ⟨rest, hrest⟩ := hsublist.exists_perm_append
  have hperm := hrest.trans (hpart.append_right rest)
  obtain ⟨z, hz, -⟩ := Storage.writeAll_perm (hperm.filterMap (y.writeAt m)) hwrites'
  change m.state.writeAll (y.writes m (log ++ [(action, pc action)] ++ rest)) = .ok z at hz
  rw [writes_append, writes_append, writes_of_write hact, Storage.writeAll_append] at hz
  obtain ⟨x₁, hx₁, -⟩ := hz
  obtain ⟨x₀, hx₀, hlast⟩ := Storage.writeAll_append.mp hx₁
  obtain rfl := Except.ok.inj (hwrites.symm.trans hx₀)
  exact ⟨x₁, Storage.writeAll_singleton.mp hlast⟩

end Recorded

end Story

end GuardedActions
