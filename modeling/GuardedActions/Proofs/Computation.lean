import GuardedActions.Fault

/-!
# Computations that may fault

How a computation that succeeded got there: what its parts returned, and what a fold over a list
keeps from step to step.
-/

set_option autoImplicit false

namespace GuardedActions

section Except

variable {ε α β : Type}

theorem bind_eq_ok {x : Except ε α} {f : α → Except ε β} {b : β} :
    (x >>= f) = .ok b ↔ ∃ a, x = .ok a ∧ f a = .ok b := by
  cases x with
  | error e => simp [bind, Except.bind]
  | ok a => simp [bind, Except.bind]

@[simp] theorem ok_bind (a : α) (f : α → Except ε β) : (Except.ok a >>= f) = f a := rfl

theorem map_eq_ok {x : Except ε α} {f : α → β} {b : β} :
    x.map f = .ok b ↔ ∃ a, x = .ok a ∧ f a = b := by
  cases x with
  | error e => simp [Except.map]
  | ok a => simp [Except.map]

/-- Two computations whose parts agree up to a change of their results agree up to that change. -/
theorem map_bind_congr {α' β' : Type} {x : Except ε α} {x' : Except ε α'} {g : α → α'}
    {f : α → Except ε β} {f' : α' → Except ε β'} {h : β → β'} (hx : x.map g = x')
    (hf : ∀ a, (f a).map h = f' (g a)) : (x >>= f).map h = (x' >>= f') := by
  cases x with
  | error e =>
    obtain rfl := hx
    rfl
  | ok a =>
    obtain rfl := hx
    exact hf a

theorem map_id_eq (x : Except ε α) : x.map id = x := by
  cases x with
  | error e => rfl
  | ok a => rfl

/-- A fold over a list with a first element took its first step and went on from there. -/
theorem foldlM_cons_eq_ok {f : β → α → Except ε β} {a : α} {l : List α} {b c : β} :
    (a :: l).foldlM f b = .ok c ↔ ∃ b', f b a = .ok b' ∧ l.foldlM f b' = .ok c := by
  rw [List.foldlM_cons]
  exact bind_eq_ok

theorem foldlM_nil_eq_ok {f : β → α → Except ε β} {b c : β} :
    ([] : List α).foldlM f b = .ok c ↔ b = c := by
  rw [List.foldlM_nil]
  exact ⟨fun h => Except.ok.inj h, fun h => h ▸ rfl⟩

/-- What every step keeps, the whole fold keeps. -/
theorem foldlM_induction {f : β → α → Except ε β} {P : β → Prop} {l : List α}
    (step : ∀ a ∈ l, ∀ b b', P b → f b a = .ok b' → P b') {b c : β} (start : P b)
    (run : l.foldlM f b = .ok c) : P c := by
  induction l generalizing b with
  | nil => exact foldlM_nil_eq_ok.mp run ▸ start
  | cons a l ih =>
    obtain ⟨b', hb', hc⟩ := foldlM_cons_eq_ok.mp run
    exact ih (fun a' ha' => step a' (List.mem_cons_of_mem _ ha'))
      (step a List.mem_cons_self b b' start hb') hc

/-- What the step of an element brings about and later steps keep holds in the end of every
element. -/
theorem foldlM_forall {f : β → α → Except ε β} {P : β → Prop} {Q : α → β → Prop} {l : List α}
    (step : ∀ a ∈ l, ∀ b b', P b → f b a = .ok b' → P b' ∧ Q a b')
    (stable : ∀ a ∈ l, ∀ b b', P b → f b a = .ok b' → ∀ a', Q a' b → Q a' b') {b c : β}
    (start : P b) (run : l.foldlM f b = .ok c) : P c ∧ ∀ a ∈ l, Q a c := by
  induction l generalizing b with
  | nil =>
    obtain rfl := foldlM_nil_eq_ok.mp run
    exact ⟨start, by simp⟩
  | cons a l ih =>
    obtain ⟨b', hb', hc⟩ := foldlM_cons_eq_ok.mp run
    obtain ⟨hP, hQ⟩ := step a List.mem_cons_self b b' start hb'
    have hrest := ih (fun a' ha' => step a' (List.mem_cons_of_mem _ ha'))
      (fun a' ha' => stable a' (List.mem_cons_of_mem _ ha')) hP hc
    have hkept : Q a c := by
      have hkeep : P c ∧ Q a c := by
        refine foldlM_induction (P := fun x => P x ∧ Q a x) ?_ ⟨hP, hQ⟩ hc
        intro x hx y y' hy hstep
        exact ⟨(step x (List.mem_cons_of_mem _ hx) y y' hy.1 hstep).1,
          stable x (List.mem_cons_of_mem _ hx) y y' hy.1 hstep a hy.2⟩
      exact hkeep.2
    refine ⟨hrest.1, ?_⟩
    intro x hx
    rcases List.mem_cons.mp hx with rfl | hx
    · exact hkept
    · exact hrest.2 x hx

/-- A fold succeeds if its next step does wherever the steps before it lead. -/
theorem exists_foldlM {f : β → α → Except ε β} {l : List α} {b : β} (P : List α → β → Prop)
    (start : P [] b)
    (step : ∀ before a after b', l = before ++ a :: after → before.foldlM f b = .ok b' →
      P before b' → ∃ c, f b' a = .ok c ∧ P (before ++ [a]) c) :
    ∃ c, l.foldlM f b = .ok c ∧ P l c := by
  have hfrom : ∀ after before b', l = before ++ after → before.foldlM f b = .ok b' →
      P before b' → ∃ c, l.foldlM f b = .ok c ∧ P l c := by
    intro after
    induction after with
    | nil =>
      intro before b' hl hrun hP
      rw [List.append_nil] at hl
      rw [hl]
      exact ⟨b', hrun, hP⟩
    | cons a after ih =>
      intro before b' hl hrun hP
      obtain ⟨c, hc, hPc⟩ := step before a after b' hl hrun hP
      refine ih (before ++ [a]) c ?_ ?_ hPc
      · rw [hl, List.append_assoc]
        rfl
      · rw [List.foldlM_append, hrun, ok_bind, List.foldlM_cons, hc]
        rfl
  exact hfrom l [] b rfl rfl start

/-- What a fold keeps while it goes through a list, in terms of what it has gone through. -/
theorem foldlM_prefix {f : β → α → Except ε β} (P : List α → β → Prop) {l : List α} {b c : β}
    (start : P [] b)
    (step : ∀ before a after b' c', l = before ++ a :: after → P before b' → f b' a = .ok c' →
      P (before ++ [a]) c')
    (run : l.foldlM f b = .ok c) : P l c := by
  have hfrom : ∀ after before b', l = before ++ after → P before b' → after.foldlM f b' = .ok c →
      P l c := by
    intro after
    induction after with
    | nil =>
      intro before b' hl hP hrun
      rw [List.append_nil] at hl
      obtain rfl := foldlM_nil_eq_ok.mp hrun
      rw [hl]
      exact hP
    | cons a after ih =>
      intro before b' hl hP hrun
      obtain ⟨c', hc', hrest⟩ := foldlM_cons_eq_ok.mp hrun
      refine ih (before ++ [a]) c' ?_ (step before a after b' c' hl hP hc') hrest
      rw [hl, List.append_assoc]
      rfl
  exact hfrom l [] b rfl start run

/-- A fold that fails does so at one of its steps. -/
theorem exists_of_foldlM_eq_error {f : β → α → Except ε β} {l : List α} {b : β} {e : ε}
    (h : l.foldlM f b = .error e) : ∃ a ∈ l, ∃ b', f b' a = .error e := by
  induction l generalizing b with
  | nil => cases h
  | cons a l ih =>
    rw [List.foldlM_cons] at h
    cases hstep : f b a with
    | error e' =>
      rw [hstep] at h
      obtain rfl : e' = e := Except.error.inj h
      exact ⟨a, List.mem_cons_self, b, hstep⟩
    | ok b' =>
      rw [hstep] at h
      obtain ⟨x, hx, hfailed⟩ := ih h
      exact ⟨x, List.mem_cons_of_mem _ hx, hfailed⟩

/-- Steps that all succeed succeed in a row. -/
theorem forM_eq_ok {f : α → Except ε Unit} {l : List α} (h : ∀ a ∈ l, f a = .ok ()) :
    l.forM f = .ok () := by
  induction l with
  | nil => rfl
  | cons a l ih =>
    rw [List.forM_eq_forM, List.forM_cons, h a List.mem_cons_self]
    exact ih fun b hb => h b (List.mem_cons_of_mem _ hb)

/-- Steps that succeed in a row all succeed. -/
theorem of_forM_eq_ok {f : α → Except ε Unit} {l : List α} (h : l.forM f = .ok ()) :
    ∀ a ∈ l, f a = .ok () := by
  induction l with
  | nil => exact fun a ha => nomatch ha
  | cons a l ih =>
    rw [List.forM_eq_forM, List.forM_cons] at h
    obtain ⟨⟨⟩, hfirst, hrest⟩ := bind_eq_ok.mp h
    intro b hb
    rcases List.mem_cons.mp hb with rfl | hb
    · exact hfirst
    · exact ih hrest b hb

/-- A map over a list returned, at every place, what it returned for the element there. -/
theorem getElem?_of_mapM_eq_ok {f : α → Except ε β} {l : List α} {l' : List β}
    (h : l.mapM f = .ok l') {i : Nat} {a : α} (ha : l[i]? = some a) :
    ∃ b, l'[i]? = some b ∧ f a = .ok b := by
  induction l generalizing l' i with
  | nil => cases ha
  | cons head rest ih =>
    rw [List.mapM_cons] at h
    obtain ⟨b, hb, hrest⟩ := bind_eq_ok.mp h
    obtain ⟨bs, hbs, hok⟩ := bind_eq_ok.mp hrest
    obtain rfl := Except.ok.inj hok
    cases i with
    | zero =>
      obtain rfl : head = a := Option.some.inj ha
      exact ⟨b, rfl, hb⟩
    | succ i =>
      exact ih hbs ha

/-- A map over a list whose steps all succeed succeeds. -/
theorem exists_mapM {f : α → Except ε β} {l : List α} (h : ∀ a ∈ l, ∃ b, f a = .ok b) :
    ∃ l', l.mapM f = .ok l' := by
  induction l with
  | nil => exact ⟨[], rfl⟩
  | cons a l ih =>
    obtain ⟨b, hb⟩ := h a List.mem_cons_self
    obtain ⟨l', hl'⟩ := ih fun x hx => h x (List.mem_cons_of_mem _ hx)
    refine ⟨b :: l', ?_⟩
    rw [List.mapM_cons, hb, hl']
    rfl

/-- A map over a list that fails does so at one of its elements. -/
theorem exists_of_mapM_eq_error {f : α → Except ε β} {l : List α} {e : ε} (h : l.mapM f = .error e) :
    ∃ a ∈ l, f a = .error e := by
  induction l with
  | nil => cases h
  | cons a l ih =>
    rw [List.mapM_cons] at h
    cases hfirst : f a with
    | error e' =>
      rw [hfirst] at h
      obtain rfl : e' = e := Except.error.inj h
      exact ⟨a, List.mem_cons_self, hfirst⟩
    | ok b =>
      rw [hfirst, ok_bind] at h
      cases hrest : l.mapM f with
      | error e' =>
        rw [hrest] at h
        obtain rfl : e' = e := Except.error.inj h
        obtain ⟨x, hx, hfailed⟩ := ih hrest
        exact ⟨x, List.mem_cons_of_mem _ hx, hfailed⟩
      | ok bs =>
        rw [hrest] at h
        cases h

/-! ## Two computations -/

/-- Two computations come out alike: both fault, or both return, and what they return is related. -/
inductive Alike {ε' β : Type} (R : α → β → Prop) : Except ε α → Except ε' β → Prop where
  /-- both fault -/
  | error (e : ε) (e' : ε') : Alike R (.error e) (.error e')
  /-- both return -/
  | ok {a : α} {b : β} (related : R a b) : Alike R (.ok a) (.ok b)

theorem Alike.of_ok {ε' : Type} {R : α → β → Prop} {x : Except ε α} {y : Except ε' β}
    (h : ∀ a, x = .ok a → ∃ b, y = .ok b ∧ R a b) (h' : ∀ b, y = .ok b → ∃ a, x = .ok a) :
    Alike R x y := by
  cases x with
  | ok a =>
    obtain ⟨b, rfl, hab⟩ := h a rfl
    exact .ok hab
  | error e =>
    cases y with
    | error e' => exact .error e e'
    | ok b =>
      obtain ⟨a, ha⟩ := h' b rfl
      cases ha

theorem Alike.exists_ok {ε' : Type} {R : α → β → Prop} {x : Except ε α} {y : Except ε' β}
    (h : Alike R x y) {a : α} (hx : x = .ok a) : ∃ b, y = .ok b ∧ R a b := by
  cases h with
  | error e e' => cases hx
  | ok related =>
    obtain rfl := Except.ok.inj hx
    exact ⟨_, rfl, related⟩

theorem Alike.map {ε' γ δ : Type} {R : α → β → Prop} {S : γ → δ → Prop} {x : Except ε α}
    {y : Except ε' β} {f : α → γ} {g : β → δ} (h : Alike R x y) (hfg : ∀ a b, R a b → S (f a) (g b)) :
    Alike S (x.map f) (y.map g) := by
  cases h with
  | error e e' => exact .error e e'
  | ok related => exact .ok (hfg _ _ related)

/-- Folds whose steps come out alike come out alike. -/
theorem Alike.foldlM {ε' γ : Type} {R : β → γ → Prop} {f : β → α → Except ε β}
    {g : γ → α → Except ε' γ} {l : List α}
    (h : ∀ a ∈ l, ∀ b c, R b c → Alike R (f b a) (g c a)) {b : β} {c : γ} (hbc : R b c) :
    Alike R (l.foldlM f b) (l.foldlM g c) := by
  induction l generalizing b c with
  | nil => exact .ok hbc
  | cons a l ih =>
    rw [List.foldlM_cons, List.foldlM_cons]
    have hstep := h a List.mem_cons_self b c hbc
    revert hstep
    generalize f b a = x
    generalize g c a = y
    intro hstep
    cases hstep with
    | error e e' => exact .error e e'
    | ok related => exact ih (fun a' ha' => h a' (List.mem_cons_of_mem _ ha')) related

/-- Two computations go together: both stop with the same fault, or both return, and what they return is
related. -/
inductive Together {β : Type} (R : α → β → Prop) : Except ε α → Except ε β → Prop where
  /-- both stop with the same fault -/
  | error (e : ε) : Together R (.error e) (.error e)
  /-- both return -/
  | ok {a : α} {b : β} (related : R a b) : Together R (.ok a) (.ok b)

theorem Together.of_eq (x : Except ε α) : Together Eq x x := by
  cases x with
  | error e => exact .error e
  | ok a => exact .ok rfl

theorem Together.mono {R S : α → β → Prop} {x : Except ε α} {y : Except ε β} (h : Together R x y)
    (hRS : ∀ a b, R a b → S a b) : Together S x y := by
  cases h with
  | error e => exact .error e
  | ok related => exact .ok (hRS _ _ related)

/-- What goes together is what both return. -/
theorem Together.returned {R : α → β → Prop} {x : Except ε α} {y : Except ε β} (h : Together R x y) :
    Together (fun a b => R a b ∧ x = .ok a ∧ y = .ok b) x y := by
  cases h with
  | error e => exact .error e
  | ok related => exact .ok ⟨related, rfl, rfl⟩

theorem Together.bind {γ δ : Type} {R : α → β → Prop} {S : γ → δ → Prop} {x : Except ε α}
    {y : Except ε β} {f : α → Except ε γ} {g : β → Except ε δ} (h : Together R x y)
    (hfg : ∀ a b, R a b → Together S (f a) (g b)) : Together S (x >>= f) (y >>= g) := by
  cases h with
  | error e => exact .error e
  | ok related => exact hfg _ _ related

theorem Together.map {γ δ : Type} {R : α → β → Prop} {S : γ → δ → Prop} {x : Except ε α}
    {y : Except ε β} {f : α → γ} {g : β → δ} (h : Together R x y)
    (hfg : ∀ a b, R a b → S (f a) (g b)) : Together S (x.map f) (y.map g) := by
  cases h with
  | error e => exact .error e
  | ok related => exact .ok (hfg _ _ related)

/-- Computations whose results are related by being equal up to a change are equal up to that change. -/
theorem Together.map_eq {γ : Type} {R : α → β → Prop} {x : Except ε α} {y : Except ε β} {f : α → γ}
    {g : β → γ} (h : Together R x y) (hfg : ∀ a b, R a b → f a = g b) : x.map f = y.map g := by
  cases h with
  | error e => rfl
  | ok related => exact congrArg Except.ok (hfg _ _ related)

/-- Folds whose steps go together go together. -/
theorem Together.foldlM {γ : Type} {R : β → γ → Prop} {f : β → α → Except ε β}
    {g : γ → α → Except ε γ} {l : List α} (h : ∀ a ∈ l, ∀ b c, R b c → Together R (f b a) (g c a))
    {b : β} {c : γ} (hbc : R b c) : Together R (l.foldlM f b) (l.foldlM g c) := by
  induction l generalizing b c with
  | nil => exact .ok hbc
  | cons a l ih =>
    rw [List.foldlM_cons, List.foldlM_cons]
    exact (h a List.mem_cons_self b c hbc).bind fun b' c' hbc' =>
      ih (fun a' ha' => h a' (List.mem_cons_of_mem _ ha')) hbc'

end Except

end GuardedActions
