import WideColumn.Error

/-!
# Work that can fail and keeps a state

Hooks and index upkeep run in `ExceptT ε (StateM σ)`: what was done to the state stays done if
the work fails.  This file runs the combinators of such work from a given state, and opens a
sequence that succeeded (`bind_eq_ok`) into the runs of its parts.  `Keeps` says what work leaves
alone, whether it succeeds or fails, and `Completes` that it succeeds; each combinator keeps what
its parts keep, and succeeds if they do.  `FailsOnly` says why plain results are failures.
-/

namespace WideColumn

namespace Effects

variable {ε σ α β : Type}

/-! ### Results -/

theorem except_ok_bind (a : α) (f : α → Except ε β) : (Except.ok a >>= f) = f a := rfl

theorem except_map_ok (f : α → β) (a : α) : (Except.ok a : Except ε α).map f = .ok (f a) := rfl

theorem except_map_map {γ : Type} (x : Except ε α) (f : α → β) (g : β → γ) :
    (x.map f).map g = x.map fun a => g (f a) := by
  cases x <;> rfl

/-- A result that goes on is a success if both of its parts are. -/
theorem except_bind_eq_ok {x : Except ε α} {f : α → Except ε β} {b : β} :
    (x >>= f) = .ok b ↔ ∃ a, x = .ok a ∧ f a = .ok b := by
  constructor
  · intro h
    cases x with
    | error e => cases h
    | ok a => exact ⟨a, rfl, h⟩
  · rintro ⟨a, rfl, h⟩
    exact h

/-- Where there is a result, what is refused did not hold. -/
theorem ite_error_eq_ok {p : Prop} [Decidable p] {e : ε} {x : Except ε α} {a : α} :
    (if p then .error e else x) = .ok a ↔ ¬p ∧ x = .ok a := by
  split
  · rename_i hp
    exact ⟨nofun, fun h => absurd hp h.1⟩
  · rename_i hp
    exact ⟨fun h => ⟨hp, h⟩, And.right⟩

theorem ite_throw_eq_ok {p : Prop} [Decidable p] {e : ε} {f : β → Except ε α} {x : Except ε α}
    {a : α} : (if p then throw e >>= f else x) = .ok a ↔ ¬p ∧ x = .ok a :=
  ite_error_eq_ok

/-- What is made of a result is a success if the result is one. -/
theorem except_map_eq_ok {x : Except ε α} {f : α → β} {b : β} :
    x.map f = .ok b ↔ ∃ a, x = .ok a ∧ f a = b := by
  constructor
  · intro h
    cases x with
    | error e => cases h
    | ok a =>
      cases h
      exact ⟨a, rfl, rfl⟩
  · rintro ⟨a, rfl, rfl⟩
    rfl

theorem mapError_eq_ok {ε' : Type} {x : Except ε α} {f : ε → ε'} {a : α} :
    x.mapError f = .ok a ↔ x = .ok a := by
  constructor
  · intro h
    cases x with
    | error e => cases h
    | ok b =>
      cases h
      rfl
  · rintro rfl
    rfl

/-- The result, if it is a failure, is one for these reasons. -/
def FailsOnly (P : ε → Prop) (x : Except ε α) : Prop := ∀ e, x = .error e → P e

namespace FailsOnly

variable {P : ε → Prop}

theorem ok (a : α) : FailsOnly P (.ok a) := nofun

theorem error {e : ε} (h : P e) : FailsOnly P (.error e : Except ε α) := by
  rintro _ ⟨⟩
  exact h

theorem ite {c : Prop} [Decidable c] {x y : Except ε α} (hx : c → FailsOnly P x)
    (hy : ¬c → FailsOnly P y) : FailsOnly P (if c then x else y) := by
  split
  · exact hx ‹_›
  · exact hy ‹_›

/-- A result that goes on fails where its first part does, or where it goes on from there. -/
theorem bind {x : Except ε α} {f : α → Except ε β} (hx : FailsOnly P x)
    (hf : ∀ a, x = .ok a → FailsOnly P (f a)) : FailsOnly P (x >>= f) := by
  cases x with
  | error e => exact .error (hx e rfl)
  | ok a => exact hf a rfl

/-- What is refused was one of the reasons, and what follows comes into play only if it is not
refused. -/
theorem guard {c : Prop} [Decidable c] {e : ε} {f : β → Except ε α} {x : Except ε α}
    (he : c → P e) (hx : ¬c → FailsOnly P x) : FailsOnly P (if c then throw e >>= f else x) :=
  .ite (fun hc => .error (he hc)) hx

end FailsOnly

/-- **What every step keeps, a run keeps**, if all of its steps are possible. -/
theorem foldlM_some_keeps {step : σ → α → Option σ} {P : σ → Prop}
    (hstep : ∀ s a s', P s → step s a = some s' → P s') {steps : List α} {s s' : σ}
    (hrun : steps.foldlM step s = some s') (h : P s) : P s' := by
  induction steps generalizing s with
  | nil =>
    cases hrun
    exact h
  | cons a rest ih =>
    rw [List.foldlM_cons] at hrun
    obtain ⟨s₁, hfirst, hrest⟩ := Option.bind_eq_some_iff.1 hrun
    exact ih hrest (hstep s a s₁ h hfirst)

/-! ### Runs -/

/-- Runs work from a state. -/
def runFrom (x : ExceptT ε (StateM σ) α) (s : σ) : Except ε α × σ := x.run.run s

theorem run_eq_runFrom (x : ExceptT ε (StateM σ) α) (s : σ) : x.run.run s = runFrom x s := rfl

@[simp] theorem runFrom_pure (a : α) (s : σ) :
    runFrom (pure a : ExceptT ε (StateM σ) α) s = (.ok a, s) := rfl

@[simp] theorem runFrom_throw (e : ε) (s : σ) :
    runFrom (throw e : ExceptT ε (StateM σ) α) s = (.error e, s) := rfl

@[simp] theorem runFrom_get (s : σ) :
    runFrom (get : ExceptT ε (StateM σ) σ) s = (.ok s, s) := rfl

@[simp] theorem runFrom_set (s s' : σ) :
    runFrom (set s' : ExceptT ε (StateM σ) PUnit) s = (.ok ⟨⟩, s') := rfl

@[simp] theorem runFrom_modify (f : σ → σ) (s : σ) :
    runFrom (modify f : ExceptT ε (StateM σ) PUnit) s = (.ok ⟨⟩, f s) := rfl

/-- Running one after the other, until one fails. -/
theorem runFrom_bind (x : ExceptT ε (StateM σ) α) (f : α → ExceptT ε (StateM σ) β) (s : σ) :
    runFrom (x >>= f) s =
      match runFrom x s with
      | (.ok a, s') => runFrom (f a) s'
      | (.error e, s') => (.error e, s') := by
  show (match x s with
    | (r, s') => ExceptT.bindCont f r s') = _
  unfold runFrom ExceptT.run StateT.run
  rcases x s with ⟨_ | _, _⟩ <;> rfl

/-- **Opening a sequence.**  A sequence succeeds if both of its parts do. -/
theorem bind_eq_ok {x : ExceptT ε (StateM σ) α} {f : α → ExceptT ε (StateM σ) β} {s s'' : σ}
    {b : β} :
    runFrom (x >>= f) s = (.ok b, s'') ↔
      ∃ a s', runFrom x s = (.ok a, s') ∧ runFrom (f a) s' = (.ok b, s'') := by
  rw [runFrom_bind]
  rcases runFrom x s with ⟨e | a, s'⟩
  · simp
  · constructor
    · exact fun h => ⟨a, s', rfl, h⟩
    · rintro ⟨_, _, heq, h⟩
      cases heq
      exact h

/-- A sequence fails if its first part does, or its second part after the first one. -/
theorem bind_eq_error {x : ExceptT ε (StateM σ) α} {f : α → ExceptT ε (StateM σ) β} {s s'' : σ}
    {e : ε} :
    runFrom (x >>= f) s = (.error e, s'') ↔ runFrom x s = (.error e, s'') ∨
      ∃ a s', runFrom x s = (.ok a, s') ∧ runFrom (f a) s' = (.error e, s'') := by
  rw [runFrom_bind]
  rcases runFrom x s with ⟨e' | a, s'⟩
  · simp
  · constructor
    · exact fun h => .inr ⟨a, s', rfl, h⟩
    · rintro (⟨⟨⟩⟩ | ⟨_, _, heq, h⟩)
      cases heq
      exact h

/-- Work on several items succeeds if that on the first ones does, and then that on the others. -/
theorem forM_append_eq_ok {ι : Type} {f : ι → ExceptT ε (StateM σ) PUnit} {items more : List ι}
    {s s'' : σ} :
    runFrom ((items ++ more).forM f) s = (.ok ⟨⟩, s'') ↔
      ∃ s', runFrom (items.forM f) s = (.ok ⟨⟩, s') ∧ runFrom (more.forM f) s' = (.ok ⟨⟩, s'') := by
  induction items generalizing s with
  | nil =>
    constructor
    · exact fun h => ⟨s, rfl, h⟩
    · rintro ⟨s', hnil, h⟩
      cases hnil
      exact h
  | cons i rest ih =>
    constructor
    · intro h
      obtain ⟨⟨⟩, s₁, hi, h⟩ := bind_eq_ok.1 h
      obtain ⟨s', hrest, h⟩ := ih.1 h
      exact ⟨s', bind_eq_ok.2 ⟨⟨⟩, s₁, hi, hrest⟩, h⟩
    · rintro ⟨s', hitems, h⟩
      obtain ⟨⟨⟩, s₁, hi, hrest⟩ := bind_eq_ok.1 hitems
      exact bind_eq_ok.2 ⟨⟨⟩, s₁, hi, ih.2 ⟨s', hrest, h⟩⟩

/-- Work on several items fails at one of them, after it succeeded on those before. -/
theorem forM_eq_error {ι : Type} {f : ι → ExceptT ε (StateM σ) PUnit} {items : List ι}
    {s s'' : σ} {e : ε} (h : runFrom (items.forM f) s = (.error e, s'')) :
    ∃ before i after s', items = before ++ i :: after ∧
      runFrom (before.forM f) s = (.ok ⟨⟩, s') ∧ runFrom (f i) s' = (.error e, s'') := by
  induction items generalizing s with
  | nil => cases h
  | cons i rest ih =>
    rcases bind_eq_error.1 h with hfirst | ⟨⟨⟩, s₁, hfirst, hrest⟩
    · exact ⟨[], i, rest, s, rfl, rfl, hfirst⟩
    · obtain ⟨before, j, after, s', rfl, hbefore, hfails⟩ := ih hrest
      exact ⟨i :: before, j, after, s', rfl, bind_eq_ok.2 ⟨⟨⟩, s₁, hfirst, hbefore⟩, hfails⟩

/-- Work, with another way to go on if it fails. -/
theorem runFrom_tryCatch (x : ExceptT ε (StateM σ) α) (h : ε → ExceptT ε (StateM σ) α) (s : σ) :
    runFrom (tryCatch x h) s =
      match runFrom x s with
      | (.ok a, s') => (.ok a, s')
      | (.error e, s') => runFrom (h e) s' := by
  show (match x s with
    | (r, s') => (match r with
      | Except.ok a => pure (Except.ok a)
      | Except.error e => h e : StateM σ (Except ε α)) s') = _
  unfold runFrom ExceptT.run StateT.run
  rcases x s with ⟨_ | _, _⟩ <;> rfl

/-! ### What work keeps -/

/-- The work keeps a property of the state, whether it succeeds or fails. -/
def Keeps (P : σ → Prop) (x : ExceptT ε (StateM σ) α) : Prop := ∀ s, P s → P (runFrom x s).2

namespace Keeps

variable {P : σ → Prop}

theorem pure (a : α) : Keeps P (pure a : ExceptT ε (StateM σ) α) := fun _ h => h

theorem throw (e : ε) : Keeps P (throw e : ExceptT ε (StateM σ) α) := fun _ h => h

/-- What follows a failure does not run. -/
theorem throwThen (e : ε) (f : α → ExceptT ε (StateM σ) β) :
    Keeps P ((MonadExcept.throw e : ExceptT ε (StateM σ) α) >>= f) := fun _ h => h

theorem get : Keeps P (get : ExceptT ε (StateM σ) σ) := fun _ h => h

theorem modify {f : σ → σ} (hf : ∀ s, P s → P (f s)) :
    Keeps P (modify f : ExceptT ε (StateM σ) PUnit) := hf

/-- What is read is a state of which the property holds. -/
theorem getThen {f : σ → ExceptT ε (StateM σ) β} (hf : ∀ s, P s → Keeps P (f s)) :
    Keeps P (MonadState.get >>= f) := fun s h => hf s h s h

theorem set {s : σ} (h : P s) : Keeps P (set s : ExceptT ε (StateM σ) PUnit) := fun _ _ => h

/-- A result that is at hand changes no state. -/
theorem lift (x : Except ε α) : Keeps P (liftM x : ExceptT ε (StateM σ) α) := by
  intro s h
  cases x <;> exact h

theorem bind {x : ExceptT ε (StateM σ) α} {f : α → ExceptT ε (StateM σ) β} (hx : Keeps P x)
    (hf : ∀ a, Keeps P (f a)) : Keeps P (x >>= f) := by
  intro s h
  have hfirst := hx s h
  rw [runFrom_bind]
  rcases hrun : runFrom x s with ⟨e | a, s'⟩
  · rw [hrun] at hfirst
    exact hfirst
  · rw [hrun] at hfirst
    exact hf a s' hfirst

/-- What follows a result that is at hand has to do with it only if it is a success. -/
theorem liftThen {x : Except ε α} {f : α → ExceptT ε (StateM σ) β}
    (hf : ∀ a, x = .ok a → Keeps P (f a)) :
    Keeps P ((liftM x : ExceptT ε (StateM σ) α) >>= f) := by
  cases x with
  | error e => exact fun s h => h
  | ok a => exact hf a rfl

theorem tryCatch {x : ExceptT ε (StateM σ) α} {f : ε → ExceptT ε (StateM σ) α} (hx : Keeps P x)
    (hf : ∀ e, Keeps P (f e)) : Keeps P (tryCatch x f) := by
  intro s h
  have hfirst := hx s h
  rw [runFrom_tryCatch]
  rcases hrun : runFrom x s with ⟨e | a, s'⟩
  · rw [hrun] at hfirst
    exact hf e s' hfirst
  · rw [hrun] at hfirst
    exact hfirst

theorem ite {c : Bool} {x y : ExceptT ε (StateM σ) α} (hx : Keeps P x) (hy : Keeps P y) :
    Keeps P (if c then x else y) := by
  cases c
  · exact hy
  · exact hx

/-- Work on each item in turn keeps what the work on every single one keeps. -/
theorem forM {ι : Type} {f : ι → ExceptT ε (StateM σ) PUnit} {items : List ι}
    (hf : ∀ i ∈ items, Keeps P (f i)) : Keeps P (items.forM f) := by
  induction items with
  | nil => exact Keeps.pure PUnit.unit
  | cons i rest ih =>
    exact Keeps.bind (hf i List.mem_cons_self) fun _ =>
      ih fun j hj => hf j (List.mem_cons_of_mem _ hj)

end Keeps

/-! ### Work that succeeds -/

/-- From every state with a property the work succeeds, and it keeps the property. -/
def Completes (P : σ → Prop) (x : ExceptT ε (StateM σ) α) : Prop :=
  ∀ s, P s → ∃ a s', runFrom x s = (.ok a, s') ∧ P s'

namespace Completes

variable {P : σ → Prop}

theorem pure (a : α) : Completes P (pure a : ExceptT ε (StateM σ) α) := fun s h => ⟨a, s, rfl, h⟩

theorem modify {f : σ → σ} (hf : ∀ s, P s → P (f s)) :
    Completes P (modify f : ExceptT ε (StateM σ) PUnit) := fun s h => ⟨⟨⟩, f s, rfl, hf s h⟩

theorem getThen {f : σ → ExceptT ε (StateM σ) β} (hf : ∀ s, P s → Completes P (f s)) :
    Completes P (MonadState.get >>= f) := fun s h => hf s h s h

theorem bind {x : ExceptT ε (StateM σ) α} {f : α → ExceptT ε (StateM σ) β} (hx : Completes P x)
    (hf : ∀ a, Completes P (f a)) : Completes P (x >>= f) := by
  intro s h
  obtain ⟨a, s', hfirst, hs'⟩ := hx s h
  obtain ⟨b, s'', hsecond, hs''⟩ := hf a s' hs'
  exact ⟨b, s'', bind_eq_ok.2 ⟨a, s', hfirst, hsecond⟩, hs''⟩

theorem ite {c : Bool} {x y : ExceptT ε (StateM σ) α} (hx : c = true → Completes P x)
    (hy : c = false → Completes P y) : Completes P (if c then x else y) := by
  cases c
  · exact hy rfl
  · exact hx rfl

/-- Work on each item in turn succeeds if the work on every single one does. -/
theorem forM {ι : Type} {f : ι → ExceptT ε (StateM σ) PUnit} {items : List ι}
    (hf : ∀ i ∈ items, Completes P (f i)) : Completes P (items.forM f) := by
  induction items with
  | nil => exact Completes.pure PUnit.unit
  | cons i rest ih =>
    exact Completes.bind (hf i List.mem_cons_self) fun _ =>
      ih fun j hj => hf j (List.mem_cons_of_mem _ hj)

end Completes

end Effects

end WideColumn
