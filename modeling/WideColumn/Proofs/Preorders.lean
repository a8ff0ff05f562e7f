/-!
# Comparisons that preorder

Values are only compared transitively where they are values of their type, so that a comparison is
a preorder of some values and not of all byte strings.

* `PreorderOn` — the comparison is a total preorder of the values with a property;
* `PreorderOn.of_key`, `comap`, `flip`, `noneFirst` — it is one by a key, through a function, the
  other way round, with one more value in front;
* `PreorderOn.andThen` — **one comparison after another** is one, even if the second only orders
  the values that the first one does not tell apart;
* `lexicographic` — the first of several comparisons that tells two values apart.
-/

namespace WideColumn

/-! ### Several comparisons -/

/-- The first result that tells two values apart. -/
def lexicographic (results : List Ordering) : Ordering :=
  (results.find? (· != .eq)).getD .eq

@[simp] theorem lexicographic_nil : lexicographic [] = .eq := rfl

@[simp] theorem lexicographic_cons (result : Ordering) (rest : List Ordering) :
    lexicographic (result :: rest) = result.then (lexicographic rest) := by
  cases result <;> rfl

/-- The absence of a value first, and else as `cmp` has it. -/
def noneFirst {α : Type} (cmp : α → α → Ordering) : Option α → Option α → Ordering
  | none, none => .eq
  | none, some _ => .lt
  | some _, none => .gt
  | some a, some b => cmp a b

/-! ### Preorders -/

/-- The comparison is a total preorder of the values with the property. -/
structure PreorderOn {α : Type} (p : α → Prop) (cmp : α → α → Ordering) : Prop where
  self : ∀ a, p a → cmp a a = .eq
  swap : ∀ a b, p a → p b → cmp b a = (cmp a b).swap
  trans : ∀ a b c, p a → p b → p c →
    (cmp a b).isLE = true → (cmp b c).isLE = true → (cmp a c).isLE = true

namespace PreorderOn

variable {α β κ : Type} {p : α → Prop} {cmp first second : α → α → Ordering}

theorem mono (h : PreorderOn p cmp) {q : α → Prop} (hqp : ∀ a, q a → p a) : PreorderOn q cmp where
  self a ha := h.self a (hqp a ha)
  swap a b ha hb := h.swap a b (hqp a ha) (hqp b hb)
  trans a b c ha hb hc := h.trans a b c (hqp a ha) (hqp b hb) (hqp c hc)

theorem congr (h : PreorderOn p cmp) {cmp' : α → α → Ordering}
    (heq : ∀ a b, p a → p b → cmp' a b = cmp a b) : PreorderOn p cmp' where
  self a ha := (heq a a ha ha).trans (h.self a ha)
  swap a b ha hb := by rw [heq a b ha hb, heq b a hb ha, h.swap a b ha hb]
  trans a b c ha hb hc := by
    rw [heq a b ha hb, heq b c hb hc, heq a c ha hc]
    exact h.trans a b c ha hb hc

/-- Values are compared by what belongs to them. -/
theorem of_related (h : PreorderOn p cmp) {q : β → Prop} {cmp' : β → β → Ordering}
    (r : β → α → Prop) (hr : ∀ b, q b → ∃ a, p a ∧ r b a)
    (hcmp : ∀ a a' b b', r b a → r b' a' → cmp' b b' = cmp a a') : PreorderOn q cmp' where
  self b hb := by
    obtain ⟨a, ha, hra⟩ := hr b hb
    rw [hcmp a a b b hra hra, h.self a ha]
  swap b b' hb hb' := by
    obtain ⟨a, ha, hra⟩ := hr b hb
    obtain ⟨a', ha', hra'⟩ := hr b' hb'
    rw [hcmp a' a b' b hra' hra, hcmp a a' b b' hra hra', h.swap a a' ha ha']
  trans b b' b'' hb hb' hb'' := by
    obtain ⟨a, ha, hra⟩ := hr b hb
    obtain ⟨a', ha', hra'⟩ := hr b' hb'
    obtain ⟨a'', ha'', hra''⟩ := hr b'' hb''
    rw [hcmp a a' b b' hra hra', hcmp a' a'' b' b'' hra' hra'', hcmp a a'' b b'' hra hra'']
    exact h.trans a a' a'' ha ha' ha''

theorem comap {p : β → Prop} {cmp : β → β → Ordering} (h : PreorderOn p cmp) {q : α → Prop}
    (f : α → β) (hf : ∀ a, q a → p (f a)) : PreorderOn q fun a b => cmp (f a) (f b) :=
  h.of_related (fun a b => f a = b) (fun a ha => ⟨f a, hf a ha, rfl⟩) fun _ _ _ _ hb hb' => by
    rw [hb, hb']

theorem of_transOrd [Ord κ] [Std.TransOrd κ] : PreorderOn (fun _ : κ => True) compare where
  self _ _ := Std.ReflOrd.compare_self
  swap _ _ _ _ := Std.OrientedOrd.eq_swap
  trans _ _ _ _ _ _ := Std.TransOrd.isLE_trans

/-- Values that are compared by a key. -/
theorem of_key [Ord κ] [Std.TransOrd κ] (key : α → κ)
    (h : ∀ a b, p a → p b → cmp a b = compare (key a) (key b)) : PreorderOn p cmp :=
  (of_transOrd.comap key fun _ _ => trivial).congr h

/-- The other way round. -/
theorem flip (h : PreorderOn p cmp) : PreorderOn p fun a b => cmp b a where
  self := h.self
  swap a b ha hb := h.swap b a hb ha
  trans a b c ha hb hc hab hbc := h.trans c b a hc hb ha hbc hab

/-- With the absence of a value in front. -/
theorem noneFirst (h : PreorderOn p cmp) :
    PreorderOn (fun o => ∀ a ∈ o, p a) (WideColumn.noneFirst cmp) where
  self o ho := by
    cases o with
    | none => rfl
    | some a => exact h.self a (ho a rfl)
  swap o o' ho ho' := by
    cases o with
    | none => cases o' <;> rfl
    | some a =>
      cases o' with
      | none => rfl
      | some b => exact h.swap a b (ho a rfl) (ho' b rfl)
  trans o o' o'' ho ho' ho'' hab hbc := by
    cases o with
    | none => cases o'' <;> rfl
    | some a =>
      cases o' with
      | none => cases hab
      | some b =>
        cases o'' with
        | none => cases hbc
        | some c => exact h.trans a b c (ho a rfl) (ho' b rfl) (ho'' c rfl) hab hbc

/-! ### One comparison after another -/

/-- The values with the property, by themselves, are compared transitively. -/
theorem transCmp (h : PreorderOn p cmp) : Std.TransCmp fun a b : {a // p a} => cmp a b where
  eq_swap {a b} := h.swap b a b.2 a.2
  isLE_trans {a b c} := h.trans a b c a.2 b.2 c.2

theorem lt_of_lt_of_isLE (h : PreorderOn p cmp) {a b c : α} (ha : p a) (hb : p b) (hc : p c)
    (hab : cmp a b = .lt) (hbc : (cmp b c).isLE = true) : cmp a c = .lt :=
  @Std.TransCmp.lt_of_lt_of_isLE {a // p a} (fun a b => cmp a b) h.transCmp
    ⟨a, ha⟩ ⟨b, hb⟩ ⟨c, hc⟩ hab hbc

theorem lt_of_isLE_of_lt (h : PreorderOn p cmp) {a b c : α} (ha : p a) (hb : p b) (hc : p c)
    (hab : (cmp a b).isLE = true) (hbc : cmp b c = .lt) : cmp a c = .lt :=
  @Std.TransCmp.lt_of_isLE_of_lt {a // p a} (fun a b => cmp a b) h.transCmp
    ⟨a, ha⟩ ⟨b, hb⟩ ⟨c, hc⟩ hab hbc

/-- **One comparison after another.**  The second only has to preorder the values that are equal to
a given one by the first. -/
theorem andThen (h : PreorderOn p first)
    (hsecond : ∀ a, p a → PreorderOn (fun b => p b ∧ first a b = .eq) second) :
    PreorderOn p fun a b => (first a b).then (second a b) where
  self a ha := by
    have heq := h.self a ha
    rw [heq]
    exact (hsecond a ha).self a ⟨ha, heq⟩
  swap a b ha hb := by
    rw [h.swap a b ha hb, Ordering.swap_then]
    cases heq : first a b with
    | lt | gt => rfl
    | eq => exact (hsecond a ha).swap a b ⟨ha, h.self a ha⟩ ⟨hb, heq⟩
  trans a b c ha hb hc hab hbc := by
    rw [Ordering.isLE_then_iff_and] at hab hbc ⊢
    have hac := h.trans a b c ha hb hc hab.1 hbc.1
    refine ⟨hac, ?_⟩
    rcases hab.2 with hlt | hab₂
    · exact .inl (h.lt_of_lt_of_isLE ha hb hc hlt hbc.1)
    rcases hbc.2 with hlt | hbc₂
    · exact .inl (h.lt_of_isLE_of_lt ha hb hc hab.1 hlt)
    -- Only if the first comparison tells neither pair apart does the second one decide.
    cases hfirst : first a b with
    | gt => simp [hfirst] at hab
    | lt => exact .inl (h.lt_of_lt_of_isLE ha hb hc hfirst hbc.1)
    | eq =>
      cases hlast : first a c with
      | gt => simp [hlast] at hac
      | lt => exact .inl rfl
      | eq =>
        exact .inr ((hsecond a ha).trans a b c ⟨ha, h.self a ha⟩ ⟨hb, hfirst⟩ ⟨hc, hlast⟩
          hab₂ hbc₂)

/-- One comparison after another, where both preorder all values. -/
theorem andThen_of_forall (h : PreorderOn p first) (hsecond : PreorderOn p second) :
    PreorderOn p fun a b => (first a b).then (second a b) :=
  h.andThen fun _ _ => hsecond.mono fun _ => And.left

end PreorderOn

end WideColumn
