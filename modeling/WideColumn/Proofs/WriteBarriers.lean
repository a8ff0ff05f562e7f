import WideColumn.Proofs.Effects
import WideColumn.Proofs.WriteEpochs

/-!
# Barriers in every interleaving

Writes start and end in any order, and barriers are set between them.  The write order keeps an
epoch and a sparse map of counts; what a barrier answers is a matter of the tokens themselves.

* `TokenLog.step`, `TokenLog.run` — starts, releases and barriers, as they come;
* `Sound.run`, `Separates.run` — the invariants of one step, for all runs;
* `Sound.release_lowers` — **a release lowers the count of the token's own epoch by one**, and no
  other;
* `barriers_order_tokens` — **before a barrier are the tokens that were taken before it; the
  barrier is complete when these have been given back, and stays so**.
-/

namespace WideColumn

open Effects

/-- What can happen to a write order. -/
inductive OrderStep where
  /-- Takes a token. -/
  | start
  /-- Gives back the token of a number. -/
  | release (token : Nat)
  | barrier
deriving DecidableEq, Repr

namespace TokenLog

/-- One step; only a token that is held can be given back. -/
def step (l : TokenLog) : OrderStep → Option TokenLog
  | .start => some l.start
  | .release token => l.release? token
  | .barrier => some l.setBarrier

/-- Steps in turn, all of which are possible. -/
def run (l : TokenLog) (steps : List OrderStep) : Option TokenLog := steps.foldlM step l

variable {l l' : TokenLog} {b : WriteBarrier} {first : Nat}

/-! ### One step, all runs -/

/-- What each kind of step keeps, any step keeps. -/
theorem step_keeps {P : TokenLog → Prop} (hstart : ∀ l : TokenLog, P l → P l.start)
    (hrelease : ∀ (l : TokenLog) token l', P l → l.release? token = some l' → P l')
    (hbarrier : ∀ l : TokenLog, P l → P l.setBarrier) {a : OrderStep} (h : P l)
    (hstep : l.step a = some l') : P l' := by
  cases a with
  | start => exact Option.some.inj hstep ▸ hstart l h
  | release token => exact hrelease l token l' h hstep
  | barrier => exact Option.some.inj hstep ▸ hbarrier l h

theorem Sound.step {a : OrderStep} (h : l.Sound) (hstep : l.step a = some l') : l'.Sound :=
  step_keeps (fun _ h => h.start) (fun _ _ _ h hrelease => h.release hrelease)
    (fun _ h => h.setBarrier) h hstep

theorem Sound.run {steps : List OrderStep} (h : l.Sound) (hrun : l.run steps = some l') :
    l'.Sound :=
  foldlM_some_keeps (P := Sound) (fun _ _ _ h hstep => h.step hstep) hrun h

theorem Separates.step {a : OrderStep} (h : l.Separates b first) (hstep : l.step a = some l') :
    l'.Separates b first :=
  step_keeps (P := (Separates · b first)) (fun _ h => h.start)
    (fun _ _ _ h hrelease => h.release hrelease) (fun _ h => h.setBarrier) h hstep

theorem Separates.run {steps : List OrderStep} (h : l.Separates b first)
    (hrun : l.run steps = some l') : l'.Separates b first :=
  foldlM_some_keeps (P := (Separates · b first)) (fun _ _ _ h hstep => h.step hstep) hrun h

/-- A step adds a token if it is a start, and an epoch if it is a barrier. -/
theorem step_counts {a : OrderStep} (hstep : l.step a = some l') :
    l'.tokens.length = l.tokens.length + [a].count .start ∧
      l'.order.epoch = l.order.epoch + [a].count .barrier := by
  cases a with
  | start =>
    cases Option.some.inj hstep
    exact ⟨l.length_start, rfl⟩
  | release token =>
    obtain ⟨t, -, -, rfl⟩ := release?_eq_some hstep
    exact ⟨rfl, epoch_release _ _⟩
  | barrier =>
    cases Option.some.inj hstep
    exact ⟨rfl, rfl⟩

/-- A run has taken one token for each start, and the epoch counts its barriers. -/
theorem run_counts {steps : List OrderStep} (hrun : l.run steps = some l') :
    l'.tokens.length = l.tokens.length + steps.count .start ∧
      l'.order.epoch = l.order.epoch + steps.count .barrier := by
  induction steps generalizing l with
  | nil =>
    cases hrun
    exact ⟨rfl, rfl⟩
  | cons a rest ih =>
    unfold run at hrun
    rw [List.foldlM_cons] at hrun
    obtain ⟨l₁, hfirst, hrest⟩ := Option.bind_eq_some_iff.1 hrun
    obtain ⟨htokens, hepoch⟩ := step_counts hfirst
    obtain ⟨htokens', hepoch'⟩ := ih hrest
    rw [← List.singleton_append, List.count_append, List.count_append]
    omega

/-- None of the first tokens comes back: what is held later was held before or is taken later. -/
theorem held_step {a : OrderStep} (hstep : l.step a = some l') (htaken : first ≤ l.tokens.length)
    (hheld : ∀ n ∈ l.held, first ≤ n) : ∀ n ∈ l'.held, first ≤ n := by
  intro n hn
  cases a with
  | start =>
    cases Option.some.inj hstep
    rcases List.mem_append.1 hn with hn | hn
    · exact hheld n hn
    · rw [List.mem_singleton.1 hn]
      exact htaken
  | release token =>
    obtain ⟨t, -, -, rfl⟩ := release?_eq_some hstep
    exact hheld n (List.mem_of_mem_erase hn)
  | barrier =>
    cases Option.some.inj hstep
    exact hheld n hn

/-- **A barrier that is complete stays complete.** -/
theorem Separates.isComplete_run (hb : l.Separates b first) (h : l.Sound)
    (hcomplete : l.order.isComplete b = true) {steps : List OrderStep}
    (hrun : l.run steps = some l') : l'.order.isComplete b = true := by
  refine ((hb.run hrun).isComplete_iff (h.run hrun)).2 ?_
  have hkept : l'.Separates b first ∧ ∀ n ∈ l'.held, first ≤ n :=
    foldlM_some_keeps (P := fun l => l.Separates b first ∧ ∀ n ∈ l.held, first ≤ n)
      (fun _ _ _ h hstep => ⟨h.1.step hstep, held_step hstep h.1.taken h.2⟩) hrun
      ⟨hb, (hb.isComplete_iff h).1 hcomplete⟩
  exact hkept.2

/-- **A release lowers the count of the token's own epoch by one**, which is therefore not zero;
all other epochs keep theirs. -/
theorem Sound.release_lowers (h : l.Sound) {n : Nat} (hn : n ∈ l.held) : ∃ t l' count,
    l.tokens[n]? = some t ∧ l.release? n = some l' ∧
      l.order.active.find? t.epoch = some (count + 1) ∧
      l'.order.active.find? t.epoch = (if count = 0 then none else some count) ∧
      ∀ e, e ≠ t.epoch → l'.order.active.find? e = l.order.active.find? e := by
  obtain ⟨t, ht⟩ : ∃ t, l.tokens[n]? = some t := ⟨_, List.getElem?_eq_getElem (h.taken n hn)⟩
  obtain ⟨l', hl⟩ : ∃ l', l.release? n = some l' :=
    ⟨{ l with order := l.order.release t, held := l.held.erase n }, by simp [release?, ht, hn]⟩
  have hpos := heldIn_pos ht hn
  have hnext : ∀ e, l'.heldIn e = l.heldIn e - if e = t.epoch then 1 else 0 := by
    obtain ⟨u, hu, -, rfl⟩ := release?_eq_some hl
    cases Option.some.inj (ht.symm.trans hu)
    exact heldIn_erase ht hn
  have hl' := h.release hl
  refine ⟨t, l', l.heldIn t.epoch - 1, ht, hl, ?_, ?_, fun e he => ?_⟩
  · rw [h.counts, if_neg (by omega), Nat.sub_add_cancel hpos]
  · rw [hl'.counts, hnext, if_pos rfl]
  · rw [hl'.counts, h.counts, hnext, if_neg he, Nat.sub_zero]

end TokenLog

/-! ### What barriers answer -/

/-- **Before a barrier are the tokens that were taken before it was set.**  At any time the epoch
is the number of barriers, and the count of each epoch is the number of its tokens that are held,
so that a release finds its count and lowers no other.  A barrier set now is, after any steps that
follow, after the tokens that have been taken by now and no other; it is complete as soon as none
of these is held, whatever later tokens are; and once complete it stays so. -/
theorem barriers_order_tokens {steps : List OrderStep} {l : TokenLog}
    (hrun : TokenLog.run {} steps = some l) :
    (l.tokens.length = steps.count .start ∧ l.order.epoch = steps.count .barrier) ∧
    (∀ e, l.order.active.find? e = if l.heldIn e = 0 then none else some (l.heldIn e)) ∧
    (∀ n ∈ l.held, ∃ t l' count, l.tokens[n]? = some t ∧ l.release? n = some l' ∧
      l.order.active.find? t.epoch = some (count + 1) ∧
      l'.order.active.find? t.epoch = (if count = 0 then none else some count) ∧
      ∀ e, e ≠ t.epoch → l'.order.active.find? e = l.order.active.find? e) ∧
    (∀ later l', l.setBarrier.run later = some l' →
      (∀ n t, l'.tokens[n]? = some t →
        (t.isBefore l.order.barrier.1 = true ↔ n < l.tokens.length)) ∧
      (l'.order.isComplete l.order.barrier.1 = true ↔ ∀ n ∈ l'.held, l.tokens.length ≤ n) ∧
      (l'.order.isComplete l.order.barrier.1 = true → ∀ more l'', l'.run more = some l'' →
        l''.order.isComplete l.order.barrier.1 = true)) := by
  have h : l.Sound := TokenLog.Sound.empty.run hrun
  obtain ⟨htokens, hepoch⟩ := TokenLog.run_counts hrun
  refine ⟨⟨htokens.trans (Nat.zero_add _), hepoch.trans (Nat.zero_add _)⟩, h.counts,
    fun n hn => h.release_lowers hn, fun later l' hlater => ?_⟩
  have hb := h.separates.run hlater
  have h' := h.setBarrier.run hlater
  exact ⟨hb.isBefore_iff, hb.isComplete_iff h', fun hcomplete more l'' hmore =>
    hb.isComplete_run h' hcomplete hmore⟩

/-- A token, a barrier, and a later token: the barrier waits for the first token, and is complete
while the later one is still held. -/
theorem barrier_waits_for_first_token : ∃ l l' l'', TokenLog.run {} [.start] = some l ∧
    l.setBarrier.run [.start] = some l' ∧ l'.order.isComplete l.order.barrier.1 = false ∧
    l.setBarrier.run [.start, .release 0] = some l'' ∧ l''.held = [1] ∧
    l''.order.isComplete l.order.barrier.1 = true := by
  have hfirst : TokenLog.run {} [.start] = some (TokenLog.start {}) := rfl
  obtain ⟨-, -, -, hbarrier⟩ := barriers_order_tokens hfirst
  obtain ⟨-, hwaits, -⟩ := hbarrier [.start] _ rfl
  obtain ⟨-, hends, -⟩ := hbarrier [.start, .release 0] _ rfl
  refine ⟨_, _, _, hfirst, rfl, ?_, rfl, rfl, hends.2 (by decide)⟩
  exact Bool.eq_false_iff.2 fun hcomplete => absurd (hwaits.1 hcomplete 0 (by decide)) (by decide)

end WideColumn
