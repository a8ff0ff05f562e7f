import WideColumn.Proofs.SortedBindings
import WideColumn.Store.WriteOrder

/-!
# Tokens and barriers

The tokens of a write order in the order in which they were taken, with those that are held.  The
write order itself only counts, by epoch; this file says what the counts stand for.

* `TokenLog.Sound` — what starting a write, ending one and setting a barrier keep;
* `Separates` — a barrier is after the tokens that were taken before it was set and after no other,
  and stays so (`Separates.start`, `Separates.release`, `Separates.setBarrier`);
* `Sound.isComplete_iff` — **a barrier is complete if no token before it is held**.
-/

namespace WideColumn

/-- A write order with the tokens that were taken from it. -/
structure TokenLog where
  order : WriteOrder := {}
  /-- All tokens that were ever taken; the place of a token is its number. -/
  tokens : List WriteToken := []
  /-- The numbers of the tokens that are held. -/
  held : List Nat := []

namespace TokenLog

/-- Starts a write. -/
def start (l : TokenLog) : TokenLog where
  order := l.order.start.2
  tokens := l.tokens ++ [l.order.start.1]
  held := l.held ++ [l.tokens.length]

/-- Ends a write that is running. -/
def release? (l : TokenLog) (n : Nat) : Option TokenLog :=
  match l.tokens[n]? with
  | some t =>
    if n ∈ l.held then some { l with order := l.order.release t, held := l.held.erase n } else none
  | none => none

/-- Sets a barrier. -/
def setBarrier (l : TokenLog) : TokenLog := { l with order := l.order.barrier.2 }

/-- Is the token with a number of an epoch? -/
def isIn (l : TokenLog) (e n : Nat) : Bool := (l.tokens[n]?).any (·.epoch = e)

/-- How many tokens of an epoch are held. -/
def heldIn (l : TokenLog) (e : Nat) : Nat := l.held.countP (l.isIn e)

/-- **What the write order knows of its tokens.** -/
structure Sound (l : TokenLog) : Prop where
  past : ∀ t ∈ l.tokens, t.epoch ≤ l.order.epoch
  taken : ∀ n ∈ l.held, n < l.tokens.length
  counts : ∀ e, l.order.active.find? e = if l.heldIn e = 0 then none else some (l.heldIn e)

theorem Sound.empty : Sound {} := ⟨nofun, nofun, fun _ => rfl⟩

variable {l l' : TokenLog}

/-! ### What each operation keeps -/

theorem isIn_of_getElem? {n e : Nat} {t : WriteToken} (h : l.tokens[n]? = some t) :
    l.isIn e n = decide (t.epoch = e) := by
  simp [isIn, h]

theorem Sound.heldIn_start (h : l.Sound) (e : Nat) :
    l.start.heldIn e = l.heldIn e + if e = l.order.epoch then 1 else 0 := by
  have hold : ∀ n ∈ l.held, l.start.isIn e n = l.isIn e n := by
    intro n hn
    simp only [isIn, start, List.getElem?_append_left (h.taken n hn)]
  have hnew : l.start.isIn e l.tokens.length = decide (l.order.epoch = e) :=
    isIn_of_getElem? (t := l.order.start.1) (by simp [start])
  unfold heldIn
  show List.countP _ (l.held ++ [l.tokens.length]) = _
  rw [List.countP_append, List.countP_congr fun n hn => by rw [hold n hn], List.countP_singleton,
    hnew]
  simp [eq_comm]

theorem length_start (l : TokenLog) : l.start.tokens.length = l.tokens.length + 1 := by
  simp [start]

/-- The tokens after a start are those before it and the new one. -/
theorem getElem?_start {n : Nat} {t : WriteToken} (h : l.start.tokens[n]? = some t) :
    l.tokens[n]? = some t ∨ n = l.tokens.length ∧ t = l.order.start.1 := by
  have h : (l.tokens ++ [l.order.start.1])[n]? = some t := h
  rw [List.getElem?_append] at h
  split at h
  · exact .inl h
  · rename_i hlength
    obtain ⟨hzero, ht⟩ := List.getElem?_eq_some_iff.1 h
    have hn : n - l.tokens.length < 1 := hzero
    exact .inr ⟨by omega, by simpa using ht.symm⟩

theorem Sound.start (h : l.Sound) : l.start.Sound where
  past := fun t ht => by
    rcases List.mem_append.1 ht with ht | ht
    · exact h.past t ht
    · rw [List.mem_singleton.1 ht]
      exact Nat.le_refl _
  taken := fun n hn => by
    have hlength := l.length_start
    rcases List.mem_append.1 hn with hn | hn
    · have := h.taken n hn
      omega
    · have := List.mem_singleton.1 hn
      omega
  counts := fun e => by
    have hfind := h.counts l.order.epoch
    rw [h.heldIn_start e]
    show Bindings.find? e (Bindings.insert _ _ _) = _
    rw [Bindings.find?_insert, h.counts e, hfind]
    by_cases he : e = l.order.epoch
    · subst he
      by_cases hzero : l.heldIn l.order.epoch = 0 <;> simp [hzero]
    · simp [he]

theorem release?_eq_some {n : Nat} (h : l.release? n = some l') :
    ∃ t, l.tokens[n]? = some t ∧ n ∈ l.held ∧
      l' = { l with order := l.order.release t, held := l.held.erase n } := by
  unfold release? at h
  cases ht : l.tokens[n]? with
  | none => simp [ht] at h
  | some t =>
    simp only [ht] at h
    split at h
    · exact ⟨t, rfl, ‹_›, (Option.some.inj h).symm⟩
    · cases h

theorem heldIn_erase {n : Nat} {t : WriteToken} (ht : l.tokens[n]? = some t) (hn : n ∈ l.held)
    (e : Nat) : (l.held.erase n).countP (l.isIn e) = l.heldIn e - if e = t.epoch then 1 else 0 := by
  unfold heldIn
  rw [(List.perm_cons_erase hn).countP_eq, List.countP_cons, isIn_of_getElem? ht]
  by_cases he : e = t.epoch <;> simp [he, eq_comm]

theorem heldIn_pos {n : Nat} {t : WriteToken} (ht : l.tokens[n]? = some t) (hn : n ∈ l.held) :
    0 < l.heldIn t.epoch :=
  List.countP_pos_iff.2 ⟨n, hn, by rw [isIn_of_getElem? ht, decide_eq_true rfl]⟩

/-- A release changes the counts only. -/
theorem epoch_release (o : WriteOrder) (t : WriteToken) : (o.release t).epoch = o.epoch := by
  unfold WriteOrder.release
  split <;> rfl

theorem Sound.release (h : l.Sound) {n : Nat} (hl : l.release? n = some l') : l'.Sound := by
  obtain ⟨t, ht, hn, rfl⟩ := release?_eq_some hl
  have hpos := heldIn_pos ht hn
  have hfind : l.order.active.find? t.epoch = some (l.heldIn t.epoch) := by
    rw [h.counts, if_neg (by omega)]
  have hactive : ∀ e, (l.order.release t).active.find? e =
      if e = t.epoch then
        if l.heldIn t.epoch ≤ 1 then none else some (l.heldIn t.epoch - 1)
      else l.order.active.find? e := by
    intro e
    unfold WriteOrder.release
    simp only [hfind]
    split
    · rw [Bindings.find?_erase]
    · rw [Bindings.find?_insert]
  refine ⟨fun u hu => ?_, fun m hm => h.taken m (List.mem_of_mem_erase hm), fun e => ?_⟩
  · show u.epoch ≤ (l.order.release t).epoch
    rw [epoch_release]
    exact h.past u hu
  · show (l.order.release t).active.find? e =
      if (l.held.erase n).countP (l.isIn e) = 0 then none
        else some ((l.held.erase n).countP (l.isIn e))
    rw [heldIn_erase ht hn, hactive, h.counts e]
    by_cases he : e = t.epoch
    · subst he
      by_cases hone : l.heldIn t.epoch ≤ 1
      · have hlast : l.heldIn t.epoch - 1 = 0 := by omega
        simp [hone, hlast]
      · have hmore : l.heldIn t.epoch - 1 ≠ 0 := by omega
        simp [hone, hmore]
    · simp [he]

theorem Sound.setBarrier (h : l.Sound) : l.setBarrier.Sound :=
  ⟨fun t ht => Nat.le_succ_of_le (h.past t ht), h.taken, h.counts⟩

/-! ### What a barrier separates -/

/-- **A barrier is after the first tokens, and after no other.** -/
structure Separates (l : TokenLog) (b : WriteBarrier) (first : Nat) : Prop where
  set : b.epoch ≤ l.order.epoch
  taken : first ≤ l.tokens.length
  isBefore_iff : ∀ n t, l.tokens[n]? = some t → (t.isBefore b = true ↔ n < first)

/-- A barrier is after the tokens that were taken before it. -/
theorem Sound.separates (h : l.Sound) :
    l.setBarrier.Separates l.order.barrier.1 l.tokens.length where
  set := Nat.le_refl _
  taken := Nat.le_refl _
  isBefore_iff := fun n t ht => by
    have hlt : n < l.tokens.length := (List.getElem?_eq_some_iff.1 ht).1
    have hbefore : t.isBefore l.order.barrier.1 = true :=
      decide_eq_true (Nat.lt_succ_of_le (h.past t (List.mem_of_getElem? ht)))
    exact ⟨fun _ => hlt, fun _ => hbefore⟩

variable {b : WriteBarrier} {first : Nat}

/-- The tokens that are taken later are not before the barrier: their epoch is a later one. -/
theorem Separates.start (h : l.Separates b first) : l.start.Separates b first where
  set := h.set
  taken := by
    have hlength := l.length_start
    have := h.taken
    omega
  isBefore_iff := fun n t ht => by
    rcases getElem?_start ht with ht | ⟨rfl, rfl⟩
    · exact h.isBefore_iff n t ht
    · have hafter : l.order.start.1.isBefore b = false := decide_eq_false (Nat.not_lt.2 h.set)
      rw [hafter]
      have := h.taken
      simp only [Bool.false_eq_true, false_iff]
      omega

theorem Separates.release (h : l.Separates b first) {n : Nat} (hl : l.release? n = some l') :
    l'.Separates b first := by
  obtain ⟨t, -, -, rfl⟩ := release?_eq_some hl
  refine ⟨?_, h.taken, h.isBefore_iff⟩
  show b.epoch ≤ (l.order.release t).epoch
  rw [epoch_release]
  exact h.set

theorem Separates.setBarrier (h : l.Separates b first) : l.setBarrier.Separates b first :=
  ⟨Nat.le_succ_of_le h.set, h.taken, h.isBefore_iff⟩

/-- **A barrier is complete if no token before it is held**, and only then. -/
theorem Sound.isComplete_iff (h : l.Sound) {b : WriteBarrier} :
    l.order.isComplete b = true ↔
      ∀ n ∈ l.held, ∀ t, l.tokens[n]? = some t → t.isBefore b = false := by
  unfold WriteOrder.isComplete WriteToken.isBefore
  simp only [Bindings.keys, List.all_map, List.all_eq_true, Function.comp, decide_eq_true_eq,
    decide_eq_false_iff_not, Nat.not_lt]
  constructor
  · intro hall n hn t ht
    have hfind : l.order.active.find? t.epoch = some (l.heldIn t.epoch) := by
      rw [h.counts, if_neg (Nat.ne_of_gt (heldIn_pos ht hn))]
    exact hall _ (Bindings.mem_of_find? hfind)
  · rintro hheld ⟨e, count⟩ hmem
    have hsome : l.order.active.find? e ≠ none := fun hnone =>
      Bindings.find?_eq_none_iff.1 hnone count hmem
    have hpos : 0 < l.heldIn e := by
      rw [h.counts] at hsome
      split at hsome
      · exact absurd rfl hsome
      · omega
    obtain ⟨n, hn, hin⟩ := List.countP_pos_iff.1 hpos
    obtain ⟨t, ht, hepoch⟩ := (Option.any_eq_true _ _).1 hin
    have hle := hheld n hn t ht
    have hte : t.epoch = e := of_decide_eq_true hepoch
    exact hte ▸ hle

/-- A barrier is complete as soon as none of the first tokens is held, whatever later ones are. -/
theorem Separates.isComplete_iff (hb : l.Separates b first) (h : l.Sound) :
    l.order.isComplete b = true ↔ ∀ n ∈ l.held, first ≤ n := by
  rw [h.isComplete_iff]
  constructor
  · intro hafter n hn
    obtain ⟨t, ht⟩ : ∃ t, l.tokens[n]? = some t := ⟨_, List.getElem?_eq_getElem (h.taken n hn)⟩
    have hiff := hb.isBefore_iff n t ht
    rw [hafter n hn t ht] at hiff
    simpa using hiff
  · intro hfirst n hn t ht
    rw [Bool.eq_false_iff, Ne, hb.isBefore_iff n t ht]
    exact Nat.not_lt.2 (hfirst n hn)

end TokenLog

end WideColumn
