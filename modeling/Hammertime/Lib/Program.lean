import Mathlib.Order.Basic
import Mathlib.Tactic

/-!
# Programs with a state and exceptions

A program reads and writes a state, and either returns a value or raises an error; the state it has
written so far stays in both cases, as the objects of an imperative program do. The programs are
Lean's `EStateM`. This module has the rules that proofs about them use: what a sequence of two
programs returns or raises, a rule for relations that every step stays within (`Within`), and
pre- and postconditions with a loop rule (`Triple`).
-/

namespace Hammertime.Lib

/-- A sequence of two fallible steps returns where both do. -/
theorem except_bind_ok {ε α β : Type} {x : Except ε α} {f : α → Except ε β} {b : β} :
    (x >>= f) = .ok b ↔ ∃ a, x = .ok a ∧ f a = .ok b := by
  cases x <;> simp [Bind.bind, Except.bind]

/-- It raises where its first step does, or its second. -/
theorem except_bind_error {ε α β : Type} {x : Except ε α} {f : α → Except ε β} {e : ε} :
    (x >>= f) = .error e ↔ x = .error e ∨ ∃ a, x = .ok a ∧ f a = .error e := by
  cases x <;> simp [Bind.bind, Except.bind]

/-- A loop of checks passes where each of them does. -/
theorem except_forM_ok {ε α : Type} {f : α → Except ε Unit} {l : List α} :
    l.forM f = .ok ⟨⟩ ↔ ∀ a ∈ l, f a = .ok ⟨⟩ := by
  induction l with
  | nil => exact iff_of_true rfl fun a ha => absurd ha List.not_mem_nil
  | cons a l ih =>
    show (f a >>= fun _ => l.forM f) = .ok ⟨⟩ ↔ _
    rw [except_bind_ok, List.forall_mem_cons, ← ih]
    constructor
    · rintro ⟨⟨⟩, ha, hl⟩
      exact ⟨ha, hl⟩
    · rintro ⟨ha, hl⟩
      exact ⟨⟨⟩, ha, hl⟩

/-! ### Fallible computations without a state -/

/-- The computation returns with `Q` or raises with `E`. -/
def Meets {ε α : Type} (r : Except ε α) (Q : α → Prop) (E : ε → Prop) : Prop :=
  match r with
  | .ok a => Q a
  | .error e => E e

namespace Meets

variable {ε α β : Type} {r : Except ε α} {Q Q' : α → Prop} {S : β → Prop} {E : ε → Prop}

theorem of_ok (h : Meets r Q E) {a : α} (hr : r = .ok a) : Q a := by
  rw [hr] at h
  exact h

theorem of_error (h : Meets r Q E) {e : ε} (hr : r = .error e) : E e := by
  rw [hr] at h
  exact h

theorem mono (h : Meets r Q E) (hQ : ∀ a, Q a → Q' a) : Meets r Q' E := by
  cases r with
  | ok a => exact hQ a h
  | error e => exact h

theorem bind (h : Meets r Q E) {f : α → Except ε β} (hf : ∀ a, Q a → Meets (f a) S E) :
    Meets (r >>= f) S E := by
  cases r with
  | ok a => exact hf a h
  | error e => exact h

/-- A check that raises where its condition holds, before the rest of the computation. -/
theorem check {c : Prop} [Decidable c] {e : ε} {k : Except ε α} (he : c → E e)
    (hk : ¬ c → Meets k Q E) : Meets (if c then .error e else k) Q E := by
  split_ifs with hc
  · exact he hc
  · exact hk hc

end Meets

/-- Nothing runs after an error. -/
theorem throw_bind {ε α β : Type} (e : ε) (f : α → Except ε β) :
    ((throw e : Except ε α) >>= f) = .error e := rfl

/-- A program over the state `σ` that returns an `α` or raises an `ε`. -/
abbrev Program (ε σ α : Type) := EStateM ε σ α

namespace Program

variable {ε σ τ α β : Type}

/-- The state a result leaves, whether the program returned or raised. -/
def after : EStateM.Result ε σ α → σ
  | .ok _ s => s
  | .error _ s => s

@[simp] theorem after_ok (a : α) (s : σ) : after (.ok a s : EStateM.Result ε σ α) = s := rfl

@[simp] theorem after_error (e : ε) (s : σ) : after (.error e s : EStateM.Result ε σ α) = s := rfl

theorem pure_apply (a : α) (s : σ) : (pure a : Program ε σ α) s = .ok a s := rfl

theorem throw_apply (e : ε) (s : σ) : (throw e : Program ε σ α) s = .error e s := rfl

theorem bind_apply (x : Program ε σ α) (f : α → Program ε σ β) (s : σ) :
    (x >>= f) s = match x s with
      | .ok a t => f a t
      | .error e t => .error e t := rfl

theorem map_apply (g : α → β) (x : Program ε σ α) (s : σ) :
    (g <$> x) s = match x s with
      | .ok a t => .ok (g a) t
      | .error e t => .error e t := rfl

/-- A sequence of two programs returns what the second does from where the first returned. -/
theorem bind_ok {x : Program ε σ α} {f : α → Program ε σ β} {s u : σ} {b : β} :
    (x >>= f) s = .ok b u ↔ ∃ a t, x s = .ok a t ∧ f a t = .ok b u := by
  rw [bind_apply]
  cases hx : x s with
  | ok a t =>
    constructor
    · intro h
      exact ⟨a, t, rfl, h⟩
    · rintro ⟨a', t', h, h'⟩
      cases h
      exact h'
  | error e t => simp

/-- A sequence of two programs raises where the first does, or where the second does. -/
theorem bind_error {x : Program ε σ α} {f : α → Program ε σ β} {s u : σ} {e : ε} :
    (x >>= f) s = .error e u ↔
      x s = .error e u ∨ ∃ a t, x s = .ok a t ∧ f a t = .error e u := by
  rw [bind_apply]
  cases hx : x s with
  | ok a t =>
    constructor
    · intro h
      exact Or.inr ⟨a, t, rfl, h⟩
    · rintro (h | ⟨a', t', h, h'⟩)
      · cases h
      · cases h
        exact h'
  | error e' t => simp

/-- Applying a function to an answer keeps whether there is one. -/
theorem except_map_ok {g : α → β} {x : Except ε α} {b : β} :
    g <$> x = .ok b ↔ ∃ a, x = .ok a ∧ g a = b := by
  cases x with
  | ok a => simp [Functor.map, Except.map]
  | error e => simp [Functor.map, Except.map]

theorem except_map_error {g : α → β} {x : Except ε α} {e : ε} :
    g <$> x = .error e ↔ x = .error e := by
  cases x with
  | ok a => simp [Functor.map, Except.map]
  | error e => simp [Functor.map, Except.map]

/-- A fallible computation that has no state, as a program. -/
def ofExcept (x : Except ε α) : Program ε σ α := fun s =>
  match x with
  | .ok a => .ok a s
  | .error e => .error e s

theorem ofExcept_ok {x : Except ε α} {s t : σ} {a : α} :
    ofExcept x s = .ok a t ↔ x = .ok a ∧ t = s := by
  unfold ofExcept
  cases x <;> simp [eq_comm]

theorem ofExcept_error {x : Except ε α} {s t : σ} {e : ε} :
    ofExcept x s = .error e t ↔ x = .error e ∧ t = s := by
  unfold ofExcept
  cases x <;> simp [eq_comm]

/-! ### Relations that a program stays within -/

/-- Every run of the program, returning or raising, relates the state before it to the state it
leaves. -/
def Within (R : σ → σ → Prop) (m : Program ε σ α) : Prop := ∀ s, R s (after (m s))

namespace Within

variable {R : σ → σ → Prop} {m : Program ε σ α}

theorem of_ok (h : Within R m) {s t : σ} {a : α} (hm : m s = .ok a t) : R s t := by
  have := h s
  rwa [hm] at this

theorem of_error (h : Within R m) {s t : σ} {e : ε} (hm : m s = .error e t) : R s t := by
  have := h s
  rwa [hm] at this

theorem pure [Std.Refl R] (a : α) : Within R (Pure.pure a : Program ε σ α) := fun s => refl s

theorem throw [Std.Refl R] (e : ε) : Within R (MonadExcept.throw e : Program ε σ α) :=
  fun s => refl s

theorem get [Std.Refl R] : Within R (MonadState.get : Program ε σ σ) := fun s => refl s

theorem bind [IsTrans σ R] {f : α → Program ε σ β} (hm : Within R m)
    (hf : ∀ a, Within R (f a)) : Within R (m >>= f) := by
  intro s
  have hs := hm s
  rw [bind_apply]
  cases h : m s with
  | ok a t =>
    rw [h] at hs
    exact IsTrans.trans _ _ _ hs (hf a t)
  | error e t =>
    rw [h] at hs
    exact hs

theorem forM [Std.Refl R] [IsTrans σ R] {f : α → Program ε σ PUnit} (l : List α)
    (hf : ∀ a ∈ l, Within R (f a)) : Within R (l.forM f) := by
  induction l with
  | nil => exact fun s => refl s
  | cons a l ih =>
    exact bind (hf a List.mem_cons_self) fun _ =>
      ih fun b hb => hf b (List.mem_cons_of_mem a hb)

theorem foldlM [Std.Refl R] [IsTrans σ R] {f : β → α → Program ε σ β} (l : List α) (b : β)
    (hf : ∀ b, ∀ a ∈ l, Within R (f b a)) : Within R (l.foldlM f b) := by
  induction l generalizing b with
  | nil => exact fun s => refl s
  | cons a l ih =>
    exact bind (hf b a List.mem_cons_self) fun b' =>
      ih b' fun b c hc => hf b c (List.mem_cons_of_mem a hc)

theorem mono {R' : σ → σ → Prop} (hm : Within R m) (h : ∀ s t, R s t → R' s t) : Within R' m :=
  fun s => h _ _ (hm s)

end Within

/-! ### Preconditions and postconditions -/

/-- From every state with `P` the program returns with `Q` or raises with `E`. -/
def Triple (P : σ → Prop) (m : Program ε σ α) (Q : α → σ → Prop) (E : σ → Prop) : Prop :=
  ∀ s, P s → match m s with
    | .ok a t => Q a t
    | .error _ t => E t

namespace Triple

variable {P P' : σ → Prop} {m : Program ε σ α} {Q Q' : α → σ → Prop} {E E' : σ → Prop}

theorem of_ok (h : Triple P m Q E) {s t : σ} {a : α} (hs : P s) (hm : m s = .ok a t) : Q a t := by
  have := h s hs
  rwa [hm] at this

theorem of_error (h : Triple P m Q E) {s t : σ} {e : ε} (hs : P s) (hm : m s = .error e t) :
    E t := by
  have := h s hs
  rwa [hm] at this

/-- It is enough to look at the two kinds of result apart. -/
theorem intro (hok : ∀ s a t, P s → m s = .ok a t → Q a t)
    (herr : ∀ s e t, P s → m s = .error e t → E t) : Triple P m Q E := by
  intro s hs
  cases h : m s with
  | ok a t => exact hok s a t hs h
  | error e t => exact herr s e t hs h

theorem pure {a : α} (h : ∀ s, P s → Q a s) : Triple P (Pure.pure a : Program ε σ α) Q E := h

theorem throw {e : ε} (h : ∀ s, P s → E s) :
    Triple P (MonadExcept.throw e : Program ε σ α) Q E := h

theorem bind {f : α → Program ε σ β} {S : β → σ → Prop} (hm : Triple P m Q E)
    (hf : ∀ a, Triple (Q a) (f a) S E) : Triple P (m >>= f) S E := by
  intro s hs
  have h := hm s hs
  rw [bind_apply]
  cases hx : m s with
  | ok a t =>
    rw [hx] at h
    exact hf a t h
  | error e t =>
    rw [hx] at h
    exact h

theorem conseq (hm : Triple P m Q E) (hP : ∀ s, P' s → P s) (hQ : ∀ a s, Q a s → Q' a s)
    (hE : ∀ s, E s → E' s) : Triple P' m Q' E' := by
  intro s hs
  have h := hm s (hP s hs)
  cases hx : m s with
  | ok a t =>
    rw [hx] at h
    exact hQ a t h
  | error e t =>
    rw [hx] at h
    exact hE t h

/-- It is enough to look at one state at a time. -/
theorem of_state (h : ∀ s₀, P s₀ → Triple (fun s => s = s₀) m Q E) : Triple P m Q E :=
  fun s hs => h s hs s rfl

/-- A program that starts by reading the state. -/
theorem get_bind {f : σ → Program ε σ α} (h : ∀ s₀, P s₀ → Triple (fun s => s = s₀) (f s₀) Q E) :
    Triple P (MonadState.get >>= f) Q E :=
  fun s hs => h s hs s rfl

/-- A program that stays within a relation which keeps a predicate. -/
theorem of_within {R : σ → σ → Prop} {S : σ → Prop} (hm : Within R m)
    (h : ∀ s t, P s → R s t → S t) : Triple P m (fun _ => S) S :=
  intro (fun s _ t hs hr => h s t hs (hm.of_ok hr)) fun s _ t hs hr => h s t hs (hm.of_error hr)

/-- A loop over a list: `I rest` holds while `rest` is still to do. -/
theorem forM {f : α → Program ε σ PUnit} {I : List α → σ → Prop} (l : List α)
    (hf : ∀ a rest, Triple (I (a :: rest)) (f a) (fun _ => I rest) E) :
    Triple (I l) (l.forM f) (fun _ => I []) E := by
  induction l with
  | nil => exact fun s hs => hs
  | cons a l ih => exact bind (hf a l) fun _ => ih

/-- A loop over a list that carries a value along. -/
theorem foldlM {f : β → α → Program ε σ β} {I : List α → σ → Prop} (l : List α) (b : β)
    (hf : ∀ b a rest, Triple (I (a :: rest)) (f b a) (fun _ => I rest) E) :
    Triple (I l) (l.foldlM f b) (fun _ => I []) E := by
  induction l generalizing b with
  | nil => exact fun s hs => hs
  | cons a l ih => exact bind (hf b a l) fun b' => ih b'

end Triple

/-! ### Programs on a part of the state -/

/-- Run a program on the part `get` reads and `set` writes. -/
def zoom (get : τ → σ) (set : τ → σ → τ) (m : Program ε σ α) : Program ε τ α := fun t =>
  match m (get t) with
  | .ok a s => .ok a (set t s)
  | .error e s => .error e (set t s)

variable {get : τ → σ} {set : τ → σ → τ} {m : Program ε σ α}

theorem zoom_ok {t u : τ} {a : α} :
    zoom get set m t = .ok a u ↔ ∃ s, m (get t) = .ok a s ∧ u = set t s := by
  unfold zoom
  cases h : m (get t) <;> simp [eq_comm]

theorem zoom_error {t u : τ} {e : ε} :
    zoom get set m t = .error e u ↔ ∃ s, m (get t) = .error e s ∧ u = set t s := by
  unfold zoom
  cases h : m (get t) <;> simp [eq_comm]

theorem after_zoom (t : τ) : after (zoom get set m t) = set t (after (m (get t))) := by
  unfold zoom
  cases h : m (get t) <;> rfl

theorem Within.zoom {R : σ → σ → Prop} {R' : τ → τ → Prop} (hm : Within R m)
    (h : ∀ t s, R (get t) s → R' t (set t s)) : Within R' (zoom get set m) := by
  intro t
  rw [after_zoom]
  exact h t _ (hm (get t))

end Program

end Hammertime.Lib
