-- SUMMARY: Opening steps that may fail and that carry a state.

/-!
# Steps

The reader of schemas and the conversion of logical types are sequences of steps: each
may fail, and each hands a state on. These laws say what a successful sequence went
through, and how one runs when its first step is known.
-/
namespace Restorable.Steps

variable {σ ε α β : Type}

/-- A step that may fail and that changes a state. -/
abbrev Step (σ ε α : Type) := StateT σ (Except ε) α

/-! ## What a success went through -/

@[simp] theorem exceptBind_eq_ok {x : Except ε α} {f : α → Except ε β} {b : β} :
    (x >>= f) = .ok b ↔ ∃ a, x = .ok a ∧ f a = .ok b := by
  cases x with
  | error e => simp [bind, Except.bind]
  | ok a => simp [bind, Except.bind]

@[simp] theorem bind_eq_ok {x : Step σ ε α} {f : α → Step σ ε β} {s : σ} {r : β × σ} :
    (x >>= f) s = .ok r ↔ ∃ a s', x s = .ok (a, s') ∧ f a s' = .ok r := by
  change StateT.bind x f s = .ok r ↔ _
  unfold StateT.bind
  cases x s with
  | error e => simp [bind, Except.bind]
  | ok p => exact ⟨fun h => ⟨p.1, p.2, rfl, h⟩, fun ⟨_, _, hp, h⟩ => by cases hp; exact h⟩

theorem pure_eq_ok {a b : α} {s s' : σ} :
    (pure a : Step σ ε α) s = .ok (b, s') ↔ a = b ∧ s = s' := by
  change Except.ok (a, s) = .ok (b, s') ↔ _
  rw [Except.ok.injEq, Prod.mk.injEq]

@[simp] theorem lift_eq_ok {x : Except ε α} {a : α} {s s' : σ} :
    (liftM x : Step σ ε α) s = .ok (a, s') ↔ x = .ok a ∧ s = s' := by
  cases x <;>
    simp [liftM, monadLift, MonadLift.monadLift, StateT.lift, bind, Except.bind, pure, Except.pure]

@[simp] theorem throw_eq_ok {e : ε} {s : σ} {r : α × σ} :
    (throw e : Step σ ε α) s = .ok r ↔ False := by
  simp [throw, throwThe, MonadExceptOf.throw, StateT.lift, bind, Except.bind]

theorem bind_pure_eq_ok {x : Step σ ε α} {g : α → β} {s s' : σ} {b : β} :
    (x >>= fun a => pure (g a)) s = .ok (b, s') ↔ ∃ a, x s = .ok (a, s') ∧ g a = b := by
  rw [bind_eq_ok]
  constructor
  · rintro ⟨a, s₁, hx, h⟩
    obtain ⟨rfl, rfl⟩ := pure_eq_ok.1 h
    exact ⟨a, hx, rfl⟩
  · rintro ⟨a, hx, rfl⟩
    exact ⟨a, s', hx, rfl⟩

/-! ## Running a sequence -/

theorem bind_of_ok {x : Step σ ε α} {f : α → Step σ ε β} {s s' : σ} {a : α}
    (h : x s = .ok (a, s')) : (x >>= f) s = f a s' := by
  change StateT.bind x f s = f a s'
  unfold StateT.bind
  rw [h]
  rfl

theorem lift_of_ok {x : Except ε α} {s : σ} {a : α} (h : x = .ok a) :
    (liftM x : Step σ ε α) s = .ok (a, s) :=
  lift_eq_ok.2 ⟨h, rfl⟩

@[simp] theorem pure_run {s : σ} {a : α} : (pure a : Step σ ε α) s = .ok (a, s) := rfl

/-! ## How a run ends -/

/-- The first of several failures is that of the head, or else the first of the tail. -/
theorem findSome?_cons_eq_or {f : α → Option ε} (a : α) (as : List α) :
    (a :: as).findSome? f = (f a).or (as.findSome? f) := by
  rw [List.findSome?_cons]
  cases f a <;> rfl

/-- A run fails with the failure if there is one, and succeeds if there is none. -/
inductive Ends : Except ε α → Option ε → Prop
  | ok (a : α) : Ends (.ok a) none
  | error (e : ε) : Ends (.error e) (some e)

namespace Ends

variable {x : Except ε α} {o o' : Option ε}

theorem exists_ok_iff (h : Ends x o) : (∃ a, x = .ok a) ↔ o = none := by
  cases h with
  | ok a => exact iff_of_true ⟨a, rfl⟩ rfl
  | error e => exact iff_of_false (fun h => nomatch h) (fun h => nomatch h)

theorem eq_error_iff (h : Ends x o) {e : ε} : x = .error e ↔ o = some e := by
  cases h with
  | ok a => exact iff_of_false (fun h => nomatch h) (fun h => nomatch h)
  | error e' => rw [Except.error.injEq, Option.some.injEq]

theorem map {f : α → β} (h : Ends x o) : Ends (f <$> x) o := by
  cases h with
  | ok a => exact .ok (f a)
  | error e => exact .error e

/-- Of two runs in sequence the first failure counts. -/
theorem exceptBind {f : α → Except ε β} (h : Ends x o) (hf : ∀ a, x = .ok a → Ends (f a) o') :
    Ends (x >>= f) (o.or o') := by
  cases h with
  | ok a => exact hf a rfl
  | error e => exact .error e

/-- A run that goes on without a failure ends as it did before. -/
theorem exceptBind_ok {f : α → Except ε β} (h : Ends x o)
    (hf : ∀ a, x = .ok a → ∃ b, f a = .ok b) : Ends (x >>= f) o := by
  cases h with
  | ok a =>
    obtain ⟨b, hb⟩ := hf a rfl
    have hend : Ends (f a) none := by
      rw [hb]
      exact .ok b
    exact hend
  | error e => exact .error e

theorem bind {x : Step σ ε α} {f : α → Step σ ε β} {s : σ} (h : Ends (x s) o)
    (hf : ∀ a s', x s = .ok (a, s') → Ends (f a s') o') : Ends ((x >>= f) s) (o.or o') :=
  h.exceptBind fun r hr => hf r.1 r.2 hr

theorem bind_pure {x : Step σ ε α} {g : α → β} {s : σ} (h : Ends (x s) o) :
    Ends ((x >>= fun a => pure (g a)) s) o :=
  h.exceptBind_ok fun r _ => ⟨(g r.1, r.2), rfl⟩

theorem lift {s : σ} (h : Ends x o) : Ends ((liftM x : Step σ ε α) s) o := by
  cases h with
  | ok a => exact .ok (a, s)
  | error e => exact .error e

end Ends
end Restorable.Steps
