/-!
# Outcomes

Parsers and evaluations alike start in a state, come to a result or to an early end, and
leave a state behind in either case. Here is what such computations do piece by piece.
-/

namespace ExceptT

variable {ε σ α β : Type}

/-- What the computation comes to, and the state that it leaves. -/
def outcome (x : ExceptT ε (StateM σ) α) (s : σ) : Except ε α × σ := x s

@[simp] theorem outcome_pure (a : α) (s : σ) :
    (pure a : ExceptT ε (StateM σ) α).outcome s = (.ok a, s) := rfl

theorem outcome_bind (x : ExceptT ε (StateM σ) α) (f : α → ExceptT ε (StateM σ) β) (s : σ) :
    (x >>= f).outcome s =
      match x.outcome s with
      | (.ok a, m) => (f a).outcome m
      | (.error e, m) => (.error e, m) := by
  change (match x.outcome s with
    | (r, m) => ExceptT.bindCont f r m) = _
  rcases x.outcome s with ⟨r, m⟩
  cases r <;> rfl

/-- A state is looked at without being changed. -/
theorem outcome_get_bind (f : σ → ExceptT ε (StateM σ) β) (s : σ) :
    (get >>= f).outcome s = (f s).outcome s := rfl

theorem outcome_tryCatch (x : ExceptT ε (StateM σ) α) (f : ε → ExceptT ε (StateM σ) α) (s : σ) :
    (tryCatch x f).outcome s =
      match x.outcome s with
      | (.ok a, m) => (.ok a, m)
      | (.error e, m) => (f e).outcome m := by
  rcases h : x.outcome s with ⟨r, m⟩
  have hx : x s = (r, m) := h
  simp only [outcome, tryCatch, tryCatchThe, MonadExceptOf.tryCatch, ExceptT.tryCatch, ExceptT.mk,
    bind, StateT.bind, hx]
  cases r <;> rfl

end ExceptT
