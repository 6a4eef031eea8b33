import LayerGraph.Event

/-! # Computations that report what they do

A `Traced` computation has a result or an error, and a list of events in either case: what was
reported before a failure stays reported.  The lemmas `result_bind` and its kin let a proof about
results forget the events; `events_bind_of_ok` collects the events of a success. -/

namespace LayerGraph

/-- The outcome of a computation and the events that it reported. -/
structure Traced (α : Type) where
  events : List Event
  result : Except CompileError α

namespace Traced

variable {α β : Type}

instance : Monad Traced where
  pure a := ⟨[], .ok a⟩
  bind x f := match x.result with
    | .error e => ⟨x.events, .error e⟩
    | .ok a => ⟨x.events ++ (f a).events, (f a).result⟩

instance : MonadExceptOf CompileError Traced where
  throw e := ⟨[], .error e⟩
  tryCatch x handle := match x.result with
    | .ok a => ⟨x.events, .ok a⟩
    | .error e => ⟨x.events ++ (handle e).events, (handle e).result⟩

/-- Reports events. -/
def report (events : List Event) : Traced Unit := ⟨events, .ok ()⟩

/-- A computation that reports nothing. -/
def lift (x : Except CompileError α) : Traced α := ⟨[], x⟩

instance : MonadLift (Except CompileError) Traced := ⟨lift⟩

@[simp] theorem result_pure (a : α) : (pure a : Traced α).result = .ok a := rfl

@[simp] theorem events_pure (a : α) : (pure a : Traced α).events = [] := rfl

@[simp] theorem result_report (events : List Event) : (report events).result = .ok () := rfl

@[simp] theorem events_report (events : List Event) : (report events).events = events := rfl

@[simp] theorem result_liftM (x : Except CompileError α) : (liftM x : Traced α).result = x := rfl

@[simp] theorem events_liftM (x : Except CompileError α) : (liftM x : Traced α).events = [] := rfl

@[simp] theorem result_throw (e : CompileError) : (throw e : Traced α).result = .error e := rfl

/-- The result does not depend on what is reported. -/
@[simp] theorem result_bind (x : Traced α) (f : α → Traced β) :
    (x >>= f).result = x.result >>= fun a => (f a).result := by
  simp only [bind, Except.bind]
  cases x.result <;> rfl

/-- After a computation that succeeded, the events of the next one follow. -/
theorem events_bind_of_ok {x : Traced α} {a : α} (h : x.result = .ok a) (f : α → Traced β) :
    (x >>= f).events = x.events ++ (f a).events := by
  simp only [bind, h]

end Traced

end LayerGraph
