import OdeSystem.Event

/-!
Computations that report events. Such a computation has the events it reported, in order, and a result; what was
reported before a failure remains. The result of a sequence depends on the results of its parts only, never on
the events.
-/

namespace OdeSystem

/-- A result together with the events reported on the way to it. -/
structure Logged (ε α : Type) where
  events : List Event
  result : Except ε α

namespace Logged

variable {ε ε' α β : Type}

/-- A result without events. -/
def ofResult (result : Except ε α) : Logged ε α := ⟨[], result⟩

/-- Reports an event. -/
def report (e : Event) : Logged ε Unit := ⟨[e], .ok ()⟩

/-- Fails. -/
def fail (e : ε) : Logged ε α := ⟨[], .error e⟩

/-- Goes on from a result, if there is one. -/
def andThen (x : Logged ε α) (f : α → Logged ε β) : Logged ε β :=
  match x.result with
  | .error e => ⟨x.events, .error e⟩
  | .ok a => ⟨x.events ++ (f a).events, (f a).result⟩

instance : Monad (Logged ε) where
  pure a := ofResult (.ok a)
  bind := andThen

/-- The same computation with its error seen as a cause. -/
def mapError (f : ε → ε') (x : Logged ε α) : Logged ε' α := ⟨x.events, x.result.mapError f⟩

@[simp] theorem result_pure (a : α) : (pure a : Logged ε α).result = .ok a := rfl

@[simp] theorem events_pure (a : α) : (pure a : Logged ε α).events = [] := rfl

@[simp] theorem result_ofResult (r : Except ε α) : (ofResult r).result = r := rfl

@[simp] theorem events_ofResult (r : Except ε α) : (ofResult r).events = [] := rfl

@[simp] theorem result_report (e : Event) : (report e : Logged ε Unit).result = .ok () := rfl

@[simp] theorem events_report (e : Event) : (report e : Logged ε Unit).events = [e] := rfl

@[simp] theorem result_fail (e : ε) : (fail e : Logged ε α).result = .error e := rfl

@[simp] theorem events_fail (e : ε) : (fail e : Logged ε α).events = [] := rfl

@[simp] theorem result_mapError (f : ε → ε') (x : Logged ε α) :
    (x.mapError f).result = x.result.mapError f := rfl

@[simp] theorem events_mapError (f : ε → ε') (x : Logged ε α) : (x.mapError f).events = x.events := rfl

/-- The result of a sequence follows from the results of its parts. -/
@[simp] theorem result_bind (x : Logged ε α) (f : α → Logged ε β) :
    (x >>= f).result = x.result.bind fun a => (f a).result := by
  obtain ⟨events, result⟩ := x
  cases result <;> rfl

theorem events_bind_of_ok {x : Logged ε α} {a : α} (h : x.result = .ok a) (f : α → Logged ε β) :
    (x >>= f).events = x.events ++ (f a).events := by
  obtain ⟨events, result⟩ := x
  cases h
  rfl

theorem events_bind_of_error {x : Logged ε α} {e : ε} (h : x.result = .error e) (f : α → Logged ε β) :
    (x >>= f).events = x.events := by
  obtain ⟨events, result⟩ := x
  cases h
  rfl

end Logged

end OdeSystem
