/-!
Observable values. A version counts the effective changes, those to a value that differs from the
stored one, and subscribers stand in the order of registration.
-/

namespace FormDependencies

/-- A value of type `α` whose subscribers, each under its own number, are described by `β`. -/
structure Observable (α β : Type) where
  value : α
  version : Nat := 0
  subscribers : List (Nat × β) := []

namespace Observable
variable {α β : Type}

/-- Stores a value. The answer says whether it differs from the one before. -/
def set [BEq α] (o : Observable α β) (value : α) : Observable α β × Bool :=
  if o.value == value then (o, false)
  else ({ o with value, version := o.version + 1 }, true)

def subscribe (o : Observable α β) (number : Nat) (subscriber : β) : Observable α β :=
  { o with subscribers := o.subscribers ++ [(number, subscriber)] }

def unsubscribe (o : Observable α β) (number : Nat) : Observable α β :=
  { o with subscribers := o.subscribers.filter fun entry => entry.1 != number }

@[simp] theorem subscribers_set [BEq α] (o : Observable α β) (value : α) :
    (o.set value).1.subscribers = o.subscribers := by
  unfold set
  split <;> rfl

theorem version_set [BEq α] (o : Observable α β) (value : α) :
    (o.set value).1.version = o.version + if (o.set value).2 then 1 else 0 := by
  unfold set
  split <;> rfl

theorem set_snd [BEq α] (o : Observable α β) (value : α) :
    (o.set value).2 = !(o.value == value) := by
  unfold set
  split <;> simp [*]

end Observable

end FormDependencies
